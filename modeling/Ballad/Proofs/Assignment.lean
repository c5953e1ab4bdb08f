import Ballad.Proofs.Frames

/-!
# Assigning to a variable

Frames form a tree. A variable is looked for from the current frame outwards, and an assignment goes
to the first frame on this way that has the variable, or makes one where it starts. Seen from any
other frame of the tree, the assignment shows exactly if the way outwards from there ends in the same
place.

- `Store.Nested`: the stores that come about by adding frames inside of others, assigning to
  variables, and forgetting them.
- `Store.parent?`: the frame right around a frame. `Store.Chained`: the invariant of these stores. What
  a frame keeps as the frames around it is the way from parent to parent, down to the global frame.
- `Store.Innermost`: the first frame outwards that has a variable, said by single steps.
  `Store.owner?_eq_some_iff`: this is where variables are looked for.
- `Store.set_assigns_innermost`: what an assignment does, to every frame and as seen from every frame.
-/

namespace Ballad.Store

/-! ### Trees of frames -/

/-- The stores that come about, from a global frame without variables, when frames are added inside
of others, variables are assigned to, defined and forgotten, and pronouns get to stand for a name or
for nothing. -/
inductive Nested : Store → Prop where
  | global : Nested .empty
  | child {s : Store} (h : Nested s) {parent : FrameRef} (hparent : s.Has parent) (kind : FrameKind) :
    Nested (s.addFrame parent kind []).2
  | set {s : Store} (h : Nested s) (f : FrameRef) (name : String) (v : Value) :
    Nested (s.set f name v)
  | define {s : Store} (h : Nested s) (f : FrameRef) (name : String) (v : Value) :
    Nested (s.define f name v)
  | setReferent {s : Store} (h : Nested s) (name : Option String) : Nested (s.setReferent name)
  | clear {s : Store} (h : Nested s) (f : FrameRef) : Nested (s.clear f)

/-- The frame right around a frame. -/
def parent? (s : Store) (f : FrameRef) : Option FrameRef :=
  (s.frame f).outer.head?

/-- The frames around a frame are its parent, and then those around the parent, which is older. -/
def Chained (s : Store) : Prop :=
  ∀ f, s.Has f → (s.frame f).outer = [] ∨
    ∃ p, p.index < f.index ∧ s.Has p ∧ (s.frame f).outer = s.chain p

theorem chained_empty : empty.Chained := by
  intro f hf
  refine .inl ?_
  obtain ⟨i⟩ := f
  have hi : i < 1 := hf
  obtain rfl : i = 0 := by omega
  rfl

theorem Chained.modifyBindings {s : Store} (h : s.Chained) (f : FrameRef)
    (change : Bindings → Bindings) : (s.modifyBindings f change).Chained := by
  intro g hg
  have houter : ((s.modifyBindings f change).frame g).outer = (s.frame g).outer :=
    (List.cons.inj (chain_modifyBindings s f g change)).2
  rw [houter]
  refine (h g (has_modifyBindings.mp hg)).imp_right ?_
  rintro ⟨p, hlt, hp, hchain⟩
  exact ⟨p, hlt, has_modifyBindings.mpr hp, hchain.trans (chain_modifyBindings s f p change).symm⟩

theorem Chained.addFrame {s : Store} (h : s.Chained) {parent : FrameRef} (hparent : s.Has parent)
    (kind : FrameKind) (bindings : Bindings) : (s.addFrame parent kind bindings).2.Chained := by
  have hchain : ∀ p, s.Has p → (s.addFrame parent kind bindings).2.chain p = s.chain p := by
    intro p hp
    rw [chain, chain, frame_addFrame hp]
  intro f hf
  by_cases hold : s.Has f
  · rw [frame_addFrame hold]
    refine (h f hold).imp_right ?_
    rintro ⟨p, hlt, hp, houter⟩
    exact ⟨p, hlt, has_addFrame hp, houter.trans (hchain p hp).symm⟩
  · obtain rfl := eq_new_of_has hold hf
    rw [frame_addFrame_new]
    exact .inr ⟨parent, hparent, has_addFrame hparent, (hchain parent hparent).symm⟩

theorem Nested.chained {s : Store} (h : s.Nested) : s.Chained := by
  induction h with
  | global => exact chained_empty
  | child _ hparent kind ih => exact ih.addFrame hparent kind []
  | set _ f name v ih => exact ih.modifyBindings _ _
  | define _ f name v ih => exact ih.modifyBindings _ _
  | setReferent _ name ih => exact ih
  | clear _ f ih =>
    have hcleared := ih.modifyBindings f fun _ => []
    rw [Store.clear]
    split
    · exact hcleared
    · exact hcleared

/-- The way outwards, one step at a time. -/
theorem Chained.chain_eq {s : Store} (h : s.Chained) (f : FrameRef) :
    s.chain f = f :: (s.parent? f).elim [] s.chain := by
  unfold parent?
  by_cases hf : s.Has f
  · rcases h f hf with houter | ⟨p, -, -, houter⟩
    · rw [chain, houter]
      rfl
    · rw [chain, houter]
      rfl
  · rw [chain, frame_of_not_has hf]
    rfl

theorem Chained.parent_lt {s : Store} (h : s.Chained) {f p : FrameRef} (hp : s.parent? f = some p) :
    p.index < f.index := by
  unfold parent? at hp
  by_cases hf : s.Has f
  · rcases h f hf with houter | ⟨q, hlt, -, houter⟩
    · rw [houter] at hp
      cases hp
    · rw [houter] at hp
      cases hp
      exact hlt
  · rw [frame_of_not_has hf] at hp
    cases hp

/-! ### The innermost frame that has a variable -/

/-- On the way from a frame outwards, `o` is the first frame that has a variable. -/
inductive Innermost (s : Store) (name : String) (o : FrameRef) : FrameRef → Prop where
  | here (h : s.owns name o) : Innermost s name o o
  | outwards {f p : FrameRef} (hf : s.owns name f = false) (hp : s.parent? f = some p)
      (h : Innermost s name o p) : Innermost s name o f

/-- Variables are looked for step by step, from parent to parent. -/
theorem Chained.owner?_eq {s : Store} (h : s.Chained) (f : FrameRef) (name : String) :
    s.owner? f name =
      if s.owns name f then some f else (s.parent? f).bind fun p => s.owner? p name := by
  rw [owner?, h.chain_eq]
  cases hf : s.owns name f with
  | true => rw [List.find?_cons_of_pos hf, if_pos rfl]
  | false =>
    rw [List.find?_cons_of_neg (by rw [hf]; exact Bool.false_ne_true), if_neg Bool.false_ne_true]
    cases s.parent? f <;> rfl

/-- The frame that variables are looked up in, and that assignments go to, is the innermost one. -/
theorem owner?_eq_some_iff {s : Store} (h : s.Chained) {f o : FrameRef} {name : String} :
    s.owner? f name = some o ↔ s.Innermost name o f := by
  constructor
  · -- the way outwards ends, because a parent is older than its children
    induction hindex : f.index using Nat.strongRecOn generalizing f with
    | _ i ih =>
      intro howner
      rw [h.owner?_eq] at howner
      cases hf : s.owns name f with
      | true =>
        rw [hf, if_pos rfl] at howner
        cases howner
        exact .here hf
      | false =>
        rw [hf, if_neg Bool.false_ne_true] at howner
        obtain ⟨p, hp, howner⟩ := Option.bind_eq_some_iff.mp howner
        exact .outwards hf hp (ih p.index (hindex ▸ h.parent_lt hp) rfl howner)
  · intro hinnermost
    induction hinnermost with
    | here howns => rw [h.owner?_eq, if_pos howns]
    | outwards hf hp _ ih => rw [h.owner?_eq, hf, if_neg Bool.false_ne_true, hp, Option.bind_some, ih]

/-! ### What an assignment does -/

variable {s : Store} {f g : FrameRef} {x y : String} {v : Value}

/-- Other variables are seen as before, from everywhere. -/
theorem get?_set_of_ne (hf : s.Has f) (hy : y ≠ x) (v : Value) (g : FrameRef) :
    (s.set f x v).get? g y = s.get? g y := by
  rw [get?, get?, chain_set]
  congr 1
  funext a
  rw [binding_set hf, if_neg fun h => hy h.2]

/-- Where an assignment is not seen, the variable is looked for in the same frame as before. -/
theorem owner?_set_of_ne (hg : (s.set f x v).owner? g x ≠ some ((s.owner? f x).getD f)) :
    s.owner? g x = (s.set f x v).owner? g x := by
  generalize ho : (s.owner? f x).getD f = o at hg
  unfold owner? at hg ⊢
  rw [chain_set] at hg ⊢
  generalize s.chain g = frames at hg ⊢
  induction frames with
  | nil => rfl
  | cons a as ih =>
    cases hnew : (s.set f x v).owns x a with
    | true =>
      rw [List.find?_cons_of_pos hnew] at hg ⊢
      have hold : s.owns x a := by
        rcases (owns_set s f a x x v).mp hnew with hold | ⟨-, ha, -⟩
        · exact hold
        · exact absurd (congrArg some (ha.trans ho)) hg
      exact List.find?_cons_of_pos hold
    | false =>
      have hold : s.owns x a = false :=
        Bool.eq_false_iff.mpr fun hold =>
          Bool.eq_false_iff.mp hnew ((owns_set s f a x x v).mpr (.inl hold))
      rw [List.find?_cons_of_neg (Bool.eq_false_iff.mp hnew)] at hg ⊢
      rw [List.find?_cons_of_neg (Bool.eq_false_iff.mp hold)]
      exact ih hg

/-- From where the way outwards ends in the frame that the assignment went to, the value is seen. -/
theorem get?_set_of_owner? (hf : s.Has f)
    (hg : (s.set f x v).owner? g x = some ((s.owner? f x).getD f)) :
    (s.set f x v).get? g x = some v := by
  rw [get?_eq_bind_owner?, hg, Option.bind_some, binding_set hf, if_pos ⟨rfl, rfl⟩]

/-- From everywhere else, the variable is seen as before. -/
theorem get?_set_of_owner?_ne (hf : s.Has f)
    (hg : (s.set f x v).owner? g x ≠ some ((s.owner? f x).getD f)) :
    (s.set f x v).get? g x = s.get? g x := by
  rw [get?_eq_bind_owner?, get?_eq_bind_owner?, owner?_set_of_ne hg]
  cases howner : (s.set f x v).owner? g x with
  | none => rfl
  | some o =>
    rw [howner] at hg
    have ho : o ≠ (s.owner? f x).getD f := fun h => hg (congrArg some h)
    rw [Option.bind_some, Option.bind_some, binding_set hf, if_neg fun h => ho h.1]

/-- **An assignment goes to the innermost frame that has the variable**, or to the frame that it is
made in if none around has it. It changes this one binding and nothing else. Afterwards the value is
seen from the frames whose innermost frame with the variable is this one, among them the frame that
the assignment was made in; from all others the variable, and from everywhere all other variables, are
seen as before. -/
theorem set_assigns_innermost (hs : s.Nested) (hf : s.Has f) (x : String) (v : Value) :
    ∃ o, (s.Innermost x o f ∨ (∀ g, ¬ s.Innermost x g f) ∧ o = f) ∧
      (∀ g y, ((s.set f x v).frame g).bindings.get? y =
        if g = o ∧ y = x then some v else (s.frame g).bindings.get? y) ∧
      (∃ frames, s.set f x v = { s with frames := frames } ∧ frames.size = s.frames.size) ∧
      (∀ g, ((s.set f x v).frame g).kind = (s.frame g).kind ∧
        (s.set f x v).parent? g = s.parent? g) ∧
      (s.set f x v).Innermost x o f ∧
      (∀ g, (s.set f x v).Innermost x o g → (s.set f x v).get? g x = some v) ∧
      (∀ g, ¬ (s.set f x v).Innermost x o g → (s.set f x v).get? g x = s.get? g x) ∧
      ∀ g y, y ≠ x → (s.set f x v).get? g y = s.get? g y := by
  have hbefore := hs.chained
  have hafter := (hs.set f x v).chained
  refine ⟨(s.owner? f x).getD f, ?_, binding_set hf x v, ?_, fun g => ⟨?_, ?_⟩, ?_, fun g hg => ?_,
    fun g hg => ?_, fun g y hy => get?_set_of_ne hf hy v g⟩
  · cases howner : s.owner? f x with
    | none =>
      refine .inr ⟨fun g hg => ?_, rfl⟩
      rw [← owner?_eq_some_iff hbefore, howner] at hg
      cases hg
    | some o => exact .inl ((owner?_eq_some_iff hbefore).mp howner)
  · exact ⟨_, rfl, Array.size_modify⟩
  · rw [set, define, frame_modifyBindings]
    split
    · rfl
    · rfl
  · rw [parent?, parent?, (List.cons.inj (chain_set s f g x v)).2]
  · exact (owner?_eq_some_iff hafter).mp (owner?_set hf x v)
  · exact get?_set_of_owner? hf ((owner?_eq_some_iff hafter).mpr hg)
  · exact get?_set_of_owner?_ne hf (mt (owner?_eq_some_iff hafter).mp hg)

/-- A variable of the global frame that a loop has one of its own for: an assignment in a block of the
loop is seen in the loop, and not beside it. -/
theorem set_assigns_innermost_shadowed : ∃ (s : Store) (block beside : FrameRef),
    s.Nested ∧ s.Has block ∧ s.Has beside ∧
    ∃ o, o ≠ block ∧ o ≠ global ∧ s.Innermost "x" o block ∧
      (s.set block "x" .null).get? block "x" = some .null ∧
      (s.set block "x" .null).get? o "x" = some .null ∧
      (s.set block "x" .null).get? beside "x" = some (.boolean true) := by
  let globalOnly := empty.set global "x" (.boolean true)
  let withLoop := (globalOnly.addFrame global .loop []).2
  let shadowed := withLoop.define ⟨1⟩ "x" .mysterious
  let withBlock := (shadowed.addFrame ⟨1⟩ .conditional []).2
  let s := (withBlock.addFrame global .conditional []).2
  have hglobal : globalOnly.Nested := .set .global global "x" (.boolean true)
  have hloop : withLoop.Nested := .child hglobal (by decide) .loop
  have hblock : withBlock.Nested := .child (.define hloop ⟨1⟩ "x" .mysterious) (by decide) .conditional
  have hs : s.Nested := .child hblock (by decide) .conditional
  have hfound : s.Innermost "x" ⟨1⟩ ⟨2⟩ := (owner?_eq_some_iff hs.chained).mp (by decide)
  obtain ⟨o, hplace, -, -, -, hseen, hvalue, hother, -⟩ :=
    set_assigns_innermost hs (f := ⟨2⟩) (by decide) "x" .null
  obtain rfl : o = ⟨1⟩ := by
    rcases hplace with ho | ⟨hnone, -⟩
    · have howner := (owner?_eq_some_iff hs.chained).mpr ho
      exact Option.some.inj (howner.symm.trans ((owner?_eq_some_iff hs.chained).mpr hfound))
    · exact absurd hfound (hnone ⟨1⟩)
  have hafter := (hs.set ⟨2⟩ "x" .null).chained
  refine ⟨s, ⟨2⟩, ⟨3⟩, hs, by decide, by decide, ⟨1⟩, by decide, by decide, hfound,
    hvalue ⟨2⟩ hseen, ?_, ?_⟩
  · exact hvalue ⟨1⟩ ((owner?_eq_some_iff hafter).mp (by decide))
  · exact hother ⟨3⟩ (mt (owner?_eq_some_iff hafter).mpr (by decide))

end Ballad.Store
