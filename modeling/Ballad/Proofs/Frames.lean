import Ballad.Proofs.Associations
import Ballad.Store

/-!
# Frames of variables

What becomes of the frames of a store when variables are assigned to and frames are added. Nothing is
ever taken out: frames stay where they are, and names stay bound.

- `Store.Has`: the frames that are there.
- `Store.owns_set`: which names are bound after an assignment. It binds a new name only in the frame
  that it is made in. `Store.binding_set`: which values they have.
- `Store.Grows`: one store has come from another one. Frames keep their kind, their place and their
  names, and what can be seen from a frame stays visible.
- `Store.Refers`: what pronouns stand for can be seen from a frame.
- `Frame.outline`: a frame without the values of its variables.
-/

namespace Ballad

/-! ### Bindings -/

namespace Bindings

/-- After an assignment, a variable has its new value and all others have theirs. -/
theorem get?_insert (name n : String) (v : Value) (b : Bindings) :
    Bindings.get? (Association.insert name v b) n = if n = name then some v else b.get? n := by
  unfold get?
  rw [Association.lookup_insert]
  simp only [@eq_comm _ name]

/-- The names that are bound. -/
def names (b : Bindings) : List String :=
  b.map (·.1)

theorem mem_names_iff {b : Bindings} {name : String} : name ∈ b.names ↔ (b.get? name).isSome :=
  (Association.isSome_lookup name b).symm

/-- A name that is bound keeps its place. -/
theorem names_insert {name : String} {b : Bindings} (h : (b.get? name).isSome) (v : Value) :
    Bindings.names (Association.insert name v b) = b.names := by
  rw [← mem_names_iff] at h
  exact (Association.map_fst_insert name v b).trans (if_pos h)

end Bindings

namespace Store

/-! ### Frames that are there -/

/-- A frame of the store. -/
def Has (s : Store) (f : FrameRef) : Prop :=
  f.index < s.frames.size

instance (s : Store) (f : FrameRef) : Decidable (s.Has f) :=
  inferInstanceAs (Decidable (_ < _))

/-- There is nothing in a frame that does not exist. -/
theorem frame_of_not_has {s : Store} {f : FrameRef} (h : ¬ s.Has f) : s.frame f = .empty := by
  unfold frame
  rw [Array.getElem?_eq_none (Nat.le_of_not_lt h)]
  rfl

/-- Frames that own variables exist. -/
theorem has_of_owns {s : Store} {f : FrameRef} {name : String} (h : s.owns name f) : s.Has f := by
  by_cases hf : s.Has f
  · exact hf
  · unfold owns at h
    rw [frame_of_not_has hf] at h
    exact absurd h Bool.false_ne_true

theorem has_of_kind {s : Store} {f : FrameRef} (h : (s.frame f).kind = .function) : s.Has f := by
  by_cases hf : s.Has f
  · exact hf
  · rw [frame_of_not_has hf] at h
    cases h

/-- Changing the variables of a frame changes no other frame. -/
theorem frame_modifyBindings (s : Store) (f g : FrameRef) (change : Bindings → Bindings) :
    (s.modifyBindings f change).frame g =
      if g = f ∧ s.Has g then { s.frame g with bindings := change (s.frame g).bindings }
      else s.frame g := by
  unfold frame modifyBindings
  dsimp only
  rw [Array.getElem?_modify]
  by_cases hg : g = f
  · subst hg
    by_cases hhas : s.Has g
    · rw [if_pos rfl, if_pos ⟨rfl, hhas⟩, Array.getElem?_eq_getElem hhas]
      rfl
    · rw [if_pos rfl, if_neg fun h => hhas h.2, Array.getElem?_eq_none (Nat.le_of_not_lt hhas)]
      rfl
  · have hindex : f.index ≠ g.index := by
      rintro h
      exact hg (by cases f; cases g; simp_all)
    rw [if_neg hindex, if_neg fun h => hg h.1]

/-- It adds no frame. -/
theorem has_modifyBindings {s : Store} {f g : FrameRef} {change : Bindings → Bindings} :
    (s.modifyBindings f change).Has g ↔ s.Has g := by
  unfold Has modifyBindings
  rw [Array.size_modify]

/-- A frame and the frames around it do not depend on variables. -/
theorem chain_modifyBindings (s : Store) (f g : FrameRef) (change : Bindings → Bindings) :
    (s.modifyBindings f change).chain g = s.chain g := by
  unfold chain
  rw [frame_modifyBindings]
  split <;> rfl

/-- Frames stay when another one is added. -/
theorem has_addFrame {s : Store} {parent f : FrameRef} {kind : FrameKind} {bindings : Bindings}
    (h : s.Has f) : (s.addFrame parent kind bindings).2.Has f := by
  unfold Has addFrame at *
  dsimp only
  rw [Array.size_push]
  omega

/-- They keep their variables and the frames around them, too. -/
theorem frame_addFrame {s : Store} {parent f : FrameRef} {kind : FrameKind} {bindings : Bindings}
    (h : s.Has f) : (s.addFrame parent kind bindings).2.frame f = s.frame f := by
  unfold frame addFrame
  dsimp only
  rw [Array.getElem?_push_lt h, Array.getElem?_eq_getElem h]

/-- The only frame that was not there is the new one. -/
theorem eq_new_of_has {s : Store} {parent f : FrameRef} {kind : FrameKind} {bindings : Bindings}
    (hold : ¬ s.Has f) (h : (s.addFrame parent kind bindings).2.Has f) :
    f = (s.addFrame parent kind bindings).1 := by
  have hindex : f.index = s.frames.size := by
    unfold Has addFrame at h
    unfold Has at hold
    rw [Array.size_push] at h
    omega
  obtain ⟨i⟩ := f
  exact congrArg FrameRef.mk hindex

/-- The new frame exists. -/
theorem has_addFrame_new (s : Store) (parent : FrameRef) (kind : FrameKind) (bindings : Bindings) :
    (s.addFrame parent kind bindings).2.Has (s.addFrame parent kind bindings).1 := by
  show s.frames.size < (s.frames.push _).size
  rw [Array.size_push]
  omega

/-- It is made of what it was given, and stands inside of its parent. -/
theorem frame_addFrame_new (s : Store) (parent : FrameRef) (kind : FrameKind) (bindings : Bindings) :
    (s.addFrame parent kind bindings).2.frame (s.addFrame parent kind bindings).1 =
      ⟨kind, bindings, s.chain parent⟩ := by
  show ((s.frames.push _)[s.frames.size]?).getD .empty = _
  rw [Array.getElem?_push_size]
  rfl

/-! ### Assignments -/

/-- Assignments leave the frames around a frame as they are. -/
theorem chain_set (s : Store) (f g : FrameRef) (name : String) (v : Value) :
    (s.set f name v).chain g = s.chain g :=
  chain_modifyBindings s _ g _

theorem has_set {s : Store} {f g : FrameRef} {name : String} {v : Value} :
    (s.set f name v).Has g ↔ s.Has g :=
  has_modifyBindings

/-- A name is bound in a frame after an assignment if it was before, or if the assignment has been to
this name and this frame. -/
theorem owns_set (s : Store) (f g : FrameRef) (name n : String) (v : Value) :
    (s.set f name v).owns n g ↔
      s.owns n g ∨ n = name ∧ g = (s.owner? f name).getD f ∧ s.Has g := by
  unfold owns set define
  rw [frame_modifyBindings]
  by_cases hg : g = (s.owner? f name).getD f ∧ s.Has g
  · rw [if_pos hg]
    dsimp only
    rw [Bindings.get?_insert]
    by_cases hn : n = name <;> simp [hn, hg.2, ← hg.1]
  · rw [if_neg hg]
    simp only [iff_self_or]
    rintro ⟨-, hg'⟩
    exact absurd hg' hg

/-- The innermost frame that has a variable is one of those around, and has it. -/
theorem owner?_eq_some {s : Store} {f g : FrameRef} {name : String} (h : s.owner? f name = some g) :
    g ∈ s.chain f ∧ s.owns name g :=
  ⟨List.mem_of_find?_eq_some h, List.find?_some h⟩

/-- The frame that an assignment goes to is there. -/
theorem has_target {s : Store} {f : FrameRef} (h : s.Has f) (name : String) :
    s.Has ((s.owner? f name).getD f) := by
  cases howner : s.owner? f name with
  | none => exact h
  | some g => exact has_of_owns (owner?_eq_some howner).2

/-- An assignment changes one binding. -/
theorem binding_set {s : Store} {f : FrameRef} (h : s.Has f) (name : String) (v : Value)
    (g : FrameRef) (n : String) :
    ((s.set f name v).frame g).bindings.get? n =
      if g = (s.owner? f name).getD f ∧ n = name then some v else (s.frame g).bindings.get? n := by
  rw [set, define, frame_modifyBindings]
  by_cases hg : g = (s.owner? f name).getD f
  · have hhas : s.Has g := hg ▸ has_target h name
    rw [if_pos ⟨hg, hhas⟩, Bindings.get?_insert]
    by_cases hn : n = name
    · rw [if_pos hn, if_pos ⟨hg, hn⟩]
    · rw [if_neg hn, if_neg fun h => hn h.2]
  · rw [if_neg fun h => hg h.1, if_neg fun h => hg h.1]

/-- To clear the outermost frame is to forget its variables and the referent. -/
theorem clear_global (s : Store) :
    s.clear global = (s.modifyBindings global fun _ => []).setReferent none := by
  rw [clear, if_pos rfl]

/-- No other frame is cleared. -/
theorem frame_clear_global (s : Store) (f : FrameRef) :
    (s.clear global).frame f =
      if f = global ∧ s.Has f then { s.frame f with bindings := [] } else s.frame f := by
  rw [clear_global]
  exact frame_modifyBindings s global f fun _ => []

theorem has_clear_global {s : Store} {f : FrameRef} : (s.clear global).Has f ↔ s.Has f := by
  rw [clear_global]
  show (s.modifyBindings global fun _ => []).Has f ↔ s.Has f
  exact has_modifyBindings

/-! ### What can be seen from a frame -/

/-- A variable has a value where a frame around owns it. -/
theorem isSome_get?_iff {s : Store} {f : FrameRef} {name : String} :
    (s.get? f name).isSome ↔ ∃ g ∈ s.chain f, s.owns name g := by
  unfold get? owns
  rw [List.findSome?_isSome_iff]

/-- The value of a variable is the one in the innermost frame that has it. -/
theorem get?_eq_bind_owner? (s : Store) (f : FrameRef) (name : String) :
    s.get? f name = (s.owner? f name).bind fun g => (s.frame g).bindings.get? name := by
  unfold get? owner?
  induction s.chain f with
  | nil => rfl
  | cons g gs ih =>
    rw [List.findSome?_cons, List.find?_cons, owns]
    cases hg : (s.frame g).bindings.get? name with
    | none => exact ih
    | some v => exact hg.symm

/-- After an assignment, the variable is seen where it was made or where it had been seen. -/
theorem owner?_set {s : Store} {f : FrameRef} (h : s.Has f) (name : String) (v : Value) :
    (s.set f name v).owner? f name = some ((s.owner? f name).getD f) := by
  rw [owner?, chain_set]
  cases howner : s.owner? f name with
  | none =>
    refine List.find?_cons_of_pos ((owns_set ..).mpr (.inr ⟨rfl, ?_, h⟩))
    rw [howner]
    rfl
  | some g =>
    obtain ⟨howns, before, after, hchain, hbefore⟩ := List.find?_eq_some_iff_append.mp howner
    refine List.find?_eq_some_iff_append.mpr
      ⟨(owns_set ..).mpr (.inl howns), before, after, hchain, fun a ha => ?_⟩
    -- the assignment is to `g`, so the frames before it are as they were
    have hfree : s.owns name a = false := by simpa using hbefore a ha
    rw [Bool.not_eq_true', Bool.eq_false_iff]
    intro hset
    rcases (owns_set ..).mp hset with hold | ⟨-, hag, -⟩
    · rw [hfree] at hold
      cases hold
    · rw [howner] at hag
      rw [hag] at hfree
      exact Bool.eq_false_iff.mp hfree howns

/-- A variable has the value that has been assigned to it. -/
theorem get?_set_self {s : Store} {f : FrameRef} (h : s.Has f) (name : String) (v : Value) :
    (s.set f name v).get? f name = some v := by
  rw [get?_eq_bind_owner?, owner?_set h, Option.bind_some, binding_set h, if_pos ⟨rfl, rfl⟩]

/-- The variable that has been assigned to can be seen. -/
theorem isSome_get?_set {s : Store} {f : FrameRef} (h : s.Has f) (name : String) (v : Value) :
    ((s.set f name v).get? f name).isSome := by
  rw [get?_set_self h]
  rfl

/-- From a new frame, all can be seen that can be seen around it. -/
theorem isSome_get?_addFrame {s : Store} {parent : FrameRef} {name : String}
    (h : (s.get? parent name).isSome) (kind : FrameKind) (bindings : Bindings) :
    ((s.addFrame parent kind bindings).2.get? (s.addFrame parent kind bindings).1 name).isSome := by
  obtain ⟨g, hmem, howns⟩ := isSome_get?_iff.mp h
  refine isSome_get?_iff.mpr ⟨g, ?_, ?_⟩
  · rw [chain, frame_addFrame_new]
    exact List.mem_cons_of_mem _ hmem
  · unfold owns at howns ⊢
    rwa [frame_addFrame (has_of_owns howns)]

end Store

/-! ### Growth -/

/-- A frame has kept its kind, its place and its names. -/
structure Frame.Grows (f f' : Frame) : Prop where
  kind : f'.kind = f.kind
  outer : f'.outer = f.outer
  names : ∀ name, (f.bindings.get? name).isSome → (f'.bindings.get? name).isSome

namespace Store

/-- All frames of a store have kept their kind, their place and their names. -/
def Grows (s s' : Store) : Prop :=
  ∀ f, s.Has f → s'.Has f ∧ (s.frame f).Grows (s'.frame f)

/-- A store grows into itself. -/
theorem Grows.refl (s : Store) : s.Grows s :=
  fun _ h => ⟨h, rfl, rfl, fun _ => id⟩

/-- A store that grows twice has grown. -/
theorem Grows.trans {s s' s'' : Store} (h : s.Grows s') (h' : s'.Grows s'') : s.Grows s'' := by
  intro f hf
  obtain ⟨hf', hgrows⟩ := h f hf
  obtain ⟨hf'', hgrows'⟩ := h' f hf'
  refine ⟨hf'', hgrows'.kind.trans hgrows.kind, hgrows'.outer.trans hgrows.outer, ?_⟩
  exact fun name hname => hgrows'.names name (hgrows.names name hname)

/-- Assignments let a store grow. -/
theorem grows_set (s : Store) (f : FrameRef) (name : String) (v : Value) :
    s.Grows (s.set f name v) := by
  intro g hg
  refine ⟨has_set.mpr hg, ?_, ?_, fun n hn => ?_⟩
  · show ((s.modifyBindings _ _).frame g).kind = _
    rw [frame_modifyBindings]
    split <;> rfl
  · exact (List.cons.inj (chain_set s f g name v)).2
  · exact (owns_set s f g name n v).mpr (.inl hn)

/-- So do new frames. -/
theorem grows_addFrame (s : Store) (parent : FrameRef) (kind : FrameKind) (bindings : Bindings) :
    s.Grows (s.addFrame parent kind bindings).2 := by
  intro f hf
  rw [frame_addFrame hf]
  exact ⟨has_addFrame hf, rfl, rfl, fun _ => id⟩

/-- The frames around a frame stay when a store grows. -/
theorem Grows.chain {s s' : Store} (h : s.Grows s') {f : FrameRef} (hf : s.Has f) :
    s'.chain f = s.chain f := by
  unfold Store.chain
  rw [(h f hf).2.outer]

/-- A variable stays in its frame when a store grows. -/
theorem Grows.owns {s s' : Store} (h : s.Grows s') {f : FrameRef} {name : String}
    (howns : s.owns name f) : s'.owns name f :=
  (h f (has_of_owns howns)).2.names name howns

/-- What can be seen stays visible. -/
theorem Grows.isSome_get? {s s' : Store} (h : s.Grows s') {f : FrameRef} {name : String}
    (hname : (s.get? f name).isSome) : (s'.get? f name).isSome := by
  obtain ⟨g, hmem, howns⟩ := isSome_get?_iff.mp hname
  refine isSome_get?_iff.mpr ⟨g, ?_, h.owns howns⟩
  by_cases hf : s.Has f
  · rwa [h.chain hf]
  · -- around a frame that is not there, there is nothing
    unfold Store.chain at hmem ⊢
    rw [frame_of_not_has hf] at hmem
    rw [List.mem_singleton.mp hmem]
    exact List.mem_cons_self

/-- What pronouns stand for, if anything, can be seen from a frame. -/
def Refers (s : Store) (f : FrameRef) : Prop :=
  ∀ name, s.referent = some name → (s.get? f name).isSome

/-- The referent stays visible when a store grows. -/
theorem Refers.of_grows {s s' : Store} {f : FrameRef} (h : s.Refers f) (hgrows : s.Grows s')
    (hreferent : s'.referent = s.referent) : s'.Refers f := by
  intro name hname
  exact hgrows.isSome_get? (h name (hreferent.symm.trans hname))

/-- Pronouns that stand for the variable that has been assigned to. -/
theorem refers_set {s : Store} {f : FrameRef} (h : s.Has f) (name : String) (v : Value) :
    ((s.set f name v).setReferent (some name)).Refers f := by
  rintro n hn
  cases hn
  exact isSome_get?_set h name v

/-- What is visible from a frame is visible from a new frame inside of it. -/
theorem Refers.addFrame {s : Store} {parent : FrameRef} (h : s.Refers parent) (kind : FrameKind)
    (bindings : Bindings) :
    (s.addFrame parent kind bindings).2.Refers (s.addFrame parent kind bindings).1 :=
  fun name hname => isSome_get?_addFrame (h name hname) kind bindings

end Store

/-! ### Outlines -/

/-- A frame without the values of its variables. -/
def Frame.outline (f : Frame) : FrameKind × List String × List FrameRef :=
  (f.kind, f.bindings.names, f.outer)

namespace Store

/-- An assignment to a variable that is bound changes no outline, and any other one only that of the
frame that it is made in. -/
theorem outline_set {s : Store} {f g : FrameRef} (h : g ≠ f) (name : String) (v : Value) :
    ((s.set f name v).frame g).outline = (s.frame g).outline := by
  unfold set define
  rw [frame_modifyBindings]
  split
  · rename_i hg
    cases howner : s.owner? f name with
    | none =>
      rw [howner] at hg
      exact absurd hg.1 h
    | some o =>
      have howns := (owner?_eq_some howner).2
      rw [howner] at hg
      unfold Frame.outline
      dsimp only
      rw [Bindings.names_insert]
      rw [hg.1]
      exact howns
  · rfl

end Store

end Ballad
