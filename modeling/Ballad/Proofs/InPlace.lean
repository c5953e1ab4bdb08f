import Ballad.Proofs.Atomicity
import Ballad.Proofs.Places
import Ballad.Proofs.Precedence.Climbing
import Ballad.Proofs.Scoping
import Ballad.Proofs.WellFormed
import Ballad.Session

/-!
# Changes in place

A change without a destination looks its source up twice: to read the value, and to store the result.
The argument is evaluated in between. Whatever it does, the result is stored in the place that the
source names by then. That is the place where the value was read, if the source is a variable, or if
nothing is called and nothing is taken off an array in the argument.

- `Evaluator.changed`: the value that a change computes.
- `Store.NamesKept.owner?_eq`: calls do not change where a variable is seen.
- `Store.peek?_append`, `Store.place?_append`: new arrays do not change what a path names.
- `change_stores_back`: where a change stores its result.
-/

namespace Ballad

namespace Store

/-! ### Variables -/

/-- While all frames around keep their names, a variable is seen in the same frame. -/
theorem NamesKept.owner?_eq {s s' : Store} (h : s.NamesKept s') {f : FrameRef}
    (hchain : ∀ g ∈ s.chain f, s.Has g) (name : String) : s'.owner? f name = s.owner? f name := by
  have hsame : s'.chain f = s.chain f := by
    have houtline := (h f (hchain f List.mem_cons_self)).2
    unfold chain
    rw [(Prod.mk.inj (Prod.mk.inj houtline).2).2]
  have howns : ∀ g ∈ s.chain f, s'.owns name g = s.owns name g := by
    intro g hg
    have houtline := (h g (hchain g hg)).2
    have hnames := (Prod.mk.inj (Prod.mk.inj houtline).2).1
    rw [Bool.eq_iff_iff, owns, owns, ← Bindings.mem_names_iff, ← Bindings.mem_names_iff, hnames]
  unfold owner?
  rw [hsame, ← List.head?_filter, ← List.head?_filter, List.filter_congr howns]

/-! ### New arrays -/

section

variable {s : Store} {f : FrameRef} {n : Node} {v : Value}

theorem table_append {r : TableRef} (h : r.index < s.tables.size) (added : Array Table) :
    table { s with tables := s.tables ++ added } r = s.table r := by
  unfold table
  rw [Array.getElem?_append_left h]

/-- What is read at an atom has nothing to do with arrays. -/
theorem peek?_tables (hatom : n.isAtom) (tables : Array Table) :
    peek? { s with tables := tables } f n = s.peek? f n := by
  cases n with
  | literal | var | pronoun => rfl
  | _ => cases hatom

theorem entryOf?_append {container index : Value} (h : s.entryOf? container index = some v)
    (hv : v ≠ .mysterious) (added : Array Table) :
    entryOf? { s with tables := s.tables ++ added } container index = some v := by
  cases container with
  | array r =>
    obtain ⟨k, hk, hget⟩ := Option.map_eq_some_iff.mp h
    cases hheld : (s.table r).get? k with
    | none =>
      rw [hheld] at hget
      exact absurd hget.symm hv
    | some u =>
      rw [entryOf?, hk, table_append (lt_size_of_get? hheld)]
      exact congrArg some hget
  | _ => exact h

/-- A value that is read at a path is still there when arrays have been added. -/
theorem peek?_append (hpath : n.isPath) (h : s.peek? f n = some v) (hv : v ≠ .mysterious)
    (added : Array Table) : peek? { s with tables := s.tables ++ added } f n = some v := by
  induction n using Node.isPath.induct generalizing v with
  | case1 span target key ih =>
    obtain ⟨htarget, hkey⟩ := Bool.and_eq_true_iff.mp hpath
    obtain ⟨container, hcontainer, hrest⟩ := Option.bind_eq_some_iff.mp h
    obtain ⟨index, hindex, hentry⟩ := Option.bind_eq_some_iff.mp hrest
    have hne : container ≠ .mysterious := by
      rintro rfl
      cases hentry
    rw [peek?, ih htarget hcontainer hne, Option.bind_some, peek?_tables hkey, hindex]
    exact entryOf?_append hentry hv added
  | case2 n hn =>
    rw [peek?_tables ?_, h]
    rwa [Node.isPath] at hpath
    exact hn

/-- A path from which something is read names the same place when arrays have been added. -/
theorem place?_append (hpath : n.isPath) (h : s.peek? f n = some v) (added : Array Table) :
    place? { s with tables := s.tables ++ added } f n = s.place? f n := by
  cases n with
  | index span target key =>
    obtain ⟨htarget, hkey⟩ := Bool.and_eq_true_iff.mp hpath
    obtain ⟨container, hcontainer, hrest⟩ := Option.bind_eq_some_iff.mp h
    have hne : container ≠ .mysterious := by
      rintro rfl
      obtain ⟨index, -, hentry⟩ := Option.bind_eq_some_iff.mp hrest
      cases hentry
    rw [place?, place?, peek?_append htarget hcontainer hne, hcontainer, peek?_tables hkey]
  | _ => rfl

end

end Store

namespace Evaluation

open Grammar (wordInFirstLine)

/-! ### Changes -/

/-- The value that a change makes of another one. -/
def Evaluator.changed (ev : Evaluator) (kind : Change) (value : Value) (argument : Option Node)
    (span : Span) : Eval Value :=
  match kind with
  | .split => ev.split value argument span
  | .join => ev.join value argument span
  | .cast => ev.cast value argument span

variable {steps : Nat} {env : Env} {w w₁ w' : World} {kind : Change} {source : Node}
  {argument : Option Node} {span : Span} {v result : Value}

theorem Evaluator.change_eq (ev : Evaluator) (into : Option Node) :
    ev.change kind source into argument span =
      ev.eval source >>= fun value =>
        ev.changed kind value argument span >>= ev.write (into.getD source) := by
  cases kind <;> rfl

theorem Evaluator.Alike.changed {I : Env → World → Prop} {stop : Halt → Prop} {X : Node → Prop}
    {ev ev' : Evaluator} (h : Alike I stop X ev ev') (hnew : ∀ t, Keeps I stop (newTable t))
    (kind : Change) (v : Value) (hX : ∀ x ∈ argument, X x) (span : Span) :
    Coincides I stop (ev.changed kind v argument span) (ev'.changed kind v argument span) := by
  cases kind with
  | split => exact h.split hnew v hX span
  | join => exact h.join v hX span
  | cast => exact h.cast v hX span

/-- Nothing can be made of `mysterious`. -/
theorem ne_mysterious_of_changed
    (h : (evaluator steps).changed kind v argument span env w = .ok result w₁) :
    v ≠ .mysterious := by
  rintro rfl
  cases kind with
  | split | join => cases h
  | cast =>
    obtain ⟨r, w₂, -, hcast⟩ := exists_of_bind_ok h
    cases hcast

/-- An expression leaves the variables where they are. -/
theorem changed_namesKept (hargument : ∀ x ∈ argument, x.Everywhere fun m => m.isValue)
    (h : (evaluator steps).changed kind v argument span env w = .ok result w₁) :
    w.store.NamesKept w₁.store := by
  have hnew : ∀ t, Keeps (Kept w.store) anyStop (newTable t) :=
    IgnoresTables.keeps_newTable fun _ _ _ hw => hw
  have hkept := ((alike_kept w.store steps).changed hnew kind v hargument span).keeps.worldAfter
    (show Kept w.store env w from .refl w.store)
  unfold worldAfter at hkept
  rw [h] at hkept
  exact hkept

/-- A quiet expression does no more than to add arrays. -/
theorem changed_spared (hargument : ∀ x ∈ argument, x.Quiet)
    (h : (evaluator steps).changed kind v argument span env w = .ok result w₁) :
    Spared w env w₁ := by
  have hspared := ((alike_spared w steps).changed (keeps_newTable_spared w) kind v hargument
    span).keeps.worldAfter (Spared.refl w env)
  unfold worldAfter at hspared
  rw [h] at hspared
  exact hspared

/-- A path names the same place in two worlds, and in the second one something can be read there. -/
def Stays (path : Node) (env : Env) (w w₁ : World) : Prop :=
  w₁.store.place? env.frame path = w.store.place? env.frame path ∧
    w₁.store.peek? env.frame path ≠ none

/-- A variable stays where it is, whatever is called. -/
theorem stays_of_isVariable (hvar : source.isVariable)
    (hargument : ∀ x ∈ argument, x.Everywhere fun m => m.isValue)
    (hchain : ∀ f ∈ w.store.chain env.frame, w.store.Has f)
    (hread : w.store.peek? env.frame source = some v)
    (h : (evaluator steps).changed kind v argument span env w = .ok result w₁) :
    Stays source env w w₁ := by
  cases source with
  | var s name =>
    have howner := (changed_namesKept hargument h).owner?_eq hchain name
    have hname : ∀ s' : Store, s'.name? (.var s name) = some name := fun _ => rfl
    constructor
    · rw [Store.place?_of_name? (hname _), Store.place?_of_name? (hname _), howner]
    · rw [Store.peek?_of_name? (hname _), Store.get?_eq_bind_owner?] at hread ⊢
      obtain ⟨g, hg, -⟩ := Option.bind_eq_some_iff.mp hread
      rw [howner, hg]
      exact Option.isSome_iff_ne_none.mp (Store.owner?_eq_some (howner.trans hg)).2
  | _ => cases hvar

/-- All that can be read stays where it is, if arrays are only added. -/
theorem stays_of_quiet (hpath : source.isPath) (hquiet : ∀ x ∈ argument, x.Quiet)
    (hread : w.store.peek? env.frame source = some v)
    (h : (evaluator steps).changed kind v argument span env w = .ok result w₁) :
    Stays source env w w₁ := by
  obtain ⟨added, rfl⟩ := changed_spared hquiet h
  refine ⟨Store.place?_append hpath hread added, ?_⟩
  rw [Store.peek?_append hpath hread (ne_mysterious_of_changed h)]
  exact nofun

/-- A path stays exactly if something can still be read at it, and a value that is assigned to it goes
to the place from which the one before was read. -/
theorem Assigned.stays_iff {q : Place} (h : Assigned source result env w₁ w' q)
    (hread : w.store.peek? env.frame source = some v) (hv : v ≠ .mysterious) :
    Stays source env w w₁ ↔ w₁.store.peek? env.frame source ≠ none ∧
      w.store.place? env.frame source = some q ∧ w.store.at? q = some v := by
  obtain ⟨s, -, ⟨hq, -⟩ | ⟨hnone, -⟩⟩ := h
  · constructor
    · intro hstays
      have hbefore := hstays.1.symm.trans hq
      have hheld := (Store.peek?_of_place? hbefore).symm.trans hread
      refine ⟨hstays.2, hbefore, ?_⟩
      cases hat : w.store.at? q with
      | some u =>
        rw [hat] at hheld
        exact hheld
      | none =>
        rw [hat] at hheld
        exact absurd (Option.some.inj hheld).symm hv
    · rintro ⟨hreadable, hbefore, -⟩
      exact ⟨hq.trans hbefore.symm, hreadable⟩
  · constructor
    · intro hstays
      exact absurd hnone hstays.2
    · rintro ⟨hreadable, -⟩
      exact absurd hnone hreadable

/-- **A change in place stores its result where the source is by then**: if a split, a join or a cast
without a destination succeeds, in whatever state it is executed, its result goes to the place that the
source names after the argument has been evaluated. If something can still be read there, this is the
place from which the value was read exactly if the source stays where it is. A variable stays, whatever
the argument calls, and so does any source if nothing is called in the argument and nothing taken off
an array. -/
theorem change_stores_back {ls : List Lexeme} {root : Node}
    (hroot : root ∈ (Program.ofLexemes ls).nodes) :
    root.Everywhere fun node => ∀ span kind source argument,
      node = .change span kind source none argument →
      ∀ (steps : Nat) (env : Env) (w w' : World) (flow : Flow),
        (∀ f ∈ w.store.chain env.frame, w.store.Has f) →
        (evaluator (steps + 1)).exec node env w = .ok flow w' →
        ∃ v result w₁ q, w.store.peek? env.frame source = some v ∧
          (evaluator steps).changed kind v argument span env w = .ok result w₁ ∧
          Assigned source result env w₁ w' q ∧
          (Stays source env w w₁ ↔ w₁.store.peek? env.frame source ≠ none ∧
            w.store.place? env.frame source = some q ∧ w.store.at? q = some v) ∧
          (source.isVariable ∨ (∀ x ∈ argument, x.Quiet) → Stays source env w w₁) := by
  have hsound := Program.everywhere_sound_any (False.elim : False → Lexeme.Lettered ls) root hroot
  refine hsound.nested.imp ?_
  rintro _ hnode span kind source argument rfl steps env w w' flow hchain hrun
  have hpath : source.isPath := hnode.here.direct
  have hformed := hnode.imp fun _ h => h.formed
  have hargument : ∀ x ∈ argument, x.Everywhere fun m => m.isValue := fun x hx =>
    (Node.expression_of_mem_children hformed rfl x
      (by simp [Node.children, Option.mem_def.mp hx])).everywhere_isValue
  obtain ⟨_, w₃, hchange, hnormal⟩ := exists_of_bind_ok hrun
  cases hnormal
  rw [Evaluator.change_eq] at hchange
  obtain ⟨v, w₂, hv, hrest⟩ := exists_of_bind_ok hchange
  obtain ⟨hread, rfl⟩ := (looks_eval hpath steps).of_ok hv
  obtain ⟨result, w₁, hresult, hwrite⟩ := exists_of_bind_ok hrest
  obtain ⟨q, hassigned⟩ := write_path hpath hwrite
  refine ⟨v, result, w₁, q, hread, hresult, hassigned, ?_, ?_⟩
  · exact hassigned.stays_iff hread (ne_mysterious_of_changed hresult)
  · rintro (hvar | hquiet)
    · exact stays_of_isVariable hvar hargument hchain hread hresult
    · exact stays_of_quiet hpath hquiet hread hresult

/-- The lexemes of `split x with f taking y`, but for the blanks. -/
def splitting : List Lexeme :=
  [wordInFirstLine "split" 0, wordInFirstLine "x" 6, wordInFirstLine "with" 8,
    wordInFirstLine "f" 13, wordInFirstLine "taking" 15, wordInFirstLine "y" 22,
    ⟨.newline, "\n", none, ⟨⟨1, 23⟩, ⟨2, 0⟩⟩⟩]

/-- A variable is split at what a function gives back. The function assigns to another variable, and
the result goes back to the one that was read. -/
theorem change_stores_back_called :
    ∃ (ls : List Lexeme) (span : Span) (source argument : Node) (env : Env) (w w₁ w' : World)
      (result : Value) (q : Place),
    .change span .split source none argument ∈ (Program.ofLexemes ls).nodes ∧ ¬ argument.Quiet ∧
    (evaluator 9).exec (.change span .split source none argument) env w = .ok .normal w' ∧
    Assigned source result env w₁ w' q ∧ w.store.at? q = some (.string "a,b") := by
  let source : Node := .var ⟨⟨1, 6⟩, ⟨1, 7⟩⟩ "x"
  let argument : Node := .call ⟨⟨1, 13⟩, ⟨1, 23⟩⟩ (.var ⟨⟨1, 13⟩, ⟨1, 14⟩⟩ "f")
    [.var ⟨⟨1, 22⟩, ⟨1, 23⟩⟩ "y"]
  let node : Node := .change ⟨⟨1, 0⟩, ⟨1, 23⟩⟩ .split source none argument
  let body : List Node := [.assign .origin (.var .origin "y") (.literal .origin (.string ",")),
    .giveBack .origin (.var .origin "y")]
  let bindings : Bindings := [("x", .string "a,b"), ("y", .null), ("f", .function ⟨0⟩)]
  let w : World := ⟨⟨#[], #[⟨"f", ["z"], body, Store.global⟩], #[⟨.global, bindings, []⟩],
    none⟩, [], #[]⟩
  have hroot : node ∈ (Program.ofLexemes splitting).nodes := by
    have hsame : splitting.flatMap Lexeme.splitCopula = splitting := by decide +kernel
    have hread : (Program.read .fresh .origin splitting).nodes = [node] := rfl
    rw [Program.ofLexemes, hsame, hread]
    exact List.mem_singleton_self node
  have hchain : ∀ f ∈ w.store.chain Store.global, w.store.Has f := by decide
  obtain ⟨w', hrun⟩ : ∃ w', (evaluator 9).exec node ⟨Store.global, none⟩ w = .ok .normal w' :=
    ⟨_, rfl⟩
  obtain ⟨v, result, w₁, q, hpeek, -, hassigned, hback, hstays⟩ :=
    (change_stores_back hroot).here _ _ source (some argument) rfl 8 _ w w' _ hchain hrun
  obtain rfl : v = .string "a,b" := (Option.some.inj hpeek).symm
  refine ⟨_, _, source, argument, _, w, w₁, w', result, q, hroot, ?_, hrun, hassigned, ?_⟩
  · intro hquiet
    cases hquiet.here.2
  · exact (hback.mp (hstays (.inl rfl))).2.2

/-- A program that casts a pronoun, with a base from a function that assigns to another variable. -/
def castingPronoun : String :=
  "Hope takes pain\nput 5 into y\ngive back 16\n\n" ++
    "put 1 into y\nput \"ff\" into x\ncast it with Hope taking 0"

/-- The pronoun stands for one variable when it is read, and for another one when the result is
stored. -/
theorem pronoun_changes_other :
    ((Session.fresh castingPronoun).run 30).1.failure = none ∧
    ((Session.fresh castingPronoun).run 30).2.store.get? Store.global "x" =
      some (.string "ff") ∧
    ((Session.fresh castingPronoun).run 30).2.store.get? Store.global "y" =
      some (.number (.ofNat 255)) := by
  decide +kernel

end Evaluation

end Ballad
