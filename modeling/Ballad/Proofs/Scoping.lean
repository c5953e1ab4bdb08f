import Ballad.Proofs.Evaluation.Lasting
import Ballad.Proofs.Frames

/-!
# Blocks and calls bind no names outside

An assignment goes to the variable that is seen, and makes one in the current frame if there is none.
So a name that is new can be bound only where the program is at the time, and in a block or in a call
that is a frame which did not exist before.

- `Store.NamesKept`: all frames of a store are still there, with the same names. Only values may have
  changed.
- `Evaluation.Fresh`: the invariant of everything that is executed in new frames.
-/

namespace Ballad

namespace Store

/-- All frames of a store are still there, and nothing but values has changed in them. -/
def NamesKept (s s' : Store) : Prop :=
  ∀ f, s.Has f → s'.Has f ∧ (s'.frame f).outline = (s.frame f).outline

theorem NamesKept.refl (s : Store) : s.NamesKept s :=
  fun _ h => ⟨h, rfl⟩

/-- An assignment in a frame that was not there. -/
theorem NamesKept.set {s s' : Store} (h : s.NamesKept s') {f : FrameRef} (hf : ¬ s.Has f)
    (name : String) (v : Value) : s.NamesKept (s'.set f name v) := by
  intro g hg
  have hne : g ≠ f := by
    rintro rfl
    exact hf hg
  obtain ⟨hhas, houtline⟩ := h g hg
  exact ⟨has_set.mpr hhas, (outline_set hne name v).trans houtline⟩

theorem NamesKept.addFrame {s s' : Store} (h : s.NamesKept s') (parent : FrameRef)
    (kind : FrameKind) (bindings : Bindings) :
    s.NamesKept (s'.addFrame parent kind bindings).2 := by
  intro f hf
  obtain ⟨hhas, houtline⟩ := h f hf
  refine ⟨has_addFrame hhas, ?_⟩
  rw [frame_addFrame hhas]
  exact houtline

/-- A frame that is added was not there. -/
theorem NamesKept.not_has_new {s s' : Store} (h : s.NamesKept s') (parent : FrameRef)
    (kind : FrameKind) (bindings : Bindings) : ¬ s.Has (s'.addFrame parent kind bindings).1 := by
  intro hnew
  have hlt : s'.frames.size < s'.frames.size := (h _ hnew).1
  omega

end Store

namespace Evaluation

/-- The current frame was not there when the store was `s`, and the frames that were have kept their
names. -/
def Fresh (s : Store) (env : Env) (w : World) : Prop :=
  ¬ s.Has env.frame ∧ s.NamesKept w.store

/-- The frames of `s` have kept their names. -/
def Kept (s : Store) (_ : Env) (w : World) : Prop :=
  s.NamesKept w.store

/-- Whatever the current frame is, a new one is fresh. -/
theorem inner_fresh {s : Store} {I : Env → World → Prop} {env : Env} {w : World}
    (hw : s.NamesKept w.store) (hI : ∀ w', s.NamesKept w'.store → I env w') (parent : FrameRef)
    (kind : FrameKind) (bindings : Bindings) : Inner I (Fresh s) env w parent kind bindings := by
  constructor
  · exact ⟨hw.not_has_new parent kind bindings, hw.addFrame parent kind bindings⟩
  · rintro w' ⟨-, hw'⟩
    obtain ⟨referent, hrestored⟩ := restoreReferent_eq env.frame w.store.referent w'
    rw [hrestored]
    exact hI _ hw'

/-- What is executed in new frames keeps the names in the old ones. -/
theorem lasting_fresh : Lasting Fresh where
  tables := fun _ _ _ _ hw => hw
  host := fun _ _ _ _ _ hw => hw
  assign := fun _ _ _ name v hw => ⟨hw.1, hw.2.set hw.1 name v⟩
  declare := by
    rintro s env w functions name v ⟨hnew, hkept⟩
    have hkept' : s.NamesKept { w.store with functions := functions } := hkept
    exact ⟨hnew, hkept'.set hnew name v⟩
  block := fun s env w kind _ hw =>
    ⟨s, inner_fresh hw.2 (fun _ hw' => ⟨hw.1, hw'⟩) env.frame kind []⟩
  call := fun s env w parent bindings hw =>
    ⟨s, inner_fresh hw.2 (fun _ hw' => ⟨hw.1, hw'⟩) parent .function bindings⟩

theorem block_fresh (s : Store) (steps : Nat) (nodes : List Node) :
    Coincides (Fresh s) anyStop ((evaluator steps).block nodes) ((evaluator steps).block nodes) :=
  Evaluator.agrees_block trivial fun n _ => (lasting_fresh.keeps_exec s steps n).coincides

/-- A block keeps the names, whatever frame it stands in. -/
theorem nested_kept (s : Store) (steps : Nat) (kind : FrameKind) (nodes : List Node) :
    Coincides (Kept s) anyStop ((evaluator steps).nested kind nodes)
      ((evaluator steps).nested kind nodes) := by
  refine Evaluator.agrees_nested fun env w hw => ⟨Fresh s, ?_, block_fresh s steps nodes⟩
  exact inner_fresh hw (fun _ hw' => hw') env.frame kind []

/-- A call keeps the names, whatever frame it is made in. -/
theorem enter_kept (s : Store) (steps : Nat) (closure : Closure) (values : List Value) :
    Coincides (Kept s) anyStop ((evaluator steps).enter closure values)
      ((evaluator steps).enter closure values) := by
  refine Evaluator.coincides_enter (P := fun _ => True) (fun env w hw => ?_)
    fun flow _ _ => keeps_stray flow
  refine ⟨Fresh s, ?_, block_fresh s steps closure.body⟩
  exact inner_fresh hw (fun _ hw' => hw') closure.frame .function (closure.bind values)

/-- Expressions do not assign to anything but through calls. -/
theorem alike_kept (s : Store) (steps : Nat) :
    Evaluator.Alike (Kept s) anyStop (fun n => n.Everywhere fun m => m.isValue) (evaluator steps)
      (evaluator steps) := by
  have htables : IgnoresTables (Kept s) := fun _ _ _ hw => hw
  have hbelow : ∀ n : Node, (n.Everywhere fun m => m.isValue) →
      ∀ c ∈ n.children, c.Everywhere fun m => m.isValue := fun _ h =>
    (Node.everywhere_iff.mp h).2
  refine evaluator_alike (fun _ h => h.here) hbelow htables.keeps_newTable ?_ ?_ steps
  · intro steps span callee arguments h hev
    have hparts := hbelow _ h
    refine (hev.call (A := fun _ => True) (fun _ _ _ _ => trivial) ?_
      (hparts callee List.mem_cons_self) (fun x hx => hparts x (List.mem_cons_of_mem _ hx))
      span).keeps
    exact fun closure values _ => enter_kept s steps closure values
  · intro steps span target h hev
    exact (hev.pop htables (hbelow _ h target List.mem_cons_self)).keeps

/-- One level of execution of an expression, which drops its value. -/
theorem keeps_exec_value (s : Store) (steps : Nat) {n : Node}
    (h : n.Everywhere fun m => m.isValue) : Keeps (Kept s) anyStop ((evaluator steps).exec n) := by
  cases steps with
  | zero => exact meets_halt trivial
  | succ steps =>
    have heval := ((alike_kept s steps).eval n h).keeps
    have hvalue := h.here
    cases n with
    | literal | var | pronoun | index | list | binary | negation | call | pop =>
      exact heval.bind fun _ => keeps_pure _
    | _ => exact absurd hvalue Bool.false_ne_true

theorem keeps_exec_conditional (s : Store) (steps : Nat) {span : Span} {condition : Node}
    {body other : List Node} (h : condition.Everywhere fun m => m.isValue) :
    Keeps (Kept s) anyStop ((evaluator steps).exec (.conditional span condition body other)) := by
  cases steps with
  | zero => exact meets_halt trivial
  | succ steps =>
    exact (Evaluator.agrees_conditional trivial ((alike_kept s steps).eval condition h)
      (nested_kept s steps .conditional body) (nested_kept s steps .conditional other)).meets

theorem keeps_exec_loop (s : Store) (steps : Nat) {span : Span} {condition : Node}
    {body : List Node} {goal : Bool} (h : condition.Everywhere fun m => m.isValue) :
    Keeps (Kept s) anyStop ((evaluator steps).exec (.loop span condition body goal)) := by
  cases steps with
  | zero => exact meets_halt trivial
  | succ steps =>
    exact (Evaluator.agrees_loop (P := fun _ => True) (fun _ _ => trivial) trivial
      (fun _ _ _ => trivial) ((alike_kept s steps).eval condition h)
      (nested_kept s steps .loop body) goal span (.inl trivial)).meets

/-- **Blocks and calls bind no names outside**: an expression, a conditional and a loop leave all
frames that are there with the names that they have, in whatever state they are executed and however
that ends. -/
theorem blocks_bind_no_names (steps : Nat) (env : Env) (w : World) :
    (∀ n : Node, (n.Everywhere fun m => m.isValue) →
      w.store.NamesKept (worldAfter ((evaluator steps).eval n) env w).store ∧
      w.store.NamesKept (worldAfter ((evaluator steps).exec n) env w).store) ∧
    (∀ (span : Span) (condition : Node) (body other : List Node),
      (condition.Everywhere fun m => m.isValue) →
      w.store.NamesKept
        (worldAfter ((evaluator steps).exec (.conditional span condition body other)) env w).store) ∧
    ∀ (span : Span) (condition : Node) (body : List Node) (goal : Bool),
      (condition.Everywhere fun m => m.isValue) →
      w.store.NamesKept
        (worldAfter ((evaluator steps).exec (.loop span condition body goal)) env w).store := by
  have hbefore : Kept w.store env w := Store.NamesKept.refl w.store
  refine ⟨fun n h => ⟨?_, ?_⟩, fun span condition body other h => ?_,
    fun span condition body goal h => ?_⟩
  · exact ((alike_kept w.store steps).eval n h).keeps.worldAfter hbefore
  · exact (keeps_exec_value w.store steps h).worldAfter hbefore
  · exact (keeps_exec_conditional w.store steps h).worldAfter hbefore
  · exact (keeps_exec_loop w.store steps h).worldAfter hbefore

/-- A loop that ends by assigning to the variable of its condition, and says a variable of its own. -/
theorem blocks_bind_no_names_loop : ∃ (condition : Node) (body : List Node) (env : Env) (w : World),
    (condition.Everywhere fun m => m.isValue) ∧
    w.store.NamesKept
      (worldAfter ((evaluator 9).exec (.loop .origin condition body false)) env w).store ∧
    (worldAfter ((evaluator 9).exec (.loop .origin condition body false)) env w).said.size = 1 ∧
    (worldAfter ((evaluator 9).exec (.loop .origin condition body false)) env w).store.get?
      Store.global "x" = some .null := by
  let x : Node := .var .origin "x"
  let y : Node := .var .origin "y"
  let body : List Node := [.assign .origin y x, .output .origin y,
    .assign .origin x (.literal .origin .null)]
  let w : World := ⟨Store.empty.define Store.global "x" (.boolean true), [], #[]⟩
  have hvalue : x.Everywhere fun m => m.isValue := ⟨rfl, nofun⟩
  refine ⟨x, body, ⟨Store.global, none⟩, w, hvalue, ?_, by decide +kernel, by decide +kernel⟩
  exact (blocks_bind_no_names 9 _ w).2.2 _ x body false hvalue

end Evaluation

end Ballad
