import Ballad.Proofs.Evaluation.Rules

/-!
# What lasts through a whole evaluation

The rules of the language, put together level by level: what the evaluator keeps, however deep it
goes and whatever trees it is given.

- `evaluatorWith`: the evaluator with another way to resolve names. Whether it makes a difference
  shows where names are resolved.
- `LastingOn X A`: a family of invariants that everything a program does keeps, if its trees are of the
  class `X` and its functions of the class `A`. Each new frame may go on with another member of the
  family.
- `LastingOn.coincides`: a lasting invariant lasts, and where it does, evaluators that resolve names
  alike are alike.
- `Lasting`: the same for all trees and all functions.
- `evaluator_alike`: the same for trees that have nothing but values in them. Invariants do not have
  to put up with assignments there.
-/

namespace Ballad.Evaluation

/-- The evaluator that resolves names with `resolve'`. -/
def evaluatorWith (resolve' : Node → Eval (Option String)) : (steps : Nat) → Evaluator
  | 0 => ⟨resolve', fun _ => exhaust, fun _ => exhaust⟩
  | steps + 1 =>
    ⟨resolve', fun node => (evaluatorWith resolve' steps).evalNode node,
      fun node => (evaluatorWith resolve' steps).execNode steps node⟩

theorem evaluatorWith_resolve (steps : Nat) : evaluatorWith resolve steps = evaluator steps := by
  induction steps with
  | zero => rfl
  | succ steps ih => rw [evaluatorWith, evaluator, ih]

/-- An evaluation may stop in any way. -/
def anyStop (_ : Halt) : Prop :=
  True

theorem keeps_stray {I : Env → World → Prop} (flow : Flow) :
    Keeps I anyStop (ofExcept flow.stray) := by
  cases flow with
  | normal => exact keeps_pure _
  | _ => exact meets_halt trivial

/-- To resolve a name changes nothing. -/
theorem coincides_resolve {Θ : Type} {I : Θ → Env → World → Prop} (θ : Θ) (n : Node) :
    Coincides (I θ) anyStop (resolve n) (resolve n) :=
  (keeps_resolve (fun _ _ => trivial) n).coincides

/-! ### Trees of a class -/

/-- A family of invariants that everything a program does keeps, if its trees are of the class `X`, and
the functions of its stores of the class `A`. A new frame may go on with another member of the family.
-/
structure LastingOn {Θ : Type} (X : Node → Prop) (A : Closure → Prop) (I : Θ → Env → World → Prop) :
    Prop where
  below : ∀ n, X n → ∀ c ∈ n.children, X c
  body : ∀ closure, A closure → ∀ n ∈ closure.body, X n
  closure : ∀ θ env w r, I θ env w → A (w.store.closure r)
  tables : ∀ θ, IgnoresTables (I θ)
  host : ∀ θ, IgnoresHost (I θ)
  assign : ∀ θ n, X n → Meets (I θ) anyStop (resolve n) fun found =>
    ∀ name ∈ found, ∀ v, Keeps (I θ) anyStop (assign name v)
  declare : ∀ θ span name parameters body, X (.function span name parameters body) →
    Keeps (I θ) anyStop (Evaluator.declare name parameters body)
  block : ∀ θ env w kind, kind ≠ .function → I θ env w →
    ∃ θ', Inner (I θ) (I θ') env w env.frame kind []
  call : ∀ θ env w closure values, A closure → I θ env w →
    ∃ θ', Inner (I θ) (I θ') env w closure.frame .function (closure.bind values)

namespace LastingOn

variable {Θ : Type} {X : Node → Prop} {A : Closure → Prop} {I : Θ → Env → World → Prop}
  (hI : LastingOn X A I)

section

variable {ev ev' : Evaluator} (hev : ∀ θ, Evaluator.Alike (I θ) anyStop X ev ev')
  (hexec : ∀ θ n, X n → Coincides (I θ) anyStop (ev.exec n) (ev'.exec n))

include hexec

omit hI in
/-- Blocks run alike. -/
theorem block_coincides (θ : Θ) {nodes : List Node} (h : ∀ n ∈ nodes, X n) :
    Coincides (I θ) anyStop (ev.block nodes) (ev'.block nodes) :=
  Evaluator.agrees_block trivial fun n hn => hexec θ n (h n hn)

include hI

/-- So do blocks in new frames. -/
theorem nested_coincides (θ : Θ) (kind : FrameKind) (hkind : kind ≠ .function) {nodes : List Node}
    (h : ∀ n ∈ nodes, X n) :
    Coincides (I θ) anyStop (ev.nested kind nodes) (ev'.nested kind nodes) := by
  refine Evaluator.agrees_nested fun env w hw => ?_
  obtain ⟨θ', hinner⟩ := hI.block θ env w kind hkind hw
  exact ⟨I θ', hinner, block_coincides hexec θ' h⟩

/-- So do calls. -/
theorem enter_coincides (θ : Θ) {closure : Closure} (h : A closure) (values : List Value) :
    Coincides (I θ) anyStop (ev.enter closure values) (ev'.enter closure values) := by
  refine Evaluator.coincides_enter (P := fun _ => True) (fun env w hw => ?_)
    fun flow _ _ => keeps_stray flow
  obtain ⟨θ', hinner⟩ := hI.call θ env w closure values h hw
  exact ⟨I θ', hinner, block_coincides hexec θ' (hI.body closure h)⟩

include hev

/-- One level of evaluation. -/
theorem evalNode_coincides (θ : Θ) {node : Node} (h : X node) :
    Coincides (I θ) anyStop (ev.evalNode node) (ev'.evalNode node) := by
  have hbelow := hI.below node h
  refine (hev θ).evalNode hbelow (hI.tables θ).keeps_newTable ?_ ?_ ?_
  · rintro span callee arguments rfl
    exact (hev θ).call (fun env w r hw => hI.closure θ env w r hw)
      (fun closure values hA => hI.enter_coincides hexec θ hA values)
      (hbelow callee List.mem_cons_self) (fun x hx => hbelow x (List.mem_cons_of_mem _ hx)) span
  · rintro span target rfl
    exact (hev θ).pop (hI.tables θ) (hbelow target List.mem_cons_self)
  · intro _
    exact Agrees.imp (hexec θ node h) fun flow _ => keeps_stray flow

/-- One level of execution. -/
theorem execNode_coincides (hassign : ∀ θ, Evaluator.Assigns (I θ) anyStop X ev) (θ : Θ) (steps : Nat)
    {node : Node} (h : X node) :
    Coincides (I θ) anyStop (ev.execNode steps node) (ev'.execNode steps node) := by
  have hbelow := hI.below node h
  cases node with
  | conditional span condition body other =>
    exact Evaluator.agrees_conditional trivial
      ((hev θ).eval condition (hbelow condition (by simp [Node.children])))
      (hI.nested_coincides hexec θ .conditional (by decide) fun n hn => hbelow n (by simp [Node.children, hn]))
      (hI.nested_coincides hexec θ .conditional (by decide) fun n hn => hbelow n (by simp [Node.children, hn]))
  | loop span condition body goal =>
    exact Evaluator.agrees_loop (P := fun _ => True) (fun _ _ => trivial) trivial
      (fun _ _ _ => trivial) ((hev θ).eval condition (hbelow condition (by simp [Node.children])))
      (hI.nested_coincides hexec θ .loop (by decide) fun n hn => hbelow n (by simp [Node.children, hn])) goal
      span (.inl trivial)
  | function span name parameters body =>
    exact (hI.declare θ span name parameters body h).andThen fun _ => agrees_pure trivial
  | giveBack span value =>
    exact ((hev θ).eval value (hbelow value (by simp [Node.children]))).bind fun _ =>
      agrees_pure trivial
  | breakLoop span => exact agrees_pure trivial
  | continueLoop span => exact agrees_pure trivial
  | _ =>
    exact ((hev θ).execNode (hI.tables θ) (hassign θ) (hI.host θ) steps rfl
      (fun _ => (hev θ).eval _ h) hbelow).coincides

end

include hI

section

variable {resolve' : Node → Eval (Option String)}
  (hresolve : ∀ θ n, Coincides (I θ) anyStop (resolve n) (resolve' n))

include hresolve

/-- However deep the evaluation goes, a lasting invariant lasts, and all other evaluators that resolve
names alike do the same. -/
theorem coincides (steps : Nat) :
    (∀ θ, Evaluator.Alike (I θ) anyStop X (evaluator steps) (evaluatorWith resolve' steps)) ∧
    ∀ θ n, X n → Coincides (I θ) anyStop ((evaluator steps).exec n)
      ((evaluatorWith resolve' steps).exec n) := by
  have hnames : ∀ θ n, Agrees (I θ) anyStop (resolve n) (resolve' n) fun found =>
      found = none → n.isName = false := fun θ n =>
    ⟨meets_resolve (fun _ _ => trivial) n, (hresolve θ n).same⟩
  induction steps with
  | zero =>
    constructor
    · exact fun θ => ⟨fun _ _ => trivial, hI.below, hnames θ, fun _ _ =>
        (meets_halt trivial).agrees⟩
    · exact fun θ n _ => (meets_halt trivial).agrees
  | succ steps ih =>
    obtain ⟨hev, hexec⟩ := ih
    have hassign : ∀ θ, Evaluator.Assigns (I θ) anyStop X (evaluator steps) := by
      intro θ n hn
      rw [evaluator_resolve]
      exact hI.assign θ n hn
    constructor
    · exact fun θ => ⟨fun _ _ => trivial, hI.below, hnames θ, fun n hn =>
        hI.evalNode_coincides hev hexec θ hn⟩
    · exact fun θ n hn => hI.execNode_coincides hev hexec hassign θ steps hn

/-- **Whole programs run alike.** -/
theorem coincides_runAll (θ : Θ) (steps : Nat) {nodes : List Node} (h : ∀ n ∈ nodes, X n) :
    Coincides (I θ) anyStop (runAll (evaluator steps) nodes)
      (runAll (evaluatorWith resolve' steps) nodes) := by
  have hexec := (hI.coincides hresolve steps).2
  induction nodes with
  | nil => exact agrees_pure trivial
  | cons n ns ih =>
    have hrest := ih fun m hm => h m (List.mem_cons_of_mem _ hm)
    exact (hexec θ n (h n List.mem_cons_self)).bind fun flow =>
      (keeps_stray flow).andThen fun _ => hrest

end

/-- **Whole programs keep what lasts.** -/
theorem keeps_runAll (θ : Θ) (steps : Nat) {nodes : List Node} (h : ∀ n ∈ nodes, X n) :
    Keeps (I θ) anyStop (runAll (evaluator steps) nodes) :=
  (hI.coincides_runAll coincides_resolve θ steps h).keeps

end LastingOn

/-! ### All trees -/

/-- A family of invariants that everything a program does keeps. A new frame may go on with another
member of the family. -/
structure Lasting {Θ : Type} (I : Θ → Env → World → Prop) : Prop where
  tables : ∀ θ, IgnoresTables (I θ)
  host : ∀ θ, IgnoresHost (I θ)
  assign : ∀ θ, AllowsAssignment (I θ)
  declare : ∀ θ env w functions name v, I θ env w →
    I θ env { w with store := ({ w.store with functions := functions }).set env.frame name v }
  block : ∀ θ env w kind, kind ≠ .function → I θ env w →
    ∃ θ', Inner (I θ) (I θ') env w env.frame kind []
  call : ∀ θ env w parent bindings, I θ env w →
    ∃ θ', Inner (I θ) (I θ') env w parent .function bindings

namespace Lasting

variable {Θ : Type} {I : Θ → Env → World → Prop} (hI : Lasting I)

include hI

/-- What lasts whatever the nodes are lasts on all nodes. -/
theorem lastingOn : LastingOn (fun _ => True) (fun _ => True) I where
  below _ _ _ _ := trivial
  body _ _ _ _ := trivial
  closure _ _ _ _ _ := trivial
  tables := hI.tables
  host := hI.host
  assign θ n _ := (keeps_resolve (fun _ _ => trivial) n).imp fun _ _ name _ v =>
    (hI.assign θ).keeps_assign name v
  declare θ _ name _ _ _ := fun env w hw => ⟨hI.declare θ env w _ name _ hw, trivial⟩
  block := hI.block
  call θ env w closure values _ hw := hI.call θ env w closure.frame (closure.bind values) hw

section

variable {resolve' : Node → Eval (Option String)}
  (hresolve : ∀ θ n, Coincides (I θ) anyStop (resolve n) (resolve' n))

include hresolve

theorem block_coincides (θ : Θ) (steps : Nat) (nodes : List Node) :
    Coincides (I θ) anyStop ((evaluator steps).block nodes)
      ((evaluatorWith resolve' steps).block nodes) :=
  LastingOn.block_coincides (hI.lastingOn.coincides hresolve steps).2 θ fun _ _ => trivial

theorem coincides_runAll (θ : Θ) (steps : Nat) (nodes : List Node) :
    Coincides (I θ) anyStop (runAll (evaluator steps) nodes)
      (runAll (evaluatorWith resolve' steps) nodes) :=
  hI.lastingOn.coincides_runAll hresolve θ steps fun _ _ => trivial

end

theorem keeps_exec (θ : Θ) (steps : Nat) (n : Node) :
    Keeps (I θ) anyStop ((evaluator steps).exec n) :=
  ((hI.lastingOn.coincides coincides_resolve steps).2 θ n trivial).keeps

theorem keeps_runAll (θ : Θ) (steps : Nat) (nodes : List Node) :
    Keeps (I θ) anyStop (runAll (evaluator steps) nodes) :=
  hI.lastingOn.keeps_runAll θ steps fun _ _ => trivial

end Lasting

/-! ### Trees of values -/

/-- What the evaluator keeps where trees have nothing but values in them, given the rules for calls and
for pops. -/
theorem evaluator_alike {I : Env → World → Prop} {X : Node → Prop} (hvalue : ∀ n, X n → n.isValue)
    (hbelow : ∀ n, X n → ∀ c ∈ n.children, X c) (hnew : ∀ t, Keeps I anyStop (newTable t))
    (hcall : ∀ steps span callee arguments, X (.call span callee arguments) →
      Evaluator.Alike I anyStop X (evaluator steps) (evaluator steps) →
      Keeps I anyStop ((evaluator steps).call callee arguments span))
    (hpop : ∀ steps span target, X (.pop span target) →
      Evaluator.Alike I anyStop X (evaluator steps) (evaluator steps) →
      Keeps I anyStop ((evaluator steps).pop target))
    (steps : Nat) : Evaluator.Alike I anyStop X (evaluator steps) (evaluator steps) := by
  have hresolve : ∀ n, Agrees I anyStop (resolve n) (resolve n) fun found =>
      found = none → n.isName = false := fun n =>
    (meets_resolve (fun _ _ => trivial) n).agrees
  induction steps with
  | zero =>
    exact ⟨fun _ _ => trivial, hbelow, hresolve, fun _ _ => (meets_halt trivial).agrees⟩
  | succ steps ih =>
    refine ⟨fun _ _ => trivial, hbelow, hresolve, fun n hn =>
      ih.evalNode (hbelow n hn) hnew ?_ ?_ ?_⟩
    · rintro span callee arguments rfl
      exact (hcall steps span callee arguments hn ih).coincides
    · rintro span target rfl
      exact (hpop steps span target hn ih).coincides
    · intro hstatement
      exact absurd (hvalue n hn) (Bool.eq_false_iff.mp hstatement)

end Ballad.Evaluation
