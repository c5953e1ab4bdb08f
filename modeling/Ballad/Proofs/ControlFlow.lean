import Ballad.Proofs.Evaluation.Rules
import Ballad.Proofs.WellFormed
import Ballad.Proofs.Caching

/-!
# Signals reach what they are meant for

A `break` or `continue` is meant for a loop, and a returned value for a function call. Where they
stand in the text decides whether they get there: if each stands inside of what it is meant for, then
none is ever left over, whatever the functions are stored in, passed to and called from.

- `Scope`: what is around a statement, and `Node.confined`: whether every signal below a node stands
  inside of what it is meant for.
- `Flow.Allowed`: the ways in which a statement in a scope may end.
- `Store.Confined`: the invariant. Every function of the store has a body that is confined to it.
- `Session.Reached`: the sessions that a source can come to.
-/

namespace Ballad

/-- What is around a statement. -/
structure Scope where
  /-- It stands in the body of a loop, with no function between the two. -/
  inLoop : Bool
  /-- It stands in the body of a function. -/
  inFunction : Bool
deriving DecidableEq, Repr

namespace Scope

/-- Nothing is around a statement at the top level. -/
def top : Scope := ⟨false, false⟩

/-- The scope of the body of a loop. -/
def loop (scope : Scope) : Scope := { scope with inLoop := true }

/-- The scope of the body of a function. -/
def function : Scope := ⟨false, true⟩

end Scope

namespace Node

mutual

/-- Whether every `break` and `continue` below a node stands in the body of a loop with no function
between the two, and every returned value in the body of a function. Only bodies hold statements. -/
def confined (scope : Scope) : Node → Bool
  | breakLoop _ | continueLoop _ => scope.inLoop
  | giveBack .. => scope.inFunction
  | conditional _ _ body other => allConfined scope body && allConfined scope other
  | loop _ _ body _ => allConfined scope.loop body
  | function _ _ _ body => allConfined .function body
  | _ => true

/-- Whether all of some nodes are confined. -/
def allConfined (scope : Scope) : List Node → Bool
  | [] => true
  | n :: ns => n.confined scope && allConfined scope ns

end

theorem allConfined_iff {scope : Scope} {nodes : List Node} :
    allConfined scope nodes ↔ ∀ n ∈ nodes, n.confined scope := by
  induction nodes with
  | nil => simp [allConfined]
  | cons n ns ih => simp [allConfined, ih]

/-- A well-formed tree whose signals stand inside of what they are meant for. -/
structure Settled (scope : Scope) (n : Node) : Prop where
  formed : n.Everywhere Formed
  confined : n.confined scope

/-- The statements of a block are settled in the scope of the block. -/
theorem settled_of_body {scope : Scope} {n : Node} {nodes : List Node}
    (h : n.Everywhere Formed) (hsub : ∀ c ∈ nodes, c ∈ n.children)
    (hconfined : allConfined scope nodes) : ∀ c ∈ nodes, c.Settled scope := fun c hc =>
  ⟨(everywhere_iff.mp h).2 c (hsub c hc), allConfined_iff.mp hconfined c hc⟩

end Node

/-- Every function of the store has a body that is confined to it. -/
def Store.Confined (s : Store) : Prop :=
  ∀ c ∈ s.functions, ∀ n ∈ c.body, n.Settled .function

/-- The body of a function is settled in the scope of a function. -/
theorem Store.Confined.closure {s : Store} (h : s.Confined) (r : FunctionRef) :
    ∀ n ∈ (s.closure r).body, n.Settled .function := by
  unfold Store.closure
  cases hr : s.functions[r.index]? with
  | none => exact fun n hn => absurd hn List.not_mem_nil
  | some c => exact h c (Array.mem_of_getElem? hr)

theorem Store.confined_empty : Store.empty.Confined :=
  fun c hc => absurd hc (Array.not_mem_empty c)

/-- New functions are confined if their bodies are. -/
theorem Store.Confined.addClosure {s : Store} (h : s.Confined) {c : Closure}
    (hc : ∀ n ∈ c.body, n.Settled .function) : (s.addClosure c).2.Confined := by
  intro d hd
  rcases Array.mem_push.mp hd with hd | rfl
  · exact h d hd
  · exact hc

namespace Evaluation

/-- How a statement in a scope may end: with a signal only if something in the scope takes it. -/
def Flow.Allowed (scope : Scope) : Flow → Prop
  | normal => True
  | breakLoop _ | continueLoop _ => scope.inLoop
  | giveBack .. => scope.inFunction

/-- At the top, all statements end normally. -/
theorem Flow.eq_normal_of_allowed_top {flow : Flow} (h : flow.Allowed .top) : flow = .normal := by
  cases flow with
  | normal => rfl
  | breakLoop _ => exact (Bool.false_ne_true h).elim
  | continueLoop _ => exact (Bool.false_ne_true h).elim
  | giveBack _ _ => exact (Bool.false_ne_true h).elim

/-- The invariant of evaluation: functions are confined. -/
def Orderly (_ : Env) (w : World) : Prop :=
  w.store.Confined

/-- No signal is left over. -/
def Caught (e : Halt) : Prop :=
  ¬ e.IsStray

theorem Halt.IsPlain.caught {e : Halt} (h : e.IsPlain) : Caught e := by
  rintro hstray
  cases e with
  | exhausted => exact hstray
  | error e =>
    obtain ⟨cause, span⟩ := e
    cases cause with
    | stray signal => exact h
    | _ => exact hstray

/-- To run out of steps is no error of the program. -/
theorem caught_exhausted : Caught .exhausted :=
  id

/-- What pronouns stand for does not matter here. -/
theorem orderly_restoreReferent {env env' : Env} {w : World} {frame : FrameRef}
    {saved : Option String} (h : Orderly env w) : Orderly env' (restoreReferent frame saved w) := by
  unfold restoreReferent
  split
  · split
    · exact h
    · exact h
  · exact h

namespace Evaluator

variable {ev : Evaluator}

/-- Statements in a new frame end as they do in any other. -/
theorem inner_orderly {env : Env} {w : World} {parent : FrameRef} {kind : FrameKind}
    {bindings : Bindings} (hw : Orderly env w) : Inner Orderly Orderly env w parent kind bindings :=
  ⟨hw, fun _ hw' => orderly_restoreReferent hw'⟩

/-- A block has the signals of its statements, in whatever frame. -/
theorem meets_nested (hexec : ∀ scope n, n.Settled scope →
      Meets Orderly Caught (ev.exec n) (Flow.Allowed scope))
    {scope : Scope} {nodes : List Node} (kind : FrameKind) (h : ∀ n ∈ nodes, n.Settled scope) :
    Meets Orderly Caught (ev.nested kind nodes) (Flow.Allowed scope) := by
  have hblock : Agrees Orderly Caught (ev.block nodes) (ev.block nodes) (Flow.Allowed scope) :=
    agrees_block trivial fun n hn => (hexec scope n (h n hn)).agrees
  exact (agrees_nested fun env w hw => ⟨Orderly, inner_orderly hw, hblock⟩).meets

/-- A call takes what its function gives back, and the body lets nothing else out. -/
theorem keeps_enter (hexec : ∀ scope n, n.Settled scope →
      Meets Orderly Caught (ev.exec n) (Flow.Allowed scope))
    {closure : Closure} (h : ∀ n ∈ closure.body, n.Settled .function) (values : List Value) :
    Keeps Orderly Caught (ev.enter closure values) := by
  have hblock : Agrees Orderly Caught (ev.block closure.body) (ev.block closure.body)
      (Flow.Allowed .function) :=
    agrees_block trivial fun n hn => (hexec .function n (h n hn)).agrees
  have hstray : ∀ flow : Flow, flow.Allowed .function → (∀ v at_, flow ≠ .giveBack v at_) →
      Keeps Orderly Caught (ofExcept flow.stray) := by
    intro flow hflow hgive
    cases flow with
    | normal => exact keeps_pure _
    | giveBack v at_ => exact absurd rfl (hgive v at_)
    | breakLoop _ => exact (Bool.false_ne_true hflow).elim
    | continueLoop _ => exact (Bool.false_ne_true hflow).elim
  exact (coincides_enter (fun env w hw => ⟨Orderly, inner_orderly hw, hblock⟩) hstray).keeps

/-- A function that is declared is confined. -/
theorem keeps_declare {name : String} {parameters : List String} {body : List Node}
    (h : ∀ n ∈ body, n.Settled .function) :
    Keeps Orderly Caught (declare name parameters body) :=
  keeps_currentFrame.bind fun _ => keeps_modifyStore fun _ _ hw =>
    Store.Confined.addClosure hw h

/-- One level of execution. The scope of a statement is that of its parts, except in the body of a
loop, and of a function, which is not executed where it stands. -/
theorem meets_execNode (hev : Alike Orderly Caught Node.Expression ev ev)
    (hexec : ∀ scope n, n.Settled scope → Meets Orderly Caught (ev.exec n) (Flow.Allowed scope))
    (steps : Nat) {scope : Scope} {node : Node} (h : node.Settled scope) :
    Meets Orderly Caught (ev.execNode steps node) (Flow.Allowed scope) := by
  have hexpression : ∀ c ∈ node.children, c.isOperand → c.Expression := fun c hc hoperand =>
    ⟨hoperand, (Node.everywhere_iff.mp h.formed).2 c hc⟩
  have hhere := h.formed.here
  have hconfined := h.confined
  cases node with
  | conditional span condition body other =>
    rw [Node.confined, Bool.and_eq_true] at hconfined
    have hcondition := (hev.eval condition (hexpression condition (by simp [Node.children]) hhere)).keeps
    have hbody := Node.settled_of_body h.formed (by simp +contextual [Node.children]) hconfined.1
    have hother := Node.settled_of_body h.formed (by simp +contextual [Node.children]) hconfined.2
    exact (agrees_conditional trivial hcondition.coincides
      (meets_nested hexec .conditional hbody).agrees
      (meets_nested hexec .conditional hother).agrees).meets
  | loop span condition body goal =>
    rw [Node.confined] at hconfined
    have hcondition := (hev.eval condition (hexpression condition (by simp [Node.children]) hhere)).keeps
    have hbody := Node.settled_of_body h.formed (by simp +contextual [Node.children]) hconfined
    -- A value is given back through the loop: `inFunction` is the same in the body and around it.
    have hgive : ∀ v at_, Flow.Allowed scope.loop (.giveBack v at_) →
        Flow.Allowed scope (.giveBack v at_) := fun _ _ h => h
    exact (agrees_loop (fun _ => Halt.IsPlain.caught) trivial hgive hcondition.coincides
      (meets_nested hexec .loop hbody).agrees goal span (.inl caught_exhausted)).meets
  | function span name parameters body =>
    rw [Node.confined] at hconfined
    have hbody := Node.settled_of_body h.formed (by simp [Node.children]) hconfined
    exact (keeps_declare hbody).bind fun _ => meets_pure trivial
  | giveBack span value =>
    rw [Node.confined] at hconfined
    have hvalue := (hev.eval value (hexpression value (by simp [Node.children]) hhere)).keeps
    exact hvalue.bind fun _ => meets_pure hconfined
  | breakLoop span =>
    rw [Node.confined] at hconfined
    exact meets_pure hconfined
  | continueLoop span =>
    rw [Node.confined] at hconfined
    exact meets_pure hconfined
  | _ =>
    have hplain := hev.execNode (fun _ _ _ hw => hw) (hev.assigns fun _ _ _ _ hw => hw)
      (fun _ _ _ _ hw => hw) steps rfl
      (fun hvalue => hev.eval _ (Node.expression_of_isValue h.formed hvalue))
      (Node.expression_of_mem_children h.formed rfl)
    refine hplain.meets.imp ?_
    rintro flow rfl
    trivial

end Evaluator

/-- One level of evaluation. -/
theorem Evaluator.keeps_evalNode {ev : Evaluator} (hev : Alike Orderly Caught Node.Expression ev ev)
    (hexec : ∀ scope n, n.Settled scope → Meets Orderly Caught (ev.exec n) (Flow.Allowed scope))
    {node : Node} (h : node.Expression) : Keeps Orderly Caught (ev.evalNode node) := by
  have htables : IgnoresTables Orderly := fun _ _ _ hw => hw
  refine (hev.evalNode h.below htables.keeps_newTable ?_ ?_ ?_).keeps
  · rintro span callee arguments rfl
    have hbelow := h.below
    refine hev.call (fun _ _ r hw => hw.closure r)
      (fun _ values hc => (keeps_enter hexec hc values).coincides)
      (hbelow callee List.mem_cons_self) (fun x hx => hbelow x (List.mem_cons_of_mem _ hx)) span
  · rintro span target rfl
    exact hev.pop htables (h.below target List.mem_cons_self)
  · intro hvalue
    exact absurd (Node.isValue_of_isOperand h.isOperand) (Bool.eq_false_iff.mp hvalue)

/-- However deep the evaluation goes, functions stay confined and no signal is left over. -/
theorem evaluator_orderly (steps : Nat) :
    Evaluator.Alike Orderly Caught Node.Expression (evaluator steps) (evaluator steps) ∧
    ∀ scope n, n.Settled scope →
      Meets Orderly Caught ((evaluator steps).exec n) (Flow.Allowed scope) := by
  have hresolve : ∀ n, Agrees Orderly Caught (resolve n) (resolve n) fun found =>
      found = none → n.isName = false := fun n =>
    (meets_resolve (fun _ => Halt.IsPlain.caught) n).agrees
  induction steps with
  | zero =>
    constructor
    · exact ⟨fun _ => Halt.IsPlain.caught, fun _ h => h.below, hresolve, fun _ _ =>
        (meets_halt caught_exhausted).agrees⟩
    · exact fun scope n _ => meets_halt caught_exhausted
  | succ steps ih =>
    obtain ⟨hev, hexec⟩ := ih
    constructor
    · exact ⟨fun _ => Halt.IsPlain.caught, fun _ h => h.below, hresolve, fun n hn =>
        (Evaluator.keeps_evalNode hev hexec hn).coincides⟩
    · intro scope n hn
      exact Evaluator.meets_execNode hev hexec steps hn

/-- **A program whose signals are confined keeps to them.** -/
theorem keeps_runAll (steps : Nat) {nodes : List Node} (h : ∀ n ∈ nodes, n.Settled .top) :
    Keeps Orderly Caught (runAll (evaluator steps) nodes) := by
  induction nodes with
  | nil => exact keeps_pure ()
  | cons n ns ih =>
    have hfirst := (evaluator_orderly steps).2 .top n (h n List.mem_cons_self)
    refine hfirst.bind fun flow hflow => ?_
    -- nothing at the top level takes a signal, so the statement has ended normally
    rw [Flow.eq_normal_of_allowed_top hflow]
    exact (keeps_pure ()).bind fun _ => ih fun m hm => h m (List.mem_cons_of_mem _ hm)

end Evaluation

namespace Session

open Evaluation

/-- The sessions that a source can come to, with any input and any ceiling from one run to the
next. -/
inductive Reached (source : String) : Session → Prop where
  | fresh (inputs : List HostValue) (ceiling : Option Nat) :
    Reached source (.fresh source inputs ceiling)
  | run {s : Session} (h : Reached source s) (steps : Nat) : Reached source (s.run steps).2
  | reset {s : Session} (h : Reached source s) : Reached source s.reset
  | configure {s : Session} (h : Reached source s) (inputs : List HostValue)
      (ceiling : Option Nat) : Reached source { s with inputs := inputs, ceiling := ceiling }

/-- The store of a session after a run is the one that the program leaves behind. -/
theorem store_runNodes (steps : Nat) (s : Session) (nodes : List Node) :
    (s.runNodes steps nodes).2.store =
      (worldAfter (runAll (evaluator steps) nodes) s.env s.world).store := by
  unfold runNodes worldAfter
  cases runAll (evaluator steps) nodes s.env s.world with
  | ok _ w => rfl
  | error e w => rfl

/-- A run leaves the store as it is, if the program is not well formed, or as its statements do. -/
theorem store_run (steps : Nat) (s : Session) :
    (s.run steps).2.store = s.store ∨
    ∃ nodes, (Program.parse s.source).toExcept = .ok nodes ∧ (s.run steps).2.store =
      (worldAfter (runAll (evaluator steps) nodes) s.env s.world).store := by
  cases h : (Program.parse s.source).toExcept with
  | error e =>
    rw [run_of_error h]
    exact .inl rfl
  | ok nodes =>
    rw [run_of_ok h]
    exact .inr ⟨nodes, rfl, store_runNodes steps (s.keep nodes h) nodes⟩

/-- A run of statements whose signals stand inside of what they are meant for. -/
theorem runNodes_orderly (steps : Nat) {s : Session} {nodes : List Node} (hs : s.store.Confined)
    (h : ∀ n ∈ nodes, n.Settled .top) :
    (s.runNodes steps nodes).2.store.Confined ∧
    ∀ signal span, (s.runNodes steps nodes).1.failure ≠ some (.runtime ⟨.stray signal, span⟩) := by
  have hrun := keeps_runAll steps h s.env s.world hs
  unfold runNodes
  cases hw : runAll (evaluator steps) nodes s.env s.world with
  | ok _ w =>
    rw [hw] at hrun
    exact ⟨hrun.1, fun _ _ hfail => nomatch hfail⟩
  | error e w =>
    rw [hw] at hrun
    refine ⟨hrun.1, fun signal span hfail => ?_⟩
    cases e with
    | exhausted => cases hfail
    | error e =>
      cases hfail
      exact hrun.2 trivial

/-- **A run of a session keeps its functions confined, and no stray signal gets out.** -/
theorem run_orderly (steps : Nat) {s : Session} (hs : s.store.Confined)
    (h : ∀ n ∈ (Program.parse s.source).nodes, n.confined .top) :
    (s.run steps).2.store.Confined ∧
    ∀ signal span, (s.run steps).1.failure ≠ some (.runtime ⟨.stray signal, span⟩) := by
  cases hparse : (Program.parse s.source).toExcept with
  | error e =>
    rw [run_of_error hparse]
    exact ⟨hs, fun _ _ hfail => nomatch hfail⟩
  | ok nodes =>
    rw [run_of_ok hparse]
    obtain rfl := Parsed.nodes_of_toExcept hparse
    refine runNodes_orderly (s := s.keep _ hparse) steps hs fun n hn => ⟨?_, h n hn⟩
    have hsound := Program.everywhere_sound_any
      (False.elim : False → Lexeme.Lettered (Lexeme.lex s.source)) n hn
    exact hsound.imp fun m hm => hm.formed

/-- What is kept from one run to the next. -/
theorem Reached.confined {source : String} (h : ∀ n ∈ (Program.parse source).nodes, n.confined .top)
    {s : Session} (hs : Reached source s) : s.source = source ∧ s.store.Confined := by
  induction hs with
  | fresh inputs ceiling => exact ⟨rfl, Store.confined_empty⟩
  | @run s _ steps ih =>
    obtain ⟨rfl, hconfined⟩ := ih
    -- also a run that fails leaves the functions behind that it has declared
    exact ⟨source_run steps s, (run_orderly steps hconfined h).1⟩
  | reset _ ih => exact ih
  | configure _ inputs ceiling ih => exact ih

/-- **No signal is left over**: if in a source every `break` and `continue` stands in the body of a
loop, with no function between the two, and every returned value in the body of a function, then no
run of a session of this source stops with a signal that nothing takes. -/
theorem run_leaves_no_signal {source : String}
    (h : ∀ n ∈ (Program.parse source).nodes, n.confined .top) {s : Session}
    (hs : Reached source s) (steps : Nat) (signal : Signal) (span : Span) :
    (s.run steps).1.failure ≠ some (.runtime ⟨.stray signal, span⟩) := by
  obtain ⟨rfl, hconfined⟩ := hs.confined h
  exact (run_orderly steps hconfined h).2 signal span

/-- A function that leaves its loop and gives a value back, called once more in a second run. -/
theorem run_leaves_no_signal_twice : ∃ source : String,
    (∀ n ∈ (Program.parse source).nodes, n.confined .top) ∧
    ∀ signal span, (((Session.fresh source [] (some 9)).run 40).2.run 40).1.failure ≠
      some (.runtime ⟨.stray signal, span⟩) := by
  have hconfined : ∀ n ∈ (Program.parse ("Seek takes stone\nwhile true\nbuild stone up\n" ++
      "if stone is 5\nbreak\n\n\ngive back stone\n\nsay Seek taking 1\n")).nodes,
      n.confined .top := by
    decide +kernel
  exact ⟨_, hconfined, run_leaves_no_signal hconfined (.run (.fresh [] (some 9)) 40) 40⟩

/-- A loop takes no signal out of a function that is called in it. -/
example : (((Session.fresh "Seek takes stone\nbreak\n\nwhile true\nSeek taking 1\n").run
    20).1.failure.any fun e => match e with
      | .runtime ⟨.stray .breakLoop, _⟩ => true
      | _ => false) = true := by
  decide +kernel

end Session

end Ballad
