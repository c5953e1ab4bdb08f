import Ballad.HostValue
import Ballad.RuntimeError

/-!
# Evaluation

What the evaluation of a program works with.

- `World`: the store, the input that is left and the output so far.
- `Context`: the current frame and the world, which evaluation changes.
- `Halt`: why evaluation stops early. Running out of steps is not an error of the program.
- `Action`: anything that can be done in a context. The context is kept when it stops early.
- `Action.within`: does something in another frame, and goes back to the current one.
- `Eval`: evaluation, which leaves the program in the frame that it was in. All that evaluation is made
  of does so, and `Action.within` does so whatever is done in the other frame.
- `Flow`: how a statement ends: normally, or with a signal to the loop or function around it.
- `Evaluator`: how the parts of a node are evaluated. The rules for each kind of node are stated over
  an evaluator for its parts.

A name in parentheses, as in (`Context::within`), is the interpreter's own name for what is defined.
-/

namespace Ballad

namespace Evaluation

/-- The store, the input that is left and the output so far. -/
structure World where
  store : Store
  inputs : List HostValue
  said : Array HostValue
deriving Repr

/-- The current frame and the world (`Context`). -/
structure Context where
  frame : FrameRef
  world : World
deriving Repr

/-- Why evaluation stops early (`EvalResult`). -/
inductive Halt where
  | error (e : RuntimeError)
  /-- The steps are used up. -/
  | exhausted
deriving DecidableEq, Repr

/-- The context that is left behind, however an action ends. -/
def contextAfter {α : Type} : EStateM.Result Halt Context α → Context
  | .ok _ c | .error _ c => c

/-- What can be done in a context, under a ceiling on the rounds of a loop. It may stop early. -/
abbrev Action := ReaderT (Option Nat) (EStateM Halt Context)

/-- The current frame afterwards is the one before, however the action ends. -/
def Action.Restores {α : Type} (act : Action α) : Prop :=
  ∀ ceiling c, (contextAfter (act ceiling c)).frame = c.frame

/-- Evaluation: an action that leaves the program in the frame that it was in. -/
@[ext]
structure Eval (α : Type) where
  act : Action α
  restores : act.Restores

/-- How a statement ends (`Flow`). -/
inductive Flow where
  | normal
  | breakLoop (span : Span)
  | continueLoop (span : Span)
  | giveBack (value : Value) (span : Span)
deriving DecidableEq, Repr

/-- How the parts of a node are evaluated: locations to the variables that they name, expressions to
values, statements to flows. -/
structure Evaluator where
  resolve : Node → Eval (Option String)
  eval : Node → Eval Value
  exec : Node → Eval Flow

/-! ### Evaluations one after the other -/

theorem Action.Restores.bind {α β : Type} {x : Action α} {f : α → Action β} (hx : x.Restores)
    (hf : ∀ a, (f a).Restores) : (x >>= f).Restores := by
  intro ceiling c
  have hfirst := hx ceiling c
  show (contextAfter (EStateM.bind (x ceiling) (fun a => f a ceiling) c)).frame = c.frame
  unfold EStateM.bind
  cases hrun : x ceiling c with
  | ok a c' =>
    rw [hrun] at hfirst
    exact (hf a ceiling c').trans hfirst
  | error e c' =>
    rw [hrun] at hfirst
    exact hfirst

instance : Monad Eval where
  pure a := ⟨pure a, fun _ _ => rfl⟩
  bind x f := ⟨x.act >>= fun a => (f a).act, x.restores.bind fun a => (f a).restores⟩

/-! ### Stopping -/

/-- Stops early. -/
def halt {α : Type} (e : Halt) : Eval α :=
  ⟨throw e, fun _ _ => rfl⟩

/-- Stops with an error. -/
def fail {α : Type} (cause : RuntimeError.Cause) (span : Span) : Eval α :=
  halt (.error ⟨cause, span⟩)

/-- Stops because the steps are used up. -/
def exhaust {α : Type} : Eval α :=
  halt .exhausted

/-- The result, or a stop with the error. -/
def ofExcept {α : Type} : Except RuntimeError α → Eval α
  | .ok a => pure a
  | .error e => halt (.error e)

/-- The error of a signal that no loop or function takes (`Flow::stray`). -/
def Flow.stray : Flow → Except RuntimeError Unit
  | normal => .ok ()
  | breakLoop span => .error ⟨.stray .breakLoop, span⟩
  | continueLoop span => .error ⟨.stray .continueLoop, span⟩
  | giveBack _ span => .error ⟨.stray .giveBack, span⟩

/-! ### The world -/

/-- Changes the world and tells something about it. -/
def updateWorld {α : Type} (f : World → α × World) : Eval α :=
  ⟨fun _ ⟨frame, w⟩ =>
    let (a, w) := f w
    .ok a ⟨frame, w⟩, fun _ _ => rfl⟩

/-- Something that the store tells. -/
def inspect {α : Type} (f : Store → α) : Eval α :=
  updateWorld fun w => (f w.store, w)

/-- Changes the store and tells something about it. -/
def updateStore {α : Type} (f : Store → α × Store) : Eval α :=
  updateWorld fun ⟨store, inputs, said⟩ =>
    let (a, store) := f store
    (a, ⟨store, inputs, said⟩)

/-- Changes the store. -/
def modifyStore (f : Store → Store) : Eval Unit :=
  updateStore fun store => ((), f store)

/-- The next input (`InputFn`); there is nothing after the last one. -/
def nextInput : Eval HostValue :=
  updateWorld fun ⟨store, inputs, said⟩ => (inputs.headD .null, ⟨store, inputs.tail, said⟩)

/-- Says a value (`OutputFn`). -/
def announce (value : Value) : Eval Unit :=
  updateWorld fun ⟨store, inputs, said⟩ =>
    let tree := store.unfold value
    ((), ⟨store, inputs, said.push tree⟩)

/-- The current frame (`Context::scope`). -/
def currentFrame : Eval FrameRef :=
  ⟨fun _ c => .ok c.frame c, fun _ _ => rfl⟩

/-- The ceiling on the rounds of a loop, if `count` rounds reach it (`Config::max_loop_iterations`). -/
def ceilingAt? (count : Nat) : Eval (Option Nat) :=
  ⟨fun ceiling c => .ok (ceiling.filter (· ≤ count)) c, fun _ _ => rfl⟩

/-- Adds an array. -/
def newTable (t : Table) : Eval TableRef :=
  updateStore fun s => s.addTable t

/-- Stops because of a value that cannot be used so (`Value::unfit`). -/
def unfit {α : Type} (value : Value) (use : Use) (span : Span) : Eval α := do
  fail (.unfit (← inspect fun s => s.describe value) use) span

/-- The number that a value is (`Value::as_number`). -/
def asNumber (value : Value) (use : Use) (span : Span) : Eval Number :=
  match value with
  | .number n => pure n
  | value => unfit value use span

/-- The string that a value is (`Value::as_str`). -/
def asString (value : Value) (use : Use) (span : Span) : Eval String :=
  match value with
  | .string s => pure s
  | value => unfit value use span

/-! ### Frames -/

/-- Lets pronouns stand for `saved` again if what they stand for is not seen from the frame (in
`Context::within`). -/
def restoreReferent (frame : FrameRef) (saved : Option String) (w : World) : World :=
  match w.store.referent with
  | some name =>
    if (w.store.get? frame name).isNone then { w with store := w.store.setReferent saved } else w
  | none => w

/-- Goes back to a frame, in which pronouns stood for `saved`. -/
def Context.leave (c : Context) (outer : FrameRef) (saved : Option String) : Context :=
  ⟨outer, restoreReferent outer saved c.world⟩

/-- Does something in another frame and goes back to the current one, however that ends
(`Context::within`). Pronouns afterwards stand for a name that is seen from the current frame, if they
did before. -/
def Action.within {α : Type} (frame : FrameRef) (act : Action α) : Action α := fun ceiling c =>
  let saved := c.world.store.referent
  let outer := c.frame
  match act ceiling { c with frame := frame } with
  | .ok a c => .ok a (c.leave outer saved)
  | .error e c => .error e (c.leave outer saved)

/-- **The current frame is restored**, whatever has been done in the other frame: also if that has left
the program in yet another one. -/
theorem Action.restores_within {α : Type} (frame : FrameRef) (act : Action α) :
    (act.within frame).Restores := by
  intro ceiling c
  unfold Action.within
  cases act ceiling { c with frame := frame } with
  | ok a c' => rfl
  | error e c' => rfl

/-- Evaluates in another frame. -/
def within {α : Type} (frame : FrameRef) (x : Eval α) : Eval α :=
  ⟨x.act.within frame, x.act.restores_within frame⟩

/-! ### Running -/

/-- The current frame, and how often a loop may run. -/
structure Env where
  frame : FrameRef
  ceiling : Option Nat
deriving DecidableEq, Repr

/-- Evaluates from a frame and a world (`Context::new`). What is left behind besides the world is the
same frame. -/
def Eval.run {α : Type} (x : Eval α) (env : Env) (w : World) : EStateM.Result Halt World α :=
  match x.act env.ceiling ⟨env.frame, w⟩ with
  | .ok a c => .ok a c.world
  | .error e c => .error e c.world

instance {α : Type} : CoeFun (Eval α) fun _ => Env → World → EStateM.Result Halt World α :=
  ⟨Eval.run⟩

end Evaluation

end Ballad
