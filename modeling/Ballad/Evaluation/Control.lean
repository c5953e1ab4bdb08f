import Ballad.Evaluation.Change
import Ballad.Evaluation.Operation

/-!
# Blocks, loops and calls

- `Evaluator.block`: statements one after the other, until one ends with a signal.
- `Evaluator.conditional`, `Evaluator.loop`: blocks in frames of their own. Each round of a loop has a
  new one.
- `Evaluator.declare`, `Evaluator.call`: functions. A function sees the frame that it was declared
  in, and its parameters.
-/

namespace Ballad.Evaluation.Evaluator

/-- Statements one after the other, until one ends with a signal (`Context::execute_block`). -/
def block (ev : Evaluator) : List Node → Eval Flow
  | [] => return .normal
  | node :: nodes => do
    match (← ev.exec node) with
    | .normal => ev.block nodes
    | flow => return flow

/-- Statements in a new frame inside of the current one (`Context::execute_nested`). -/
def nested (ev : Evaluator) (kind : FrameKind) (nodes : List Node) : Eval Flow := do
  let parent ← currentFrame
  let frame ← updateStore fun s => s.addFrame parent kind []
  within frame (ev.block nodes)

/-- A conditional (`Context::eval_conditional`). -/
def conditional (ev : Evaluator) (condition : Node) (body otherwise : List Node) : Eval Flow := do
  let v ← ev.eval condition
  let chosen := if v.isTruthy then body else otherwise
  if chosen.isEmpty then return .normal
  ev.nested .conditional chosen

/-- A loop that ends when the truth of its condition is `goal` (`Context::eval_loop`). `count` rounds
have run, and at most `steps` more are tried. The ceiling stops a loop that would begin one round too
many. -/
def loop (ev : Evaluator) (condition : Node) (body : List Node) (goal : Bool) (span : Span) :
    (steps count : Nat) → Eval Flow
  | 0, _ => exhaust
  | steps + 1, count => do
    let v ← ev.eval condition
    if v.isTruthy == goal then return .normal
    match (← ceilingAt? count) with
    | some limit => fail (.ceiling limit) span
    | none =>
      match (← ev.nested .loop body) with
      | .breakLoop _ => return .normal
      | .giveBack value at_ => return .giveBack value at_
      | .normal | .continueLoop _ => ev.loop condition body goal span steps (count + 1)

/-- Declares a function (`Context::declare_function`). Pronouns do not stand for it. -/
def declare (name : String) (parameters : List String) (body : List Node) : Eval Unit := do
  let frame ← currentFrame
  modifyStore fun s =>
    let (r, s) := s.addClosure ⟨name, parameters, body, frame⟩
    s.set frame name (.function r)

/-- Calls a function with values for its parameters (in `Context::eval_call`). -/
def enter (ev : Evaluator) (closure : Closure) (values : List Value) : Eval Value := do
  let bindings :=
    (closure.parameters.zip values).foldl (fun b (name, v) => Association.insert name v b) []
  let frame ← updateStore fun s => s.addFrame closure.frame .function bindings
  match (← within frame (ev.block closure.body)) with
  | .giveBack value _ => return value
  | flow =>
    ofExcept flow.stray
    return .null

/-- The value of a call (`Context::eval_call`). The number of arguments is checked before they are
evaluated. -/
def call (ev : Evaluator) (callee : Node) (arguments : List Node) (span : Span) : Eval Value := do
  match (← ev.read callee) with
  | .function r =>
    let closure ← inspect fun s => s.closure r
    if closure.parameters.length = arguments.length then
      let values ← ev.evalAll arguments
      ev.enter closure values
    else
      fail (.argumentCount closure.name closure.parameters.length arguments.length) span
  | other => unfit other .call callee.span

end Ballad.Evaluation.Evaluator
