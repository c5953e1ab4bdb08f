import Ballad.Evaluation.Control

/-!
# Evaluating nodes

- `Evaluator.evalNode`, `Evaluator.execNode`: one node, given an evaluator for its parts.
- `evaluator`: the evaluator that goes at most so many levels deep.
- `runAll`: a program, statement by statement.
-/

namespace Ballad.Evaluation

/-- The value of a literal. -/
def literalValue : Literal → Value
  | .number n => .number n
  | .string s => .string s
  | .boolean b => .boolean b
  | .null => .null
  | .mysterious => .mysterious

namespace Evaluator

/-- The value of a node (`Context::eval`). A statement is executed and has the value `null`. -/
def evalNode (ev : Evaluator) (node : Node) : Eval Value :=
  match node with
  | .literal _ value => pure (literalValue value)
  | .var .. | .pronoun .. | .index .. => ev.read node
  | .list _ items => do
    let values ← ev.evalAll items
    return .array (← newTable (.ofValues values))
  | .binary span op left right => ev.binary op left right span
  | .negation _ operand => ev.negation operand
  | .call span callee arguments => ev.call callee arguments span
  | .pop _ target => ev.pop target
  | node => do
    let flow ← ev.exec node
    ofExcept flow.stray
    return .null

/-- Executes a node, with `steps` rounds at most for a loop (`Context::execute`). The value of an
expression is dropped. -/
def execNode (ev : Evaluator) (steps : Nat) (node : Node) : Eval Flow :=
  match node with
  | .assign _ target value => do
    let v ← ev.eval value
    ev.write target v
    return .normal
  | .input _ target => do
    let host ← nextInput
    let v ← updateStore fun s => s.intern host
    match target with
    | some target => ev.write target v
    | none => pure ()
    return .normal
  | .output _ value => do
    announce (← ev.eval value)
    return .normal
  | .push _ target values => do
    ev.push target values
    return .normal
  | .change span kind source into argument => do
    ev.change kind source into argument span
    return .normal
  | .round span target mode => do
    ev.round target mode span
    return .normal
  | .conditional _ condition body otherwise => ev.conditional condition body otherwise
  | .loop span condition body goal => ev.loop condition body goal span steps 0
  | .function _ name parameters body => do
    declare name parameters body
    return .normal
  | .giveBack span value => return .giveBack (← ev.eval value) span
  | .breakLoop span => return .breakLoop span
  | .continueLoop span => return .continueLoop span
  | .otherwise _ | .blank _ => return .normal
  | node => do
    let _ ← ev.eval node
    return .normal

end Evaluator

/-- The evaluator that goes at most `steps` levels deep, and `steps` rounds through a loop. -/
def evaluator : (steps : Nat) → Evaluator
  | 0 => ⟨resolve, fun _ => exhaust, fun _ => exhaust⟩
  | steps + 1 =>
    ⟨resolve, fun node => (evaluator steps).evalNode node,
      fun node => (evaluator steps).execNode steps node⟩

/-- Executes statements one after the other (`Context::run`). No loop or function takes their
signals. -/
def runAll (ev : Evaluator) : List Node → Eval Unit
  | [] => return ()
  | node :: nodes => do
    let flow ← ev.exec node
    ofExcept flow.stray
    runAll ev nodes

end Ballad.Evaluation
