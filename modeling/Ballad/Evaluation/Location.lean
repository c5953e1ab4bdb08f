import Ballad.Evaluation.Basic

/-!
# Locations

- `Evaluator.tryRead`, `Evaluator.read`: the value of a location. A variable may have none; an entry
  that an array does not have is `mysterious`.
- `Evaluator.write`: assigns to a location. Assigning to an entry makes the array if there is none.
- `Evaluator.arrayAt`: the array of a location, which is made if there is none.
-/

namespace Ballad.Evaluation

/-- A location as diagnostics show it (`describe`). -/
def describeLocation : Node → String
  | .var _ name => name
  | .pronoun _ word => word
  | .index _ target _ => describeLocation target ++ " at ..."
  | node => node.kind

/-- The variable that a node names (`Context::resolve_name`). A pronoun names the variable assigned
last. -/
def resolve (node : Node) : Eval (Option String) :=
  match node with
  | .var _ name => pure (some name)
  | .pronoun span word => do
    match (← inspect Store.referent) with
    | some name => return some name
    | none => fail (.unassigned word) span
  | _ => pure none

/-- Assigns to a variable, and lets pronouns stand for it (`Scope::set`, `Scope::remember`). -/
def assign (name : String) (value : Value) : Eval Unit := do
  let frame ← currentFrame
  modifyStore fun s => (s.set frame name value).setReferent (some name)

/-- The key of a value (`ArrayKey::from_value`). -/
def keyOf (value : Value) (span : Span) : Eval Key := do
  match Key.ofValue? value with
  | some key => return key
  | none => fail (.invalidIndex (← inspect fun s => s.describe value)) span

/-- The character at a position of a string (in `Context::try_read`). -/
def charAt? (s : String) (index : Value) : Option Value :=
  match index with
  | .number n => (n.position?.bind fun p => s.toList[p]?).map fun c => .string (String.ofList [c])
  | _ => none

/-- The entry of an array or the character of a string (in `Context::try_read`). -/
def entry (container index : Value) (span : Span) : Eval Value := do
  match container with
  | .array r =>
    let key ← keyOf index span
    return (← inspect fun s => (s.table r).get? key).getD .mysterious
  | .string s =>
    match charAt? s index with
    | some v => return v
    | none => fail (.invalidIndex (← inspect fun s => s.describe index)) span
  | other => unfit other .indexing span

namespace Evaluator

/-- The value of a location, if it has one (`Context::try_read`). Any other node is evaluated. -/
def tryRead (ev : Evaluator) (node : Node) : Eval (Option Value) := do
  match (← ev.resolve node) with
  | some name =>
    let frame ← currentFrame
    inspect fun s => s.get? frame name
  | none =>
    match node with
    | .index span target key =>
      let container ← ev.eval target
      let index ← ev.eval key
      return some (← entry container index span)
    | node => return some (← ev.eval node)

/-- The value of a location (`Context::read`). -/
def read (ev : Evaluator) (node : Node) : Eval Value := do
  match (← ev.tryRead node) with
  | some v => return v
  | none => fail (.unassigned (describeLocation node)) node.span

/-- The array of a location (in `Context::array_at`). If there is none, a new one is stored there with
`store`. -/
def arrayWith (ev : Evaluator) (target : Node) (use : Use) (store : Value → Eval Unit) :
    Eval TableRef := do
  match (← ev.tryRead target) with
  | some (.array r) => return r
  | some v =>
    if v.isNothing then create else unfit v use target.span
  | none => create
where
  /-- A new array, stored in the location. -/
  create : Eval TableRef := do
    let r ← newTable .empty
    store (.array r)
    return r

/-- Assigns to a location (`Context::write`). -/
def write (ev : Evaluator) : Node → Value → Eval Unit
  | .index span target key => fun value => do
    let k ← keyOf (← ev.eval key) span
    let r ← ev.arrayWith target .indexing (ev.write target)
    modifyStore fun s => s.modifyTable r (·.set k value)
  | node => fun value => do
    match (← ev.resolve node) with
    | some name => assign name value
    | none => fail (.unassigned (describeLocation node)) node.span

/-- The array of a location, which is made if there is none (`Context::array_at`). -/
def arrayAt (ev : Evaluator) (target : Node) (use : Use) : Eval TableRef :=
  ev.arrayWith target use (ev.write target)

end Evaluator

end Ballad.Evaluation
