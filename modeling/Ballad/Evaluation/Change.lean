import Ballad.Evaluation.Location
import Ballad.Number.Decimal
import Ballad.Text.Blank

/-!
# Changes in place

- `splitText`: cuts a text at every delimiter, from left to right.
- `joinTexts`: puts texts together with a delimiter between them.
- `castText?`, `castNumber?`: a number from a text, and a character from its code point.
- `Evaluator.change`: the statements that apply these to a location.
- `Evaluator.push`, `Evaluator.pop`, `Evaluator.round`: the other statements that change a location.
-/

namespace Ballad.Evaluation

/-! ### Splitting and joining -/

/-- Cuts a text at a delimiter. `run` holds, in reverse, the piece that is being collected, and `skip`
counts the characters of a delimiter that are still to be passed over. -/
def splitFrom (delimiter run : List Char) : (skip : Nat) → List Char → List (List Char)
  | _, [] => [run.reverse]
  | skip + 1, _ :: cs => splitFrom delimiter run skip cs
  | 0, c :: cs =>
    if delimiter.isPrefixOf (c :: cs) then
      run.reverse :: splitFrom delimiter [] (delimiter.length - 1) cs
    else
      splitFrom delimiter (c :: run) 0 cs

/-- Cuts a text at every delimiter. The empty delimiter cuts it into its characters. -/
def splitText (delimiter text : String) : List String :=
  if delimiter.isEmpty then text.toList.map fun c => String.ofList [c]
  else (splitFrom delimiter.toList [] 0 text.toList).map String.ofList

/-- Puts texts together with a delimiter between them. -/
def joinTexts (delimiter : String) (texts : List String) : String :=
  delimiter.intercalate texts

/-! ### Casting -/

/-- The number that a text writes in a base (`parse_number`). Blanks around it do not count. -/
def castText? (text : String) (radix : Nat) : Option Number :=
  let cs := Text.trim text.toList
  if radix = 10 then (Number.ofText? (String.ofList cs)).filter (!·.isNaN)
  else Number.ofRadixText? radix cs

/-- The character of a code point (in `Context::eval_cast`). -/
def castNumber? (n : Number) : Option String :=
  n.toWord?.bind fun code =>
    if code.isValidChar then some (String.ofList [Char.ofNat code]) else none

namespace Evaluator

/-- The delimiter of a split or a join (`Context::delimiter`); without one it is empty. -/
def delimiter (ev : Evaluator) (argument : Option Node) : Eval String := do
  match argument with
  | some node => asString (← ev.eval node) .string node.span
  | none => return ""

/-- The base of a cast (in `Context::eval_cast`); without one it is ten. -/
def radix (ev : Evaluator) (argument : Option Node) : Eval Nat := do
  match argument with
  | some node =>
    let n ← asNumber (← ev.eval node) .cast node.span
    match n.toWord?.filter fun r => 2 ≤ r && r ≤ 36 with
    | some r => return r
    | none => fail (.outOfRange n.text) node.span
  | none => return 10

/-- What a split makes of a string (`Context::eval_split`). -/
def split (ev : Evaluator) (source : Value) (argument : Option Node) (span : Span) : Eval Value := do
  let text ← asString source .string span
  let d ← ev.delimiter argument
  return .array (← newTable (.ofValues ((splitText d text).map .string)))

/-- What a join makes of an array (`Context::eval_join`). -/
def join (ev : Evaluator) (source : Value) (argument : Option Node) (span : Span) : Eval Value := do
  match source with
  | .array r =>
    let d ← ev.delimiter argument
    inspect fun s => .string (joinTexts d ((s.table r).values.map s.text))
  | other => unfit other .array span

/-- What a cast makes of a string or a number (`Context::eval_cast`). -/
def cast (ev : Evaluator) (source : Value) (argument : Option Node) (span : Span) : Eval Value := do
  let r ← ev.radix argument
  match source with
  | .string text =>
    match castText? text r with
    | some n => return .number n
    | none => unfit source .cast span
  | .number n =>
    match castNumber? n with
    | some s => return .string s
    | none => fail (.outOfRange n.text) span
  | other => unfit other .cast span

/-- Changes the value of `source` and stores it in `into` or back where it came from
(`Context::store`). -/
def change (ev : Evaluator) (kind : Change) (source : Node) (into argument : Option Node)
    (span : Span) : Eval Unit := do
  let value ← ev.eval source
  let changed ←
    match kind with
    | .split => ev.split value argument span
    | .join => ev.join value argument span
    | .cast => ev.cast value argument span
  ev.write (into.getD source) changed

/-! ### Stacks and rounding -/

/-- The values of some nodes, in order. -/
def evalAll (ev : Evaluator) : List Node → Eval (List Value)
  | [] => return []
  | node :: nodes => do
    let v ← ev.eval node
    return v :: (← ev.evalAll nodes)

/-- Appends values to the array of a location (`Context::eval_push`). -/
def push (ev : Evaluator) (target : Node) (values : List Node) : Eval Unit := do
  let vs ← ev.evalAll values
  let r ← ev.arrayAt target .array
  modifyStore fun s => s.modifyTable r fun t => vs.foldl Table.push t

/-- Takes the last value off the array of a location (`Context::eval_pop`). -/
def pop (ev : Evaluator) (target : Node) : Eval Value := do
  match (← ev.read target) with
  | .array r => do
    let top ← inspect fun s => (s.table r).top
    modifyStore fun s => s.modifyTable r Table.dropTop
    return top
  | other => unfit other .array target.span

/-- Rounds the number of a location (`Context::eval_round`). -/
def round (ev : Evaluator) (target : Node) (mode : Rounding) (span : Span) : Eval Unit := do
  let n ← asNumber (← ev.read target) .rounding span
  let rounded :=
    match mode with
    | .up => n.ceil
    | .down => n.floor
    | .nearest => n.round
  ev.write target (.number rounded)

end Evaluator

end Ballad.Evaluation
