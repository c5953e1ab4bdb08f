import Ballad.Number.Basic
import Ballad.Span

/-!
# Syntax trees

- `Operator`: the binary operators, with the rank that decides which binds tighter.
- `Literal`: the values that can be written down.
- `Node`: the sentences and phrases of a program, each with the span of its source text.
- `Node.isLocation`, `Node.isValue`: what can be assigned to, and what has a value.
-/

namespace Ballad

/-- The binary operators (`BinaryOperator`). -/
inductive Operator where
  | add
  | sub
  | mul
  | div
  | equal
  | notEqual
  | greater
  | less
  | greaterEqual
  | lessEqual
  | and
  | or
  | nor
deriving DecidableEq, Repr

namespace Operator

/-- How tightly an operator binds (`BinaryOperator::rank`); a higher rank binds tighter. -/
def rank : Operator → Nat
  | and | or | nor => 1
  | equal | notEqual | greater | less | greaterEqual | lessEqual => 2
  | add | sub => 3
  | mul | div => 4

/-- Whether an operator joins truth values (`BinaryOperator::is_boolean`). -/
def isBoolean : Operator → Bool
  | and | or | nor => true
  | _ => false

/-- Whether an operator compares values (`BinaryOperator::is_comparison`). -/
def isComparison (op : Operator) : Bool :=
  op.rank == 2

/-- The plainest spelling of an operator (`BinaryOperator::fmt`). -/
def text : Operator → String
  | add => "plus"
  | sub => "minus"
  | mul => "times"
  | div => "over"
  | equal => "is"
  | notEqual => "is not"
  | greater => "is higher than"
  | less => "is lower than"
  | greaterEqual => "is as high as"
  | lessEqual => "is as low as"
  | and => "and"
  | or => "or"
  | nor => "nor"

/-- All operators. -/
def all : List Operator :=
  [add, sub, mul, div, equal, notEqual, greater, less, greaterEqual, lessEqual, and, or, nor]

end Operator

/-- Where a number is rounded to (`RoundMode`). -/
inductive Rounding where
  /-- To the next integer above. -/
  | up
  /-- To the next integer below. -/
  | down
  /-- To the nearest integer, a half away from zero. -/
  | nearest
deriving DecidableEq, Repr

/-- What a statement makes of a value in its place (`MutationKind`). -/
inductive Change where
  /-- Cuts a string into an array. -/
  | split
  /-- Puts the values of an array together to a string. -/
  | join
  /-- Turns a string into a number, or a number into a character. -/
  | cast
deriving DecidableEq, Repr

/-- A value that is written down. -/
inductive Literal where
  | number (value : Number)
  | string (value : String)
  | boolean (value : Bool)
  | null
  | mysterious
deriving DecidableEq, Repr

/-- A sentence or a phrase of a program (`Node`). The span covers its source text. -/
inductive Node where
  | literal (span : Span) (value : Literal)
  /-- A variable by its name: in lower case, its words separated by single blanks. -/
  | var (span : Span) (name : String)
  /-- A pronoun, which stands for the variable assigned last. -/
  | pronoun (span : Span) (word : String)
  | index (span : Span) (target key : Node)
  | list (span : Span) (items : List Node)
  | binary (span : Span) (op : Operator) (left right : Node)
  | negation (span : Span) (operand : Node)
  | call (span : Span) (callee : Node) (arguments : List Node)
  /-- Takes the last entry off an array. -/
  | pop (span : Span) (target : Node)
  | assign (span : Span) (target value : Node)
  /-- Takes the next input, and stores it if there is a target. -/
  | input (span : Span) (target : Option Node)
  | output (span : Span) (value : Node)
  /-- Appends values to an array. -/
  | push (span : Span) (target : Node) (values : List Node)
  /-- Changes the value of `source`, with an optional argument, and stores it in `into` or back where
  it came from. -/
  | change (span : Span) (kind : Change) (source : Node) (into argument : Option Node)
  | round (span : Span) (target : Node) (mode : Rounding)
  | conditional (span : Span) (condition : Node) (body otherwise : List Node)
  /-- Repeats the body until the truth of the condition is `goal`. -/
  | loop (span : Span) (condition : Node) (body : List Node) (goal : Bool)
  | function (span : Span) (name : String) (parameters : List String) (body : List Node)
  | giveBack (span : Span) (value : Node)
  | breakLoop (span : Span)
  | continueLoop (span : Span)
  /-- The line between the two bodies of a conditional. -/
  | otherwise (span : Span)
  /-- An empty line, which closes the innermost open body. -/
  | blank (span : Span)
deriving Repr, Inhabited

namespace Node

/-- The span of a node's source text. -/
def span : Node → Span
  | literal s _ | var s _ | pronoun s _ | index s _ _ | list s _ | binary s _ _ _
  | negation s _ | call s _ _ | pop s _ | assign s _ _ | input s _ | output s _ | push s _ _
  | change s _ _ _ _ | round s _ _ | conditional s _ _ _ | loop s _ _ _ | function s _ _ _
  | giveBack s _ | breakLoop s | continueLoop s | otherwise s | blank s => s

/-- A node with another span (`widen`). -/
def withSpan (s : Span) : Node → Node
  | literal _ v => literal s v
  | var _ n => var s n
  | pronoun _ w => pronoun s w
  | index _ t k => index s t k
  | list _ items => list s items
  | binary _ op l r => binary s op l r
  | negation _ x => negation s x
  | call _ c as => call s c as
  | pop _ t => pop s t
  | assign _ t v => assign s t v
  | input _ t => input s t
  | output _ v => output s v
  | push _ t vs => push s t vs
  | change _ k src i a => change s k src i a
  | round _ t m => round s t m
  | conditional _ c b o => conditional s c b o
  | loop _ c b g => loop s c b g
  | function _ n ps b => function s n ps b
  | giveBack _ v => giveBack s v
  | breakLoop _ => breakLoop s
  | continueLoop _ => continueLoop s
  | otherwise _ => otherwise s
  | blank _ => blank s

/-- What a node is called in diagnostics (`NodeKind::name`). -/
def kind : Node → String
  | literal _ (.number _) => "number"
  | literal _ (.string _) => "string"
  | literal _ (.boolean _) => "boolean"
  | literal _ .null => "null"
  | literal _ .mysterious => "mysterious"
  | var .. => "variable"
  | pronoun .. => "pronoun"
  | index .. => "index"
  | list .. => "list"
  | binary .. => "operation"
  | negation .. => "negation"
  | call .. => "call"
  | pop .. => "pop"
  | assign .. => "assignment"
  | input .. => "input"
  | output .. => "output"
  | push .. => "push"
  | change _ .split .. => "split"
  | change _ .join .. => "join"
  | change _ .cast .. => "cast"
  | round .. => "rounding"
  | conditional .. => "conditional"
  | loop .. => "loop"
  | function .. => "function declaration"
  | giveBack .. => "return"
  | breakLoop _ => "break"
  | continueLoop _ => "continue"
  | otherwise _ => "else"
  | blank _ => "empty statement"

/-- Whether a node names a place that can be assigned to (`Node::is_location`). -/
def isLocation : Node → Bool
  | var .. | pronoun .. | index .. => true
  | _ => false

/-- Whether a node has a value (`Node::is_value`). -/
def isValue : Node → Bool
  | literal .. | var .. | pronoun .. | index .. | list .. | binary .. | negation .. | call ..
  | pop .. => true
  | _ => false

/-- Whether the lines after a sentence belong to it (`opens_block`). -/
def opensBlock : Node → Bool
  | conditional .. | loop .. | function .. => true
  | _ => false

/-- The span from the first to the last of some nodes (in `ListBuilder::build`). -/
def spanOf : List Node → Span
  | [] => .origin
  | n :: ns => n.span.through ((n :: ns).getLast (by simp)).span

end Node

end Ballad
