import Ballad.Evaluation.Basic

/-!
# Operations

- `Operation.apply`: a binary operator on two values. Equality is defined for all values, arithmetic
  for numbers, `plus` and the order also for strings.
- `Operation.truth`: the truth of an operand; arrays and functions have none.
- `Evaluator.binary`, `Evaluator.negation`: operators on expressions. `and`, `or` and `nor` evaluate
  the right operand only if the left one does not decide.
-/

namespace Ballad.Evaluation

namespace Operation

/-- The order of two values under a comparison, given their strict order both ways (`compare`). -/
def ordered (op : Operator) (less equalOrLess greater equalOrGreater : Bool) : Bool :=
  match op with
  | .greater => greater
  | .less => less
  | .greaterEqual => equalOrGreater
  | .lessEqual => equalOrLess
  | _ => false

/-- Compares two numbers. What is no number compares with nothing. -/
def compareNumbers (op : Operator) (a b : Number) : Bool :=
  ordered op (a.lt b) (a.le b) (b.lt a) (b.le a)

/-- Compares two strings by their characters. -/
def compareStrings (op : Operator) (a b : String) : Bool :=
  let less := decide (a < b)
  let greater := decide (b < a)
  ordered op less (!greater) greater (!less)

/-- The operand that does not fit (`offender`): the right one, if the left one would. -/
def offender (op : Operator) (a b : Value) : Value :=
  match a with
  | .number _ => b
  | .string _ => if op == .add || op.isComparison then b else a
  | _ => a

/-- A binary operator on two values (`Context::apply_binary`). -/
def apply (s : Store) (op : Operator) (a b : Value) (span : Span) : Except RuntimeError Value :=
  let unfit (use : Use) : Except RuntimeError Value :=
    .error ⟨.unfit (s.describe (offender op a b)) use, span⟩
  match op with
  | .equal => .ok (.boolean (a.eq b))
  | .notEqual => .ok (.boolean (!a.eq b))
  | .add =>
    match a, b with
    | .number x, .number y => .ok (.number (x.add y))
    | .string x, .string y => .ok (.string (x ++ y))
    | _, _ => unfit .arithmetic
  | .sub | .mul | .div =>
    match a, b with
    | .number x, .number y =>
      .ok (.number (if op = .sub then x.sub y else if op = .mul then x.mul y else x.div y))
    | _, _ => unfit .arithmetic
  | _ =>
    match a, b with
    | .number x, .number y => .ok (.boolean (compareNumbers op x y))
    | .string x, .string y => .ok (.boolean (compareStrings op x y))
    | _, _ => unfit .comparison

/-- The truth of an operand of `and`, `or`, `nor` or `not` (`truth`). -/
def truth (value : Value) (span : Span) : Eval Bool :=
  match value with
  | .array _ | .function _ => unfit value .logic span
  | value => pure value.isTruthy

end Operation

namespace Evaluator

open Operation

/-- The value of an operation (`Context::eval_binary`). -/
def binary (ev : Evaluator) (op : Operator) (left right : Node) (span : Span) : Eval Value := do
  let a ← ev.eval left
  if op.isBoolean then
    let x ← truth a span
    let decided := if op = .and then !x else x
    if decided then
      return .boolean (op == .or)
    let b ← ev.eval right
    let y ← truth b span
    return .boolean (if op = .nor then !y else y)
  else
    let b ← ev.eval right
    let s ← inspect id
    ofExcept (apply s op a b span)

/-- The value of a negation (`Context::eval_not`). -/
def negation (ev : Evaluator) (operand : Node) : Eval Value := do
  let v ← ev.eval operand
  return .boolean (!(← truth v operand.span))

end Evaluator

end Ballad.Evaluation
