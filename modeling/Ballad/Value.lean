import Ballad.Number.Integer

/-!
# Values

- `Value`: what variables hold. Arrays and functions are shared, so a value only says which array or
  function it is; what they hold is in the store.
- `Value.isTruthy`: which values count as true.
- `Value.eq`: equality of the language. Two arrays or functions are equal if they are the same one.
-/

namespace Ballad

/-- Which array of the store is meant. -/
structure TableRef where
  index : Nat
deriving DecidableEq, Repr

/-- Which function of the store is meant. -/
structure FunctionRef where
  index : Nat
deriving DecidableEq, Repr

/-- Which frame of the store is meant. -/
structure FrameRef where
  index : Nat
deriving DecidableEq, Repr

/-- What a variable holds (`Value`). -/
inductive Value where
  | number (n : Number)
  | string (s : String)
  | boolean (b : Bool)
  | null
  | mysterious
  | array (ref : TableRef)
  | function (ref : FunctionRef)
deriving DecidableEq, Repr, Inhabited

namespace Value

/-- Whether a value counts as true (`Value::is_truthy`): every number but zero, every string but the
empty one, every array and every function. -/
def isTruthy : Value → Bool
  | number n => !n.isZero
  | string s => !s.isEmpty
  | boolean b => b
  | null | mysterious => false
  | array _ | function _ => true

/-- Whether a value stands for the absence of one (`Value::is_nothing`). -/
def isNothing : Value → Bool
  | null | mysterious => true
  | _ => false

/-- Equality of values of the language (`Value::eq`); values of different kinds differ. -/
def eq : Value → Value → Bool
  | number a, number b => a.eq b
  | string a, string b => a == b
  | boolean a, boolean b => a == b
  | null, null => true
  | mysterious, mysterious => true
  | array a, array b => a == b
  | function a, function b => a == b
  | _, _ => false

end Value

end Ballad
