/-!
# Numbers

Every number of the language is an IEEE 754 double, held here by its bits, so that two numbers are
equal as data exactly when they are the same double.

- `Number`: the type.
- `Number.negative`, `Number.mantissa`, `Number.scale`: the fields of a double; a finite number is
  `± mantissa * 2 ^ scale / 2 ^ 1075`.
- `Number.order?`: the place of a number in the numeric order, which `eq`, `lt` and `le` compare.
- `Number.add`, `Number.sub`, `Number.mul`, `Number.div`: the correctly rounded operations.
-/

namespace Ballad

/-- A double, held by its bits. -/
structure Number where
  bits : UInt64
deriving DecidableEq, Repr, Inhabited

namespace Number

/-- The double that Lean computes with. -/
def toFloat (n : Number) : Float :=
  Float.ofBits n.bits

/-- The number that a double stands for. -/
def ofFloat (x : Float) : Number :=
  ⟨x.toBits⟩

/-- Whether the sign bit is set. -/
def negative (n : Number) : Bool :=
  Nat.pow 2 63 ≤ n.bits.toNat

/-- The bits below the sign. They grow with the absolute value. -/
def magnitude (n : Number) : Nat :=
  n.bits.toNat % Nat.pow 2 63

/-- The magnitude of the infinities. Above it are the values that are no numbers. -/
def infiniteMagnitude : Nat := 2047 * Nat.pow 2 52

/-- The number with the given sign and magnitude. -/
def ofMagnitude (negative : Bool) (magnitude : Nat) : Number :=
  ⟨UInt64.ofNat (if negative then Nat.pow 2 63 + magnitude else magnitude)⟩

/-- Positive zero. -/
def zero : Number := ofMagnitude false 0

/-- The infinity of the given sign. -/
def infinity (negative : Bool) : Number :=
  ofMagnitude negative infiniteMagnitude

/-- The value that is no number. -/
def nan : Number := ofMagnitude false (infiniteMagnitude + Nat.pow 2 51)

/-- Whether a value is no number. -/
def isNaN (n : Number) : Bool :=
  infiniteMagnitude < n.magnitude

/-- Whether a value is neither infinite nor no number. -/
def isFinite (n : Number) : Bool :=
  n.magnitude < infiniteMagnitude

/-- Whether a value is positive or negative zero. -/
def isZero (n : Number) : Bool :=
  n.magnitude == 0

/-! ### The value of a finite number -/

/-- The integer that `scale` multiplies. -/
def mantissa (n : Number) : Nat :=
  if n.magnitude < Nat.pow 2 52 then n.magnitude else n.magnitude % Nat.pow 2 52 + Nat.pow 2 52

/-- The power of two of a finite number, which is `± mantissa * 2 ^ scale / 2 ^ 1075`. -/
def scale (n : Number) : Nat :=
  max 1 (n.magnitude / Nat.pow 2 52)

/-! ### Order -/

/-- The place of a number in the numeric order. Both zeros have the same, and what is no number has
none. -/
def order? (n : Number) : Option Int :=
  if n.isNaN then none
  else some (if n.negative then -(n.magnitude : Int) else n.magnitude)

/-- Compares two numbers by their places; what is no number compares with nothing. -/
def related (r : Int → Int → Bool) (a b : Number) : Bool :=
  match a.order?, b.order? with
  | some x, some y => r x y
  | _, _ => false

/-- Numeric equality: zeros are equal, and what is no number equals nothing. -/
def eq (a b : Number) : Bool := related (fun x y => x == y) a b

/-- Numeric less-than. -/
def lt (a b : Number) : Bool := related (fun x y => decide (x < y)) a b

/-- Numeric less-or-equal. -/
def le (a b : Number) : Bool := related (fun x y => decide (x ≤ y)) a b

/-! ### Arithmetic -/

/-- The sum, rounded to the nearest number. -/
def add (a b : Number) : Number := ofFloat (a.toFloat + b.toFloat)

/-- The difference, rounded to the nearest number. -/
def sub (a b : Number) : Number := ofFloat (a.toFloat - b.toFloat)

/-- The product, rounded to the nearest number. -/
def mul (a b : Number) : Number := ofFloat (a.toFloat * b.toFloat)

/-- The quotient, rounded to the nearest number; division by zero is infinite or no number. -/
def div (a b : Number) : Number := ofFloat (a.toFloat / b.toFloat)

end Number

end Ballad
