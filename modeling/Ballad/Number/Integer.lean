import Ballad.Number.Nearest

/-!
# Whole numbers

Up to `2 ^ 53 - 1` every integer is a double, and no two integers share one. Only such numbers count
as integers: they are printed as integers, index arrays and strings, and cross to the host as
integers.

- `Number.toInt?`: the integer that a number is.
- `Number.position?`: the integer of a number that can serve as a position.
- `Number.ofCount`: the number of a count, which stops at the largest exact integer.
- `Number.ceil`, `Number.floor`, `Number.round`: rounding to integers; a half goes away from zero.
-/

namespace Ballad.Number

/-- The largest integer that a number can be (`MAX_SAFE_U64_INT`). -/
def maxInteger : Nat := Nat.pow 2 53 - 1

/-- The absolute value of a finite number, rounded down, and the remainder, as a fraction: the
integer part, the numerator and the denominator. -/
def integerPart (n : Number) : Nat × Nat × Nat :=
  if 1075 ≤ n.scale then (n.mantissa * Nat.pow 2 (n.scale - 1075), 0, 1)
  else
    let den := Nat.pow 2 (1075 - n.scale)
    (n.mantissa / den, n.mantissa % den, den)

/-- The integer that a number is, if it is one of absolute value at most `maxInteger`
(`exact_integer`). Negative zero is the integer zero. -/
def toInt? (n : Number) : Option Int :=
  if n.isFinite then
    let (whole, rest, _) := n.integerPart
    if rest = 0 ∧ whole ≤ maxInteger then
      some (if n.negative then -(whole : Int) else whole)
    else none
  else none

/-- The integer that a number is, if it is not negative (`f64_to_usize_checked`). -/
def position? (n : Number) : Option Nat :=
  n.toInt?.bind fun i => if 0 ≤ i then some i.toNat else none

/-- The integer that a number is, if it fits into 32 bits without sign (`f64_to_u32_checked`). -/
def toWord? (n : Number) : Option Nat :=
  n.position?.bind fun i => if i < Nat.pow 2 32 then some i else none

/-- The number of a count (`usize_to_f64`). Counts beyond `maxInteger` become `maxInteger`. -/
def ofCount (n : Nat) : Number :=
  ofNat (min n maxInteger)

/-! ### Rounding to integers -/

/-- Replaces the fraction of a finite number: the sign stays, and the absolute value becomes the
integer that `choose` makes of the integer part, the numerator and the denominator. -/
def settle (choose : Nat → Nat → Nat → Nat) (n : Number) : Number :=
  if n.isFinite then
    let (whole, rest, den) := n.integerPart
    if rest = 0 then n else ofRatio n.negative (choose whole rest den) 1
  else n

/-- The least integer that is not below a number. -/
def ceil (n : Number) : Number :=
  n.settle fun whole _ _ => if n.negative then whole else whole + 1

/-- The greatest integer that is not above a number. -/
def floor (n : Number) : Number :=
  n.settle fun whole _ _ => if n.negative then whole + 1 else whole

/-- The nearest integer; a half goes away from zero. -/
def round (n : Number) : Number :=
  n.settle fun whole rest den => if den ≤ 2 * rest then whole + 1 else whole

end Ballad.Number
