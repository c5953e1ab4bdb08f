import Ballad.Number.Basic

/-!
# The nearest number

Rounding of exact values to doubles: to the nearest, and of two equally near to the one whose last
bit is zero.

- `Number.ofRatio`: the number nearest to a quotient of naturals.
- `Number.ofNat`, `Number.ofInt`: the number nearest to an integer.
-/

namespace Ballad.Number

/-- The quotient rounded to the nearest natural number; a half goes to the even neighbour. -/
def roundDiv (num den : Nat) : Nat :=
  let quotient := num / den
  let rest := num % den
  if 2 * rest < den then quotient
  else if den < 2 * rest then quotient + 1
  else quotient + quotient % 2

/-- The scale at which `num / den` has a mantissa of 53 bits, or the least scale there is. -/
def ratioScale (num den : Nat) : Nat :=
  let guess := 1076 + num.log2 - den.log2 - 53
  if den * Nat.pow 2 (guess + 52) ≤ num * Nat.pow 2 1075 then max 1 guess else max 1 (guess - 1)

/-- The number nearest to `num / den`, with the given sign. A value beyond the largest double
becomes infinite. -/
def ofRatio (negative : Bool) (num den : Nat) : Number :=
  if num = 0 then ofMagnitude negative 0
  else
    let scale := ratioScale num den
    let mantissa :=
      if scale ≤ 1075 then roundDiv (num * Nat.pow 2 (1075 - scale)) den
      else roundDiv num (den * Nat.pow 2 (scale - 1075))
    ofMagnitude negative (min infiniteMagnitude ((scale - 1) * Nat.pow 2 52 + mantissa))

/-- The number nearest to a natural number. -/
def ofNat (n : Nat) : Number :=
  ofRatio false n 1

/-- The number nearest to an integer. -/
def ofInt (n : Int) : Number :=
  ofRatio (decide (n < 0)) n.natAbs 1

end Ballad.Number
