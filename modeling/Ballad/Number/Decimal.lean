import Ballad.Number.Integer

/-!
# Reading numbers

- `Number.ofDecimal`: the number nearest to `digits * 10 ^ exponent`.
- `Number.ofText?`: reads decimal notation, with optional sign, fraction and exponent, and the names
  of the infinities and of what is no number.
- `Number.ofRadixText?`: reads an integer of 64 bits in a base up to 36.
-/

namespace Ballad.Number

/-- The natural number that a list of decimal digits writes. -/
def digitsValue (ds : List Char) : Nat :=
  ds.foldl (fun n d => n * 10 + (d.toNat - '0'.toNat)) 0

/-- The number nearest to `digits * 10 ^ exponent`, for digits of the given count. Exponents far
outside of the range of a double are decided without computing the power. -/
def ofDecimal (negative : Bool) (digits count : Nat) (exponent : Int) : Number :=
  if digits = 0 then ofMagnitude negative 0
  else if 309 ≤ exponent then infinity negative
  else if exponent + count ≤ -324 then ofMagnitude negative 0
  else if 0 ≤ exponent then ofRatio negative (digits * Nat.pow 10 exponent.toNat) 1
  else ofRatio negative digits (Nat.pow 10 (-exponent).toNat)

/-- Splits off a sign; the first component tells whether it is a minus. -/
def splitSign : List Char → Bool × List Char
  | '-' :: cs => (true, cs)
  | '+' :: cs => (false, cs)
  | cs => (false, cs)

/-- Reads what follows the mantissa: nothing, or an exponent. -/
def exponentOf? : List Char → Option Int
  | [] => some 0
  | c :: cs =>
    if c = 'e' ∨ c = 'E' then
      let (negative, ds) := splitSign cs
      if ds.isEmpty || !ds.all Char.isDigit then none
      else some (if negative then -(digitsValue ds : Int) else digitsValue ds)
    else none

/-- Reads a number without sign: digits with at most one point among them, at least one digit, and
an optional exponent. -/
def unsigned? (negative : Bool) (cs : List Char) : Option Number :=
  let whole := cs.takeWhile Char.isDigit
  let afterWhole := cs.dropWhile Char.isDigit
  let (fraction, rest) :=
    match afterWhole with
    | '.' :: cs => (cs.takeWhile Char.isDigit, cs.dropWhile Char.isDigit)
    | cs => ([], cs)
  let digits := whole ++ fraction
  if digits.isEmpty then none
  else
    (exponentOf? rest).map fun exponent =>
      ofDecimal negative (digitsValue digits) digits.length (exponent - fraction.length)

/-- Reads the names of the values that have no digits, in any case. -/
def named? (negative : Bool) (cs : List Char) : Option Number :=
  match String.ofList (cs.map Char.toLower) with
  | "inf" | "infinity" => some (infinity negative)
  | "nan" => some nan
  | _ => none

/-- Reads a number in decimal notation. -/
def ofText? (s : String) : Option Number :=
  let (negative, cs) := splitSign s.toList
  (unsigned? negative cs).or (named? negative cs)

/-! ### Other bases -/

/-- The value of a digit, letters standing for ten and above. -/
def digit? (radix : Nat) (c : Char) : Option Nat :=
  let value :=
    if c.isDigit then c.toNat - '0'.toNat
    else if c.isAlpha then c.toLower.toNat - 'a'.toNat + 10
    else 36
  if value < radix then some value else none

/-- The natural number that a list of digits in the given base writes. -/
def radixValue? (radix : Nat) (cs : List Char) : Option Nat :=
  cs.foldlM (fun n c => (digit? radix c).map (n * radix + ·)) 0

/-- Reads an integer of 64 bits, with optional sign, in the given base. -/
def ofRadixText? (radix : Nat) (cs : List Char) : Option Number :=
  let (negative, ds) := splitSign cs
  if ds.isEmpty then none
  else
    (radixValue? radix ds).bind fun n =>
      let i : Int := if negative then -(n : Int) else n
      if -(Nat.pow 2 63 : Int) ≤ i ∧ i < (Nat.pow 2 63 : Int) then some (ofInt i) else none

end Ballad.Number
