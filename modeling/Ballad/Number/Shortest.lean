import Ballad.Number.Integer

/-!
# Writing numbers

A number is written with the fewest digits that read back as the same number, and always in
positional notation.

- `Number.shortest`: those digits, and the power of ten of the last of them.
- `Number.positional`: digits with their point, or with the zeros that fill them up to it.
- `Number.text`: the text of a number. Integers up to `maxInteger` are written as integers, without a
  sign on zero.
-/

namespace Ballad.Number

/-- The reals that round to a number, in multiples of a common unit: the number itself, the ends of
the interval, the unit as a quotient, and whether the ends belong to the interval. -/
structure Interval where
  low : Nat
  value : Nat
  high : Nat
  unitNum : Nat
  unitDen : Nat
  closed : Bool

/-- The interval of a finite number. Its unit is a quarter of the last place, because the gap below
a power of two is half of the gap above. -/
def interval (n : Number) : Interval where
  low := if n.mantissa = Nat.pow 2 52 ∧ 1 < n.scale then 4 * n.mantissa - 1 else 4 * n.mantissa - 2
  value := 4 * n.mantissa
  high := 4 * n.mantissa + 2
  unitNum := Nat.pow 2 (n.scale - 1077)
  unitDen := Nat.pow 2 (1077 - n.scale)
  closed := n.mantissa % 2 = 0

namespace Interval

/-- Whether the point `num / den` lies in the interval. -/
def contains (i : Interval) (num den : Nat) : Bool :=
  let low := i.low * i.unitNum * den
  let high := i.high * i.unitNum * den
  let point := num * i.unitDen
  if i.closed then low ≤ point && point ≤ high else low < point && point < high

/-- The point of the decimal grid with the given spacing that stands for the value: one of its two
neighbours, if the interval holds it, and of two the nearer. A tie goes up. -/
def neighbour? (i : Interval) (spacingNum spacingDen : Nat) : Option Nat :=
  let num := i.value * i.unitNum * spacingDen
  let den := i.unitDen * spacingNum
  let below := num / den
  let hasBelow := i.contains (below * spacingNum) spacingDen
  let hasAbove := i.contains ((below + 1) * spacingNum) spacingDen
  if hasBelow && (!hasAbove || 2 * (num % den) < den) then some below
  else if hasAbove then some (below + 1)
  else none

/-- The exponent `p` for which the value is at least `10 ^ (p - 1)` and less than `10 ^ p`. -/
def exponent (i : Interval) : Int :=
  let num := i.value * i.unitNum
  let den := i.unitDen
  if den ≤ num then ((Nat.toDigits 10 (num / den)).length : Int)
  else 1 - ((Nat.toDigits 10 ((den + num - 1) / num - 1)).length : Int)

/-- The first grid, from the coarsest on, with a point in the interval: the point and the power of
ten of the grid. -/
def search (i : Interval) (p : Int) : List Nat → Nat × Int
  | [] => (0, 0)
  | count :: counts =>
    let x := p - count
    match i.neighbour? (Nat.pow 10 x.toNat) (Nat.pow 10 (-x).toNat) with
    | some point => (point, x)
    | none => i.search p counts

end Interval

/-- The fewest digits that read back as a finite number other than zero, as an integer, and the
power of ten that it is multiplied with. Seventeen digits always suffice. -/
def shortest (n : Number) : Nat × Int :=
  let i := n.interval
  i.search i.exponent ((List.range 17).map (· + 1))

/-- Writes `digits * 10 ^ exponent` with a point, or with zeros up to it. -/
def positional (digits : Nat) (exponent : Int) : List Char :=
  let all := Nat.toDigits 10 digits
  let zeros := (all.reverse.takeWhile (· = '0')).length
  let ds := all.take (all.length - zeros)
  let exponent := exponent + zeros
  if 0 ≤ exponent then ds ++ List.replicate exponent.toNat '0'
  else
    let places := (-exponent).toNat
    if places < ds.length then
      ds.take (ds.length - places) ++ '.' :: ds.drop (ds.length - places)
    else
      ['0', '.'] ++ List.replicate (places - ds.length) '0' ++ ds

/-- The text of an integer. -/
def integerText (i : Int) : String :=
  String.ofList ((if i < 0 then ['-'] else []) ++ Nat.toDigits 10 i.natAbs)

/-- The text of a number (`format_number`). -/
def text (n : Number) : String :=
  match n.toInt? with
  | some i => integerText i
  | none =>
    if n.isNaN then "NaN"
    else
      let body :=
        if n.isFinite then
          let (digits, exponent) := n.shortest
          positional digits exponent
        else ['i', 'n', 'f']
      String.ofList ((if n.negative then ['-'] else []) ++ body)

end Ballad.Number
