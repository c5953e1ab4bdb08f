/-!
# Ranges of characters

The character classes are tables of code point ranges, sorted and disjoint.

- `inRanges`: membership in a table of ranges.
- `inRow`: membership in a run that takes every `step`-th character, as upper and lower case
  alternate in many scripts.
-/

namespace Ballad.Text

/-- Whether a character lies in one of the ranges, both ends included. -/
def inRanges (ranges : Array (Nat × Nat)) (c : Char) : Bool :=
  ranges.any fun (first, last) => first ≤ c.toNat && c.toNat ≤ last

/-- Whether a code point is one of `first`, `first + step`, … up to `last`. -/
def inRow (first last step code : Nat) : Bool :=
  first ≤ code && code ≤ last && (code - first) % step == 0

end Ballad.Text
