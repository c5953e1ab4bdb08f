import Ballad.Text.CaseTable

/-!
# Upper and lower case

Words are compared in lower case, and a capital letter marks a proper noun, in any script.

- `isUpper`: whether a character is upper case.
- `lowerChar`: the lower-case form of one character. It is one character, but for the dotted
  capital I, whose dot becomes a mark of its own.
- `lower`, `lowercase`: the lower-case form of a text. A capital sigma that ends a word becomes the
  final sigma.
- `lowerAscii`, `sameWord`: comparison that folds the ASCII letters only.
-/

namespace Ballad.Text

/-- Whether a character is upper case. -/
def isUpper (c : Char) : Bool :=
  if c.toNat < 128 then 'A' ≤ c && c ≤ 'Z'
  else upperRows.any fun (first, last, step) => inRow first last step c.toNat

/-- The lower-case form of a character beyond ASCII that has a single-character form. -/
def lowerBeyond (c : Char) : Char :=
  match lowerRows.find? fun (first, last, step, _) => inRow first last step c.toNat with
  | some (_, _, _, distance) => Char.ofNat (c.toNat + distance).toNat
  | none => c

/-- The lower-case form of one character, on its own. -/
def lowerChar (c : Char) : List Char :=
  if c.toNat < 128 then [c.toLower]
  else if c = 'İ' then ['i', '̇']
  else [lowerBeyond c]

/-- Whether a character has a case. -/
def isCased (c : Char) : Bool :=
  if c.toNat < 128 then c.isAlpha else inRanges casedRanges c

/-- Whether the search for a cased neighbour passes over a character. -/
def isCaseIgnorable (c : Char) : Bool :=
  if c.toNat < 128 then c ∈ ['\'', '.', ':', '^', '`'] else inRanges caseIgnorableRanges c

/-- Whether the first character that is not passed over has a case. -/
def startsCased (cs : List Char) : Bool :=
  match cs.dropWhile isCaseIgnorable with
  | c :: _ => isCased c
  | [] => false

/-- The lower-case form of a text. `afterCased` tells whether the last character before it that is
not passed over has a case. -/
def lower (afterCased : Bool) : List Char → List Char
  | [] => []
  | c :: rest =>
    let after := if isCaseIgnorable c then afterCased else isCased c
    if c = 'Σ' then
      (if afterCased && !startsCased rest then 'ς' else 'σ') :: lower after rest
    else
      lowerChar c ++ lower after rest

/-- The lower-case form of a text. -/
def lowercase (s : String) : String :=
  String.ofList (lower false s.toList)

/-- A text with its ASCII letters in lower case. -/
def lowerAscii (cs : List Char) : List Char :=
  cs.map Char.toLower

/-- Whether two texts differ at most in the case of ASCII letters. -/
def sameWord (a b : List Char) : Bool :=
  lowerAscii a == lowerAscii b

end Ballad.Text
