import Ballad.Lexeme.Scan

/-!
# Contractions

An apostrophe and the letters after it belong to the word in front of them: `ain't` is one word.
Only the contracted copulas `'s` and `'re` have a meaning of their own, and are taken off again
before statements are read.

- `Lexeme.contract`: joins contractions to the words in front of them.
- `Lexeme.lex`: the lexemes of a source.
- `Lexeme.splitCopula`: takes a contracted copula off the word that carries it.
-/

namespace Ballad.Lexeme

/-- The contracted copulas (`COPULA_SUFFIXES`). -/
def copulaSuffixes : List (List Char) := [['\'', 's'], ['\'', 'r', 'e']]

/-- A word with a contraction at its end (`merge`). -/
def attach (word contraction : Lexeme) : Lexeme where
  kind := .identifier
  literal := word.literal ++ contraction.literal
  spelling := some (word.source ++ contraction.source)
  span := word.span.through contraction.span

/-- A contraction with no word in front of it (`degrade`): a contracted copula is a word, and anything
else counts as blank. Other lexemes stay as they are. -/
def settle (l : Lexeme) : Lexeme :=
  if l.kind = .contraction then
    let copula := copulaSuffixes.any (Text.sameWord l.literal.toList)
    { l with kind := if copula then .identifier else .whitespace }
  else l

/-- Joins contractions to the words in front of them, `last` being the lexeme before the list
(`Contractor::next`). -/
def contractAfter (last : Lexeme) : List Lexeme → List Lexeme
  | [] => [last]
  | l :: ls =>
    -- a word may take up several contractions
    if l.kind = .contraction ∧ last.kind = .identifier then contractAfter (last.attach l) ls
    else last :: contractAfter l.settle ls

/-- Joins contractions to the words in front of them (`Contractor`). -/
def contract : List Lexeme → List Lexeme
  | [] => []
  | l :: ls => contractAfter l.settle ls

/-- The lexemes of a source (`lex`). -/
def lex (source : String) : List Lexeme :=
  contract (scan source)

/-! ### Contracted copulas -/

/-- Cuts a suffix off a longer text, whatever the case of the suffix's letters (in `split_copula`). -/
def cutSuffix? (cs suffix : List Char) : Option (List Char × List Char) :=
  let stem := cs.take (cs.length - suffix.length)
  let tail := cs.drop (cs.length - suffix.length)
  if !stem.isEmpty && Text.sameWord tail suffix then some (stem, tail) else none

/-- A word that ends in a contracted copula becomes two (`split_copula`): `Tommy's` is `Tommy` and
`'s`. -/
def splitCopula (l : Lexeme) : List Lexeme :=
  if l.kind = .identifier then
    match copulaSuffixes.findSome? (cutSuffix? l.literal.toList) with
    | some (stem, copula) =>
      let middle := l.span.start.advance stem
      [⟨.identifier, String.ofList stem, none, ⟨l.span.start, middle⟩⟩,
        ⟨.identifier, String.ofList copula, none, ⟨middle, l.span.stop⟩⟩]
    | none => [l]
  else [l]

end Ballad.Lexeme
