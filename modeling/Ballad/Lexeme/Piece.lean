import Ballad.Lexeme.Basic
import Ballad.Text.Letter

/-!
# Pieces

The first step of reading a source cuts it into pieces: the longest stretch that begins here and is
of one kind. The pieces put together are the source again, and every piece holds at least one
character.

- `Piece`: a kind and its characters.
- `Piece.first`: the piece that a text begins with, and the rest of the text.
- `Piece.cut`: all pieces of a text.

Comments and strings end where they are closed, or with the source. A number goes on for as long as
it can still be read as one. What is of no kind is a piece of one character that counts as blank.
-/

namespace Ballad

/-- A stretch of source text of one kind (`RawToken`). -/
structure Piece where
  kind : Lexeme.Kind
  text : List Char
deriving DecidableEq, Repr

namespace Piece

/-! ### Comments -/

/-- The text of a comment up to the parenthesis that closes it, `depth` of them being open, and what
follows (`scan_comment`). -/
def comment (depth : Nat) : List Char → List Char × List Char
  | [] => ([], [])
  | c :: cs =>
    if c = ')' ∧ depth ≤ 1 then ([c], cs)
    else
      let depth := if c = '(' then depth + 1 else if c = ')' then depth - 1 else depth
      let (text, rest) := comment depth cs
      (c :: text, rest)

/-! ### Strings -/

/-- The text of a string up to the quote that closes it, and what follows (`scan_string`). A backslash
takes the next character with it. -/
def string : List Char → List Char × List Char
  | [] => ([], [])
  | '"' :: cs => (['"'], cs)
  | '\\' :: c :: cs =>
    let (text, rest) := string cs
    ('\\' :: c :: text, rest)
  | c :: cs =>
    let (text, rest) := string cs
    (c :: text, rest)

/-- What the text of a string after its opening quote denotes (in `scan_string`). -/
def decode : List Char → List Char
  | [] => []
  | '"' :: _ => []
  | '\\' :: 'n' :: cs => '\n' :: decode cs
  | '\\' :: 'r' :: cs => '\r' :: decode cs
  | '\\' :: 't' :: cs => '\t' :: decode cs
  | '\\' :: '\\' :: cs => '\\' :: decode cs
  | '\\' :: '"' :: cs => '"' :: decode cs
  | '\\' :: c :: cs => '\\' :: c :: decode cs
  | c :: cs => c :: decode cs

/-! ### Numbers -/

/-- What may still follow in a number (`NumberScan`). -/
structure NumberState where
  /-- A digit has been read. -/
  digits : Bool
  /-- A point may follow. -/
  dot : Bool
  /-- An exponent may follow. -/
  exponent : Bool
  /-- A sign may follow, because the last character was the mark of the exponent. -/
  sign : Bool
deriving DecidableEq, Repr

/-- The state after the first character of a number (`NumberScan::starting_with`): a digit, a sign or a
point. -/
def NumberState.start (c : Char) : NumberState :=
  ⟨c.isDigit, c ≠ '.', true, false⟩

/-- Whether a text begins with the digits of an exponent, after an optional sign
(`exponent_follows`). -/
def exponentFollows : List Char → Bool
  | c :: d :: _ => c.isDigit || ((c = '+' || c = '-') && d.isDigit)
  | [c] => c.isDigit
  | [] => false

/-- The state after one more character, or nothing if the number ends before it
(`NumberScan::accept`). -/
def NumberState.next (s : NumberState) (c : Char) (rest : List Char) : Option NumberState :=
  if c.isDigit then some { s with digits := true, sign := false }
  else if c = '.' ∧ s.dot then some { s with dot := false, sign := false }
  else if (c = 'e' ∨ c = 'E') ∧ s.digits ∧ s.exponent ∧ exponentFollows rest then
    some { s with exponent := false, dot := false, sign := true }
  else if (c = '+' ∨ c = '-') ∧ s.sign then some { s with sign := false }
  else none

/-- The characters that go on with a number, and what follows (`scan_number`). -/
def number (s : NumberState) : List Char → List Char × List Char
  | [] => ([], [])
  | c :: cs =>
    match s.next c cs with
    | some s =>
      let (text, rest) := number s cs
      (c :: text, rest)
    | none => ([], c :: cs)

/-- A sign or a point that nothing goes on with is no number and counts as blank (in `scan_number`). -/
def numberKind (c : Char) (text : List Char) : Lexeme.Kind :=
  if text.isEmpty && !c.isDigit then .whitespace else .number

/-! ### All pieces -/

/-- Whether a character is a blank of the language. -/
def isSpace (c : Char) : Bool :=
  c = ' ' || c = '\t' || c = '\x0b' || c = '\x0c'

/-- Splits a list after its longest beginning that satisfies a predicate. -/
def spanWhile (p : Char → Bool) (cs : List Char) : List Char × List Char :=
  (cs.takeWhile p, cs.dropWhile p)

/-- The kind of the piece that begins with the character `c`, the characters of the text `cs` that go
on with it, and the rest. -/
def extent (c : Char) (cs : List Char) : Lexeme.Kind × List Char × List Char :=
  if c = '(' then (.comment, comment 1 cs)
  else if c = '"' then (.string, string cs)
  else if c = '\'' then (.contraction, spanWhile Text.isLetter cs)
  else if Text.isLetter c then (.identifier, spanWhile Text.isLetter cs)
  else if c.isDigit || c = '+' || c = '-' || c = '.' then
    (numberKind c (number (.start c) cs).1, number (.start c) cs)
  else if c = '\n' then (.newline, [], cs)
  else if c = '\r' then
    match cs with
    | '\n' :: rest => (.newline, ['\n'], rest)
    | cs => (.whitespace, [], cs)
  else if c = ',' || c = '&' then (.delimiter, [], cs)
  else if isSpace c then (.whitespace, spanWhile isSpace cs)
  else (.whitespace, [], cs)

/-- The piece that begins with the character `c`, and the rest of the text `cs` after it
(`Lexer::next_piece`). -/
def first (c : Char) (cs : List Char) : Piece × List Char :=
  let (kind, text, rest) := extent c cs
  (⟨kind, c :: text⟩, rest)

/-! ### Nothing is lost -/

theorem comment_append (depth : Nat) (cs : List Char) :
    (comment depth cs).1 ++ (comment depth cs).2 = cs := by
  induction cs generalizing depth with
  | nil => rfl
  | cons c cs ih =>
    rw [comment]
    split
    · rfl
    · simp [ih]

theorem string_append (cs : List Char) : (string cs).1 ++ (string cs).2 = cs := by
  fun_induction string cs with
  | case1 => rfl
  | case2 cs => rfl
  | case3 c cs text rest h ih => simpa [h] using ih
  | case4 c cs _ _ text rest h ih => simpa [h] using ih

theorem number_append (s : NumberState) (cs : List Char) :
    (number s cs).1 ++ (number s cs).2 = cs := by
  induction cs generalizing s with
  | nil => rfl
  | cons c cs ih =>
    rw [number]
    split
    · simp [ih]
    · rfl

theorem spanWhile_append (p : Char → Bool) (cs : List Char) :
    (spanWhile p cs).1 ++ (spanWhile p cs).2 = cs :=
  List.takeWhile_append_dropWhile

theorem extent_append (c : Char) (cs : List Char) :
    (extent c cs).2.1 ++ (extent c cs).2.2 = cs := by
  unfold extent
  repeat' split
  all_goals simp [comment_append, string_append, number_append, spanWhile_append]

/-- A piece and the rest after it are the text. -/
theorem first_append (c : Char) (cs : List Char) :
    (first c cs).1.text ++ (first c cs).2 = c :: cs := by
  simp [first, extent_append]

/-- The rest after a piece is shorter than the text. -/
theorem length_first_lt (c : Char) (cs : List Char) :
    (first c cs).2.length < (c :: cs).length := by
  have h := congrArg List.length (first_append c cs)
  have ht : 0 < (first c cs).1.text.length := by simp [first]
  rw [List.length_append] at h
  omega

/-- The pieces of a text, in order. -/
def cut : List Char → List Piece
  | [] => []
  | c :: cs => (first c cs).1 :: cut (first c cs).2
termination_by cs => cs.length
decreasing_by exact length_first_lt c cs

end Piece

end Ballad
