import Ballad.Reading.Phrase
import Ballad.Text.Letter

/-!
# Poetic literals

What follows the copula in `my heart is a lonely hunter`. A number, a string or a word for a constant
stands for itself. Anything else is a number whose digits are the lengths of the words.

- `Digits`: the digits that have been read. Words that touch each other count as one, and the first
  blank that begins with a full stop is the decimal point.
- `Poetic`: what has been read of a literal.
- `Poetic.push`: takes a lexeme. The literal ends with its line.
-/

namespace Ballad.Reading

/-- The digits that have been read of a poetic number (`Digits`). -/
structure Digits where
  integer : List Nat := []
  fraction : List Nat := []
  /-- The letters of the word that is being read. -/
  pending : Option Nat := none
  /-- Whether the decimal point has been read. -/
  dotted : Bool := false
  /-- From the first to the last word. -/
  span : Option Span := none
deriving DecidableEq, Repr

namespace Digits

/-- The number of letters of a word (`letters`). -/
def letters (l : Lexeme) : Nat :=
  l.literal.toList.countP Text.isLetter

/-- Ends the word that is being read (`Digits::flush`): its length modulo ten is a digit. -/
def flush (d : Digits) : Digits :=
  match d.pending with
  | none => d
  | some count =>
    if d.dotted then { d with fraction := d.fraction ++ [count % 10], pending := none }
    else { d with integer := d.integer ++ [count % 10], pending := none }

/-- What a lexeme other than a line terminator adds to the digits (`Digits::push`). -/
def push (d : Digits) (l : Lexeme) : Digits :=
  match l.kind with
  | .identifier =>
    { d with
      pending := some (d.pending.getD 0 + letters l)
      span := some (match d.span with | some s => s.through l.span | none => l.span) }
  | .whitespace =>
    if !d.dotted && l.literal.toList.head? == some '.' then { d.flush with dotted := true }
    else d.flush
  | _ => d.flush

/-- The number that the digits write. -/
def value (d : Digits) : Number :=
  let digits := d.integer ++ d.fraction
  Number.ofDecimal false (digits.foldl (fun n x => n * 10 + x) 0) digits.length (-(d.fraction.length))

/-- The literal of a line that ends at `stop` (`Digits::finish`). -/
def finish (d : Digits) (stop : Span) : Except ParseError Node :=
  let d := d.flush
  let span := d.span.getD stop
  if d.integer.isEmpty && d.fraction.isEmpty then .error (.unfinished .poeticLiteral span)
  else .ok (.literal span (.number d.value))

end Digits

/-- What has been read of a poetic literal (`PoeticBuilder`). -/
inductive Poetic where
  /-- Nothing that means anything. -/
  | leading
  /-- A number or a string, which only the end of the line may follow. -/
  | literal (node : Node)
  /-- A word for a constant; the rest of the line is passed over. -/
  | constant (node : Node)
  /-- The digits of a number. -/
  | digits (read : Digits)
deriving Repr

namespace Poetic

/-- What the first lexeme that means something begins (in `PoeticBuilder::push`). -/
def start (l : Lexeme) : Except ParseError Poetic :=
  match l.kind with
  | .number => (Phrase.numberOf l).map fun n => literal (.literal l.span (.number n))
  | .string => .ok (literal (.literal l.span (.string l.literal)))
  | _ =>
    match l.word.bind Vocabulary.constant with
    | some value => .ok (constant (.literal l.span value))
    | none => .ok (digits (Digits.push {} l))

/-- What a lexeme does to a poetic literal (`PoeticBuilder::push`). -/
def push (p : Poetic) (l : Lexeme) : Except ParseError (Step Poetic Node) :=
  match p with
  | leading =>
    if l.isTrivia then .ok (.next leading)
    else if l.isNewline then .error (.unfinished .poeticLiteral l.span)
    else (start l).map .next
  | literal node =>
    if l.isTrivia then .ok (.next (literal node))
    else if l.isNewline then .ok (.done node)
    else .error (.unexpected l .poeticLiteral)
  | constant node => .ok (if l.isNewline then .done node else .next (constant node))
  | digits d =>
    if l.isNewline then (d.finish l.span).map .done else .ok (.next (digits (d.push l)))

end Poetic

end Ballad.Reading
