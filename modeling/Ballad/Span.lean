/-!
# Positions and spans

- `Position`: a line and a column of the source. Lines count from one and columns from zero, in
  characters.
- `Position.advance`: where a reader stands after some text. Only a line feed starts a new line.
- `Span`: the stretch of source from one position to another.
- `Span.through`: from the start of one span to the end of another.

A name in parentheses, as in (`Range::to`), is the interpreter's own name for what is defined, here and
in all modules below.
-/

namespace Ballad

/-- A point of the source text (`Position`). -/
structure Position where
  line : Nat
  column : Nat
deriving DecidableEq, Repr

namespace Position

/-- Where every source begins (`Position::ORIGIN`). -/
def origin : Position := ⟨1, 0⟩

/-- The position after one character. -/
def next (p : Position) (c : Char) : Position :=
  if c = '\n' then ⟨p.line + 1, 0⟩ else ⟨p.line, p.column + 1⟩

/-- The position after some text (`Position::advance`). -/
def advance (p : Position) (text : List Char) : Position :=
  text.foldl next p

/-- The reading order: by line, then by column. -/
def le (p q : Position) : Prop :=
  p.line < q.line ∨ p.line = q.line ∧ p.column ≤ q.column

instance : LE Position := ⟨le⟩

instance (p q : Position) : Decidable (p ≤ q) :=
  inferInstanceAs (Decidable (_ ∨ _))

/-- A position as line and column (`Position::fmt`). -/
def text (p : Position) : String :=
  p.line.repr ++ ":" ++ p.column.repr

instance : Inhabited Position := ⟨origin⟩

@[simp] theorem advance_nil (p : Position) : p.advance [] = p := rfl

@[simp] theorem advance_cons (p : Position) (c : Char) (cs : List Char) :
    p.advance (c :: cs) = (p.next c).advance cs := rfl

@[simp] theorem advance_append (p : Position) (as bs : List Char) :
    p.advance (as ++ bs) = (p.advance as).advance bs := List.foldl_append

end Position

/-- A stretch of source text, from `start` up to but not including `stop` (`Range`). -/
structure Span where
  start : Position
  stop : Position
deriving DecidableEq, Repr

namespace Span

/-- The empty span at the origin. -/
def origin : Span := ⟨.origin, .origin⟩

instance : Inhabited Span := ⟨origin⟩

/-- The span from the start of one to the end of the other (`Range::to`). -/
def through (a b : Span) : Span := ⟨a.start, b.stop⟩

/-- The span of some text that begins at a position. -/
def ofText (p : Position) (text : List Char) : Span := ⟨p, p.advance text⟩

/-- Whether one span lies within another. -/
def contains (outer inner : Span) : Prop :=
  outer.start ≤ inner.start ∧ inner.stop ≤ outer.stop

instance (a b : Span) : Decidable (a.contains b) :=
  inferInstanceAs (Decidable (_ ∧ _))

/-- A span as its two ends (`Range::fmt`). -/
def text (s : Span) : String :=
  s.start.text ++ "-" ++ s.stop.text

end Span

end Ballad
