import Ballad.Lexeme.Contraction
import Ballad.Reading.Line

/-!
# Programs

- `Parsed`: the statements of a source, up to the first mistake.
- `Program.ofLexemes`: reads lexemes, with the contracted copulas taken off their words.
- `Program.parse`: reads a source.
-/

namespace Ballad

open Reading

/-- The statements of a source, and the mistake that ended the reading, if there is one. -/
structure Parsed where
  nodes : List Node
  failure : Option ParseError
deriving Repr

namespace Parsed

/-- Nothing but a mistake (`Parser::fail`). -/
def fail (e : ParseError) : Parsed := ⟨[], some e⟩

/-- One more statement in front. -/
def cons (node : Node) (p : Parsed) : Parsed := { p with nodes := node :: p.nodes }

/-- All statements, if there is no mistake (in `parse`). -/
def toExcept (p : Parsed) : Except ParseError (List Node) :=
  match p.failure with
  | some e => .error e
  | none => .ok p.nodes

end Parsed

namespace Program

/-- Puts a line of the top level in front of what follows (`Parser::emit`). Empty lines are passed
over, and an `else` belongs to no conditional. -/
def emit (node : Node) (rest : Parsed) : Parsed :=
  match node with
  | .blank _ => rest
  | .otherwise _ => .fail (.unexpectedKind node "statement")
  | node => rest.cons node

/-- Reads lexemes, `line` being what has been read of the current line and `last` the span of the
lexeme before (`Parser::next`). -/
def read (line : Line) (last : Span) : List Lexeme → Parsed
  | [] =>
    match line.finish last with
    | .error e => .fail e
    | .ok none => ⟨[], none⟩
    | .ok (some node) => emit node ⟨[], none⟩
  | l :: ls =>
    match h : line.push l with
    | .error e => .fail e
    | .ok (.next line) => read line l.span ls
    | .ok (.done node) => emit node (read .fresh l.span ls)
    | .ok (.yield node l') => absurd h (line.absorbs_push l node l')

/-- What the reader does with the next lexeme. -/
theorem read_cons (line : Line) (last : Span) (l : Lexeme) (ls : List Lexeme) :
    read line last (l :: ls) =
      match line.push l with
      | .error e => .fail e
      | .ok (.next line) => read line l.span ls
      | .ok (.done node) | .ok (.yield node _) => emit node (read .fresh l.span ls) := by
  rw [read]
  split
  · rename_i h
    rw [h]
  · rename_i h
    rw [h]
  · rename_i h
    rw [h]
  · rename_i node l' h
    exact absurd h (line.absorbs_push l node l')

/-- Reads the lexemes of a source (`Parser`). -/
def ofLexemes (lexemes : List Lexeme) : Parsed :=
  read .fresh .origin (lexemes.flatMap Lexeme.splitCopula)

/-- Reads a source (`parse`). -/
def parse (source : String) : Parsed :=
  ofLexemes (Lexeme.lex source)

end Program

end Ballad
