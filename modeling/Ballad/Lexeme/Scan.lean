import Ballad.Lexeme.Piece

/-!
# From pieces to lexemes

- `Piece.merge`: neighbouring blank pieces become one.
- `Piece.place`: gives each piece its span. A source that does not end with a line terminator gets
  an empty one.
- `Lexeme.scan`: the lexemes of a source, contractions still apart.
-/

namespace Ballad

namespace Piece

/-- Puts a piece in front of others (`Lexer::whitespace_run`). A blank piece joins a blank piece after
it. -/
def join (p : Piece) : List Piece → List Piece
  | [] => [p]
  | q :: qs =>
    if p.kind = .whitespace ∧ q.kind = .whitespace then ⟨.whitespace, p.text ++ q.text⟩ :: qs
    else p :: q :: qs

/-- Joins neighbouring blank pieces. -/
def merge (ps : List Piece) : List Piece :=
  ps.foldr join []

/-- The lexeme of a piece that begins at a position (`Lexer::emit`). A string denotes its decoded
text. -/
def toLexeme (p : Piece) (at_ : Position) : Lexeme :=
  let source := String.ofList p.text
  let span := Span.ofText at_ p.text
  if p.kind = .string then ⟨.string, String.ofList (decode p.text.tail), some source, span⟩
  else ⟨p.kind, source, none, span⟩

/-- The empty terminator of a last line that has none (in `Lexer::next`). -/
def endOfInput (at_ : Position) : Lexeme :=
  ⟨.endOfInput, "", none, ⟨at_, at_⟩⟩

/-- The lexemes of pieces that begin at a position (`Lexer::next`). `ended` tells whether the line
before them is ended. -/
def place (at_ : Position) (ended : Bool) : List Piece → List Lexeme
  | [] => if ended then [] else [endOfInput at_]
  | p :: ps => p.toLexeme at_ :: place (at_.advance p.text) (p.kind = .newline) ps

end Piece

/-- The lexemes of a source, contractions still apart (`Lexer`). -/
def Lexeme.scan (source : String) : List Lexeme :=
  Piece.place .origin false (Piece.merge (Piece.cut source.toList))

end Ballad
