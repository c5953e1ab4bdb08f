import Ballad.Span
import Ballad.Text.Case
import Ballad.Text.Quoted

/-!
# Lexemes

- `Lexeme.Kind`: what a stretch of source text is.
- `Lexeme`: a stretch of source text with its kind and its place.
- `Lexeme.source`: the text as it stands in the source.
- `Lexeme.word`: the lower-case form of a word, which all keywords are compared with.
-/

namespace Ballad

/-- What a stretch of source text is (`LexemeKind`). -/
inductive Lexeme.Kind where
  /-- A line terminator. -/
  | newline
  /-- The end of a source whose last line has no terminator. -/
  | endOfInput
  /-- A comma or an ampersand. -/
  | delimiter
  /-- An apostrophe and the letters after it. -/
  | contraction
  /-- Blanks, and everything that means nothing. -/
  | whitespace
  /-- Text in parentheses. -/
  | comment
  /-- Text in double quotes. -/
  | string
  /-- A run of letters. -/
  | identifier
  /-- A run of digits with what may stand among them. -/
  | number
deriving DecidableEq, Repr

/-- The name of a kind in diagnostics (`LexemeKind::name`). -/
def Lexeme.Kind.name : Lexeme.Kind → String
  | .newline => "newline"
  | .endOfInput => "end of input"
  | .delimiter => "delimiter"
  | .contraction => "contraction"
  | .whitespace => "whitespace"
  | .comment => "comment"
  | .string => "string"
  | .identifier => "identifier"
  | .number => "number"

/-- A stretch of source text (`Lexeme`). -/
structure Lexeme where
  kind : Lexeme.Kind
  /-- The text, for a string the text that it denotes. -/
  literal : String
  /-- The source text of a lexeme that was decoded or put together. -/
  spelling : Option String
  span : Span
deriving DecidableEq, Repr

namespace Lexeme

/-- The text as it stands in the source (`Lexeme::source`). -/
def source (l : Lexeme) : String :=
  l.spelling.getD l.literal

/-- Whether a lexeme separates others without meaning anything (`Lexeme::is_trivia`). -/
def isTrivia (l : Lexeme) : Bool :=
  l.kind == .whitespace || l.kind == .comment

/-- Whether a lexeme ends a line (`Lexeme::is_newline`). -/
def isNewline (l : Lexeme) : Bool :=
  l.kind == .newline || l.kind == .endOfInput

/-- The lower-case form of an identifier (`Lexeme::word`). -/
def word (l : Lexeme) : Option String :=
  if l.kind = .identifier then some (Text.lowercase l.literal) else none

/-- Whether a lexeme is the given word. -/
def isWord (l : Lexeme) (w : String) : Bool :=
  l.word == some w

/-- Whether a lexeme is an identifier that begins with a capital letter (`Lexeme::is_capitalized`). -/
def isCapitalized (l : Lexeme) : Bool :=
  l.kind == .identifier && (l.literal.toList.head?.any Text.isUpper)

/-- A lexeme in diagnostics (`Lexeme::fmt`). -/
def text (l : Lexeme) : String :=
  if l.isNewline then l.kind.name else l.kind.name ++ " " ++ Text.quoted l.source

end Lexeme

end Ballad
