import Ballad.Lexeme.Basic
import Ballad.Node

/-!
# Parse errors

- `Construct`: what was being read when something went wrong.
- `ParseError`: why a source is no program, and where.
- `ParseError.message`: the error in words.
-/

namespace Ballad

/-- A part of a program that is read as a unit. -/
inductive Construct where
  | value
  | location
  | key
  | commonVariable
  | comparison
  | list
  | poeticLiteral
  | statement
  | expression
  | poeticAssignment
  | poeticString
  | functionDeclaration
  | assignment
  | output
  | input
  | increment
  | rounding
  | push
  | pop
  | mutation
  | condition
  | giveBack
  | controlFlow
  | endOfStatement
deriving DecidableEq, Repr

/-- What a construct is called in diagnostics. -/
def Construct.name : Construct → String
  | value => "value"
  | location => "location"
  | key => "key"
  | commonVariable => "common variable"
  | comparison => "comparison"
  | list => "list"
  | poeticLiteral => "poetic literal"
  | statement => "statement"
  | expression => "expression"
  | poeticAssignment => "poetic assignment"
  | poeticString => "poetic string"
  | functionDeclaration => "function declaration"
  | assignment => "assignment"
  | output => "output"
  | input => "input"
  | increment => "increment"
  | rounding => "rounding"
  | push => "push"
  | pop => "pop"
  | mutation => "mutation"
  | condition => "condition"
  | giveBack => "return"
  | controlFlow => "control flow"
  | endOfStatement => "end of statement"

/-- Why a source is no program. -/
inductive ParseError.Cause where
  /-- A lexeme that the construct has no use for. -/
  | unexpectedLexeme (lexeme : Lexeme) (within : Construct)
  /-- Something else than one of a few words. -/
  | unexpectedWord (found expected : String)
  /-- What looks like a number and cannot be read as one. -/
  | invalidNumber (literal : String)
  /-- A finished phrase of the wrong kind. -/
  | unexpectedKind (expected found : String)
  /-- A construct that the source ends in. -/
  | unfinished (within : Construct)
deriving DecidableEq, Repr

/-- A cause in words. -/
def ParseError.Cause.text : ParseError.Cause → String
  | unexpectedLexeme lexeme within =>
    "Unexpected " ++ lexeme.text ++ " while parsing " ++ within.name ++ "."
  | unexpectedWord found expected => "Unexpected '" ++ found ++ "', expected " ++ expected ++ "."
  | invalidNumber literal => "'" ++ literal ++ "' is not a valid number."
  | unexpectedKind expected found => "Expected " ++ expected ++ ", but found " ++ found ++ "."
  | unfinished within => "Unfinished " ++ within.name ++ " at end of input."

/-- Why a source is no program, and where (`ParseError`). -/
structure ParseError where
  cause : ParseError.Cause
  span : Span
deriving DecidableEq, Repr

namespace ParseError

/-- An error in words. -/
def message (e : ParseError) : String :=
  "Error on line " ++ e.span.start.line.repr ++ ": " ++ e.cause.text

/-- The error for a lexeme that a construct has no use for (`unexpected`). -/
def unexpected (lexeme : Lexeme) (within : Construct) : ParseError :=
  ⟨.unexpectedLexeme lexeme within, lexeme.span⟩

/-- The error for a lexeme in the place of one of a few words (`unexpected_word`). -/
def unexpectedWord (lexeme : Lexeme) (expected : String) : ParseError :=
  ⟨.unexpectedWord (if lexeme.kind = .identifier then lexeme.literal else lexeme.kind.name) expected,
    lexeme.span⟩

/-- The error for a node of the wrong kind (`ParseError::UnexpectedExpressionKind`). -/
def unexpectedKind (node : Node) (expected : String) : ParseError :=
  ⟨.unexpectedKind expected node.kind, node.span⟩

/-- The error for a construct that the source ends in (`ParseError::UnfinishedExpression`). -/
def unfinished (within : Construct) (span : Span) : ParseError :=
  ⟨.unfinished within, span⟩

end ParseError

end Ballad
