import Ballad.Span

/-!
# Runtime errors

- `Use`: what a value was used for.
- `RuntimeError`: why a program stopped, and where.
- `RuntimeError.message`: the error in words.
-/

namespace Ballad

/-- What a value can turn out to be unfit for (`Operation`). -/
inductive Use where
  | logic
  | arithmetic
  | comparison
  | string
  | array
  | call
  | indexing
  | cast
  | rounding
deriving DecidableEq, Repr

/-- What a use is called in diagnostics (`Operation::fmt`). -/
def Use.name : Use → String
  | logic => "boolean logic"
  | arithmetic => "arithmetic"
  | comparison => "comparison"
  | string => "string operation"
  | array => "array operation"
  | call => "call"
  | indexing => "indexing"
  | cast => "cast"
  | rounding => "rounding"

/-- The statements that leave the place where they stand. -/
inductive Signal where
  | breakLoop
  | continueLoop
  | giveBack
deriving DecidableEq, Repr

/-- What a signal is called in diagnostics. -/
def Signal.name : Signal → String
  | breakLoop => "break"
  | continueLoop => "continue"
  | giveBack => "return"

/-- Why a program stopped. -/
inductive RuntimeError.Cause where
  /-- A place that holds nothing, or a pronoun that stands for nothing. -/
  | unassigned (location : String)
  /-- A value that cannot be used so. -/
  | unfit (value : String) (use : Use)
  /-- An index that leads to nothing. -/
  | invalidIndex (index : String)
  /-- A number that has no meaning where it is needed. -/
  | outOfRange (value : String)
  /-- A signal that no loop or function takes. -/
  | stray (signal : Signal)
  /-- A call with another number of arguments than the function has parameters. -/
  | argumentCount (function : String) (expected found : Nat)
  /-- A loop that went on for too long. -/
  | ceiling (limit : Nat)
deriving DecidableEq, Repr

/-- A cause in words. -/
def RuntimeError.Cause.text : RuntimeError.Cause → String
  | unassigned location => "'" ++ location ++ "' has not been assigned."
  | unfit value use => value ++ " is not fit for " ++ use.name ++ "."
  | invalidIndex index => "Invalid index " ++ index ++ "."
  | outOfRange value => value ++ " is out of range."
  | stray signal => "'" ++ signal.name ++ "' outside of any loop or function."
  | argumentCount function expected found =>
    "'" ++ function ++ "' takes " ++ expected.repr ++ " argument(s), but " ++ found.repr
      ++ " were given."
  | ceiling limit => "Loop exceeded " ++ limit.repr ++ " iterations."

/-- Why a program stopped, and where (`RuntimeError`). -/
structure RuntimeError where
  cause : RuntimeError.Cause
  span : Span
deriving DecidableEq, Repr

/-- An error in words. -/
def RuntimeError.message (e : RuntimeError) : String :=
  "Error on line " ++ e.span.start.line.repr ++ ": " ++ e.cause.text

end Ballad
