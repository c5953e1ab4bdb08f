import Ballad.Session

/-!
# The command line

What the program does with its arguments and its input, but for reading and writing.

- `Invocation`: the arguments.
- `Invocation.ofArgs`: reads them.
- `listens`: whether a source can ask for input.
- `inputLines`: the lines of the standard input.
- `Result`: the exit code and what is written.
- `execute`, `missingFile`: a run, and a file that cannot be read.
-/

namespace Ballad.CommandLine

/-- The arguments of the program (`Args`). -/
structure Invocation where
  /-- Whether `contents` is the name of a file. -/
  file : Bool := false
  /-- How often a loop may run. -/
  ceiling : Option Nat := none
  /-- How often more messages were asked for. -/
  verbosity : Nat := 0
  /-- The source, or the name of its file. -/
  contents : Option String := none
deriving DecidableEq, Repr

/-- The number of rounds that an argument gives. -/
def ceilingOf (text : String) : Except String (Option Nat) :=
  if !text.isEmpty && text.toList.all Char.isDigit then
    .ok (some (Number.digitsValue text.toList))
  else .error ("invalid value '" ++ text ++ "' for the loop ceiling")

/-- Reads the arguments. -/
def Invocation.ofArgs (i : Invocation) : List String → Except String Invocation
  | [] => .ok i
  | "--file" :: args | "-f" :: args => ofArgs { i with file := true } args
  | "--verbose" :: args | "-v" :: args => ofArgs { i with verbosity := i.verbosity + 1 } args
  | "--max-loop-iterations" :: text :: args | "-m" :: text :: args => do
    ofArgs { i with ceiling := (← ceilingOf text) } args
  | contents :: args =>
    match i.contents with
    | none => ofArgs { i with contents := some contents } args
    | some _ => .error ("unexpected argument '" ++ contents ++ "'")

/-- Whether a source can ask for input. All that does starts with one word. -/
def listens (source : String) : Bool :=
  (Lexeme.lex source).any (·.isWord "listen")

/-- Splits a text after every line feed. `run` holds, in reverse, the line that is being collected. -/
def linesFrom (run : List Char) : List Char → List (List Char)
  | [] => if run.isEmpty then [] else [run.reverse]
  | '\n' :: cs => (if run.head? = some '\r' then run.tail else run).reverse :: linesFrom [] cs
  | c :: cs => linesFrom (c :: run) cs

/-- The lines of the standard input. A carriage return before the line feed does not belong to the
line. -/
def inputLines (text : String) : List String :=
  (linesFrom [] text.toList).map String.ofList

/-- The exit code and what is written. -/
structure Result where
  code : Nat
  stdout : String
  stderr : String
deriving DecidableEq, Repr

/-- Runs a source with the text of the standard input (`main`). -/
def execute (steps : Nat) (source stdin : String) (ceiling : Option Nat) : Result :=
  let session := Session.fresh source ((inputLines stdin).map .string) ceiling
  let (report, _) := session.run steps
  let stdout := String.join (report.said.map fun v => v.text ++ "\n")
  match report.failure with
  | some e => ⟨1, stdout, e.message ++ "\n"⟩
  | none => ⟨0, stdout, ""⟩

/-- A file that cannot be read. -/
def missingFile (name : String) : Result :=
  ⟨1, "", "Failed to read the input file '" ++ name ++ "'. Perhaps this file does not exist?\n"⟩

end Ballad.CommandLine
