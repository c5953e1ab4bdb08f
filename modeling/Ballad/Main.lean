import Ballad.CommandLine

/-!
# The program

Reads the arguments, the source and the standard input, and writes what `CommandLine.execute` makes
of them.
-/

namespace Ballad.CommandLine

/-- More levels and rounds than a run can use up. -/
def budget : Nat := Nat.pow 2 62

/-- The rest of a stream. -/
def readAll (stream : IO.FS.Stream) : IO String := do
  let mut text := ""
  repeat
    let line ← stream.getLine
    if line.isEmpty then break
    text := text ++ line
  return text

/-- Runs a source with what stands in the standard input, which is read only if the source can ask for
it. -/
def runSource (source : String) (ceiling : Option Nat) : IO Result := do
  let stdin ← if listens source then readAll (← IO.getStdin) else pure ""
  return execute budget source stdin ceiling

/-- Runs the source that the arguments name. -/
def runContents (invocation : Invocation) (contents : String) : IO Result := do
  if invocation.file then
    match (← (IO.FS.readFile contents).toBaseIO) with
    | .ok source => runSource source invocation.ceiling
    | .error _ => return missingFile contents
  else runSource contents invocation.ceiling

/-- Writes a result and gives its exit code. -/
def Result.write (result : Result) : IO UInt32 := do
  IO.print result.stdout
  IO.eprint result.stderr
  return result.code.toUInt32

end Ballad.CommandLine

open Ballad.CommandLine in
/-- Runs a source, given as an argument or in a file. -/
def main (args : List String) : IO UInt32 := do
  match Invocation.ofArgs {} args with
  | .error message =>
    IO.eprintln ("error: " ++ message)
    return 2
  | .ok invocation =>
    match invocation.contents with
    | none =>
      IO.eprintln "error: a source or the name of its file is missing"
      return 2
    | some contents => (← runContents invocation contents).write
