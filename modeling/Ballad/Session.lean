import Ballad.Evaluation.Evaluator
import Ballad.Program

/-!
# Sessions

A session holds a source and can run it any number of times. Variables stay from one run to the next
until the session is reset.

- `Failure`: why a run did not come to its end.
- `Session`: a source with its variables, the input that is left and the ceiling on loops. It keeps the
  statements of the source when they have been parsed, with the proof that these are the statements.
- `Session.parse`: the statements of the source.
- `Session.run`: runs the source, and gives what it said.
- `Session.global`: the value of a global variable, however its name is written.
- `outputOf`: what a source says in its first run, line by line.
-/

namespace Ballad

open Evaluation

/-- Why a run did not come to its end (`Error`). -/
inductive Failure where
  | parse (e : ParseError)
  | runtime (e : RuntimeError)
  /-- The steps are used up. -/
  | exhausted
deriving DecidableEq, Repr

namespace Failure

/-- A failure in words. -/
def message : Failure → String
  | parse e => e.message
  | runtime e => e.message
  | exhausted => "The program did not come to an end."

/-- The failure of a run that stopped early. -/
def ofHalt : Halt → Failure
  | .error e => runtime e
  | .exhausted => exhausted

end Failure

/-- A source with its variables, the input that is left and the ceiling on loops (`Interpreter`). -/
@[ext]
structure Session where
  source : String
  /-- The statements of the source, once it has been parsed. -/
  tree : Option (List Node)
  store : Store
  inputs : List HostValue
  ceiling : Option Nat
  kept : ∀ nodes, tree = some nodes → (Program.parse source).toExcept = .ok nodes
deriving Repr

/-- What a run said, and why it did not come to its end, if it did not. -/
structure Report where
  said : List HostValue
  failure : Option Failure
deriving Repr

namespace Session

/-- A session that has not run yet (`Interpreter::new`). -/
def fresh (source : String) (inputs : List HostValue := []) (ceiling : Option Nat := none) :
    Session :=
  ⟨source, none, .empty, inputs, ceiling, nofun⟩

/-- The session that keeps the statements of its source. -/
def keep (s : Session) (nodes : List Node) (h : (Program.parse s.source).toExcept = .ok nodes) :
    Session :=
  { s with tree := some nodes, kept := fun _ hnodes => h.trans (congrArg _ (Option.some.inj hnodes)) }

/-- The statements of the source (`Interpreter::parse`). They are kept, so that the source is parsed
only once. -/
def parse (s : Session) : Except ParseError (List Node) × Session :=
  match s.tree with
  | some nodes => (.ok nodes, s)
  | none =>
    match h : (Program.parse s.source).toExcept with
    | .ok nodes => (.ok nodes, s.keep nodes h)
    | .error e => (.error e, s)

/-- The environment of the statements at the top level. -/
def env (s : Session) : Env := ⟨Store.global, s.ceiling⟩

/-- The world before a run. -/
def world (s : Session) : World := ⟨s.store, s.inputs, #[]⟩

/-- Runs statements, with at most `steps` levels and rounds (in `Interpreter::run`). -/
def runNodes (steps : Nat) (s : Session) (nodes : List Node) : Report × Session :=
  match runAll (evaluator steps) nodes s.env s.world with
  | .ok _ w => (⟨w.said.toList, none⟩, { s with store := w.store, inputs := w.inputs })
  | .error e w =>
    (⟨w.said.toList, some (.ofHalt e)⟩, { s with store := w.store, inputs := w.inputs })

/-- Runs the source, with at most `steps` levels and rounds (`Interpreter::run`). It is parsed if it
has not been yet. -/
def run (steps : Nat) (s : Session) : Report × Session :=
  match s.parse with
  | (.error e, s) => (⟨[], some (.parse e)⟩, s)
  | (.ok _, s) =>
    match s.tree with
    | some nodes => s.runNodes steps nodes
    | none => (⟨[], none⟩, s)

/-- Forgets the global variables (`Interpreter::reset`). What they referred to stays in the store, out
of reach. -/
def reset (s : Session) : Session :=
  { s with store := s.store.clear Store.global }

/-- The value of a global variable (`Interpreter::global`); without one it is `null`. -/
def global (s : Session) (name : String) : HostValue :=
  ((s.store.get? Store.global (Name.normalize name)).map s.store.unfold).getD .null

end Session

/-- The lines that a source says in its first run, given the lines of its input (`get_output`). -/
def outputOf (steps : Nat) (source : String) (inputs : List String) : Except Failure (List String) :=
  let (report, _) := (Session.fresh source (inputs.map .string)).run steps
  match report.failure with
  | some e => .error e
  | none => .ok (report.said.map HostValue.text)

end Ballad
