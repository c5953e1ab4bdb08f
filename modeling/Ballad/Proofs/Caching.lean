import Ballad.Session

/-!
# The source is parsed once

A session keeps the statements of its source from the first time that they are asked for. Nothing that
is done with it depends on whether they are kept already.

- `Session.parse_of_ok`, `Session.parse_of_error`: parsing a session gives what parsing its source gives.
- `Session.parse_parse`: a second time, the statements that were kept are given.
- `Session.run_of_ok`, `Session.run_of_error`: a run parses the source and runs its statements. It never
  finds the session without them.
- `Session.tree_run`: after a run, the statements are kept if there are any.
-/

namespace Ballad

/-- The statements of a source without a mistake. -/
theorem Parsed.nodes_of_toExcept {p : Parsed} {nodes : List Node} (h : p.toExcept = .ok nodes) :
    p.nodes = nodes := by
  unfold toExcept at h
  split at h
  · cases h
  · exact Except.ok.inj h

namespace Session

variable {s : Session} {nodes : List Node} {e : ParseError}

/-- The statements of a well formed source, whether they were kept or not. -/
theorem parse_of_ok (h : (Program.parse s.source).toExcept = .ok nodes) :
    s.parse = (.ok nodes, s.keep nodes h) := by
  cases htree : s.tree with
  | some kept =>
    obtain rfl := Except.ok.inj ((s.kept kept htree).symm.trans h)
    rw [parse, htree]
    exact congrArg (Prod.mk _) (Session.ext rfl htree rfl rfl rfl)
  | none =>
    rw [parse, htree]
    dsimp only
    split
    · rename_i found hfound
      obtain rfl := Except.ok.inj (hfound.symm.trans h)
      rfl
    · rename_i e he
      cases he.symm.trans h

/-- A source with a mistake is parsed again each time. -/
theorem parse_of_error (h : (Program.parse s.source).toExcept = .error e) :
    s.parse = (.error e, s) := by
  cases htree : s.tree with
  | some kept => cases (s.kept kept htree).symm.trans h
  | none =>
    rw [parse, htree]
    dsimp only
    split
    · rename_i found hfound
      cases hfound.symm.trans h
    · rename_i e' he
      obtain rfl := Except.error.inj (he.symm.trans h)
      rfl

/-- **Parsing is done once**: the second time it gives the same and changes nothing. -/
theorem parse_parse (s : Session) : s.parse.2.parse = s.parse := by
  cases h : (Program.parse s.source).toExcept with
  | error e => rw [parse_of_error h, parse_of_error h]
  | ok nodes => rw [parse_of_ok h]; rfl

theorem run_of_error (h : (Program.parse s.source).toExcept = .error e) (steps : Nat) :
    s.run steps = (⟨[], some (.parse e)⟩, s) := by
  rw [run, parse_of_error h]

theorem run_of_ok (h : (Program.parse s.source).toExcept = .ok nodes) (steps : Nat) :
    s.run steps = (s.keep nodes h).runNodes steps nodes := by
  rw [run, parse_of_ok h]
  rfl

/-- Running statements changes nothing but the store and the input of a session. -/
theorem runNodes_eq (steps : Nat) (s : Session) (nodes : List Node) :
    (s.runNodes steps nodes).2 = { s with
      store := (s.runNodes steps nodes).2.store
      inputs := (s.runNodes steps nodes).2.inputs } := by
  unfold runNodes
  split
  · rfl
  · rfl

theorem source_run (steps : Nat) (s : Session) : (s.run steps).2.source = s.source := by
  cases h : (Program.parse s.source).toExcept with
  | error e => rw [run_of_error h]
  | ok nodes => rw [run_of_ok h, runNodes_eq]; rfl

theorem ceiling_run (steps : Nat) (s : Session) : (s.run steps).2.ceiling = s.ceiling := by
  cases h : (Program.parse s.source).toExcept with
  | error e => rw [run_of_error h]
  | ok nodes => rw [run_of_ok h, runNodes_eq]; rfl

/-- After a run, the session has the statements of its source if the source has any. -/
theorem tree_run (steps : Nat) (s : Session) :
    (s.run steps).2.tree = (Program.parse s.source).toExcept.toOption := by
  cases h : (Program.parse s.source).toExcept with
  | error e =>
    rw [run_of_error h]
    cases htree : s.tree with
    | none => rfl
    | some kept => cases (s.kept kept htree).symm.trans h
  | ok nodes => rw [run_of_ok h, runNodes_eq]; rfl

end Session

end Ballad
