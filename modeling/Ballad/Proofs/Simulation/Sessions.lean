import Ballad.Proofs.Simulation.Rules
import Ballad.Proofs.Caching

/-!
# Sessions side by side

What the runs of two sessions have in common, and what it means for a run to end.

- `Session.Leads`: from where two sessions are run side by side. `Session.Leads.run`: they come to the
  same, or the second run is cut short.
- `Session.Ends`: a run comes to its end, or stops with an error, if it is given enough steps. How many
  does not matter: `Session.Ends.run_eq`.
- `Session.Says`: what a run says sooner or later, whether it ends or not.
-/

namespace Ballad.Session

open Evaluation

/-- Two sessions of the same source, from worlds that mirror each other. -/
structure Leads (ρ : Renaming) (cut : Halt → Prop) (s s' : Session) : Prop where
  source : s'.source = s.source
  env : s.env.Leads ρ cut s'.env
  world : s.world.Mirrors ρ s'.world

/-- Two runs have the same report, and leave sessions behind that mirror each other. -/
structure Mirrors (ρ : Renaming) (r r' : Report × Session) : Prop where
  report : r'.1 = r.1
  store : r.2.store.Mirrors ρ r'.2.store
  inputs : r'.2.inputs = r.2.inputs

/-- A run has been cut short, and its report begins what another one says. -/
structure CutShort (cut : Halt → Prop) (report whole : Report) : Prop where
  failure : ∃ e, cut e ∧ report.failure = some (.ofHalt e)
  said : report.said <+: whole.said

theorem said_runNodes (steps : Nat) (s : Session) (nodes : List Node) :
    (s.runNodes steps nodes).1.said =
      (worldAfter (runAll (evaluator steps) nodes) s.env s.world).said.toList := by
  unfold runNodes worldAfter
  cases runAll (evaluator steps) nodes s.env s.world with
  | ok _ w => rfl
  | error e w => rfl

section

variable {ρ : Renaming} {cut : Halt → Prop} {s s' : Session} {steps steps' : Nat}

theorem Leads.runNodes (h : s.Leads ρ cut s') (hle : steps' ≤ steps)
    (hsteps : steps' = steps ∨ cut .exhausted) (nodes : List Node) :
    Mirrors ρ (s.runNodes steps nodes) (s'.runNodes steps' nodes) ∨
      CutShort cut (s'.runNodes steps' nodes).1 (s.runNodes steps nodes).1 := by
  have hfollows : Follows ρ cut (runAll (evaluator steps) nodes) (runAll (evaluator steps') nodes) :=
    runAll_follows (evaluator_follows hle hsteps) nodes
  rcases hfollows.leads h.env h.world with hends | ⟨e, v, hrun, hcut, hsaid⟩
  · refine .inl ?_
    unfold Session.runNodes
    generalize runAll (evaluator steps) nodes s.env s.world = result at hends
    generalize runAll (evaluator steps') nodes s'.env s'.world = result' at hends
    cases hends with
    | ok hw => exact ⟨congrArg (Report.mk ·.toList none) hw.said, hw.store, hw.inputs⟩
    | @error e _ _ hw =>
      exact ⟨congrArg (Report.mk ·.toList (some (.ofHalt e))) hw.said, hw.store, hw.inputs⟩
  · refine .inr ⟨⟨e, hcut, ?_⟩, ?_⟩
    · unfold Session.runNodes
      rw [hrun]
    · rw [said_runNodes, said_runNodes, worldAfter_of_error hrun]
      exact hsaid

/-- Two sessions come to the same, or the second run is cut short. -/
theorem Leads.run (h : s.Leads ρ cut s') (hle : steps' ≤ steps)
    (hsteps : steps' = steps ∨ cut .exhausted) :
    Mirrors ρ (s.run steps) (s'.run steps') ∨ CutShort cut (s'.run steps').1 (s.run steps).1 := by
  cases hparse : (Program.parse s.source).toExcept with
  | error e =>
    rw [run_of_error hparse, run_of_error (h.source ▸ hparse)]
    exact .inl ⟨rfl, h.world.store, h.world.inputs⟩
  | ok nodes =>
    have hparse' : (Program.parse s'.source).toExcept = .ok nodes := h.source ▸ hparse
    have hkept : (s.keep nodes hparse).Leads ρ cut (s'.keep nodes hparse') := ⟨h.source, h.env, h.world⟩
    rw [run_of_ok hparse, run_of_ok hparse']
    exact hkept.runNodes hle hsteps nodes

end

/-- Seen from outside, mirrored sessions have the same variables. -/
theorem Mirrors.global {ρ : Renaming} {r r' : Report × Session} (h : Mirrors ρ r r')
    (name : String) : r'.2.global name = r.2.global name := by
  have hframe : Renamed.rename ρ Store.global = Store.global := congrArg FrameRef.mk ρ.global
  have hvalue := h.store.get? Store.global (Name.normalize name)
  rw [hframe] at hvalue
  unfold Session.global
  rw [hvalue]
  cases r.2.store.get? Store.global (Name.normalize name) with
  | none => rfl
  | some v => exact h.store.unfold v

/-! ### The same store -/

theorem leads_self (cut : Halt → Prop) (s : Session) : s.Leads .same cut s :=
  ⟨rfl, ⟨rfl, .inl rfl⟩, ⟨Store.mirrors_same.mpr rfl, rfl, rfl⟩⟩

/-- A lower ceiling may cut a run short. -/
theorem leads_ceiling (cut : Halt → Prop) (hcut : ∀ limit span, cut (.error ⟨.ceiling limit, span⟩))
    (s : Session) {limit : Nat} {ceiling : Option Nat} (hceiling : ∀ m ∈ ceiling, limit ≤ m) :
    ({ s with ceiling := ceiling } : Session).Leads .same cut { s with ceiling := some limit } :=
  ⟨rfl, ⟨rfl, .inr ⟨hcut, limit, rfl, hceiling⟩⟩, ⟨Store.mirrors_same.mpr rfl, rfl, rfl⟩⟩

/-- Under the same references, two runs that come to the same differ in the ceiling only. -/
theorem Leads.run_eq {cut : Halt → Prop} {s s' : Session} (h : s.Leads .same cut s')
    {steps steps' : Nat} (hmirrors : Mirrors .same (s.run steps) (s'.run steps')) :
    s.run steps =
      ((s'.run steps').1, { (s'.run steps').2 with ceiling := s.ceiling }) := by
  refine Prod.ext hmirrors.report.symm (Session.ext ?_ ?_ ?_ hmirrors.inputs.symm ?_)
  · rw [source_run, source_run, h.source]
  · rw [tree_run, tree_run, h.source]
  · exact (Store.mirrors_same.mp hmirrors.store).symm
  · exact ceiling_run steps s

/-! ### Runs that end -/

/-- A run comes to its end, or stops with an error, if it is given enough steps. -/
def Ends (s : Session) (report : Report) (t : Session) : Prop :=
  ∃ steps, s.run steps = (report, t) ∧ report.failure ≠ some .exhausted

/-- What a run says sooner or later, whether it ends or not. -/
def Says (s : Session) (said : List HostValue) : Prop :=
  ∃ steps, ∀ more, steps ≤ more → said <+: (s.run more).1.said

theorem ends_run (s : Session) (steps : Nat) (h : (s.run steps).1.failure ≠ some .exhausted) :
    s.Ends (s.run steps).1 (s.run steps).2 :=
  ⟨steps, rfl, h⟩

/-- A run that has ended stays the same if it is given more steps. -/
theorem run_of_le {s : Session} {steps more : Nat} (hle : steps ≤ more)
    (h : (s.run steps).1.failure ≠ some .exhausted) : s.run more = s.run steps := by
  have hleads : s.Leads .same (· = .exhausted) s := leads_self _ s
  rcases hleads.run hle (.inr rfl) with hmirrors | ⟨⟨e, rfl, hfailure⟩, -⟩
  · have hrun := hleads.run_eq hmirrors
    rwa [← ceiling_run steps s] at hrun
  · exact absurd hfailure h

theorem Ends.run_eq {s t : Session} {report : Report} (h : s.Ends report t) :
    ∃ steps, ∀ more, steps ≤ more → s.run more = (report, t) := by
  obtain ⟨steps, hrun, hfailure⟩ := h
  refine ⟨steps, fun more hle => (run_of_le hle ?_).trans hrun⟩
  rwa [hrun]

/-- What a run says sooner or later is in its report, if it ends. -/
theorem Says.prefix_said {s t : Session} {said : List HostValue} {report : Report}
    (hspoken : s.Says said) (hends : s.Ends report t) : said <+: report.said := by
  obtain ⟨steps, hspoken⟩ := hspoken
  obtain ⟨steps', hends⟩ := hends.run_eq
  have hsaid := hspoken (max steps steps') (Nat.le_max_left _ _)
  rwa [hends _ (Nat.le_max_right _ _)] at hsaid

end Ballad.Session
