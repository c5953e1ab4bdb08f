import Ballad.Proofs.Simulation.Sessions

/-!
# The ceiling on loops

A ceiling on the rounds of loops changes nothing about a program but where it may be stopped. A run
that the ceiling does not stop is the run without it, and a run that it does stop is the beginning of
that run.

- `Report.stoppedAtCeiling`: the ceiling has stopped a run.
- `Session.prefix_said_run`: with a lower ceiling and fewer steps, less is said.
- `Session.ceiling_transparent`: what a run under a ceiling says about runs under a higher ceiling or
  none. These may go on for ever where the ceiling stops the program, so what they say is then compared
  with `Session.Says`.
-/

namespace Ballad

/-- Whether a run has been stopped because a loop has reached the ceiling. -/
def Failure.isCeiling : Failure → Bool
  | .runtime ⟨.ceiling _, _⟩ => true
  | _ => false

/-- Whether the ceiling has stopped a run. -/
def Report.stoppedAtCeiling (report : Report) : Bool :=
  report.failure.any Failure.isCeiling

namespace Session

open Evaluation

/-- With a lower ceiling and fewer steps, less is said, and nothing else. -/
theorem prefix_said_run (s : Session) {limit : Nat} {ceiling : Option Nat}
    (hceiling : ∀ m ∈ ceiling, limit ≤ m) {steps more : Nat} (hle : steps ≤ more) :
    (({ s with ceiling := some limit } : Session).run steps).1.said <+:
      (({ s with ceiling := ceiling } : Session).run more).1.said := by
  -- whatever cuts the shorter run short, it has said a part of the longer one
  have hleads := leads_ceiling (fun _ => True) (fun _ _ => trivial) s hceiling
  rcases hleads.run hle (.inr trivial) with hmirrors | hcut
  · exact hmirrors.report ▸ List.prefix_refl _
  · exact hcut.said

/-- A run that has ended without being stopped by the ceiling is the same under a higher one. -/
theorem run_of_not_stoppedAtCeiling (s : Session) {limit : Nat} {ceiling : Option Nat}
    (hceiling : ∀ m ∈ ceiling, limit ≤ m) {steps : Nat}
    (h : (({ s with ceiling := some limit } : Session).run steps).1.stoppedAtCeiling = false) :
    ({ s with ceiling := ceiling } : Session).run steps =
      ((({ s with ceiling := some limit } : Session).run steps).1,
        { (({ s with ceiling := some limit } : Session).run steps).2 with ceiling := ceiling }) := by
  have hleads := leads_ceiling (fun e => (Failure.ofHalt e).isCeiling) (fun _ _ => rfl) s hceiling
  rcases hleads.run (Nat.le_refl steps) (.inl rfl) with hmirrors | ⟨⟨e, hcut, hfailure⟩, -⟩
  · exact hleads.run_eq hmirrors
  · unfold Report.stoppedAtCeiling at h
    rw [hfailure, Option.any_some, hcut] at h
    cases h

/-- **The ceiling is transparent**: let a run with a ceiling end. If the ceiling has not stopped it,
then with any higher ceiling, or with none, the run ends too, with the same report, and leaves the same
store and input behind. If the ceiling has stopped it, then what it has said is the beginning of what
is said with any higher ceiling, or with none. -/
theorem ceiling_transparent (s : Session) {limit : Nat} {ceiling : Option Nat}
    (hceiling : ∀ m ∈ ceiling, limit ≤ m) {report : Report} {t : Session}
    (h : ({ s with ceiling := some limit } : Session).Ends report t) :
    (report.stoppedAtCeiling = false →
      ({ s with ceiling := ceiling } : Session).Ends report { t with ceiling := ceiling }) ∧
    (report.stoppedAtCeiling = true →
      ({ s with ceiling := ceiling } : Session).Says report.said ∧
      ∀ report' t', ({ s with ceiling := ceiling } : Session).Ends report' t' →
        report.said <+: report'.said) := by
  obtain ⟨steps, hrun, hfailure⟩ := h
  constructor
  · intro hstopped
    refine ⟨steps, ?_, hfailure⟩
    rw [run_of_not_stoppedAtCeiling s hceiling (by rwa [hrun]), hrun]
  · intro _
    have hspoken : ({ s with ceiling := ceiling } : Session).Says report.said := by
      refine ⟨steps, fun more hle => ?_⟩
      have hsaid := prefix_said_run s hceiling hle
      rwa [hrun] at hsaid
    exact ⟨hspoken, fun report' t' hends => hspoken.prefix_said hends⟩

/-- A loop of two rounds under a ceiling of nine, and one without an end under a ceiling of two. -/
theorem ceiling_transparent_loops :
    (∃ source report t, (Session.fresh source [] (some 9)).Ends report t ∧
      report.said.length = 2 ∧
      (Session.fresh source).Ends report { t with ceiling := none }) ∧
    ∃ source report t, (Session.fresh source [] (some 2)).Ends report t ∧
      report.said.length = 2 ∧
      (Session.fresh source).Says report.said := by
  have hnone : ∀ limit, ∀ m ∈ (none : Option Nat), limit ≤ m := nofun
  have hcount : ((Session.fresh "X is 0\nwhile X is not 2\nbuild X up\nsay X\n" []
      (some 9)).run 9).1.failure = none ∧
    ((Session.fresh "X is 0\nwhile X is not 2\nbuild X up\nsay X\n" []
      (some 9)).run 9).1.said.length = 2 := by
    decide +kernel
  have hendless : ((Session.fresh "while true\nsay 1\n" []
      (some 2)).run 9).1.stoppedAtCeiling = true ∧
    ((Session.fresh "while true\nsay 1\n" [] (some 2)).run 9).1.said.length = 2 := by
    decide +kernel
  constructor
  · have hends := ends_run _ 9 fun hexhausted => nomatch hcount.1.symm.trans hexhausted
    refine ⟨_, _, _, hends, hcount.2, ?_⟩
    refine (ceiling_transparent (.fresh _) (hnone 9) hends).1 ?_
    rw [Report.stoppedAtCeiling, hcount.1]
    rfl
  · have hends := ends_run _ 9 fun hexhausted =>
      nomatch (congrArg (Option.any Failure.isCeiling) hexhausted).symm.trans hendless.1
    refine ⟨_, _, _, hends, hendless.2, ?_⟩
    exact ((ceiling_transparent (.fresh _) (hnone 2) hends).2 hendless.1).1

end Session

end Ballad
