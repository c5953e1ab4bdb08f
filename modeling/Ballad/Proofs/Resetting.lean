import Ballad.Proofs.Pronouns
import Ballad.Proofs.Simulation.Sessions

/-!
# Starting over

To reset a session clears the global frame. The arrays, functions and frames of earlier runs stay in
the store, but nothing leads to them any more, so a further run cannot be told from a first one.

- `Renaming.past`: the references that a further run uses in the place of those of a first one.
- `Store.mirrors_clear`: a store with a cleared global frame mirrors the empty store.
- `Session.reset_erases_history`: after a reset, a run gives the report that the first run of a new
  session gives, and leaves the same global variables behind.
-/

namespace Ballad

/-- References past all that a store holds. The global frame stays the same. -/
def Renaming.past (s : Store) : Renaming where
  table i := s.tables.size + i
  function i := s.functions.size + i
  frame i := if i = 0 then 0 else s.frames.size - 1 + i
  table_inj _ _ h := Nat.add_left_cancel h
  function_inj _ _ h := Nat.add_left_cancel h
  frame_inj i j h := by
    dsimp only at h
    split at h <;> split at h <;> omega
  global := if_pos rfl

namespace Store

theorem carries_empty {α : Type} [Renamed α] (ρ : Renaming) (xs : Array α) :
    ρ.Carries (xs.size + ·) #[] xs := by
  constructor
  · intro i
    rw [Array.getElem?_eq_none (Nat.le_add_right _ _)]
    rfl
  · intro n
    rw [Array.size_empty, Nat.zero_add]

theorem size_frames_clear (s : Store) : (s.clear global).frames.size = s.frames.size := by
  rw [clear_global]
  exact Array.size_modify

/-- Without its variables, a global frame is a new one. -/
theorem Rooted.getElem?_frames_clear {s : Store} (h : s.Rooted) :
    (s.clear global).frames[0]? = some .empty := by
  have hhas : 0 < (s.clear global).frames.size := has_clear_global.mpr h.has
  have hframe : (s.clear global).frame global = ⟨.global, [], []⟩ := by
    rw [frame_clear_global, if_pos ⟨rfl, h.has⟩]
    dsimp only
    rw [h.kind, h.outer]
  unfold frame at hframe
  rw [show global.index = 0 from rfl, Array.getElem?_eq_getElem hhas] at hframe
  rw [Array.getElem?_eq_getElem hhas]
  exact congrArg some hframe

/-- What a store holds is out of reach when its global frame has been cleared. -/
theorem mirrors_clear {s : Store} (h : s.Rooted) : empty.Mirrors (.past s) (s.clear global) := by
  have hframes : 0 < s.frames.size := h.has
  refine ⟨?_, ?_, ⟨fun i => ?_, fun n => ?_⟩, ?_⟩
  · rw [clear_global]
    exact carries_empty _ s.tables
  · rw [clear_global]
    exact carries_empty _ s.functions
  · cases i with
    | zero =>
      rw [(Renaming.past s).global]
      exact h.getElem?_frames_clear
    | succ i =>
      have hpast : (s.clear global).frames.size ≤ (Renaming.past s).frame (i + 1) := by
        show _ ≤ if i + 1 = 0 then 0 else s.frames.size - 1 + (i + 1)
        rw [size_frames_clear, if_neg (Nat.succ_ne_zero i)]
        omega
      rw [Array.getElem?_eq_none hpast]
      rfl
  · show (if 1 + n = 0 then 0 else s.frames.size - 1 + (1 + n)) = _
    rw [size_frames_clear, if_neg (by omega)]
    omega
  · rw [clear_global]
    rfl

end Store

namespace Session

open Evaluation

theorem Reached.source_eq {source : String} {s : Session} (h : Reached source s) :
    s.source = source := by
  induction h with
  | fresh inputs ceiling => rfl
  | @run s _ steps ih => exact (source_run steps s).trans ih
  | reset _ ih => exact ih
  | configure _ inputs ceiling ih => exact ih

/-- A session that has been reset runs side by side with a new one, and nothing cuts it short. -/
theorem leads_reset {s : Session} (h : s.store.Rooted) (inputs : List HostValue) :
    (Session.fresh s.source inputs s.ceiling).Leads (.past s.store) (fun _ => False)
      { s.reset with inputs := inputs } := by
  refine ⟨rfl, ⟨?_, .inl rfl⟩, ⟨Store.mirrors_clear h, rfl, rfl⟩⟩
  exact congrArg FrameRef.mk (Renaming.past s.store).global.symm

/-- **A reset erases all history**: whatever runs a session has behind it, with whatever inputs and
however they ended, after a reset it gives the report that a new session of the same source gives with
the same ceiling and the same input, and leaves the same global variables behind. -/
theorem reset_erases_history {source : String} {s : Session} (h : Reached source s)
    (inputs : List HostValue) (steps : Nat) :
    (({ s.reset with inputs := inputs } : Session).run steps).1 =
      ((Session.fresh source inputs s.ceiling).run steps).1 ∧
    ∀ name, (({ s.reset with inputs := inputs } : Session).run steps).2.global name =
      ((Session.fresh source inputs s.ceiling).run steps).2.global name := by
  obtain rfl := h.source_eq
  rcases (leads_reset h.rooted.1 inputs).run (Nat.le_refl steps) (.inl rfl) with hmirrors | hcut
  · exact ⟨hmirrors.report, hmirrors.global⟩
  · obtain ⟨e, hfalse, -⟩ := hcut.failure
    exact hfalse.elim

/-- An array that is pushed to in every run grows from run to run. After a reset it is new. -/
theorem reset_erases_history_stack : ∃ source,
    (((Session.fresh source).run 9).2.run 9).1.said.map HostValue.text = ["2"] ∧
    (({ (((Session.fresh source).run 9).2.run 9).2.reset with inputs := [.null] } :
      Session).run 9).1 = ((Session.fresh source [.null]).run 9).1 ∧
    ∀ name, (({ (((Session.fresh source).run 9).2.run 9).2.reset with
      inputs := [.null] } : Session).run 9).2.global name =
        ((Session.fresh source [.null]).run 9).2.global name := by
  have hgrown : (((Session.fresh "rock X with 1\nsay X\n").run 9).2.run 9).1.said.map
      HostValue.text = ["2"] := by
    decide +kernel
  have hreached : Reached "rock X with 1\nsay X\n" _ := .run (.run (.fresh [] none) 9) 9
  have hreset := reset_erases_history hreached [.null] 9
  rw [ceiling_run, ceiling_run] at hreset
  exact ⟨_, hgrown, hreset⟩

end Session

end Ballad
