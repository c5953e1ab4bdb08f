import Ballad.Proofs.Evaluation.Keeping
import Ballad.Proofs.Simulation.Renaming

/-!
# Evaluations side by side

Two evaluations run side by side, from worlds that differ in their references only. The second one
may be given less, a lower ceiling or fewer steps, and may then be cut short. As long as it is not, it
does what the first one does.

- `World.Mirrors`, `Env.Leads`: from where the two evaluations begin.
- `Result.Mirrors`: they end alike. `Result.CutShort`: the second one has been cut short, and has said
  the beginning of what the first one says.
- `Follows ρ cut act act'`: `act'` ends like `act`, or is cut short with a stop that `cut` allows. What
  has been said is never taken back.
- `follows_inspect`, `follows_modifyStore` and so on: one lemma for each step that evaluations are put
  together from.
-/

namespace Ballad

open Renamed

/-! ### Data without references -/

instance : Renamed Unit := ⟨fun _ => id⟩

instance : Renamed Bool := ⟨fun _ => id⟩

instance : Renamed Nat := ⟨fun _ => id⟩

instance : Renamed String := ⟨fun _ => id⟩

instance : Renamed Number := ⟨fun _ => id⟩

instance : Renamed Key := ⟨fun _ => id⟩

instance : Renamed HostValue := ⟨fun _ => id⟩

namespace Evaluation

/-- A flow with other references. -/
def Flow.rename (ρ : Renaming) : Flow → Flow
  | .giveBack v span => .giveBack (Renamed.rename ρ v) span
  | flow => flow

instance : Renamed Flow := ⟨Flow.rename⟩

/-! ### Beginnings and ends -/

/-- Two worlds differ in the references of their stores only. -/
structure World.Mirrors (ρ : Renaming) (w w' : World) : Prop where
  store : w.store.Mirrors ρ w'.store
  inputs : w'.inputs = w.inputs
  said : w'.said = w.said

/-- Two environments have the same ceiling, or the second one has a lower ceiling, which may cut it
short. -/
structure Env.Leads (ρ : Renaming) (cut : Halt → Prop) (env env' : Env) : Prop where
  frame : env'.frame = rename ρ env.frame
  ceiling : env'.ceiling = env.ceiling ∨
    (∀ limit span, cut (.error ⟨.ceiling limit, span⟩)) ∧
      ∃ limit, env'.ceiling = some limit ∧ ∀ m ∈ env.ceiling, limit ≤ m

namespace Result

/-- Two evaluations end alike. -/
inductive Mirrors {α : Type} [Renamed α] (ρ : Renaming) :
    EStateM.Result Halt World α → EStateM.Result Halt World α → Prop where
  | ok {a : α} {w w' : World} (h : w.Mirrors ρ w') : Mirrors ρ (.ok a w) (.ok (rename ρ a) w')
  | error {e : Halt} {w w' : World} (h : w.Mirrors ρ w') : Mirrors ρ (.error e w) (.error e w')

/-- An evaluation has been cut short, and has said the beginning of what is said in the end. -/
def CutShort {α : Type} (cut : Halt → Prop) (result : EStateM.Result Halt World α) (last : World) :
    Prop :=
  ∃ e w, result = .error e w ∧ cut e ∧ w.said.toList <+: last.said.toList

end Result

/-- What has been said is never taken back. -/
def Adds {α : Type} (act : Eval α) : Prop :=
  ∀ env w, w.said.toList <+: (worldAfter act env w).said.toList

/-- An evaluation ends like another one, or is cut short. -/
structure Follows {α : Type} [Renamed α] (ρ : Renaming) (cut : Halt → Prop) (act act' : Eval α) :
    Prop where
  adds : Adds act
  leads : ∀ {env env' w w'}, env.Leads ρ cut env' → w.Mirrors ρ w' →
    Result.Mirrors ρ (act env w) (act' env' w') ∨
      Result.CutShort cut (act' env' w') (worldAfter act env w)

section

variable {α β : Type} [Renamed α] [Renamed β] {ρ : Renaming} {cut : Halt → Prop}

/-! ### Evaluations one after the other -/

omit [Renamed α] [Renamed β] in
/-- What follows an evaluation adds to what it has said. -/
theorem Adds.said_bind {f : α → Eval β} (hf : ∀ a, Adds (f a)) (x : Eval α) (env : Env)
    (w : World) :
    (worldAfter x env w).said.toList <+: (worldAfter (x >>= f) env w).said.toList := by
  cases hrun : x env w with
  | ok a w' =>
    rw [worldAfter_of_ok hrun, worldAfter_bind_of_ok hrun]
    exact hf a env w'
  | error e w' =>
    have hsame : worldAfter (x >>= f) env w = worldAfter x env w :=
      (worldAfter_of_error (bind_of_error hrun)).trans (worldAfter_of_error hrun).symm
    exact hsame ▸ List.prefix_refl _

/-- **Evaluations one after the other** follow each other. -/
theorem Follows.bind {x x' : Eval α} {f f' : α → Eval β} (hx : Follows ρ cut x x')
    (hf : ∀ a, Follows ρ cut (f a) (f' (rename ρ a))) : Follows ρ cut (x >>= f) (x' >>= f') := by
  have hadds : ∀ env w, (worldAfter x env w).said.toList <+:
      (worldAfter (x >>= f) env w).said.toList := Adds.said_bind (fun a => (hf a).adds) x
  refine ⟨fun env w => (hx.adds env w).trans (hadds env w), fun {env env' w w'} henv hw => ?_⟩
  rcases hx.leads henv hw with hends | ⟨e, v, hrun, hcut, hsaid⟩
  · generalize hrun : x env w = result at hends
    generalize hrun' : x' env' w' = result' at hends
    cases hends with
    | ok hv =>
      rw [bind_of_ok hrun, bind_of_ok hrun', worldAfter_bind_of_ok hrun]
      exact (hf _).leads henv hv
    | error hv =>
      rw [bind_of_error hrun, bind_of_error hrun']
      exact .inl (.error hv)
  · -- the first evaluation goes on without the second one, and only adds to what it has said
    exact .inr ⟨e, v, bind_of_error hrun, hcut, hsaid.trans (hadds env w)⟩

theorem follows_pure (a : α) : Follows ρ cut (pure a) (pure (rename ρ a)) :=
  ⟨fun _ _ => List.prefix_refl _, fun _ hw => .inl (.ok hw)⟩

/-- A stop is followed by the same stop. -/
theorem follows_halt (e : Halt) : Follows ρ cut (halt e : Eval α) (halt e) :=
  ⟨fun _ _ => List.prefix_refl _, fun _ hw => .inl (.error hw)⟩

/-- An evaluation that is cut short at once. -/
theorem Adds.follows_halt {act : Eval α} (h : Adds act) {e : Halt} (hcut : cut e) :
    Follows ρ cut act (halt e) := by
  refine ⟨h, fun {env env' w w'} _ hw => .inr ⟨e, w', rfl, hcut, ?_⟩⟩
  rw [hw.said]
  exact h env w

/-! ### The world -/

/-- To look at the store is followed by the same look, with new names. -/
theorem follows_inspect {f f' : Store → α}
    (h : ∀ s s', s.Mirrors ρ s' → f' s' = rename ρ (f s)) :
    Follows ρ cut (inspect f) (inspect f') := by
  refine ⟨fun _ _ => List.prefix_refl _, fun {env env' w w'} _ hw => .inl ?_⟩
  show Result.Mirrors ρ (.ok (f w.store) w) (.ok (f' w'.store) w')
  rw [h _ _ hw.store]
  exact .ok hw

/-- A change of the store that tells something. -/
theorem follows_updateStore {f f' : Store → α × Store}
    (h : ∀ s s', s.Mirrors ρ s' → (f' s').1 = rename ρ (f s).1 ∧ (f s).2.Mirrors ρ (f' s').2) :
    Follows ρ cut (updateStore f) (updateStore f') := by
  refine ⟨fun _ _ => List.prefix_refl _, fun {env env' w w'} _ hw => .inl ?_⟩
  obtain ⟨hresult, hstore⟩ := h _ _ hw.store
  show Result.Mirrors ρ (.ok (f w.store).1 { w with store := (f w.store).2 })
    (.ok (f' w'.store).1 { w' with store := (f' w'.store).2 })
  rw [hresult]
  exact .ok { hw with store := hstore }

omit [Renamed α] in
/-- A change of the store. -/
theorem follows_modifyStore {f f' : Store → Store}
    (h : ∀ s s', s.Mirrors ρ s' → (f s).Mirrors ρ (f' s')) :
    Follows ρ cut (modifyStore f) (modifyStore f') :=
  ⟨fun _ _ => List.prefix_refl _, fun _ hw => .inl (.ok { hw with store := h _ _ hw.store })⟩

/-- Both sides get the same input. -/
theorem follows_nextInput : Follows ρ cut nextInput nextInput := by
  refine ⟨fun _ _ => List.prefix_refl _, fun {env env' w w'} _ hw => .inl ?_⟩
  show Result.Mirrors ρ (.ok (w.inputs.headD .null) { w with inputs := w.inputs.tail })
    (.ok (w'.inputs.headD .null) { w' with inputs := w'.inputs.tail })
  rw [hw.inputs]
  exact .ok { hw with inputs := rfl }

/-- What is said is seen from outside. -/
theorem follows_announce (v : Value) : Follows ρ cut (announce v) (announce (rename ρ v)) := by
  constructor
  · intro env w
    show w.said.toList <+: (w.said.push (w.store.unfold v)).toList
    rw [Array.toList_push]
    exact List.prefix_append _ _
  · intro env env' w w' _ hw
    have hsaid : w'.said.push (w'.store.unfold (rename ρ v)) = w.said.push (w.store.unfold v) := by
      rw [hw.said, hw.store.unfold]
    exact .inl (.ok { hw with said := hsaid })

/-- The current frame is the counterpart of the current frame. -/
theorem follows_currentFrame : Follows ρ cut currentFrame currentFrame := by
  refine ⟨fun _ _ => List.prefix_refl _, fun {env env' w w'} henv hw => .inl ?_⟩
  show Result.Mirrors ρ (.ok env.frame w) (.ok env'.frame w')
  rw [henv.frame]
  exact .ok hw

/-- A lower ceiling is reached first. -/
theorem follows_ceilingAt? {count : Nat} {f f' : Option Nat → Eval α} {span : Span}
    (hreached : ∀ limit, f (some limit) = fail (.ceiling limit) span)
    (hreached' : ∀ limit, f' (some limit) = fail (.ceiling limit) span)
    (hbelow : Follows ρ cut (f none) (f' none)) :
    Follows ρ cut (ceilingAt? count >>= f) (ceilingAt? count >>= f') := by
  have hadds : ∀ found, Adds (f found) := by
    intro found
    cases found with
    | none => exact hbelow.adds
    | some limit =>
      rw [hreached]
      exact fun _ _ => List.prefix_refl _
  refine ⟨fun env w => hadds _ env w, fun {env env' w w'} henv hw => ?_⟩
  show Result.Mirrors ρ (f (env.ceiling.filter (· ≤ count)) env w)
      (f' (env'.ceiling.filter (· ≤ count)) env' w') ∨
    Result.CutShort cut (f' (env'.ceiling.filter (· ≤ count)) env' w')
      (worldAfter (f (env.ceiling.filter (· ≤ count))) env w)
  rcases henv.ceiling with hsame | ⟨hcut, limit, hlimit, hlower⟩
  · rw [hsame]
    cases env.ceiling.filter (· ≤ count) with
    | none => exact hbelow.leads henv hw
    | some limit =>
      rw [hreached, hreached']
      exact .inl (.error hw)
  · rw [hlimit, Option.filter_some]
    by_cases hcount : limit ≤ count
    · -- the first evaluation may go on, or be stopped by a ceiling of its own
      rw [if_pos (by simpa using hcount), hreached']
      refine .inr ⟨_, w', rfl, hcut limit span, ?_⟩
      rw [hw.said]
      exact hadds _ env w
    · have hnone : env.ceiling.filter (· ≤ count) = none := by
        rw [Option.filter_eq_none_iff]
        intro m hm
        have := hlower m hm
        simp only [decide_eq_true_eq]
        omega
      rw [if_neg (by simpa using hcount), hnone]
      exact hbelow.leads henv hw

/-! ### Frames -/

/-- Both sides put back the same referent, or neither does. -/
theorem World.Mirrors.restoreReferent {w w' : World} (h : w.Mirrors ρ w') (frame : FrameRef)
    (saved : Option String) :
    (restoreReferent frame saved w).Mirrors ρ (restoreReferent (rename ρ frame) saved w') := by
  have hseen : ∀ name, (w'.store.get? (rename ρ frame) name).isNone =
      (w.store.get? frame name).isNone := by
    intro name
    rw [h.store.get?]
    exact Option.isNone_map
  unfold Evaluation.restoreReferent
  rw [h.store.referent]
  cases w.store.referent with
  | none => exact h
  | some name =>
    dsimp only
    rw [hseen]
    split
    · exact { h with store := h.store.setReferent saved }
    · exact h

omit [Renamed α] in
theorem said_restoreReferent (frame : FrameRef) (saved : Option String) (w : World) :
    (restoreReferent frame saved w).said = w.said := by
  obtain ⟨referent, hrestore⟩ := restoreReferent_eq frame saved w
  rw [hrestore]

omit [Renamed α] in
/-- A frame has no part in what is said. -/
theorem said_worldAfter_within (frame : FrameRef) (act : Eval α) (env : Env) (w : World) :
    (worldAfter (within frame act) env w).said =
      (worldAfter act { env with frame := frame } w).said := by
  cases hrun : act { env with frame := frame } w with
  | ok a w' =>
    rw [worldAfter_of_ok hrun, worldAfter_of_ok (within_of_ok hrun), said_restoreReferent]
  | error e w' =>
    rw [worldAfter_of_error hrun, worldAfter_of_error (within_of_error hrun), said_restoreReferent]

/-- **An evaluation in another frame is followed by one in its counterpart.** -/
theorem Follows.within {act act' : Eval α} (h : Follows ρ cut act act') (frame : FrameRef) :
    Follows ρ cut (within frame act) (within (rename ρ frame) act') := by
  constructor
  · intro env w
    rw [said_worldAfter_within]
    exact h.adds _ w
  · intro env env' w w' henv hw
    have hinner : ({ env with frame := frame } : Env).Leads ρ cut
        { env' with frame := rename ρ frame } := ⟨rfl, henv.ceiling⟩
    rcases h.leads hinner hw with hends | ⟨e, v, hrun, hcut, hsaid⟩
    · generalize hrun : act { env with frame := frame } w = result at hends
      generalize hrun' : act' { env' with frame := rename ρ frame } w' = result' at hends
      cases hends with
      | ok hv =>
        rw [within_of_ok hrun, within_of_ok hrun', henv.frame, hw.store.referent]
        exact .inl (.ok (hv.restoreReferent _ _))
      | error hv =>
        rw [within_of_error hrun, within_of_error hrun', henv.frame, hw.store.referent]
        exact .inl (.error (hv.restoreReferent _ _))
    · refine .inr ⟨e, _, within_of_error hrun, hcut, ?_⟩
      rwa [said_restoreReferent, said_worldAfter_within]

end

end Evaluation

end Ballad
