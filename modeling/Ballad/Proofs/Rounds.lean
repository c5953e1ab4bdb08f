import Ballad.Proofs.Evaluation.Keeping

/-!
# The rounds of a loop

A loop under a ceiling runs a number of whole rounds, and then it ends. Both are said here without the
loop: a round evaluates the condition, which asks for the body, and then the body, which leads back to
the condition. The condition and the body are arbitrary and may do anything to the world, so what
matters is in which order, how often and in which world they are evaluated.

- `Loop.Asks`, `Loop.GoesOn`, `Loop.Rounds`: whole rounds, one after the other. They know nothing of a
  ceiling.
- `Loop.Ending`: the ways in which a loop ends. `Loop.Ends`: after how many rounds it may end so, and
  with which result.
- `Loop.Course`: a number of rounds and an ending. `Loop.Course.parts`: what is evaluated in the course
  of the loop, in order. `Loop.play` evaluates just that, without looking at any result.
- `Loop.ceiling_stops_after_rounds`: every loop takes exactly one course, and it is the ceiling that
  ends it exactly if the condition asks for one round more than the ceiling allows.
-/

namespace Ballad.Evaluation

/-- A loop. It ends when the truth of its condition is `goal`. -/
structure Loop where
  span : Span
  condition : Node
  body : List Node
  goal : Bool

namespace Loop

/-- A loop as a statement. -/
def node (l : Loop) : Node :=
  .loop l.span l.condition l.body l.goal

/-- What is evaluated in a loop. -/
inductive Part where
  | condition
  | body
deriving DecidableEq

/-- How a loop ends. -/
inductive Ending where
  /-- The condition stops with an error. -/
  | conditionStops
  /-- The condition does not ask for another round. -/
  | satisfied
  /-- The condition asks for more rounds than the ceiling allows. -/
  | ceiling
  /-- The body leaves the loop. -/
  | broken
  /-- The body gives a value back. -/
  | givenBack
  /-- The body stops with an error. -/
  | bodyStops
  /-- There are no steps left. -/
  | exhausted
deriving DecidableEq

/-- What is evaluated after the last whole round. -/
def Ending.parts : Ending → List Part
  | conditionStops | satisfied | ceiling => [.condition]
  | broken | givenBack | bodyStops => [.condition, .body]
  | exhausted => []

section

variable (ev : Evaluator) (l : Loop) (env : Env)

/-- The condition asks for another round. -/
def Asks (w w' : World) : Prop :=
  ∃ v, ev.eval l.condition env w = .ok v w' ∧ v.isTruthy ≠ l.goal

/-- The body ends normally, or with the signal to continue. -/
def GoesOn (w w' : World) : Prop :=
  ev.nested .loop l.body env w = .ok .normal w' ∨
    ∃ span, ev.nested .loop l.body env w = .ok (.continueLoop span) w'

/-- So many whole rounds lead from one world to another. -/
inductive Rounds : Nat → World → World → Prop where
  | none (w : World) : Rounds 0 w w
  | next {k : Nat} {w w₁ w₂ w₃ : World} (hasks : l.Asks ev env w w₁) (hbody : l.GoesOn ev env w₁ w₂)
      (h : Rounds k w₂ w₃) : Rounds (k + 1) w w₃

/-- How a loop may end in a world after so many rounds, if `limit` of them are allowed and there are
steps for `steps` of them. -/
inductive Ends (limit steps : Nat) :
    Nat → World → Ending → EStateM.Result Halt World Flow → Prop where
  | conditionStops {k : Nat} {w w' : World} {e : Halt} (hlimit : k ≤ limit) (hsteps : k < steps)
      (h : ev.eval l.condition env w = .error e w') :
      Ends limit steps k w .conditionStops (.error e w')
  | satisfied {k : Nat} {w w' : World} {v : Value} (hlimit : k ≤ limit) (hsteps : k < steps)
      (h : ev.eval l.condition env w = .ok v w') (hv : v.isTruthy = l.goal) :
      Ends limit steps k w .satisfied (.ok .normal w')
  | ceiling {w w' : World} (hsteps : limit < steps) (hasks : l.Asks ev env w w') :
      Ends limit steps limit w .ceiling (.error (.error ⟨.ceiling limit, l.span⟩) w')
  | broken {k : Nat} {w w₁ w₂ : World} {span : Span} (hlimit : k < limit) (hsteps : k < steps)
      (hasks : l.Asks ev env w w₁)
      (hbody : ev.nested .loop l.body env w₁ = .ok (.breakLoop span) w₂) :
      Ends limit steps k w .broken (.ok .normal w₂)
  | givenBack {k : Nat} {w w₁ w₂ : World} {v : Value} {span : Span} (hlimit : k < limit)
      (hsteps : k < steps) (hasks : l.Asks ev env w w₁)
      (hbody : ev.nested .loop l.body env w₁ = .ok (.giveBack v span) w₂) :
      Ends limit steps k w .givenBack (.ok (.giveBack v span) w₂)
  | bodyStops {k : Nat} {w w₁ w₂ : World} {e : Halt} (hlimit : k < limit) (hsteps : k < steps)
      (hasks : l.Asks ev env w w₁) (hbody : ev.nested .loop l.body env w₁ = .error e w₂) :
      Ends limit steps k w .bodyStops (.error e w₂)
  | exhausted {w : World} (hlimit : steps ≤ limit) :
      Ends limit steps steps w .exhausted (.error .exhausted w)

/-- Evaluates parts of a loop in the given order, whatever comes out of them. -/
def play : List Part → Eval Unit
  | [] => return ()
  | .condition :: parts => do
    let _ ← ev.eval l.condition
    play parts
  | .body :: parts => do
    let _ ← ev.nested .loop l.body
    play parts

end

/-- A number of whole rounds, and how the loop ends after them. -/
structure Course where
  rounds : Nat
  ending : Ending
deriving DecidableEq

/-- What is evaluated in the course of a loop: the condition and the body once in each round, and then
what belongs to the ending. -/
def Course.parts (c : Course) : List Part :=
  (List.replicate c.rounds [Part.condition, .body]).flatten ++ c.ending.parts

/-- A course of the loop leads from a world to a result. -/
def Course.Leads (c : Course) (ev : Evaluator) (l : Loop) (env : Env) (limit steps : Nat) (w : World)
    (r : EStateM.Result Halt World Flow) : Prop :=
  ∃ w', l.Rounds ev env c.rounds w w' ∧ l.Ends ev env limit steps c.rounds w' c.ending r

variable {ev : Evaluator} {l : Loop} {env : Env} {limit steps k : Nat} {w w' w₁ w₂ : World}
  {e e' : Ending} {r r' : EStateM.Result Halt World Flow}

/-! ### There is only one course -/

theorem Asks.unique (h : l.Asks ev env w w₁) (h' : l.Asks ev env w w₂) : w₁ = w₂ := by
  obtain ⟨v, hv, -⟩ := h
  obtain ⟨v', hv', -⟩ := h'
  rw [hv] at hv'
  cases hv'
  rfl

theorem GoesOn.unique (h : l.GoesOn ev env w w₁) (h' : l.GoesOn ev env w w₂) : w₁ = w₂ := by
  unfold GoesOn at h h'
  grind

theorem Ends.le (h : l.Ends ev env limit steps k w e r) : k ≤ limit ∧ k ≤ steps := by
  cases h <;> omega

theorem Ends.of_ceiling (h : l.Ends ev env limit steps k w .ceiling r) :
    k = limit ∧ limit < steps ∧ ∃ w', l.Asks ev env w w' := by
  cases h with
  | ceiling hsteps hasks => exact ⟨rfl, hsteps, _, hasks⟩

/-- Where a loop ends, no whole round can be made. -/
theorem Ends.not_round (h : l.Ends ev env limit steps k w e r) (hlimit : k < limit)
    (hsteps : k < steps) (hasks : l.Asks ev env w w₁) : ¬ l.GoesOn ev env w₁ w₂ := by
  intro hbody
  cases h with
  | conditionStops _ _ hstops =>
    obtain ⟨v, hv, -⟩ := hasks
    cases hstops.symm.trans hv
  | satisfied _ _ hsatisfied hgoal =>
    obtain ⟨v, hv, hne⟩ := hasks
    cases hsatisfied.symm.trans hv
    exact hne hgoal
  | ceiling => exact Nat.lt_irrefl _ hlimit
  | broken _ _ hasks' hbody' =>
    cases hasks'.unique hasks
    rcases hbody with hbody | ⟨_, hbody⟩ <;> cases hbody'.symm.trans hbody
  | givenBack _ _ hasks' hbody' =>
    cases hasks'.unique hasks
    rcases hbody with hbody | ⟨_, hbody⟩ <;> cases hbody'.symm.trans hbody
  | bodyStops _ _ hasks' hbody' =>
    cases hasks'.unique hasks
    rcases hbody with hbody | ⟨_, hbody⟩ <;> cases hbody'.symm.trans hbody
  | exhausted => exact Nat.lt_irrefl _ hsteps

/-- A loop ends in one way only. -/
theorem Ends.unique (h : l.Ends ev env limit steps k w e r)
    (h' : l.Ends ev env limit steps k w e' r') : e = e' ∧ r = r' := by
  -- the condition and the body have one result each, and the counts tell the other endings apart
  cases h <;> cases h' <;> grind [Asks]

/-- Two courses from one world are the same. Both are followed round by round, with `k` rounds behind
them. -/
theorem Rounds.unique {m m' : Nat} (h : l.Rounds ev env m w w₁)
    (h' : l.Rounds ev env m' w w₂) (hends : l.Ends ev env limit steps (k + m) w₁ e r)
    (hends' : l.Ends ev env limit steps (k + m') w₂ e' r') : m = m' ∧ e = e' ∧ r = r' := by
  induction h generalizing k m' with
  | none w =>
    cases h' with
    | none => exact ⟨rfl, hends.unique hends'⟩
    | next hasks hbody _ =>
      have hle := hends'.le
      exact absurd hbody (hends.not_round (by omega) (by omega) hasks)
  | next hasks hbody _ ih =>
    cases h' with
    | none =>
      have hle := hends.le
      exact absurd hbody (hends'.not_round (by omega) (by omega) hasks)
    | next hasks' hbody' hrest' =>
      cases hasks.unique hasks'
      cases hbody.unique hbody'
      rw [← Nat.add_assoc, Nat.add_right_comm] at hends hends'
      obtain ⟨rfl, hrest⟩ := ih hrest' hends hends'
      exact ⟨rfl, hrest⟩

/-! ### The loop takes a course -/

theorem ceilingAt?_of_lt (hceiling : env.ceiling = some limit) (hk : k < limit) :
    ceilingAt? k env w = .ok none w := by
  show EStateM.Result.ok (env.ceiling.filter (· ≤ k)) w = _
  rw [hceiling, Option.filter_some, if_neg (by simpa using hk)]

theorem ceilingAt?_self (hceiling : env.ceiling = some limit) :
    ceilingAt? limit env w = .ok (some limit) w := by
  show EStateM.Result.ok (env.ceiling.filter (· ≤ limit)) w = _
  rw [hceiling, Option.filter_some, if_pos (by simp)]

/-- The course that a loop takes, when `k` rounds have been made. -/
theorem exists_rounds (hceiling : env.ceiling = some limit) (hk : k ≤ limit) :
    ∃ m w' e, l.Rounds ev env m w w' ∧ l.Ends ev env limit (k + steps) (k + m) w' e
      (ev.loop l.condition l.body l.goal l.span steps k env w) := by
  induction steps generalizing k w with
  | zero => exact ⟨0, w, .exhausted, .none w, .exhausted hk⟩
  | succ steps ih =>
    rw [Evaluator.loop]
    cases hcondition : ev.eval l.condition env w with
    | error e w₁ =>
      rw [bind_of_error hcondition]
      exact ⟨0, w, .conditionStops, .none w, .conditionStops hk (by omega) hcondition⟩
    | ok v w₁ =>
      rw [bind_of_ok hcondition]
      by_cases hv : v.isTruthy = l.goal
      · rw [if_pos (beq_iff_eq.mpr hv)]
        exact ⟨0, w, .satisfied, .none w, .satisfied hk (by omega) hcondition hv⟩
      have hasks : l.Asks ev env w w₁ := ⟨v, hcondition, hv⟩
      rw [if_neg (mt beq_iff_eq.mp hv)]
      rcases Nat.eq_or_lt_of_le hk with rfl | hbelow
      · rw [bind_of_ok (ceilingAt?_self hceiling)]
        exact ⟨0, w, .ceiling, .none w, .ceiling (by omega) hasks⟩
      rw [bind_of_ok (ceilingAt?_of_lt hceiling hbelow)]
      dsimp only
      -- one more round, and then the course that is taken from there
      have hround : ∀ {w₂}, l.GoesOn ev env w₁ w₂ →
          ∃ m w' e, l.Rounds ev env m w w' ∧ l.Ends ev env limit (k + (steps + 1)) (k + m) w' e
            (ev.loop l.condition l.body l.goal l.span steps (k + 1) env w₂) := by
        intro w₂ hbody
        obtain ⟨m, w', e, hrounds, hends⟩ := ih (w := w₂) hbelow
        rw [Nat.add_right_comm k 1 steps, Nat.add_right_comm k 1 m] at hends
        exact ⟨m + 1, w', e, .next hasks hbody hrounds, hends⟩
      cases hbody : ev.nested .loop l.body env w₁ with
      | error e w₂ =>
        rw [bind_of_error hbody]
        exact ⟨0, w, .bodyStops, .none w, .bodyStops hbelow (by omega) hasks hbody⟩
      | ok flow w₂ =>
        rw [bind_of_ok hbody]
        cases flow with
        | normal => exact hround (.inl hbody)
        | continueLoop span => exact hround (.inr ⟨span, hbody⟩)
        | breakLoop span =>
          exact ⟨0, w, .broken, .none w, .broken hbelow (by omega) hasks hbody⟩
        | giveBack v span =>
          exact ⟨0, w, .givenBack, .none w, .givenBack hbelow (by omega) hasks hbody⟩

/-! ### What is evaluated -/

theorem Asks.play_eq (h : l.Asks ev env w w') (parts : List Part) :
    play ev l (.condition :: parts) env w = play ev l parts env w' := by
  obtain ⟨v, hcondition, -⟩ := h
  exact bind_of_ok hcondition

theorem play_of_body {flow : Flow} (h : ev.nested .loop l.body env w = .ok flow w')
    (parts : List Part) : play ev l (.body :: parts) env w = play ev l parts env w' :=
  bind_of_ok h

theorem GoesOn.play_eq (h : l.GoesOn ev env w w') (parts : List Part) :
    play ev l (.body :: parts) env w = play ev l parts env w' := by
  rcases h with h | ⟨span, h⟩
  · exact play_of_body h parts
  · exact play_of_body h parts

/-- Whole rounds evaluate the condition and the body in turn. -/
theorem Rounds.play_eq (h : l.Rounds ev env k w w') (parts : List Part) :
    play ev l ((List.replicate k [Part.condition, .body]).flatten ++ parts) env w =
      play ev l parts env w' := by
  induction h with
  | none w => rfl
  | next hasks hbody _ ih =>
    rw [List.replicate_succ, List.flatten_cons, List.append_assoc]
    exact (hasks.play_eq _).trans ((hbody.play_eq _).trans ih)

/-- An ending leaves the world that its own parts leave. -/
theorem Ends.worldAfter_play {act : Eval Flow} {w₀ : World}
    (h : l.Ends ev env limit steps k w e (act env w₀)) :
    worldAfter (play ev l e.parts) env w = worldAfter act env w₀ := by
  generalize hact : act env w₀ = r at h
  cases h with
  | conditionStops _ _ hstops =>
    exact (worldAfter_of_error (bind_of_error hstops)).trans (worldAfter_of_error hact).symm
  | satisfied _ _ hsatisfied _ =>
    exact (worldAfter_bind_of_ok hsatisfied).trans (worldAfter_of_ok hact).symm
  | ceiling _ hasks =>
    exact (worldAfter_of_ok (hasks.play_eq [])).trans (worldAfter_of_error hact).symm
  | broken _ _ hasks hbody =>
    have hplay := (hasks.play_eq [.body]).trans (play_of_body hbody [])
    exact (worldAfter_of_ok hplay).trans (worldAfter_of_ok hact).symm
  | givenBack _ _ hasks hbody =>
    have hplay := (hasks.play_eq [.body]).trans (play_of_body hbody [])
    exact (worldAfter_of_ok hplay).trans (worldAfter_of_ok hact).symm
  | bodyStops _ _ hasks hbody =>
    have hplay := (hasks.play_eq [.body]).trans (bind_of_error hbody)
    exact (worldAfter_of_error hplay).trans (worldAfter_of_error hact).symm
  | exhausted => exact (worldAfter_of_error hact).symm

theorem count_body_rounds (k : Nat) :
    (List.replicate k [Part.condition, .body]).flatten.count .body = k := by
  induction k with
  | zero => rfl
  | succ k ih =>
    rw [List.replicate_succ, List.flatten_cons, List.count_append, ih, Nat.add_comm]
    rfl

/-- The body is entered once in each round, and once more if it ends the loop. -/
theorem Ends.count_body_le (h : l.Ends ev env limit steps k w e r) :
    k + e.parts.count .body ≤ limit := by
  cases h with
  | conditionStops hlimit => exact hlimit
  | satisfied hlimit => exact hlimit
  | ceiling => exact Nat.le_refl _
  | broken hlimit => exact hlimit
  | givenBack hlimit => exact hlimit
  | bodyStops hlimit => exact hlimit
  | exhausted hlimit => exact hlimit

/-- **The ceiling stops a loop after exactly as many rounds as it allows**. For all conditions and
bodies, whatever they do, a loop takes exactly one course: a number of whole rounds, in each of which
the condition has asked for the body and the body has ended normally or with the signal to continue, and
an ending, which decides the result. It leaves behind the world that the parts of this course leave,
evaluated in order without regard to the loop; the body is never among them more often than the ceiling
allows. The ceiling ends the loop exactly if all rounds that it allows can be made and the condition
then asks for one more, as long as there are steps for that many rounds. -/
theorem ceiling_stops_after_rounds (ev : Evaluator) (l : Loop) (frame : FrameRef)
    (limit steps : Nat) (w : World) :
    ∃ c : Course,
      (∀ c' r, c'.Leads ev l ⟨frame, some limit⟩ limit steps w r ↔
        c' = c ∧ r = ev.execNode steps l.node ⟨frame, some limit⟩ w) ∧
      worldAfter (ev.execNode steps l.node) ⟨frame, some limit⟩ w =
        worldAfter (play ev l c.parts) ⟨frame, some limit⟩ w ∧
      c.parts.count .body ≤ limit ∧
      (c.ending = .ceiling ↔ limit < steps ∧ ∃ w₁ w₂,
        l.Rounds ev ⟨frame, some limit⟩ limit w w₁ ∧ l.Asks ev ⟨frame, some limit⟩ w₁ w₂) := by
  obtain ⟨m, w', e, hrounds, hends⟩ : ∃ m w' e, l.Rounds ev ⟨frame, some limit⟩ m w w' ∧
      l.Ends ev ⟨frame, some limit⟩ limit (0 + steps) (0 + m) w' e
        (ev.execNode steps l.node ⟨frame, some limit⟩ w) :=
    exists_rounds rfl (Nat.zero_le limit)
  rw [Nat.zero_add, Nat.zero_add] at hends
  have honly : ∀ (c' : Course) r, c'.Leads ev l ⟨frame, some limit⟩ limit steps w r →
      c' = ⟨m, e⟩ ∧ r = ev.execNode steps l.node ⟨frame, some limit⟩ w := by
    rintro ⟨m', e'⟩ r ⟨w'', hrounds', hends'⟩
    rw [← Nat.zero_add m] at hends
    rw [← Nat.zero_add m'] at hends'
    obtain ⟨rfl, rfl, rfl⟩ := hrounds.unique hrounds' hends hends'
    exact ⟨rfl, rfl⟩
  refine ⟨⟨m, e⟩, fun c' r => ⟨honly c' r, ?_⟩, ?_, ?_, ?_⟩
  · rintro ⟨rfl, rfl⟩
    exact ⟨w', hrounds, hends⟩
  · rw [← hends.worldAfter_play, Course.parts, worldAfter, worldAfter, hrounds.play_eq]
  · rw [Course.parts, List.count_append, count_body_rounds]
    exact hends.count_body_le
  · constructor
    · rintro rfl
      obtain ⟨rfl, hsteps, w₂, hasks⟩ := hends.of_ceiling
      exact ⟨hsteps, w', w₂, hrounds, hasks⟩
    · rintro ⟨hsteps, w₁, w₂, hall, hasks⟩
      have hleads : Course.Leads ⟨limit, .ceiling⟩ ev l ⟨frame, some limit⟩ limit steps w _ :=
        ⟨w₁, hall, .ceiling hsteps hasks⟩
      exact congrArg Course.ending (honly _ _ hleads).1.symm

end Loop

end Ballad.Evaluation
