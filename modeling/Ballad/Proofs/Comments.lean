import Ballad.Proofs.Splicing

/-!
# Comments end where their parentheses balance

The lexer counts the parentheses that are open, and ends a comment where there are none any more. In
terms of the text this is the first point at which as many parentheses have been closed as opened.

- `Piece.balance`: how many more parentheses a text opens than it closes.
- `Piece.tally`: a comment with what the counter is after each character. This counter is an integer, so
  it could go below zero; `Piece.comment_eq_tally` says that it makes no difference.
- `Piece.counter_eq_balance`, `Piece.counter_pos`: the counter is the balance of what has been read, and
  is positive up to the end.
- `Piece.Enclosed`: what is cut out of a text that begins with a parenthesis.
-/

namespace Ballad

namespace Piece

variable {cs w : List Char} {depth : Int}

/-! ### The counter -/

/-- How many more parentheses a text opens than it closes. -/
def balance (w : List Char) : Int :=
  w.count '(' - w.count ')'

/-- A counter of open parentheses after one more character. -/
def level (depth : Int) (c : Char) : Int :=
  if c = '(' then depth + 1 else if c = ')' then depth - 1 else depth

/-- The characters of a comment, each with what the counter is after it, and what follows. -/
def tally (depth : Int) : List Char → List (Char × Int) × List Char
  | [] => ([], [])
  | c :: cs =>
    if c = ')' ∧ level depth c = 0 then ([(c, level depth c)], cs)
    else
      let (steps, rest) := tally (level depth c) cs
      ((c, level depth c) :: steps, rest)

theorem level_eq (depth : Int) (c : Char) : level depth c = depth + balance [c] := by
  unfold level balance
  by_cases hopen : c = '('
  · subst hopen
    rfl
  by_cases hclose : c = ')'
  · subst hclose
    rfl
  · simp [hopen, hclose]

theorem balance_append (v w : List Char) : balance (v ++ w) = balance v + balance w := by
  unfold balance
  rw [List.count_append, List.count_append]
  omega

theorem tally_of_closed {c : Char} (h : c = ')' ∧ level depth c = 0) (cs : List Char) :
    tally depth (c :: cs) = ([(c, level depth c)], cs) := by
  rw [tally, if_pos h]

theorem tally_of_not_closed {c : Char} (h : ¬ (c = ')' ∧ level depth c = 0)) (cs : List Char) :
    tally depth (c :: cs) =
      ((c, level depth c) :: (tally (level depth c) cs).1, (tally (level depth c) cs).2) := by
  rw [tally, if_neg h]

/-- An open comment stays open as long as it is not closed. -/
theorem level_pos {c : Char} (hdepth : 0 < depth) (h : ¬ (c = ')' ∧ level depth c = 0)) :
    0 < level depth c := by
  unfold level at h ⊢
  by_cases hopen : c = '('
  · rw [if_pos hopen]
    omega
  rw [if_neg hopen] at h ⊢
  by_cases hclose : c = ')'
  · simp only [hclose, if_true, true_and] at h ⊢
    omega
  · rwa [if_neg hclose]

/-- **The lexer counts as if with integers**: there is always a parenthesis open that can be closed. -/
theorem comment_eq_tally {depth : Nat} (hdepth : 0 < depth) (cs : List Char) :
    comment depth cs = ((tally depth cs).1.map Prod.fst, (tally depth cs).2) := by
  induction cs generalizing depth with
  | nil => rfl
  | cons c cs ih =>
    have hcloses : c = ')' ∧ depth ≤ 1 ↔ c = ')' ∧ level depth c = 0 := by
      refine and_congr_right ?_
      rintro rfl
      show depth ≤ 1 ↔ (depth : Int) - 1 = 0
      omega
    by_cases hclosed : c = ')' ∧ level depth c = 0
    · rw [comment, if_pos (hcloses.mpr hclosed), tally_of_closed hclosed]
      rfl
    · have hpos := level_pos (Int.natCast_pos.mpr hdepth) hclosed
      -- the counter of the lexer is the same integer
      have hlevel : ((if c = '(' then depth + 1 else if c = ')' then depth - 1 else depth : Nat) : Int) =
          level depth c := by
        unfold level
        split
        · rfl
        · split
          · omega
          · rfl
      rw [← hlevel] at hpos
      rw [comment, if_neg (mt hcloses.mp hclosed), tally_of_not_closed hclosed, ← hlevel]
      dsimp only
      rw [ih (Int.natCast_pos.mp hpos)]
      rfl

/-! ### What the counter tells -/

variable {c : Char} {before after : List (Char × Int)} {step : Char × Int}

/-- A step is the first one, or one of those after it. -/
theorem steps_cases (h : (tally depth (c :: cs)).1 = before ++ step :: after) :
    (before = [] ∧ step = (c, level depth c) ∧ (c = ')' ∧ level depth c = 0 → after = [])) ∨
    (¬ (c = ')' ∧ level depth c = 0) ∧
      ∃ later, before = (c, level depth c) :: later ∧
        (tally (level depth c) cs).1 = later ++ step :: after) := by
  by_cases hclosed : c = ')' ∧ level depth c = 0
  · rw [tally_of_closed hclosed] at h
    cases before with
    | nil =>
      cases h
      exact .inl ⟨rfl, rfl, fun _ => rfl⟩
    | cons b later =>
      obtain ⟨-, hrest⟩ := List.cons.inj h
      cases later <;> cases hrest
  · rw [tally_of_not_closed hclosed] at h
    cases before with
    | nil =>
      cases h
      exact .inl ⟨rfl, rfl, fun hclose => absurd hclose hclosed⟩
    | cons b later =>
      obtain ⟨rfl, hrest⟩ := List.cons.inj h
      exact .inr ⟨hclosed, later, rfl, hrest⟩

/-- **The counter is the balance of what has been read.** -/
theorem counter_eq_balance (h : (tally depth cs).1 = before ++ step :: after) :
    step.2 = depth + balance ((before ++ [step]).map Prod.fst) := by
  induction cs generalizing depth before with
  | nil => cases before <;> cases h
  | cons c cs ih =>
    have hlevel := level_eq depth c
    rcases steps_cases h with ⟨rfl, rfl, -⟩ | ⟨-, later, rfl, hlater⟩
    · exact hlevel
    · have hread := ih hlater
      show step.2 = depth + balance ([c] ++ (later ++ [step]).map Prod.fst)
      rw [balance_append]
      omega

/-- **The counter is positive**, and zero after the last character only. -/
theorem counter_pos (hdepth : 0 < depth) (h : (tally depth cs).1 = before ++ step :: after) :
    0 < step.2 ∨ step.2 = 0 ∧ after = [] := by
  induction cs generalizing depth before with
  | nil => cases before <;> cases h
  | cons c cs ih =>
    rcases steps_cases h with ⟨rfl, rfl, hlast⟩ | ⟨hopen, later, rfl, hlater⟩
    · by_cases hclosed : c = ')' ∧ level depth c = 0
      · exact .inr ⟨hclosed.2, hlast hclosed⟩
      · exact .inl (level_pos hdepth hclosed)
    · exact ih (level_pos hdepth hopen) hlater

/-- What is left over begins after a parenthesis that has brought the counter to zero. -/
theorem closed_or_rest_nil (depth : Int) (cs : List Char) :
    (tally depth cs).2 = [] ∨ ∃ before step, (tally depth cs).1 = before ++ [step] ∧ step.2 = 0 := by
  induction cs generalizing depth with
  | nil => exact .inl rfl
  | cons c cs ih =>
    by_cases hclosed : c = ')' ∧ level depth c = 0
    · rw [tally_of_closed hclosed]
      exact .inr ⟨[], _, rfl, hclosed.2⟩
    · rw [tally_of_not_closed hclosed]
      rcases ih (level depth c) with hnil | ⟨before, step, hlast, hzero⟩
      · exact .inl hnil
      · exact .inr ⟨(c, level depth c) :: before, step, congrArg _ hlast, hzero⟩

/-! ### The text of a comment -/

theorem balance_eq_zero_iff : balance w = 0 ↔ w.count '(' = w.count ')' := by
  unfold balance
  omega

theorem comment_one (cs : List Char) :
    comment 1 cs = ((tally 1 cs).1.map Prod.fst, (tally 1 cs).2) :=
  comment_eq_tally Nat.one_pos cs

theorem balance_open (w : List Char) : balance ('(' :: w) = 1 + balance w :=
  balance_append ['('] w

/-- What is read of a comment before its end does not balance. -/
theorem eq_comment_of_balance (hw : w <+: (comment 1 cs).1) (hbalance : balance ('(' :: w) = 0) :
    w = (comment 1 cs).1 := by
  rw [balance_open] at hbalance
  rw [comment_one] at hw ⊢
  obtain ⟨steps, ⟨after, hsteps⟩, rfl⟩ := List.prefix_map_iff.mp hw
  rcases List.eq_nil_or_concat steps with rfl | ⟨before, step, rfl⟩
  · -- the first parenthesis alone is open
    cases hbalance
  · rw [List.concat_eq_append, List.append_assoc] at hsteps
    rw [List.concat_eq_append] at hbalance ⊢
    have hcounter := counter_eq_balance hsteps.symm
    rcases counter_pos Int.one_pos hsteps.symm with hpos | ⟨-, rfl⟩
    · omega
    · rw [← hsteps]
      rfl

/-- A comment after which something is left balances. -/
theorem balance_comment (hrest : (comment 1 cs).2 ≠ []) : balance ('(' :: (comment 1 cs).1) = 0 := by
  rw [comment_one] at hrest ⊢
  obtain ⟨before, step, hlast, hzero⟩ := (closed_or_rest_nil 1 cs).resolve_left hrest
  rw [balance_open, hlast, ← counter_eq_balance hlast, hzero]

/-- The shortest beginning of a text, the empty one apart, that closes as many parentheses as it
opens. -/
structure ShortestBalanced (text w : List Char) : Prop where
  isPrefix : w <+: text
  ne_nil : w ≠ []
  balanced : w.count '(' = w.count ')'
  shortest : ∀ v, v <+: text → v ≠ [] → v.count '(' = v.count ')' → w.length ≤ v.length

/-- What is cut out of a text that begins with a parenthesis. -/
inductive Enclosed (text : List Char) : Piece → Prop where
  /-- The shortest beginning that balances, if there is one. -/
  | closed {w : List Char} (h : ShortestBalanced text w) : Enclosed text ⟨.comment, w⟩
  /-- Otherwise the whole text. -/
  | unclosed (h : ∀ v, v <+: text → v ≠ [] → v.count '(' ≠ v.count ')') :
    Enclosed text ⟨.comment, text⟩

theorem enclosed_first (cs : List Char) : Enclosed ('(' :: cs) (first '(' cs).1 := by
  have hfirst : (first '(' cs).1 = ⟨.comment, '(' :: (comment 1 cs).1⟩ := rfl
  have htext := comment_append 1 cs
  rw [hfirst]
  -- no beginning of the comment balances but the whole of it
  have hwhole : ∀ v, v <+: '(' :: (comment 1 cs).1 → v ≠ [] → v.count '(' = v.count ')' →
      v = '(' :: (comment 1 cs).1 := by
    intro v hv hne hbalanced
    obtain ⟨d, w, rfl⟩ := List.exists_cons_of_ne_nil hne
    obtain ⟨rfl, hw⟩ := List.cons_prefix_cons.mp hv
    rw [eq_comment_of_balance hw (balance_eq_zero_iff.mpr hbalanced)]
  by_cases hbalance : balance ('(' :: (comment 1 cs).1) = 0
  · have hbegins : '(' :: (comment 1 cs).1 <+: '(' :: cs :=
      List.cons_prefix_cons.mpr ⟨rfl, (comment 1 cs).2, htext⟩
    refine .closed ⟨hbegins, List.cons_ne_nil _ _, balance_eq_zero_iff.mp hbalance, ?_⟩
    intro v hv hne hbalanced
    rcases List.prefix_or_prefix_of_prefix hv hbegins with hshorter | hlonger
    · rw [hwhole v hshorter hne hbalanced]
    · exact hlonger.length_le
  · have hrest : (comment 1 cs).2 = [] := by
      by_contra hrest
      exact hbalance (balance_comment hrest)
    rw [hrest, List.append_nil] at htext
    rw [htext] at hwhole hbalance ⊢
    refine .unclosed fun v hv hne hbalanced => hbalance ?_
    rw [← hwhole v hv hne hbalanced]
    exact balance_eq_zero_iff.mpr hbalanced

/-- **A comment ends where its parentheses balance.** Wherever a piece begins with a parenthesis, it is a
comment: the shortest beginning of the text that closes as many parentheses as it opens, or else all of
the text. The counter of open parentheses is never negative on the way. -/
theorem comments_end_balanced {source : String} {before after : List Piece} {p : Piece}
    {cs : List Char} (hcut : cut source.toList = before ++ p :: after)
    (htext : (p :: after).flatMap text = '(' :: cs) :
    Enclosed ('(' :: cs) p ∧ p.text = '(' :: (tally 1 cs).1.map Prod.fst ∧
      ∀ step ∈ (tally 1 cs).1, 0 ≤ step.2 := by
  have hpieces := cut_flatMap_of_append hcut
  rw [htext, cut_cons] at hpieces
  obtain rfl := (List.cons.inj hpieces).1
  refine ⟨enclosed_first cs, ?_, ?_⟩
  · show '(' :: (comment 1 cs).1 = _
    rw [comment_one]
  · intro step hstep
    obtain ⟨before, after, hsteps⟩ := List.append_of_mem hstep
    rcases counter_pos Int.one_pos hsteps with hpos | ⟨hzero, -⟩
    · omega
    · omega

/-- A comment inside of another one, and after it one that is closed nowhere. -/
theorem comments_end_balanced_nested :
    (∃ before after cs,
      cut "say (ü (no)) ) (to(".toList = before ++ ⟨.comment, "(ü (no))".toList⟩ :: after ∧
      (⟨.comment, "(ü (no))".toList⟩ :: after).flatMap text = '(' :: cs ∧
      Enclosed ('(' :: cs) ⟨.comment, "(ü (no))".toList⟩ ∧
      "(ü (no))".toList = '(' :: (tally 1 cs).1.map Prod.fst ∧ ∀ step ∈ (tally 1 cs).1, 0 ≤ step.2) ∧
    ∃ before cs,
      cut "say (ü (no)) ) (to(".toList = before ++ [⟨.comment, "(to(".toList⟩] ∧
      [⟨.comment, "(to(".toList⟩].flatMap text = '(' :: cs ∧
      Enclosed ('(' :: cs) ⟨.comment, "(to(".toList⟩ ∧
      "(to(".toList = '(' :: (tally 1 cs).1.map Prod.fst ∧ ∀ step ∈ (tally 1 cs).1, 0 ≤ step.2 := by
  constructor
  · have hcut : cut "say (ü (no)) ) (to(".toList =
        [⟨.identifier, "say".toList⟩, ⟨.whitespace, [' ']⟩] ++ ⟨.comment, "(ü (no))".toList⟩ ::
          [⟨.whitespace, [' ']⟩, ⟨.whitespace, [')']⟩, ⟨.whitespace, [' ']⟩,
            ⟨.comment, "(to(".toList⟩] := by
      decide +kernel
    exact ⟨_, _, _, hcut, rfl, comments_end_balanced hcut rfl⟩
  · have hcut : cut "say (ü (no)) ) (to(".toList =
        [⟨.identifier, "say".toList⟩, ⟨.whitespace, [' ']⟩, ⟨.comment, "(ü (no))".toList⟩,
          ⟨.whitespace, [' ']⟩, ⟨.whitespace, [')']⟩, ⟨.whitespace, [' ']⟩] ++
          [⟨.comment, "(to(".toList⟩] := by
      decide +kernel
    exact ⟨_, _, hcut, rfl, comments_end_balanced hcut rfl⟩

end Piece

end Ballad
