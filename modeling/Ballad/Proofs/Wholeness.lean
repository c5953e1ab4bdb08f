import Ballad.Proofs.Arguments
import Ballad.Proofs.Reading.Runs

/-!
# Where an expression may end

There are three ways to ask whether what has been read of an expression, or of a list of them, is
whole: to look at it, to end the source there, and to end the line there. They agree.

- `Agree`: the three answers, and the results of the last two.
- `Phrase.take_newline_of_isComplete`: a whole expression ends before the end of its line, with the
  node that it has at the end of the source.
- `Phrase.finish_of_isComplete_eq_false`, `Phrase.take_newline_of_isComplete_eq_false`: anything less
  is an error in both places.
- `Listing.push_current_steady`: the current item of a list is read as any other expression.

What is not whole has an innermost part that is not whole either. For an open construct this takes
the invariant of reading: a comparison that lacks a word has no right operand yet.
-/

namespace Ballad.Reading

/-- The three ways to ask whether a construct is whole, as `whole` tells, agree: the source may end in
it, wherever that is, and it ends before the end `l` of its line, which it hands back. Then the last two
have one result; otherwise both fail. -/
structure Agree {σ α : Type} (whole : Bool) (finish : Span → Except ParseError α) (l : Lexeme)
    (pushed : Except ParseError (Step σ α)) : Prop where
  finish_iff : whole ↔ ∀ stop, ∃ r, finish stop = .ok r
  push_iff : whole ↔ ∃ r, pushed = .ok (.yield r l)
  same : whole → ∃ r, (∀ stop, finish stop = .ok r) ∧ pushed = .ok (.yield r l)
  fails : whole = false → (∀ stop, ∃ e, finish stop = .error e) ∧ ∃ e, pushed = .error e

/-- The results decide the answers. -/
theorem Agree.of_results {σ α : Type} {whole : Bool} {finish : Span → Except ParseError α}
    {l : Lexeme} {pushed : Except ParseError (Step σ α)}
    (same : whole → ∃ r, (∀ stop, finish stop = .ok r) ∧ pushed = .ok (.yield r l))
    (fails : whole = false → (∀ stop, ∃ e, finish stop = .error e) ∧ ∃ e, pushed = .error e) :
    Agree whole finish l pushed := by
  refine ⟨?_, ?_, same, fails⟩
  · constructor
    · intro h stop
      obtain ⟨r, hr, -⟩ := same h
      exact ⟨r, hr stop⟩
    · intro h
      by_cases hwhole : whole
      · exact hwhole
      · obtain ⟨r, hr⟩ := h .origin
        obtain ⟨e, he⟩ := (fails (by simpa using hwhole)).1 .origin
        rw [hr] at he
        cases he
  · constructor
    · intro h
      obtain ⟨r, -, hr⟩ := same h
      exact ⟨r, hr⟩
    · rintro ⟨r, hr⟩
      by_cases hwhole : whole
      · exact hwhole
      · obtain ⟨e, he⟩ := (fails (by simpa using hwhole)).2
        rw [hr] at he
        cases he

/-! ### Expressions -/

namespace Phrase

variable {mode : Mode} {shell : Shell} {p child current : Phrase} {n : Node} {items : List Node}
  {l : Lexeme} {stop : Span}

/-- A whole expression ends before the end of its line. -/
theorem take_newline_of_isComplete (hl : l.isNewline) (hp : p.isComplete)
    (hn : p.finish stop = .ok n) : p.take l = .ok (.yield n l) := by
  induction p generalizing n with
  | empty mode => cases hp
  | article mode word => cases hp
  | proper mode name span =>
    cases hn
    rw [take, Lexeme.word_of_isNewline hl, if_neg (by simp)]
    exact afterOperand_newline hl mode _
  | operand mode node =>
    cases hn
    exact afterOperand_newline hl mode _
  | within mode shell child ih =>
    obtain ⟨hsettled, hchild⟩ := Bool.and_eq_true_iff.mp hp
    obtain ⟨m, hm⟩ := exists_finish hchild
    rw [finish_within hsettled (hm stop)] at hn
    cases hn
    rw [take_within_newline hl (refine_of_isSettled hsettled l), ih hchild (hm stop)]
    rfl
  | call mode callee items delimited current ih =>
    have hcurrent : current.isComplete := hp
    obtain ⟨m, hm⟩ := exists_finish hcurrent
    rw [finish_call_of_isComplete hcurrent (hm stop)] at hn
    cases hn
    rw [take_call_newline hl, ih hcurrent (hm stop)]
    rfl

theorem isComplete_eq_false_of_isEmpty (h : p.isEmpty) : p.isComplete = false := by
  cases p <;> first | rfl | cases h

/-- An open construct that is not whole has a last part that is not whole. -/
theorem isComplete_child (hsteady : (within mode shell child).Steady mode)
    (h : (within mode shell child).isComplete = false) : child.isComplete = false := by
  -- a construct that lacks a word has read nothing of its last part
  obtain ⟨-, hsettled | hempty, -⟩ := hsteady
  · exact (Bool.and_eq_false_iff.mp h).resolve_left (by simp [hsettled])
  · exact isComplete_eq_false_of_isEmpty hempty

theorem finishItems_error {last : Except ParseError Node} (h : ∃ e, last = .error e) :
    ∃ e, finishItems stop items current last = .error e := by
  obtain ⟨e, rfl⟩ := h
  unfold finishItems
  split
  · exact ⟨_, rfl⟩
  · exact ⟨e, rfl⟩

/-- The source may not end in an expression that is not whole. -/
theorem finish_of_isComplete_eq_false (hsteady : p.Steady mode) (h : p.isComplete = false) :
    ∃ e, p.finish stop = .error e := by
  induction p generalizing mode with
  | empty m => exact ⟨_, rfl⟩
  | article m word => exact ⟨_, rfl⟩
  | proper m name span => cases h
  | operand m node => cases h
  | within m shell child ih =>
    obtain rfl := hsteady.1
    obtain ⟨e, he⟩ := ih hsteady.2.2 (isComplete_child hsteady h)
    unfold finish
    split
    · exact ⟨_, rfl⟩
    · exact ⟨_, rfl⟩
    · exact ⟨_, rfl⟩
    · exact ⟨e, by rw [he]; rfl⟩
  | call m callee items delimited current ih =>
    obtain ⟨-, -, -, hcurrent⟩ := hsteady
    have hitems : ∃ e, finishItems stop items current (current.finish stop) = .error e :=
      finishItems_error (ih hcurrent h)
    obtain ⟨e, he⟩ := hitems
    exact ⟨e, by rw [finish, he]; rfl⟩

/-- Nor may the line. -/
theorem take_newline_of_isComplete_eq_false (hl : l.isNewline) (hsteady : p.Steady mode)
    (h : p.isComplete = false) : ∃ e, p.take l = .error e := by
  induction p generalizing mode with
  | empty m => exact ⟨_, by rw [take, start_newline hl]; rfl⟩
  | article m word => exact ⟨_, by rw [take, Lexeme.word_of_isNewline hl]⟩
  | proper m name span => cases h
  | operand m node => cases h
  | within m shell child ih =>
    obtain rfl := hsteady.1
    obtain ⟨e, he⟩ := ih hsteady.2.2 (isComplete_child hsteady h)
    -- the construct itself may fail for want of a word, or else its last part does
    rcases refine_newline hl shell with hrefine | ⟨e', hrefine⟩
    · exact ⟨e, by rw [take_within_newline hl hrefine, he]; rfl⟩
    · exact ⟨e', by rw [take, hrefine]⟩
  | call m callee items delimited current ih =>
    obtain ⟨-, -, -, hcurrent⟩ := hsteady
    obtain ⟨e, he⟩ := ih hcurrent h
    exact ⟨e, by rw [take_call_newline hl, he]; rfl⟩

theorem agree_of_steady (hl : l.isNewline) (hsteady : p.Steady mode) :
    Agree p.isComplete (fun stop => p.finish stop) l (p.push l) := by
  rw [push_newline hl]
  refine .of_results (fun hp => ?_) fun hp => ?_
  · obtain ⟨n, hn⟩ := exists_finish hp
    exact ⟨n, hn, take_newline_of_isComplete hl hp (hn .origin)⟩
  · exact ⟨fun stop => finish_of_isComplete_eq_false hsteady hp,
      take_newline_of_isComplete_eq_false hl hsteady hp⟩

end Phrase

/-! ### Lists -/

namespace Listing

variable {list list' : Listing} {l : Lexeme}

/-- The current item of a list is read as any other expression. -/
theorem push_current_steady (h : list.push l = .ok (.next list'))
    (hsteady : list.current.Steady .value) : list'.current.Steady .value := by
  unfold push at h
  split at h
  · cases h
    exact hsteady
  · obtain ⟨step, hstep, h⟩ := map_eq_ok.mp h
    cases step with
    | done node | yield node l' => cases h
    | next state =>
      obtain ⟨items, delimited, current⟩ := state
      cases h
      rcases Phrase.pushItem_next hstep with ⟨-, ⟨hcurrent, -⟩ | hcurrent⟩ | ⟨-, htake, -, -⟩
      · rw [hcurrent]
        exact hsteady
      · rw [hcurrent]
        rfl
      · exact Phrase.take_steady htake hsteady

theorem agree_of_steady (hl : l.isNewline) (hsteady : list.current.Steady .value) :
    Agree list.isComplete list.finish l (list.push l) := by
  rw [push_newline hl]
  refine .of_results (fun hlist => ?_) fun hlist => ?_
  · have hcurrent : list.current.isComplete := hlist
    obtain ⟨n, hn⟩ := Phrase.exists_finish hcurrent
    refine ⟨listNode (list.items ++ [n]),
      fun stop => Phrase.finishItems_of_isComplete hcurrent (hn stop), ?_⟩
    rw [Phrase.take_newline_of_isComplete hl hcurrent (hn .origin)]
    rfl
  · have hcurrent : list.current.isComplete = false := hlist
    refine ⟨fun stop =>
      Phrase.finishItems_error (Phrase.finish_of_isComplete_eq_false hsteady hcurrent), ?_⟩
    obtain ⟨e, he⟩ := Phrase.take_newline_of_isComplete_eq_false hl hsteady hcurrent
    exact ⟨e, by rw [he]; rfl⟩

end Listing

/-! ### All that can be read -/

/-- What a list ends with is a list, whose items the statement around it takes. -/
theorem Statement.push_rock_of_yield {list : Listing} {l : Lexeme} {n : Node} (hl : l.isNewline)
    (h : list.push l = .ok (.yield n l)) :
    ∃ items, n = listNode items ∧ ∀ first target, (rock first target list).push l =
      .ok (.done (.push (first.through (Node.spanOf items)) target items)) := by
  rcases Listing.push_cases h with ⟨list', hnext⟩ | ⟨last, -, hyield⟩
  · cases hnext
  · cases hyield
    refine ⟨_, rfl, fun first target => ?_⟩
    show (if l.isTrivia then _ else (rock first target list).take l) = _
    rw [Lexeme.isTrivia_of_isNewline hl, take, h]
    exact if_pos hl

/-- **To be whole, to end with the source and to end with the line is the same.** Of whatever has been
read of an expression of any mode, or of a list, it is whole exactly if the source may end after it,
and exactly if the line may. Both give the same node then, and the end of the line goes to the
statement around it. Otherwise both are errors. -/
theorem ends_agree {l : Lexeme} (hl : l.isNewline) :
    (∀ mode ls p, readAll Phrase.push (.empty mode) ls = .ok (.next p) →
      Agree p.isComplete (fun stop => p.finish stop) l (p.push l) ∧
      ∀ n, p.push l = .ok (.yield n l) → ∀ first (s : Slot),
        (Statement.slot first s p).push l = s.close first n l) ∧
    ∀ ls list, readAll Listing.push .empty ls = .ok (.next list) →
      Agree list.isComplete list.finish l (list.push l) ∧
      ∀ n, list.push l = .ok (.yield n l) → ∃ items, n = listNode items ∧ ∀ first target,
        (Statement.rock first target list).push l =
          .ok (.done (.push (first.through (Node.spanOf items)) target items)) := by
  constructor
  · intro mode ls p hread
    have hsteady : p.Steady mode :=
      readAll_invariant (P := fun p => p.Steady mode) Phrase.push_steady hread rfl
    exact ⟨Phrase.agree_of_steady hl hsteady, 
      fun n hn => Statement.push_slot_of_yield (Lexeme.isTrivia_of_isNewline hl) hn⟩
  · intro ls list hread
    have hsteady : list.current.Steady .value :=
      readAll_invariant (P := fun list => list.current.Steady .value)
        Listing.push_current_steady hread rfl
    exact ⟨Listing.agree_of_steady hl hsteady, fun n => Statement.push_rock_of_yield hl⟩

open Grammar (wordInFirstLine)

/-- The end of a first line. -/
def firstLineEnd (column : Nat) : Lexeme :=
  ⟨.newline, "\n", none, ⟨⟨1, column⟩, ⟨2, 0⟩⟩⟩

/-- `x plus` may not end there, and `x, y` may, with both items. -/
theorem ends_agree_sum : ∃ (sum : Phrase) (list : Listing) (items : List Node),
    readAll Phrase.push (.empty .value) [wordInFirstLine "x" 0, wordInFirstLine "plus" 2] =
      .ok (.next sum) ∧
    (∃ e, sum.push (firstLineEnd 6) = .error e) ∧
    readAll Listing.push .empty [wordInFirstLine "x" 0, ⟨.delimiter, ",", none, ⟨⟨1, 1⟩, ⟨1, 2⟩⟩⟩,
      wordInFirstLine "y" 3] = .ok (.next list) ∧
    items.length = 2 ∧ list.finish .origin = .ok (listNode items) ∧
      list.push (firstLineEnd 4) = .ok (.yield (listNode items) (firstLineEnd 4)) := by
  have hsum : readAll Phrase.push (.empty .value)
      [wordInFirstLine "x" 0, wordInFirstLine "plus" 2] = .ok (.next _) := rfl
  have hlist : readAll Listing.push .empty [wordInFirstLine "x" 0,
      ⟨.delimiter, ",", none, ⟨⟨1, 1⟩, ⟨1, 2⟩⟩⟩, wordInFirstLine "y" 3] = .ok (.next _) := rfl
  have hfails := ((ends_agree (l := firstLineEnd 6) rfl).1 _ _ _ hsum).1.fails rfl
  obtain ⟨hagree, hrock⟩ := (ends_agree (l := firstLineEnd 4) rfl).2 _ _ hlist
  obtain ⟨n, hfinish, hpush⟩ := hagree.same rfl
  obtain ⟨items, rfl, -⟩ := hrock n hpush
  have hlength : items.length = 2 := by
    injection hpush with hpush
    injection hpush with hpush
    injection hpush with _ hitems
    rw [← hitems]
    rfl
  exact ⟨_, _, items, hsum, hfails.2, hlist, hlength, hfinish .origin, hpush⟩

end Ballad.Reading
