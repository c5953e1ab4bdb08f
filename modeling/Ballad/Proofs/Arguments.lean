import Ballad.Proofs.Precedence.Climbing
import Ballad.Proofs.Reading.Phrase

/-!
# Which list an `and` belongs to

Once a comma has separated the arguments of a call, `and` separates them too. The reader asks the
outermost open construct first whether a lexeme closes it, and only a call looks at its arguments
before it says yes. So an `and` goes on with the arguments of a call that nothing is open around, and
takes any other call, with all that is open around it, as its left operand.

- `Layer`, `Phrase.inside`: the constructs that are open around a phrase.
- `Phrase.Steady`: the invariant of reading. A construct has all of its words as soon as its last part
  has begun, and only the outermost call has met a comma (`Phrase.Undelimited`).
- `Phrase.take_within_cases`, `Phrase.take_call_cases`: what a lexeme does to an open construct and to
  an open call.
- `Phrase.readAll_steady`: whatever has been read is steady.
- `Phrase.exists_finish`: a whole expression becomes a node, wherever it ends.
-/

namespace Ballad.Reading

/-- An open construct around a phrase. -/
inductive Layer where
  | shell (mode : Mode) (shell : Shell)
  | call (mode : Mode) (callee : Node) (items : List Node) (delimited : Bool)

/-- A phrase as the last part of an open construct. -/
def Layer.around (p : Phrase) : Layer → Phrase
  | shell mode s => .within mode s p
  | call mode callee items delimited => .call mode callee items delimited p

namespace Phrase

/-- A phrase inside of open constructs, the outermost first. -/
def inside : List Layer → Phrase → Phrase
  | [], p => p
  | layer :: layers, p => layer.around (inside layers p)

variable {mode : Mode} {shell : Shell} {p q child current : Phrase} {callee n : Node}
  {items : List Node} {delimited : Bool} {l : Lexeme}

/-! ### What a lexeme does to open constructs -/

/-- A lexeme is one of the words of the construct, or closes it, or goes to its last part. -/
theorem take_within_cases (h : (within mode shell child).take l = .ok (.next q)) :
    (∃ shell', shell.refine l = .ok (some shell') ∧ q = within mode shell' child) ∨
    (∃ n, afterOperand mode n l = .ok (.next q)) ∨
    ∃ child', child.take l = .ok (.next child') ∧ q = within mode shell.settle child' := by
  rw [take] at h
  split at h
  · cases h
  · rename_i shell' hrefine
    cases h
    exact .inl ⟨shell', hrefine, rfl⟩
  · dsimp only at h
    split at h
    · obtain ⟨node, -, hafter⟩ := bind_eq_ok.mp h
      exact .inr (.inl ⟨_, hafter⟩)
    · obtain ⟨step, hstep, h⟩ := bind_eq_ok.mp h
      rcases take_cases hstep with ⟨child', rfl⟩ | ⟨node, rfl⟩
      · cases h
        exact .inr (.inr ⟨child', hstep, rfl⟩)
      · exact .inr (.inl ⟨_, h⟩)

/-- A lexeme separates the items of a list, or goes to the current one. -/
theorem pushItem_next {inner : Except ParseError (Step Phrase Node)} {items' : List Node}
    {delimited' : Bool} {current' : Phrase}
    (h : pushItem l items delimited current inner = .ok (.next (items', delimited', current'))) :
    (separates delimited current l ∧
      (current' = current ∧ delimited' = delimited ∨ current' = empty .value)) ∨
    separates delimited current l = false ∧ inner = .ok (.next current') ∧ items' = items ∧
      delimited' = delimited := by
  unfold pushItem at h
  split at h
  · rename_i hseparates
    refine .inl ⟨hseparates, ?_⟩
    split at h
    · obtain ⟨item, -, hitem⟩ := map_eq_ok.mp h
      cases hitem
      exact .inr rfl
    · split at h
      · cases h
        exact .inl ⟨rfl, rfl⟩
      · cases h
  · rename_i hseparates
    obtain ⟨step, hstep, hnext⟩ := map_eq_ok.mp h
    cases step with
    | done node | yield node l' => cases hnext
    | next current'' =>
      cases hnext
      exact .inr ⟨by simpa using hseparates, hstep, rfl, rfl⟩

/-- A lexeme closes the call, or separates its arguments, or goes to the current one. -/
theorem take_call_cases (h : (call mode callee items delimited current).take l = .ok (.next q)) :
    (∃ n, afterOperand mode n l = .ok (.next q)) ∨
    (separates delimited current l ∧ ∃ items' delimited' current',
      q = call mode callee items' delimited' current' ∧
        (current' = current ∧ delimited' = delimited ∨ current' = empty .value)) ∨
    separates delimited current l = false ∧ ∃ current', current.take l = .ok (.next current') ∧
      q = call mode callee items delimited current' := by
  rw [take] at h
  split at h
  · obtain ⟨list, -, h⟩ := bind_eq_ok.mp h
    obtain ⟨node, -, hafter⟩ := bind_eq_ok.mp h
    exact .inl ⟨_, hafter⟩
  · obtain ⟨step, hstep, h⟩ := bind_eq_ok.mp h
    rcases pushItem_cases (fun _ => take_cases) hstep with ⟨state, rfl⟩ | ⟨node, -, -, rfl⟩
    · obtain ⟨items', delimited', current'⟩ := state
      cases h
      rcases pushItem_next hstep with ⟨hseparates, hcase⟩ | ⟨hseparates, hinner, rfl, rfl⟩
      · exact .inr (.inl ⟨hseparates, items', delimited', current', rfl, hcase⟩)
      · exact .inr (.inr ⟨hseparates, current', hinner, rfl⟩)
    · exact .inl ⟨_, h⟩

/-! ### The invariant -/

/-- No call has met a comma. -/
def Undelimited : Phrase → Prop
  | within _ _ child => child.Undelimited
  | call _ _ _ delimited current => delimited = false ∧ current.Undelimited
  | _ => True

/-- What is known of all that can be read where an expression of some mode is expected. -/
def Steady : Phrase → Mode → Prop
  | empty m, mode | article m _, mode | proper m _ _, mode | operand m _, mode => m = mode
  | within m shell child, mode =>
    m = mode ∧ (shell.isSettled ∨ child.isEmpty) ∧ child.Steady shell.childMode
  | call m _ _ _ current, mode =>
    m = mode ∧ mode = .value ∧ current.Undelimited ∧ current.Steady .value

/-- What follows an operand leaves the phrase steady. -/
theorem afterOperand_steady (h : afterOperand mode n l = .ok (.next q)) :
    q.Steady mode ∧ q.Undelimited := by
  unfold afterOperand at h
  split at h
  · cases h
  · cases h
    exact ⟨⟨rfl, .inr rfl, rfl⟩, trivial⟩
  · cases h
    exact ⟨⟨rfl, .inr rfl, rfl⟩, trivial⟩
  · rename_i hof
    split at h
    · cases h
      have hmode : mode = .value := (Suffix.of?_cases hof).resolve_left fun hindex => nomatch hindex.1
      exact ⟨⟨rfl, hmode, trivial, rfl⟩, rfl, trivial⟩
    · cases h

/-- A literal is a steady phrase. -/
theorem ofLiteral_steady {span : Span} {value : Literal} (h : ofLiteral mode span value = .ok q) :
    q.Steady mode ∧ q.Undelimited := by
  unfold ofLiteral at h
  dsimp only at h
  split at h
  · cases h
  · cases h
    exact ⟨rfl, trivial⟩

/-- So is a word. -/
theorem ofWord_steady {word : String} (h : ofWord mode l word = .ok q) :
    q.Steady mode ∧ q.Undelimited := by
  unfold ofWord at h
  repeat' split at h
  all_goals first
    | exact ofLiteral_steady h
    | cases h
  all_goals first
    | exact ⟨rfl, trivial⟩
    | exact ⟨⟨rfl, .inr rfl, rfl⟩, trivial⟩

/-- So is whatever a phrase begins with. -/
theorem start_steady (h : start mode l = .ok q) : q.Steady mode ∧ q.Undelimited := by
  unfold start at h
  split at h
  · obtain ⟨x, -, h⟩ := bind_eq_ok.mp h
    exact ofLiteral_steady h
  · exact ofLiteral_steady h
  · exact ofWord_steady h
  · cases h

/-- Before the first delimiter, `and` separates no items. -/
theorem separates_eq_false (h : l.kind ≠ .delimiter) : separates false current l = false := by
  simp [separates, h]

/-- Only a comma makes a call that has met one. -/
theorem take_undelimited (h : p.take l = .ok (.next q)) (hl : l.kind ≠ .delimiter)
    (hp : p.Undelimited) : q.Undelimited := by
  induction p generalizing q with
  | empty mode =>
    obtain ⟨r, hr, hq⟩ := map_eq_ok.mp h
    cases hq
    exact (start_steady hr).2
  | article mode word =>
    rw [take] at h
    split at h <;> cases h
    trivial
  | proper mode name span =>
    rw [take] at h
    split at h
    · cases h
      trivial
    · exact (afterOperand_steady h).2
  | operand mode node => exact (afterOperand_steady h).2
  | within mode shell child ih =>
    rcases take_within_cases h with ⟨_, _, rfl⟩ | ⟨n, hn⟩ | ⟨child', hchild, rfl⟩
    · exact hp
    · exact (afterOperand_steady hn).2
    · have hchild' : child'.Undelimited := ih hchild hp
      exact hchild'
  | call mode callee items delimited current ih =>
    obtain ⟨rfl, hcurrent⟩ := hp
    rcases take_call_cases h with ⟨n, hn⟩ | ⟨hseparates, _⟩ | ⟨_, current', hstep, rfl⟩
    · exact (afterOperand_steady hn).2
    · rw [separates_eq_false hl] at hseparates
      cases hseparates
    · exact ⟨rfl, ih hstep hcurrent⟩

/-- Words that refine a comparison come before its right operand. -/
theorem isEmpty_of_refine {shell' : Shell} (h : shell.refine l = .ok (some shell'))
    (hsteady : shell.isSettled ∨ child.isEmpty) : child.isEmpty := by
  refine hsteady.resolve_left fun hsettled => ?_
  rw [refine_of_isSettled hsettled] at h
  cases h

/-- Further words of a comparison do not change what its right operand is. -/
theorem childMode_of_refine {shell' : Shell} (h : shell.refine l = .ok (some shell')) :
    shell'.childMode = shell.childMode := by
  obtain ⟨op, op', tail, tail', left, rfl, rfl⟩ := Shell.refine_eq_some h
  rfl

theorem isSettled_settle (shell : Shell) : shell.settle.isSettled := by
  cases shell <;> rfl

/-- **A lexeme keeps a phrase steady.** The current argument of a call gets only what does not separate
arguments, and so no comma. -/
theorem take_steady (h : p.take l = .ok (.next q)) (hp : p.Steady mode) : q.Steady mode := by
  induction p generalizing q mode with
  | empty m =>
    obtain rfl := hp
    obtain ⟨r, hr, hq⟩ := map_eq_ok.mp h
    cases hq
    exact (start_steady hr).1
  | article m word =>
    rw [take] at h
    split at h <;> cases h
    exact hp
  | proper m name span =>
    obtain rfl := hp
    rw [take] at h
    split at h
    · cases h
      rfl
    · exact (afterOperand_steady h).1
  | operand m node =>
    obtain rfl := hp
    exact (afterOperand_steady h).1
  | within m shell child ih =>
    obtain ⟨rfl, hsettled, hchild⟩ := hp
    rcases take_within_cases h with ⟨shell', hrefine, rfl⟩ | ⟨n, hn⟩ | ⟨child', hstep, rfl⟩
    · refine ⟨rfl, .inr (isEmpty_of_refine hrefine hsettled), ?_⟩
      rw [childMode_of_refine hrefine]
      exact hchild
    · exact (afterOperand_steady hn).1
    · refine ⟨rfl, .inl (isSettled_settle shell), ?_⟩
      rw [Shell.settle_childMode]
      exact ih hstep hchild
  | call m callee items delimited current ih =>
    obtain ⟨rfl, hmode, hundelimited, hcurrent⟩ := hp
    rcases take_call_cases h with ⟨n, hn⟩ | ⟨_, _, _, current', rfl, hcase⟩ |
      ⟨hseparates, current', hstep, rfl⟩
    · exact (afterOperand_steady hn).1
    · rcases hcase with ⟨rfl, -⟩ | rfl
      · exact ⟨rfl, hmode, hundelimited, hcurrent⟩
      · exact ⟨rfl, hmode, trivial, rfl⟩
    · have hl : l.kind ≠ .delimiter := by
        intro hkind
        simp [separates, hkind] at hseparates
      exact ⟨rfl, hmode, take_undelimited hstep hl hundelimited, ih hstep hcurrent⟩

/-- **Every lexeme leaves a phrase steady.** -/
theorem push_steady (h : p.push l = .ok (.next q)) (hp : p.Steady mode) : q.Steady mode := by
  unfold push at h
  split at h
  · cases h
    exact hp
  · exact take_steady h hp

/-- Whatever has been read of an expression is steady. -/
theorem readAll_steady {ls : List Lexeme} (h : readAll push p ls = .ok (.next q))
    (hp : p.Steady mode) : q.Steady mode :=
  readAll_invariant (P := (·.Steady mode)) push_steady h hp

/-! ### Whole expressions -/

theorem isEmpty_eq_false_of_isComplete (h : p.isComplete) : p.isEmpty = false := by
  cases p <;> first | rfl | cases h

/-- The items of a list end with the current one, if that becomes a node. -/
theorem finishItems_of_isComplete {stop : Span} (hcurrent : current.isComplete)
    (h : current.finish stop = .ok n) :
    finishItems stop items current (current.finish stop) = .ok (listNode (items ++ [n])) := by
  rw [finishItems, isEmpty_eq_false_of_isComplete hcurrent, h]
  rfl

/-- A call whose last argument is complete can end there. -/
theorem finish_call_of_isComplete {stop : Span} (hcurrent : current.isComplete)
    (h : current.finish stop = .ok n) :
    (call mode callee items delimited current).finish stop =
      .ok (callNode callee (items ++ [n])) := by
  rw [finish, finishItems_of_isComplete hcurrent h]
  rfl

/-- A whole expression becomes a node, wherever it ends. -/
theorem exists_finish (h : p.isComplete) : ∃ n, ∀ stop, p.finish stop = .ok n := by
  induction p with
  | empty mode => cases h
  | article mode word => cases h
  | proper mode name span => exact ⟨_, fun _ => rfl⟩
  | operand mode node => exact ⟨node, fun _ => rfl⟩
  | within mode shell child ih =>
    obtain ⟨hsettled, hchild⟩ := Bool.and_eq_true_iff.mp h
    obtain ⟨n, hn⟩ := ih hchild
    exact ⟨shell.close n, fun stop => finish_within hsettled (hn stop)⟩
  | call mode callee items delimited current ih =>
    have hcurrent : current.isComplete := h
    obtain ⟨n, hn⟩ := ih hcurrent
    exact ⟨callNode callee (items ++ [n]), fun stop => finish_call_of_isComplete hcurrent (hn stop)⟩

/-- Around a whole expression, all is whole that has been read. -/
theorem isComplete_inside {layers : List Layer} (hsteady : (inside layers p).Steady mode)
    (h : p.isComplete) : (inside layers p).isComplete := by
  induction layers generalizing mode with
  | nil => exact h
  | cons layer layers ih =>
    cases layer with
    | shell m s =>
      obtain ⟨-, hsettled, hinner⟩ := hsteady
      have hcomplete := ih hinner
      have hempty := isEmpty_eq_false_of_isComplete hcomplete
      have hs : s.isSettled := hsettled.resolve_right (by simp [hempty])
      exact Bool.and_eq_true_iff.mpr ⟨hs, hcomplete⟩
    | call m callee items delimited =>
      obtain ⟨-, -, -, hinner⟩ := hsteady
      exact ih hinner

/-- A call that has met a comma is inside of no other one. -/
theorem not_undelimited_inside {layers : List Layer} :
    ¬ (inside layers (call mode callee items true current)).Undelimited := by
  induction layers with
  | nil => exact fun h => Bool.false_ne_true h.1.symm
  | cons layer layers ih =>
    cases layer with
    | shell m s => exact ih
    | call m c i d => exact fun h => ih h.2

/-! ### The word itself -/

theorem of?_and (h : l.word = some "and") : Suffix.of? .value l = some (.binary .and .settled) := by
  rw [Suffix.of?, h]
  exact Vocabulary.ofWord?_connective rfl

theorem not_isTrivia_of_word {word : String} (h : l.word = some word) : l.isTrivia = false := by
  simp [Lexeme.isTrivia, (Lexeme.kind_of_word h).1]

theorem one_le_rank (shell : Shell) : 1 ≤ shell.rank := by
  cases shell with
  | binary op tail left => exact Grammar.rank_pos op
  | _ => exact Nat.le_of_ble_eq_true rfl

/-- A call that has met a comma takes `and` for its arguments. -/
theorem take_and_call (hcomplete : current.isComplete) (hl : l.word = some "and")
    (hn : ∀ stop, current.finish stop = .ok n) :
    (call mode callee items true current).take l =
      .ok (.next (call mode callee (items ++ [n]) true (empty .value))) := by
  have hseparates : separates true current l = true := by
    simp [separates, Lexeme.isWord, hl, hcomplete]
  rw [take, hseparates, pushItem, if_pos hseparates, if_pos hcomplete, hn]
  simp [Except.map, Except.bind]

/-- Any other open construct, if it is whole, becomes the left operand of `and`. -/
theorem take_and_within (hcomplete : (within .value shell child).isComplete)
    (hl : l.word = some "and") (hn : ∀ stop, (within .value shell child).finish stop = .ok n) :
    (within .value shell child).take l =
      .ok (.next (within .value (.binary .and .settled n) (empty .value))) := by
  obtain ⟨hsettled, hchild⟩ := Bool.and_eq_true_iff.mp hcomplete
  obtain ⟨m, hm⟩ := exists_finish hchild
  have hclose : n = shell.close m :=
    Except.ok.inj ((hn l.span).symm.trans (finish_within hsettled (hm l.span)))
  have hfolds : folds .value shell.rank child l = true := by
    rw [folds, of?_and hl]
    exact Bool.and_eq_true_iff.mpr ⟨decide_eq_true (one_le_rank shell), hchild⟩
  rw [take, refine_of_isSettled hsettled, settle_of_isSettled hsettled, hclose]
  dsimp only
  rw [hfolds, hm]
  exact afterOperand_binary (of?_and hl) _

/-- **An `and` goes on with the arguments of a call exactly if nothing is open around the call.** Of
whatever has been read of an expression, let a call be open that has met a comma and whose current
argument is whole. Then `and` separates this argument from the next one if the call is all that is
open. Otherwise it takes all that has been read as the left operand of a conjunction. -/
theorem and_separates_iff {ls : List Lexeme} {layers : List Layer}
    (hread : readAll push (empty .value) ls =
      .ok (.next (inside layers (call mode callee items true current))))
    (hcomplete : current.isComplete) (hl : l.word = some "and") :
    ∃ item whole, current.finish l.span = .ok item ∧
      (inside layers (call mode callee items true current)).finish l.span = .ok whole ∧
      ((inside layers (call mode callee items true current)).push l =
          .ok (.next (inside layers (call mode callee (items ++ [item]) true (empty .value)))) ↔
        layers = []) ∧
      (layers ≠ [] → (inside layers (call mode callee items true current)).push l =
        .ok (.next (within .value (.binary .and .settled whole) (empty .value)))) := by
  have hsteady : (inside layers (call mode callee items true current)).Steady .value :=
    readAll_steady hread rfl
  have hwhole : (inside layers (call mode callee items true current)).isComplete :=
    isComplete_inside hsteady hcomplete
  obtain ⟨item, hitem⟩ := exists_finish hcomplete
  obtain ⟨whole, hfinish⟩ := exists_finish hwhole
  have hpush : ∀ p : Phrase, p.push l = p.take l := fun p => push_eq_take (not_isTrivia_of_word hl)
  refine ⟨item, whole, hitem _, hfinish _, ?_⟩
  cases layers with
  | nil =>
    have htake : (call mode callee items true current).take l = _ := take_and_call hcomplete hl hitem
    exact ⟨iff_of_true ((hpush _).trans htake) rfl, fun hne => absurd rfl hne⟩
  | cons layer layers =>
    cases layer with
    | call m c i d => exact absurd hsteady.2.2.1 not_undelimited_inside
    | shell m s =>
      obtain ⟨rfl, -, -⟩ := hsteady
      have htake := (hpush _).trans (take_and_within hwhole hl hfinish)
      refine ⟨iff_of_false (fun hsep => ?_) (List.cons_ne_nil _ _), fun _ => htake⟩
      -- what has been read is an operand now, and no longer an open construct with something in it
      have heq := htake.symm.trans hsep
      injection heq with heq
      injection heq with heq
      injection heq with _ _ hchild
      have hcall : (inside layers (call mode callee (items ++ [item]) true (empty .value))).isEmpty =
          false := by
        cases layers with
        | nil => rfl
        | cons layer layers => cases layer <;> rfl
      rw [← hchild] at hcall
      cases hcall

open Grammar (wordInFirstLine)

/-- The lexemes of `f taking y, z` from a column on, but for the blanks. -/
def callFrom (start : Nat) : List Lexeme :=
  [wordInFirstLine "f" start, wordInFirstLine "taking" (start + 2), wordInFirstLine "y" (start + 9),
    ⟨.delimiter, ",", none, ⟨⟨1, start + 10⟩, ⟨1, start + 11⟩⟩⟩, wordInFirstLine "z" (start + 12)]

/-- The call that `f taking y, z` leaves open, inside of other constructs. -/
def openCallFrom (start : Nat) (layers : List Layer) : Phrase :=
  inside layers (call .value (.var (wordInFirstLine "f" start).span "f")
    [.var (wordInFirstLine "y" (start + 9)).span "y"] true
    (operand .value (.var (wordInFirstLine "z" (start + 12)).span "z")))

/-- `f taking y, z and` goes on with the arguments. -/
theorem and_separates_iff_call :
    readAll push (empty .value) (callFrom 0) = .ok (.next (openCallFrom 0 [])) ∧
    ∃ arguments : List Node, arguments.length = 2 ∧
      (openCallFrom 0 []).push (wordInFirstLine "and" 14) =
        .ok (.next (call .value (.var (wordInFirstLine "f" 0).span "f") arguments true
          (empty .value))) := by
  have hread : readAll push (empty .value) (callFrom 0) = .ok (.next (openCallFrom 0 [])) := rfl
  refine ⟨hread, ?_⟩
  obtain ⟨item, whole, -, -, hseparates, -⟩ :=
    and_separates_iff hread rfl (show (wordInFirstLine "and" 14).word = some "and" from rfl)
  exact ⟨_, rfl, hseparates.mpr rfl⟩

/-- `x plus f taking y, z and` does not: it goes on with a conjunction, whose left operand is the sum. -/
theorem and_takes_sum : ∃ (layers : List Layer) (sum : Node),
    readAll push (empty .value) (wordInFirstLine "x" 0 :: wordInFirstLine "plus" 2 :: callFrom 7) =
      .ok (.next (openCallFrom 7 layers)) ∧
    sum.operator? = some .add ∧
    (openCallFrom 7 layers).push (wordInFirstLine "and" 21) =
      .ok (.next (within .value (.binary .and .settled sum) (empty .value))) :=
  ⟨[.shell .value (.binary .add .settled (.var (wordInFirstLine "x" 0).span "x"))], _, rfl, rfl, rfl⟩

end Phrase

end Ballad.Reading
