import Ballad.Proofs.Precedence.Terms
import Ballad.Proofs.Reading.Statement

/-!
# What the end of a line does

Phrases and lists end before the end of a line, and a statement ends with it. The open constructs
of a phrase pass the end of the line on to the innermost one, and none of them takes it up.

- `Phrase.take_within_newline`, `Phrase.take_call_newline`, `Listing.push_newline`: what the end of
  a line does to open constructs.
- `Phrase.push_newline_ne_next`: no phrase goes on with the end of a line.
- `Statement.Onward`: what may become of a statement that has begun. It goes on within its line, and
  ends with the line.
- `Statement.push_onward`, `Statement.push_cases`: this is all that a lexeme can do to it, and what else
  it can do to a line with nothing but blanks and comments.
- `Statement.isNewline_of_done`: a statement ends only with its line.
-/

namespace Ballad

/-! ### The lexeme -/

namespace Lexeme

variable {l : Lexeme}

/-- The end of a line is no word. -/
theorem word_of_isNewline (h : l.isNewline) : l.word = none := by
  have hkind : l.kind ≠ .identifier := by
    intro hk
    simp [isNewline, hk] at h
  rw [word, if_neg hkind]

theorem isWord_of_isNewline (h : l.isNewline) (w : String) : l.isWord w = false := by
  rw [isWord, word_of_isNewline h]
  rfl

theorem isProperWord_of_isNewline (h : l.isNewline) : l.isProperWord = false := by
  rw [isProperWord, word_of_isNewline h]
  exact Bool.and_false _

theorem isTrivia_of_isNewline (h : l.isNewline) : l.isTrivia = false := by
  rcases (Bool.or_eq_true _ _).mp h with hk | hk
  · simp [isTrivia, beq_iff_eq.mp hk]
  · simp [isTrivia, beq_iff_eq.mp hk]

/-- It separates no items, either. -/
theorem kind_ne_delimiter_of_isNewline (h : l.isNewline) : l.kind ≠ .delimiter := by
  intro hk
  simp [isNewline, hk] at h

/-- What is a word does not end a line. -/
theorem not_isNewline_of_word {word : String} (h : l.word = some word) : l.isNewline = false := by
  refine Bool.eq_false_iff.mpr fun hl => ?_
  rw [word_of_isNewline hl] at h
  cases h

theorem not_isNewline_of_isWord {word : String} (h : l.isWord word) : l.isNewline = false :=
  not_isNewline_of_word (beq_iff_eq.mp h)

theorem not_isNewline_of_isTrivia (h : l.isTrivia) : l.isNewline = false := by
  refine Bool.eq_false_iff.mpr fun hl => ?_
  rw [isTrivia_of_isNewline hl] at h
  cases h

end Lexeme

namespace Reading

open Lexeme

/-! ### Phrases and lists -/

namespace Phrase

variable {mode : Mode} {shell : Shell} {p q child current : Phrase} {callee : Node}
  {items : List Node} {delimited : Bool} {l : Lexeme}

/-- The end of a line continues no operand. -/
theorem of?_of_isNewline (h : l.isNewline) (mode : Mode) : Suffix.of? mode l = none := by
  rw [Suffix.of?, word_of_isNewline h]
  rfl

/-- An operand is all there is at the end of its line. -/
theorem afterOperand_newline (h : l.isNewline) (mode : Mode) (n : Node) :
    afterOperand mode n l = .ok (.yield n l) :=
  afterOperand_of_none (of?_of_isNewline h .value) mode n

/-- No construct takes the end of a line away from its last part. -/
theorem folds_newline (h : l.isNewline) (mode : Mode) (rank : Nat) (child : Phrase) :
    folds mode rank child l = false := by
  rw [folds, of?_of_isNewline h]

theorem separates_newline (h : l.isNewline) (delimited : Bool) (current : Phrase) :
    separates delimited current l = false := by
  simp [separates, kind_ne_delimiter_of_isNewline h, isWord_of_isNewline h]

/-- The end of a line is no word of a comparison. -/
theorem refine_newline (h : l.isNewline) (shell : Shell) :
    shell.refine l = .ok none ∨ ∃ e, shell.refine l = .error e := by
  cases shell with
  | binary op tail left =>
    cases tail with
    | copula =>
      refine .inl ?_
      rw [Shell.refine, word_of_isNewline h]
    | than | secondAs =>
      refine .inr ?_
      simp [Shell.refine, isWord_of_isNewline h]
    | as =>
      refine .inr ?_
      simp [Shell.refine, word_of_isNewline h]
    | settled => exact .inl rfl
  | _ => exact .inl rfl

/-- A comparison that was left open closes as the one it has settled for. -/
theorem close_settle (shell : Shell) (n : Node) : shell.settle.close n = shell.close n := by
  cases shell <;> rfl

/-- An open construct that needs no more words passes the end of a line on to its last part. -/
theorem take_within_newline (h : l.isNewline) (hrefine : shell.refine l = .ok none) :
    (within mode shell child).take l = (child.take l).bind fun
      | .next child => .ok (.next (within mode shell.settle child))
      | .done n | .yield n _ => .ok (.yield (shell.close n) l) := by
  simp only [take, hrefine, folds_newline h, Bool.false_eq_true, if_false]
  cases hstep : child.take l with
  | error e => rfl
  | ok step =>
    rcases take_cases hstep with ⟨q, rfl⟩ | ⟨n, rfl⟩
    · rfl
    · show afterOperand mode (shell.settle.close n) l = .ok (.yield (shell.close n) l)
      rw [close_settle]
      exact afterOperand_newline h mode _

/-- The end of a line ends a list with its last item. -/
theorem pushItem_newline (h : l.isNewline) (inner : Except ParseError (Step Phrase Node)) :
    pushItem l items delimited current inner = inner.map fun
      | .next current => .next (items, delimited, current)
      | .done n => .done (listNode (items ++ [n]))
      | .yield n l => .yield (listNode (items ++ [n])) l := by
  rw [pushItem, separates_newline h]
  rfl

/-- So does an open call. -/
theorem take_call_newline (h : l.isNewline) :
    (call mode callee items delimited current).take l = (current.take l).bind fun
      | .next current => .ok (.next (call mode callee items delimited current))
      | .done n | .yield n _ => .ok (.yield (callNode callee (items ++ [n])) l) := by
  rw [take_call, folds_newline h, separates_newline h]
  cases hstep : current.take l with
  | error e => rfl
  | ok step =>
    rcases take_cases hstep with ⟨q, rfl⟩ | ⟨n, rfl⟩
    · rfl
    · exact afterOperand_newline h mode _

/-- No phrase begins with the end of a line. -/
theorem start_newline (h : l.isNewline) (mode : Mode) :
    start mode l = .error (.unexpected l mode.construct) := by
  rcases (Bool.or_eq_true _ _).mp h with hk | hk
  · rw [start, beq_iff_eq.mp hk]
  · rw [start, beq_iff_eq.mp hk]

/-- No phrase goes on with the end of a line. -/
theorem take_newline_ne_next (h : l.isNewline) : p.take l ≠ .ok (.next q) := by
  induction p generalizing q with
  | empty mode =>
    rw [take, start_newline h]
    intro hnext
    cases hnext
  | article mode word =>
    rw [take, word_of_isNewline h]
    simp
  | proper mode name span =>
    rw [take, word_of_isNewline h, if_neg (by simp), afterOperand_newline h]
    simp
  | operand mode node =>
    rw [take, afterOperand_newline h]
    simp
  | within mode shell child ih =>
    rcases refine_newline h shell with hrefine | ⟨e, hrefine⟩
    · rw [take_within_newline h hrefine]
      intro hbind
      obtain ⟨step, hstep, hnext⟩ := bind_eq_ok.mp hbind
      cases step with
      | next child => exact ih hstep
      | done n | yield n l' => cases hnext
    · rw [take, hrefine]
      simp
  | call mode callee items delimited current ih =>
    rw [take_call_newline h]
    intro hbind
    obtain ⟨step, hstep, hnext⟩ := bind_eq_ok.mp hbind
    cases step with
    | next current => exact ih hstep
    | done n | yield n l' => cases hnext

/-- At the end of a line there is nothing to skip, so it comes to the phrase itself. -/
theorem push_newline (h : l.isNewline) (p : Phrase) : p.push l = p.take l :=
  push_eq_take (isTrivia_of_isNewline h)

/-- **No phrase goes on after the end of a line.** -/
theorem push_newline_ne_next (h : l.isNewline) : p.push l ≠ .ok (.next q) := by
  rw [push_newline h]
  exact take_newline_ne_next h

end Phrase

/-- A list makes of the end of a line what its last item makes of it. -/
theorem Listing.push_newline {l : Lexeme} (h : l.isNewline) (list : Listing) :
    list.push l = (list.current.take l).map fun
      | .next current => .next ⟨list.items, list.delimited, current⟩
      | .done n => .done (listNode (list.items ++ [n]))
      | .yield n l => .yield (listNode (list.items ++ [n])) l := by
  rw [push, isTrivia_of_isNewline h, Phrase.pushItem_newline h]
  cases list.current.take l with
  | error e => rfl
  | ok step => cases step <;> rfl

/-- So no list goes on after the end of a line. -/
theorem Listing.push_newline_ne_next {l : Lexeme} {list list' : Listing} (h : l.isNewline) :
    list.push l ≠ .ok (.next list') := by
  rw [push_newline h]
  intro hmap
  obtain ⟨step, hstep, hnext⟩ := map_eq_ok.mp hmap
  cases step with
  | next current => exact Phrase.take_newline_ne_next h hstep
  | done n | yield n l' => cases hnext

/-! ### Statements that have begun -/

namespace Statement

/-- What may become of a statement that has begun: it goes on within its line, and is begun then, or
it ends with the line. -/
def Onward (l : Lexeme) : Except ParseError (Step Statement Node) → Prop
  | .error _ => True
  | .ok (.next s) => l.isNewline = false ∧ s.isStart = false
  | .ok (.done _) => l.isNewline
  | .ok (.yield ..) => False

variable {l : Lexeme} {s : Statement}

/-- A statement that has all its parts ends with its line. -/
theorem onward_endWith (node : Node) (within : Construct) : Onward l (endWith node l within) := by
  unfold endWith
  split
  · assumption
  · trivial

/-- A word that has to follow is no line end. -/
theorem onward_expect (word : String) (h : s.isStart = false) : Onward l (expect word l s) := by
  unfold expect
  split
  · rename_i hword
    exact ⟨not_isNewline_of_isWord hword, h⟩
  · trivial

/-- A statement that goes on with a phrase, or closes with what the phrase has become. -/
theorem onward_phrase {p : Phrase} {f : Fed → Except ParseError (Step Statement Node)}
    (hpending : ∀ q, l.isNewline = false → Onward l (f (.pending q)))
    (hfinished : ∀ n, Onward l (f (.finished n l))) : Onward l ((p.feed l).bind f) := by
  cases hfed : p.feed l with
  | error e => trivial
  | ok fed =>
    rcases Phrase.feed_cases hfed with ⟨q, hpush, rfl⟩ | ⟨n, -, rfl⟩
    · exact hpending q (Bool.eq_false_iff.mpr fun hl => Phrase.push_newline_ne_next hl hpush)
    · exact hfinished n

end Statement

open Statement

variable {l : Lexeme}

/-- After a part of a change come further parts, or the end of the line. -/
theorem Part.onward_close (start : Span) (kind : Change) (node : Node) (part : Part) :
    Onward l (part.close start kind node l) := by
  have hchange : l.isNewline → ∀ x : Except ParseError Node, Onward l (x.map .done) := by
    intro hl x
    cases x with
    | error e => trivial
    | ok n => exact hl
  cases part with
  | source =>
    rw [close]
    split
    · exact hchange ‹_› _
    · split
      · exact ⟨not_isNewline_of_isWord ‹_›, rfl⟩
      · split
        · exact ⟨not_isNewline_of_isWord ‹_›, rfl⟩
        · trivial
  | into source =>
    rw [close]
    split
    · exact hchange ‹_› _
    · split
      · exact ⟨not_isNewline_of_isWord ‹_›, rfl⟩
      · trivial
  | argument source dest =>
    rw [close]
    split
    · exact hchange ‹_› _
    · trivial

/-- After a slot comes a fixed word, another slot, or the end of the line. -/
theorem Slot.onward_close (start : Span) (node : Node) (s : Slot) :
    Onward l (s.close start node l) := by
  cases s with
  | letTarget | putValue | adjustTarget => exact onward_expect _ rfl
  | change kind part => exact part.onward_close start kind node
  | turnTarget mode =>
    cases mode with
    | some mode => exact onward_endWith _ _
    | none =>
      rw [close]
      split
      · rename_i hmode
        obtain ⟨word, hword, -⟩ := Option.bind_eq_some_iff.mp hmode
        exact ⟨not_isNewline_of_word hword, rfl⟩
      · trivial
  | pushTarget | popSource | giveBack =>
    rw [close]
    split
    · exact ⟨not_isNewline_of_isWord ‹_›, rfl⟩
    · exact onward_endWith _ _
  | _ => exact onward_endWith _ _

namespace Statement

variable {s : Statement}

/-- A statement that begins with an operand goes on with a verb, or is that operand. -/
theorem onward_pushBare (p : Phrase) : Onward l (pushBare p l) := by
  have hverb : ∀ {P : String → Bool}, l.word.any P → l.isNewline = false := by
    intro P hany
    obtain ⟨word, hword, -⟩ := (Option.any_eq_true _ _).mp hany
    exact not_isNewline_of_word hword
  have htarget : ∀ {f : Node → Statement} {x : Except ParseError Node}, l.isNewline = false →
      (∀ n, (f n).isStart = false) → Onward l (x.map fun n => .next (f n)) := by
    intro f x hl hf
    cases x with
    | error e => trivial
    | ok n => exact ⟨hl, hf n⟩
  unfold pushBare
  split
  · -- what comes before a verb becomes the target
    rename_i hcopula
    exact htarget (hverb (Bool.and_eq_true_iff.mp hcopula).1) fun _ => rfl
  · split
    · rename_i hquotative
      exact htarget (hverb (Bool.and_eq_true_iff.mp hquotative).1) fun _ => rfl
    · split
      · rename_i hdeclares
        exact htarget (hverb (Bool.and_eq_true_iff.mp hdeclares).1) fun _ => rfl
      · exact onward_phrase (fun q hl => ⟨hl, rfl⟩) fun n => onward_endWith n _

/-- A statement with a phrase in a slot. -/
theorem onward_pushSlot (start : Span) (s : Slot) (p : Phrase) : Onward l (pushSlot start s p l) :=
  onward_phrase (fun _ hl => ⟨hl, rfl⟩) fun n => s.onward_close start n

/-- What separates parameters is no line end. -/
theorem not_isNewline_of_separatesParameters (h : separatesParameters l) : l.isNewline = false := by
  refine Bool.eq_false_iff.mpr fun hl => ?_
  simp [separatesParameters, kind_ne_delimiter_of_isNewline hl, isWord_of_isNewline hl] at h

/-- The head of a function. -/
theorem onward_pushParameter (name : Node) (names : List String) (current : Phrase) :
    Onward l (pushParameter name names current l) := by
  unfold pushParameter
  split
  · rename_i hseparates
    exact ⟨not_isNewline_of_separatesParameters (Bool.and_eq_true_iff.mp hseparates).2, rfl⟩
  · refine onward_phrase (fun _ hl => ⟨hl, rfl⟩) fun n => ?_
    cases n with
    | var last parameter =>
      dsimp only
      split
      · assumption
      · split
        · exact ⟨not_isNewline_of_separatesParameters ‹_›, rfl⟩
        · trivial
    | _ => trivial

/-- Statements that are made of fixed words. -/
theorem onward_pushFixed (node : Node) (remaining : List String) (optional : Bool) :
    Onward l (pushFixed node remaining optional l) := by
  unfold pushFixed
  split
  · rename_i hnewline
    exact (Bool.and_eq_true_iff.mp hnewline).1
  · split
    · exact onward_expect _ rfl
    · trivial

/-- Values that are pushed. -/
theorem onward_rock (first : Span) (target : Node) (values : Listing) :
    Onward l ((rock first target values).take l) := by
  rw [take]
  cases hpush : values.push l with
  | error e => trivial
  | ok step =>
    rcases Listing.push_cases hpush with ⟨values', rfl⟩ | ⟨n, -, rfl⟩
    · exact ⟨Bool.eq_false_iff.mpr fun hl => Listing.push_newline_ne_next hl hpush, rfl⟩
    · exact onward_endWith _ _

/-- **Whatever a statement has read, it goes on within its line or ends with it.** -/
theorem onward_take (s : Statement) : Onward l (s.take l) := by
  cases s with
  | bare phrase => exact onward_pushBare phrase
  | parameters name names current => exact onward_pushParameter name names current
  | slot first s phrase => exact onward_pushSlot first s phrase
  | listen first =>
    rw [take]
    split
    · assumption
    · exact onward_expect _ rfl
  | adjust first up target count last =>
    rw [take]
    split
    · assumption
    · rename_i hline
      split
      · exact ⟨by simpa using hline, rfl⟩
      · exact onward_expect _ rfl
  | turn first =>
    rw [take]
    split
    · rename_i hmode
      obtain ⟨word, hword, -⟩ := Option.bind_eq_some_iff.mp hmode
      exact ⟨not_isNewline_of_word hword, rfl⟩
    · exact onward_pushSlot first _ _
  | rock first target values => exact onward_rock first target values
  | give first =>
    rw [take]
    split
    · exact ⟨not_isNewline_of_isWord ‹_›, rfl⟩
    · exact onward_pushSlot first _ _
  | fixed node remaining optional => exact onward_pushFixed node remaining optional
  | finished node => exact onward_endWith node _
  | start _ | poetic _ _ | verbatim _ _ _ _ => trivial

/-- A poetic literal goes on within its line, -/
theorem not_isNewline_of_poetic_next {p q : Poetic} (h : p.push l = .ok (.next q)) : l.isNewline = false := by
  refine Bool.eq_false_iff.mpr fun hl => ?_
  cases p with
  | leading => simp [Poetic.push, isTrivia_of_isNewline hl, hl] at h
  | literal node => simp [Poetic.push, isTrivia_of_isNewline hl, hl] at h
  | constant node => simp [Poetic.push, hl] at h
  | digits d =>
    rw [Poetic.push, if_pos hl] at h
    obtain ⟨n, -, hn⟩ := map_eq_ok.mp h
    cases hn

/-- and ends with it. -/
theorem isNewline_of_poetic_done {p : Poetic} {n : Node} (h : p.push l = .ok (.done n)) : l.isNewline := by
  by_cases hl : l.isNewline
  · exact hl
  · cases p with
    | leading =>
      rw [Poetic.push, if_neg hl] at h
      split at h
      · cases h
      · obtain ⟨q, -, hq⟩ := map_eq_ok.mp h
        cases hq
    | literal node =>
      rw [Poetic.push, if_neg hl] at h
      split at h <;> cases h
    | constant node =>
      rw [Poetic.push, if_neg hl] at h
      cases h
    | digits d =>
      rw [Poetic.push, if_neg hl] at h
      cases h

/-- A poetic literal hands no lexeme back. -/
theorem absorbs_poetic (p : Poetic) (l : Lexeme) : Absorbs (p.push l) := by
  cases p with
  | leading => exact .ite (.next _) (.ite (.error _) (.map fun _ => .next _))
  | literal node => exact .ite (.next _) (.ite (.done _) (.error _))
  | constant node =>
    rw [Poetic.push]
    split
    · exact .done _
    · exact .next _
  | digits d => exact .ite (.map fun _ => .done _) (.next _)

/-- Poetic numbers end with their line. -/
theorem onward_poetic (target : Node) (p : Poetic) : Onward l ((poetic target p).push l) := by
  cases hpush : p.push l with
  | error e =>
    rw [push, hpush]
    trivial
  | ok step =>
    rw [push, hpush]
    cases step with
    | next q => exact ⟨not_isNewline_of_poetic_next hpush, rfl⟩
    | done n => exact isNewline_of_poetic_done hpush
    | yield n l' => exact absurd hpush (absorbs_poetic p l n l')

/-- So do poetic strings. -/
theorem onward_verbatim (target : Node) (text : String) (started : Bool) (last : Span) :
    Onward l ((verbatim target text started last).push l) := by
  show Onward l (.ok (pushVerbatim target text started last l))
  unfold pushVerbatim
  split
  · assumption
  · rename_i hline
    exact ⟨by simpa using hline, rfl⟩

/-- **A statement that has begun goes on within its line and ends with it.** -/
theorem push_onward (h : s.isStart = false) : Onward l (s.push l) := by
  cases s with
  | start blank => cases h
  | verbatim target text started last => exact onward_verbatim target text started last
  | poetic target literal => exact onward_poetic target literal
  | _ =>
    unfold push
    dsimp only
    split
    · exact ⟨not_isNewline_of_isTrivia ‹_›, rfl⟩
    · exact onward_take _

/-- A lexeme with a meaning begins a statement. -/
theorem pushStart_onward (blank : Bool) (htrivia : l.isTrivia = false)
    (hline : l.isNewline = false) : Onward l (pushStart blank l) := by
  have hbegun : ∀ {span : Span} {word : String} {s : Statement}, ofWord? span word = some s →
      s.isStart = false := by
    intro span word s h
    unfold ofWord? at h
    split at h <;> cases h <;> rfl
  unfold pushStart
  split
  · simp [Lexeme.isTrivia, *] at htrivia
  · simp [Lexeme.isTrivia, *] at htrivia
  · simp [Lexeme.isNewline, *] at hline
  · simp [Lexeme.isNewline, *] at hline
  · split
    · rename_i hword
      obtain ⟨word, -, hof⟩ := Option.bind_eq_some_iff.mp hword
      exact ⟨hline, hbegun hof⟩
    · exact onward_pushBare _

/-- Only an empty statement has not begun. -/
theorem eq_start (h : s.isStart) : ∃ blank, s = start blank := by
  cases s with
  | start blank => exact ⟨blank, rfl⟩
  | _ => cases h

/-- All that a lexeme can do to a statement: the statement has begun then, or the line has nothing but
blanks and comments so far. -/
theorem push_cases (s : Statement) (l : Lexeme) :
    Onward l (s.push l) ∨
    l.kind = .whitespace ∧ s.isStart ∧ s.push l = .ok (.next s) ∨
    l.kind = .comment ∧ s.isStart ∧ s.push l = .ok (.next (start false)) ∨
    l.isNewline ∧ s = start false ∧ s.push l = .ok (.next fresh) := by
  by_cases hstart : s.isStart
  · obtain ⟨blank, rfl⟩ := eq_start hstart
    by_cases hline : l.isNewline
    · have hpush : (start blank).push l =
          .ok (if blank then .done (.blank l.span) else .next fresh) := by
        rcases (Bool.or_eq_true _ _).mp hline with hk | hk
        · rw [push, pushStart, beq_iff_eq.mp hk]
        · rw [push, pushStart, beq_iff_eq.mp hk]
      cases blank with
      | true =>
        -- an empty line is a statement of its own
        rw [hpush]
        exact .inl hline
      | false => exact .inr (.inr (.inr ⟨hline, rfl, hpush⟩))
    · by_cases htrivia : l.isTrivia
      · rcases (Bool.or_eq_true _ _).mp htrivia with hk | hk
        · exact .inr (.inl ⟨beq_iff_eq.mp hk, rfl, by rw [push, pushStart, beq_iff_eq.mp hk]⟩)
        · exact .inr (.inr (.inl ⟨beq_iff_eq.mp hk, rfl, by rw [push, pushStart, beq_iff_eq.mp hk]⟩))
      · exact .inl (pushStart_onward blank (by simpa using htrivia) (by simpa using hline))
  · exact .inl (push_onward (by simpa using hstart))

/-- A statement ends only with its line. -/
theorem isNewline_of_done {n : Node} (h : s.push l = .ok (.done n)) : l.isNewline := by
  have hcases := push_cases s l
  rw [h] at hcases
  rcases hcases with honward | ⟨-, -, hnext⟩ | ⟨-, -, hnext⟩ | ⟨-, -, hnext⟩
  · exact honward
  · cases hnext
  · cases hnext
  · cases hnext

end Statement

end Reading

end Ballad
