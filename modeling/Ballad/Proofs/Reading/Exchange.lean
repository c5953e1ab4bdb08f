import Ballad.Proofs.Reading.Runs
import Mathlib.Data.List.Forall2

/-!
# One end of a line for another

The reader takes an end of a line for what it is and never looks at its text, so that one end of a
line can stand in for another. Only a mistake may tell them apart. What it may tell is left open here:
`E` relates the mistakes that are made with the first lexeme to those that are made with the second.

- `Matches`: two results are the same, or both are mistakes that `E` relates.
- `Alike`: two lexemes do the same to a construct that hands them back, or both lead to mistakes that
  `E` relates.
- `Uniform`: `E` allows for the mistakes that are not about a lexeme.
- `Exchange`: two lexemes are the same, or both end a line, and `E` allows for the mistakes about them.
- `Exchange.take`, `Exchange.push` and so on: one lemma for each function of the reader.
- `Statement.Located`: what is asked of a statement. A poetic number without a word has no digits, or
  else it would take its place from the end of its line.
- `Program.read_exchange`: sources whose lexemes can be exchanged one by one are read alike.

Taking each lexeme for itself, `E` tells what is known of every mistake that can be made.
-/

namespace Ballad.Reading

open Lexeme

variable {E : ParseError → ParseError → Prop}

/-- Two results are the same, and `P` holds of it, or both are mistakes that `E` relates. -/
def Matches {α : Type} (P : α → Prop) (E : ParseError → ParseError → Prop)
    (x y : Except ParseError α) : Prop :=
  (∃ a, x = .ok a ∧ y = .ok a ∧ P a) ∨ ∃ e e', x = .error e ∧ y = .error e' ∧ E e e'

/-- Nothing is asked of a result. -/
def Anything {α : Type} (_ : α) : Prop := True

namespace Matches

variable {α β : Type} {P : α → Prop} {Q : β → Prop} {x y x' y' : Except ParseError α}

theorem ok {a : α} (h : P a) : Matches P E (.ok a) (.ok a) :=
  .inl ⟨a, rfl, rfl, h⟩

theorem any (a : α) : Matches Anything E (.ok a) (.ok a) :=
  ok trivial

theorem error {e e' : ParseError} (h : E e e') : Matches P E (.error e) (.error e') :=
  .inr ⟨e, e', rfl, rfl, h⟩

/-- What is done next, if it matches for every result that there can be. -/
theorem bind {f g : α → Except ParseError β} (h : Matches P E x y)
    (hfg : ∀ a, P a → Matches Q E (f a) (g a)) : Matches Q E (x.bind f) (y.bind g) := by
  rcases h with ⟨a, rfl, rfl, ha⟩ | ⟨e, e', rfl, rfl, he⟩
  · exact hfg a ha
  · exact error he

/-- What is made of a result, if it is the same on both sides. -/
theorem map {f : α → β} (h : Matches P E x y) (hf : ∀ a, P a → Q (f a)) :
    Matches Q E (x.map f) (y.map f) := by
  rcases h with ⟨a, rfl, rfl, ha⟩ | ⟨e, e', rfl, rfl, he⟩
  · exact ok (hf a ha)
  · exact error he

theorem map_any (h : Matches P E x y) (f : α → β) : Matches Anything E (x.map f) (y.map f) :=
  h.map fun _ _ => trivial

/-- Both sides take the same branch. -/
theorem ite {c : Prop} [Decidable c] (h : c → Matches P E x y) (h' : ¬ c → Matches P E x' y') :
    Matches P E (if c then x else x') (if c then y else y') := by
  split
  · exact h ‹c›
  · exact h' ‹¬ c›

end Matches

/-- Two constructs go on in the same way, or end with the same and hand back their own lexeme, or both
have met with mistakes that `E` relates. -/
def Alike {σ α : Type} (E : ParseError → ParseError → Prop) (l l' : Lexeme)
    (x y : Except ParseError (Step σ α)) : Prop :=
  (∃ s, x = .ok (.next s) ∧ y = .ok (.next s)) ∨
    (∃ a, x = .ok (.yield a l) ∧ y = .ok (.yield a l')) ∨
    ∃ e e', x = .error e ∧ y = .error e' ∧ E e e'

namespace Alike

variable {σ τ α β : Type} {l l' : Lexeme} {x y x' y' : Except ParseError (Step σ α)}

theorem next (s : σ) : Alike E l l' (.ok (.next s) : Except ParseError (Step σ α)) (.ok (.next s)) :=
  .inl ⟨s, rfl, rfl⟩

theorem yield (a : α) :
    Alike E l l' (.ok (.yield a l) : Except ParseError (Step σ α)) (.ok (.yield a l')) :=
  .inr (.inl ⟨a, rfl, rfl⟩)

theorem error {e e' : ParseError} (h : E e e') :
    Alike E l l' (.error e : Except ParseError (Step σ α)) (.error e') :=
  .inr (.inr ⟨e, e', rfl, rfl, h⟩)

/-- Two lexemes take the same branch. -/
theorem ite {c : Prop} [Decidable c] (h : c → Alike E l l' x y) (h' : ¬ c → Alike E l l' x' y') :
    Alike E l l' (if c then x else x') (if c then y else y') := by
  split
  · exact h ‹c›
  · exact h' ‹¬ c›

/-- What is done next, if it is related by `M` and so are mistakes. -/
theorem bind {M : Except ParseError β → Except ParseError β → Prop}
    {f g : Step σ α → Except ParseError β} (h : Alike E l l' x y)
    (herror : ∀ {e e'}, E e e' → M (.error e) (.error e'))
    (hnext : ∀ s, M (f (.next s)) (g (.next s)))
    (hyield : ∀ a, M (f (.yield a l)) (g (.yield a l'))) : M (x.bind f) (y.bind g) := by
  rcases h with ⟨s, rfl, rfl⟩ | ⟨a, rfl, rfl⟩ | ⟨e, e', rfl, rfl, he⟩
  · exact hnext s
  · exact hyield a
  · exact herror he

/-- What is made of a step: it goes on in the same way, or ends in the same way before each of the
lexemes. -/
theorem map {f g : Step σ α → Step τ β} (h : Alike E l l' x y)
    (hnext : ∀ s, ∃ t, f (.next s) = .next t ∧ g (.next s) = .next t)
    (hyield : ∀ a, ∃ b, f (.yield a l) = .yield b l ∧ g (.yield a l') = .yield b l') :
    Alike E l l' (x.map f) (y.map g) := by
  rcases h with ⟨s, rfl, rfl⟩ | ⟨a, rfl, rfl⟩ | ⟨e, e', rfl, rfl, he⟩
  · obtain ⟨t, hf, hg⟩ := hnext s
    exact .inl ⟨t, congrArg Except.ok hf, congrArg Except.ok hg⟩
  · obtain ⟨b, hf, hg⟩ := hyield a
    exact .inr (.inl ⟨b, congrArg Except.ok hf, congrArg Except.ok hg⟩)
  · exact error he

end Alike

namespace Matches

variable {σ α β : Type} {P : β → Prop} {l l' : Lexeme} {x y : Except ParseError β}

/-- What is done next to a construct. -/
theorem bind_alike {f g : β → Except ParseError (Step σ α)} (h : Matches P E x y)
    (hfg : ∀ b, Alike E l l' (f b) (g b)) : Alike E l l' (x.bind f) (y.bind g) := by
  rcases h with ⟨b, rfl, rfl, -⟩ | ⟨e, e', rfl, rfl, he⟩
  · exact hfg b
  · exact .error he

/-- A construct that goes on with a result that is the same on both sides. -/
theorem map_next (h : Matches P E x y) (f : β → σ) :
    Alike E l l' (x.map fun b => .next (f b) : Except ParseError (Step σ α))
      (y.map fun b => .next (f b)) := by
  rcases h with ⟨b, rfl, rfl, -⟩ | ⟨e, e', rfl, rfl, he⟩
  · exact .next _
  · exact .error he

end Matches

/-- A relation of mistakes that allows for those that are not about a lexeme. -/
structure Uniform (E : ParseError → ParseError → Prop) : Prop where
  unexpectedKind : ∀ node expected,
    E (.unexpectedKind node expected) (.unexpectedKind node expected)
  unfinished : ∀ within span, E (.unfinished within span) (.unfinished within span)

/-- Two lexemes are the same, or both end a line, and `E` allows for the mistakes about them. -/
structure Exchange (E : ParseError → ParseError → Prop) (l l' : Lexeme) : Prop where
  uniform : Uniform E
  same : l' = l ∨ l.isNewline ∧ l'.isNewline
  unexpected : ∀ within, E (.unexpected l within) (.unexpected l' within)
  unexpectedWord : ∀ expected, E (.unexpectedWord l expected) (.unexpectedWord l' expected)
  unfinished : ∀ within, E (.unfinished within l.span) (.unfinished within l'.span)
  invalidNumber : l.kind = .number → Number.ofText? l.literal = none →
    E ⟨.invalidNumber l.literal, l.span⟩ ⟨.invalidNumber l.literal, l.span⟩

/-! ### What the reader asks of a lexeme -/

namespace Exchange

variable {l l' : Lexeme} (h : Exchange E l l')

include h

/-- Only ends of lines are exchanged for something else. -/
theorem eq_of_not_isNewline (hl : l.isNewline = false) : l' = l := by
  rcases h.same with heq | ⟨hnewline, -⟩
  · exact heq
  · rw [hl] at hnewline
    cases hnewline

/-- So a lexeme that is a word has stayed itself. -/
theorem eq_of_word {word : String} (hword : l.word = some word) : l' = l :=
  h.eq_of_not_isNewline (not_isNewline_of_word hword)

theorem eq_of_isWord {word : String} (hword : l.isWord word) : l' = l :=
  h.eq_of_not_isNewline (not_isNewline_of_isWord hword)

/-- An end of a line is exchanged for another one. -/
theorem isNewline_eq : l'.isNewline = l.isNewline := by
  rcases h.same with rfl | ⟨hl, hl'⟩
  · rfl
  · rw [hl, hl']

/-- Blanks and comments stay. -/
theorem isTrivia_eq : l'.isTrivia = l.isTrivia := by
  rcases h.same with rfl | ⟨hl, hl'⟩
  · rfl
  · rw [isTrivia_of_isNewline hl, isTrivia_of_isNewline hl']

/-- Words stay. -/
theorem word_eq : l'.word = l.word := by
  rcases h.same with rfl | ⟨hl, hl'⟩
  · rfl
  · rw [word_of_isNewline hl, word_of_isNewline hl']

theorem isWord_eq (word : String) : l'.isWord word = l.isWord word := by
  rw [isWord, isWord, h.word_eq]

theorem isDelimiter_eq : (l'.kind == .delimiter) = (l.kind == .delimiter) := by
  rcases h.same with rfl | ⟨hl, hl'⟩
  · rfl
  · simp [kind_ne_delimiter_of_isNewline hl, kind_ne_delimiter_of_isNewline hl']

end Exchange

/-! ### Phrases -/

namespace Uniform

variable (h : Uniform E)

include h

/-- Where the source ends in an expression, the same becomes of it. A mistake may differ where `E` says
so. -/
theorem finish (stop : Span) (p : Phrase) :
    Matches Anything E (p.finish stop) (p.finish stop) := by
  induction p with
  | empty mode => exact .error (h.unfinished _ _)
  | article mode word => exact .error (h.unfinished _ _)
  | proper mode name span => exact .any _
  | operand mode node => exact .any _
  | within mode shell child ih =>
    unfold Phrase.finish
    split
    · exact .error (h.unfinished _ _)
    · exact .error (h.unfinished _ _)
    · exact .error (h.unfinished _ _)
    · exact ih.map_any _
  | call mode callee items delimited current ih =>
    rw [Phrase.finish_call]
    exact .ite (fun _ => .error (h.unfinished _ _)) fun _ => ih.map_any _

/-- A literal that is no location is a mistake that `E` has to put up with. -/
theorem ofLiteral (mode : Mode) (span : Span) (value : Literal) :
    Matches Anything E (Phrase.ofLiteral mode span value) (Phrase.ofLiteral mode span value) :=
  .ite (fun _ => .error (h.unexpectedKind _ _)) fun _ => .any _

/-- A change that has no place to be stored in is one, too. -/
theorem changeNode (start : Span) (kind : Change) (source : Node) (into argument : Option Node) :
    Matches Anything E (changeNode start kind source into argument)
      (changeNode start kind source into argument) :=
  .ite (fun _ => .error (h.unexpectedKind _ _)) fun _ => .any _

end Uniform

namespace Exchange

variable {l l' : Lexeme} (h : Exchange E l l')

include h

/-- What an exchanged lexeme begins after an operand is what the other one begins. -/
theorem of?_eq (mode : Mode) : Suffix.of? mode l' = Suffix.of? mode l := by
  rw [Suffix.of?, Suffix.of?, h.word_eq]

/-- After an operand, both lexemes begin the same construct or end the phrase, each before itself. -/
theorem afterOperand (mode : Mode) (node : Node) :
    Alike E l l' (Phrase.afterOperand mode node l) (Phrase.afterOperand mode node l') := by
  unfold Phrase.afterOperand
  rw [h.of?_eq]
  split
  · exact .yield _
  · exact .next _
  · exact .next _
  · split
    · exact .next _
    · exact .error (h.uniform.unexpectedKind _ _)

/-- A number that cannot be read is a mistake that `E` has to put up with. -/
theorem numberOf (hl : l.kind = .number) :
    Matches Anything E (Phrase.numberOf l) (Phrase.numberOf l) := by
  unfold Phrase.numberOf
  split
  · exact .any _
  · exact .error (h.invalidNumber hl ‹_›)

omit h in
/-- A word begins the same on both sides. -/
theorem ofWord (h : Exchange E l l) (mode : Mode) (word : String) :
    Matches Anything E (Phrase.ofWord mode l word) (Phrase.ofWord mode l word) := by
  unfold Phrase.ofWord
  refine .ite (fun _ => .any _) fun _ => .ite (fun _ => .any _) fun _ => ?_
  split
  · exact h.uniform.ofLiteral _ _ _
  · refine .ite (fun _ => .any _) fun _ => .ite (fun _ => .any _) fun _ => ?_
    refine .ite (fun _ => .error (h.unexpectedWord _)) fun _ => ?_
    exact .ite (fun _ => .any _) fun _ => .any _

/-- At the beginning of a phrase, both lexemes begin the same, or both are mistakes. -/
theorem start (mode : Mode) :
    Matches Anything E (Phrase.start mode l) (Phrase.start mode l') := by
  rcases h.same with rfl | ⟨hl, hl'⟩
  · unfold Phrase.start
    split
    · exact (h.numberOf ‹_›).bind fun n _ => h.uniform.ofLiteral _ _ _
    · exact h.uniform.ofLiteral _ _ _
    · exact h.ofWord mode _
    · exact .error (h.unexpected _)
  · rw [Phrase.start_newline hl, Phrase.start_newline hl']
    exact .error (h.unexpected _)

/-- Both are words of a comparison or neither is. Where a word is missing, both are mistakes. -/
theorem refine (shell : Shell) : Matches Anything E (shell.refine l) (shell.refine l') := by
  cases shell with
  | binary op tail left =>
    cases tail with
    | copula =>
      rw [Shell.refine, Shell.refine, h.word_eq]
      split <;> exact .any _
    | than =>
      rw [Shell.refine, Shell.refine, h.isWord_eq]
      exact .ite (fun _ => .any _) fun _ => .error (h.unexpectedWord _)
    | as =>
      rw [Shell.refine, Shell.refine, h.word_eq]
      split
      · exact .any _
      · exact .error (h.unexpectedWord _)
    | secondAs =>
      rw [Shell.refine, Shell.refine, h.isWord_eq]
      exact .ite (fun _ => .any _) fun _ => .error (h.unexpectedWord _)
    | settled => exact .any _
  | _ => exact .any _

/-- Both lexemes close a construct, or neither does. -/
theorem folds_eq (mode : Mode) (rank : Nat) (child : Phrase) :
    Phrase.folds mode rank child l' = Phrase.folds mode rank child l := by
  rw [Phrase.folds, Phrase.folds, h.of?_eq]

/-- A lexeme that closes a construct as its left operand is a word, and has stayed itself. -/
theorem eq_of_folds {mode : Mode} {rank : Nat} {child : Phrase}
    (hfolds : Phrase.folds mode rank child l) : l' = l := by
  refine h.eq_of_not_isNewline (Bool.eq_false_iff.mpr fun hl => ?_)
  rw [Phrase.folds_newline hl] at hfolds
  cases hfolds

/-- Both lexemes separate items, or neither does. -/
theorem separates_eq (delimited : Bool) (current : Phrase) :
    Phrase.separates delimited current l' = Phrase.separates delimited current l := by
  rw [Phrase.separates, Phrase.separates, h.isWord_eq, h.isDelimiter_eq]

/-- A lexeme that separates items has stayed itself. -/
theorem eq_of_separates {delimited : Bool} {current : Phrase}
    (hseparates : Phrase.separates delimited current l) : l' = l := by
  refine h.eq_of_not_isNewline (Bool.eq_false_iff.mpr fun hl => ?_)
  rw [Phrase.separates_newline hl] at hseparates
  cases hseparates

/-- What exchanged lexemes do to the items of a list, given what they do to the current one. -/
theorem pushItem (items : List Node) (delimited : Bool) (current : Phrase)
    {inner inner' : Except ParseError (Step Phrase Node)} (hinner : Alike E l l' inner inner') :
    Alike E l l' (Phrase.pushItem l items delimited current inner)
      (Phrase.pushItem l' items delimited current inner') := by
  unfold Phrase.pushItem
  rw [h.separates_eq]
  split
  · obtain rfl := h.eq_of_separates ‹_›
    refine .ite (fun _ => (h.uniform.finish _ current).map_next _) fun _ => ?_
    exact .ite (fun _ => .next _) fun _ => .error (h.unexpected _)
  · exact hinner.map (fun q => ⟨_, rfl, rfl⟩) fun n => ⟨_, rfl, rfl⟩

/-- What a lexeme does to a phrase. The induction is on the open constructs: one that a word closes is
closed by the same word, and every other one passes the lexeme on. -/
theorem take (p : Phrase) : Alike E l l' (p.take l) (p.take l') := by
  induction p with
  | empty mode => exact (h.start mode).map_next id
  | article mode word =>
    rw [Phrase.take, Phrase.take, h.word_eq]
    split
    · obtain rfl := h.eq_of_word ‹_›
      exact .next _
    · exact .error (h.unexpected _)
  | proper mode name span =>
    rw [Phrase.take, Phrase.take]
    rcases h.same with rfl | ⟨hl, hl'⟩
    · exact .ite (fun _ => .next _) fun _ => h.afterOperand _ _
    · rw [word_of_isNewline hl, word_of_isNewline hl', if_neg (by simp), if_neg (by simp)]
      exact h.afterOperand _ _
  | operand mode node => exact h.afterOperand mode node
  | within mode shell child ih =>
    rw [Phrase.take, Phrase.take]
    rcases h.refine shell with ⟨found, hfound, hfound', -⟩ | ⟨e, e', herror, herror', he⟩
    · rw [hfound, hfound']
      cases found with
      | some shell => exact .next _
      | none =>
        simp only [h.folds_eq]
        split
        · obtain rfl := h.eq_of_folds ‹_›
          exact (h.uniform.finish _ child).bind_alike fun node => h.afterOperand _ _
        · exact ih.bind .error (fun q => .next _) fun node => h.afterOperand _ _
    · rw [herror, herror']
      exact .error he
  | call mode callee items delimited current ih =>
    rw [Phrase.take_call, Phrase.take_call, h.folds_eq, h.separates_eq]
    split
    · obtain rfl := h.eq_of_folds (Bool.and_eq_true_iff.mp ‹_›).1
      exact (h.uniform.finish l'.span _).bind_alike fun node => h.afterOperand _ _
    · refine .ite (fun _ => ?_) fun _ => ih.bind .error (fun q => .next _) fun node => h.afterOperand _ _
      exact (h.pushItem items delimited current ih).map (fun state => ⟨_, rfl, rfl⟩)
        fun list => ⟨_, rfl, rfl⟩

/-- Blanks and comments are passed over on both sides. -/
theorem push_phrase (p : Phrase) : Alike E l l' (p.push l) (p.push l') := by
  unfold Phrase.push
  rw [h.isTrivia_eq]
  exact .ite (fun _ => .next _) fun _ => h.take p

/-- What a construct learns of a phrase in it. -/
theorem feed {α : Type} {P : α → Prop} {f g : Fed → Except ParseError α} (p : Phrase)
    (hpending : ∀ q, Matches P E (f (.pending q)) (g (.pending q)))
    (hfinished : ∀ n, Matches P E (f (.finished n l)) (g (.finished n l'))) :
    Matches P E ((p.feed l).bind f) ((p.feed l').bind g) := by
  rcases h.push_phrase p with ⟨q, hq, hq'⟩ | ⟨n, hn, hn'⟩ | ⟨e, e', he, he', hmistake⟩
  · rw [Phrase.feed_of_next hq, Phrase.feed_of_next hq']
    exact hpending q
  · rw [Phrase.feed_of_yield hn, Phrase.feed_of_yield hn']
    exact hfinished n
  · rw [Phrase.feed_of_error he, Phrase.feed_of_error he']
    exact .error hmistake

/-- **Exchanged lexemes do the same to a list.** -/
theorem push_listing (list : Listing) : Alike E l l' (list.push l) (list.push l') := by
  unfold Listing.push
  rw [h.isTrivia_eq]
  refine .ite (fun _ => .next _) fun _ => ?_
  exact (h.pushItem _ _ _ (h.take list.current)).map (fun state => ⟨_, rfl, rfl⟩)
    fun list => ⟨_, rfl, rfl⟩

end Exchange

/-! ### Poetic literals -/

/-- A poetic number without a word has no digits. -/
def Digits.Located (d : Digits) : Prop :=
  d.span = none → d.integer = [] ∧ d.fraction = [] ∧ d.pending = none

/-- Without a span, no word has been read, so there is none to end. -/
theorem Digits.Located.flush_eq {d : Digits} (h : d.Located) (hspan : d.span = none) :
    d.flush = d := by
  rw [flush, (h hspan).2.2]

/-- A lexeme that adds to the digits gives them a span. -/
theorem Digits.Located.push {d : Digits} (h : d.Located) (l : Lexeme) : (d.push l).Located := by
  have hflush : d.flush.Located := by
    intro hspan
    rw [Poetic.flush_span] at hspan
    rw [h.flush_eq hspan]
    exact h hspan
  unfold Digits.push
  split
  · intro hspan
    cases hspan
  · split
    · exact hflush
    · exact hflush
  · exact hflush

/-- A poetic literal that does not take its place from the end of its line. -/
def Poetic.Located : Poetic → Prop
  | digits d => d.Located
  | _ => True

/-- What is asked of the next state, if there is one. -/
def Step.Keeps {σ α : Type} (P : σ → Prop) : Step σ α → Prop
  | .next s => P s
  | .done _ | .yield .. => True

namespace Exchange

variable {l l' : Lexeme} (h : Exchange E l l')

include h

/-- **Exchanged lexemes do the same to a poetic literal**, if it has a span wherever it has digits. So
the end of the line does not get into the literal. -/
theorem push_poetic {p : Poetic} (hp : p.Located) :
    Matches (Step.Keeps Poetic.Located) E (p.push l) (p.push l') := by
  cases p with
  | leading =>
    rw [Poetic.push, Poetic.push, h.isTrivia_eq, h.isNewline_eq]
    refine .ite (fun _ => .ok trivial) fun _ => .ite (fun _ => .error (h.unfinished _)) fun hl => ?_
    obtain rfl := h.eq_of_not_isNewline (Bool.eq_false_iff.mpr hl)
    suffices hstart : Matches Poetic.Located E (Poetic.start l') (Poetic.start l') from
      hstart.map fun _ hq => hq
    unfold Poetic.start
    split
    · exact (h.numberOf ‹_›).map fun _ _ => trivial
    · exact .ok trivial
    · split
      · exact .ok trivial
      · have hnone : Digits.Located {} := fun _ => ⟨rfl, rfl, rfl⟩
        exact .ok (hnone.push l')
  | literal node =>
    rw [Poetic.push, Poetic.push, h.isTrivia_eq, h.isNewline_eq]
    refine .ite (fun _ => .ok trivial) fun _ => .ite (fun _ => .ok trivial) fun _ => ?_
    exact .error (h.unexpected _)
  | constant node =>
    rw [Poetic.push, Poetic.push, h.isNewline_eq]
    refine .ok ?_
    split <;> trivial
  | digits d =>
    rw [Poetic.push, Poetic.push, h.isNewline_eq]
    refine .ite (fun _ => ?_) fun hl => ?_
    · suffices hfinish : Matches Anything E (d.finish l.span) (d.finish l'.span) from
        hfinish.map fun _ _ => trivial
      unfold Digits.finish
      simp only [Poetic.flush_span]
      cases hspan : d.span with
      | none =>
        -- there is no word, so that the mistake is the end of the line
        obtain ⟨hinteger, hfraction, -⟩ := hp hspan
        rw [Digits.Located.flush_eq hp hspan, hinteger, hfraction]
        exact .error (h.unfinished _)
      | some span => exact .ite (fun _ => .error (h.uniform.unfinished _ _)) fun _ => .any _
    · obtain rfl := h.eq_of_not_isNewline (Bool.eq_false_iff.mpr hl)
      exact .ok (Digits.Located.push hp l')

end Exchange

/-! ### Statements -/

/-- A statement that does not take its place from the end of its line. -/
def Statement.Located : Statement → Prop
  | poetic _ literal => literal.Located
  | _ => True

namespace Exchange

open Statement

variable {l l' : Lexeme} (h : Exchange E l l')

include h

/-- Both lexemes end the line, or neither does. -/
theorem endWith (node : Node) (within : Construct) :
    Matches (Step.Keeps Located) E (endWith node l within) (endWith node l' within) := by
  unfold Statement.endWith
  rw [h.isNewline_eq]
  exact .ite (fun _ => .ok trivial) fun _ => .error (h.unexpected _)

/-- Both lexemes are the word that has to be there, or neither is. -/
theorem expect (word : String) {s s' : Statement} (hs : l' = l → s' = s) (hlocated : s.Located) :
    Matches (Step.Keeps Located) E (expect word l s) (expect word l' s') := by
  unfold Statement.expect
  rw [h.isWord_eq]
  split
  · obtain rfl := hs (h.eq_of_isWord ‹_›)
    exact .ok hlocated
  · exact .error (h.unexpectedWord _)

theorem changed (start : Span) (kind : Change) (source : Node) (into argument : Option Node) :
    Matches (Step.Keeps Located) E ((changeNode start kind source into argument).map .done)
      ((changeNode start kind source into argument).map .done) :=
  (h.uniform.changeNode start kind source into argument).map fun _ _ => trivial

/-- What becomes of a change when one of its parts ends. -/
theorem close_part (start : Span) (kind : Change) (node : Node) (part : Part) :
    Matches (Step.Keeps Located) E (part.close start kind node l) (part.close start kind node l') := by
  cases part with
  | source =>
    rw [Part.close, Part.close, h.isNewline_eq, h.isWord_eq, h.isWord_eq]
    refine .ite (fun _ => h.changed _ _ _ _ _) fun _ => .ite (fun _ => .ok trivial) fun _ => ?_
    exact .ite (fun _ => .ok trivial) fun _ => .error (h.unexpected _)
  | into source =>
    rw [Part.close, Part.close, h.isNewline_eq, h.isWord_eq]
    refine .ite (fun _ => h.changed _ _ _ _ _) fun _ => ?_
    exact .ite (fun _ => .ok trivial) fun _ => .error (h.unexpected _)
  | argument source into =>
    rw [Part.close, Part.close, h.isNewline_eq]
    exact .ite (fun _ => h.changed _ _ _ _ _) fun _ => .error (h.unexpected _)

/-- What becomes of a statement when the phrase of its slot ends. Slots keep spans of words only, and
these have not been exchanged. -/
theorem close_slot (start : Span) (node : Node) (s : Slot) :
    Matches (Step.Keeps Located) E (s.close start node l) (s.close start node l') := by
  cases s with
  | letTarget | putValue => exact h.expect _ (fun _ => rfl) trivial
  | adjustTarget up => exact h.expect _ (fun heq => by rw [heq]) trivial
  | change kind part => exact h.close_part start kind node part
  | turnTarget mode =>
    cases mode with
    | some mode => exact h.endWith _ _
    | none =>
      rw [Slot.close, Slot.close, h.word_eq]
      split
      · rename_i mode hmode
        obtain ⟨word, hword, -⟩ := Option.bind_eq_some_iff.mp hmode
        obtain rfl := h.eq_of_word hword
        exact .ok trivial
      · exact .error (h.unexpectedWord _)
  | pushTarget | popSource =>
    rw [Slot.close, Slot.close, h.isWord_eq]
    exact .ite (fun _ => .ok trivial) fun _ => h.endWith _ _
  | giveBack =>
    rw [Slot.close, Slot.close, h.isWord_eq]
    split
    · obtain rfl := h.eq_of_isWord ‹_›
      exact .ok trivial
    · exact h.endWith _ _
  | _ => exact h.endWith _ _

/-- The phrase of a slot reads on, or the slot is closed. -/
theorem pushSlot (start : Span) (s : Slot) (p : Phrase) :
    Matches (Step.Keeps Located) E (pushSlot start s p l) (pushSlot start s p l') := by
  exact h.feed p (fun q => .ok trivial) fun node => h.close_slot start node s

/-- A word of any class has stayed itself. -/
theorem eq_of_any {p : String → Bool} (hany : l.word.any p) : l' = l := by
  obtain ⟨word, hword, -⟩ := (Option.any_eq_true _ _).mp hany
  exact h.eq_of_word hword

/-- A line that begins with an expression reads on, or turns into one of the forms that a word
selects. -/
theorem pushBare (p : Phrase) :
    Matches (Step.Keeps Located) E (pushBare p l) (pushBare p l') := by
  unfold Statement.pushBare
  rw [h.word_eq]
  split
  · obtain rfl := h.eq_of_any (Bool.and_eq_true_iff.mp ‹_›).1
    exact (h.uniform.finish _ p).map fun _ _ => trivial
  split
  · obtain rfl := h.eq_of_any (Bool.and_eq_true_iff.mp ‹_›).1
    exact (h.uniform.finish _ p).map fun _ _ => trivial
  split
  · obtain rfl := h.eq_of_any (Bool.and_eq_true_iff.mp ‹_›).1
    exact (h.uniform.finish _ p).map fun _ _ => trivial
  · exact h.feed p (fun q => .ok trivial) fun node => h.endWith node _

/-- The parameters of a function read on. -/
theorem pushParameter (name : Node) (names : List String) (current : Phrase) :
    Matches (Step.Keeps Located) E (pushParameter name names current l)
      (pushParameter name names current l') := by
  unfold Statement.pushParameter Statement.separatesParameters
  rw [h.isWord_eq, h.isDelimiter_eq]
  refine .ite (fun _ => .ok trivial) fun _ => h.feed current (fun q => .ok trivial) fun node => ?_
  cases node with
  | var last parameter =>
    dsimp only
    rw [h.isNewline_eq, h.isWord_eq, h.isDelimiter_eq]
    refine .ite (fun _ => .ok trivial) fun _ => ?_
    exact .ite (fun _ => .ok trivial) fun _ => .error (h.unexpected _)
  | _ => exact .error (h.uniform.unexpectedKind _ _)

/-- A fixed phrase reads on. -/
theorem pushFixed (node : Node) (remaining : List String) (optional : Bool) :
    Matches (Step.Keeps Located) E (pushFixed node remaining optional l)
      (pushFixed node remaining optional l') := by
  unfold Statement.pushFixed
  rw [h.isNewline_eq]
  refine .ite (fun _ => .ok trivial) fun _ => ?_
  cases remaining with
  | nil => exact .error (h.unexpected _)
  | cons word rest => exact h.expect word (fun heq => by rw [heq]) trivial

/-- What exchanged lexemes do to a statement that has begun. -/
theorem take_statement (s : Statement) :
    Matches (Step.Keeps Located) E (s.take l) (s.take l') := by
  cases s with
  | bare phrase => exact h.pushBare phrase
  | parameters name names current => exact h.pushParameter name names current
  | slot first s phrase => exact h.pushSlot first s phrase
  | listen first =>
    rw [Statement.take, Statement.take, h.isNewline_eq]
    exact .ite (fun _ => .ok trivial) fun _ => h.expect _ (fun _ => rfl) trivial
  | adjust first up target count last =>
    rw [Statement.take, Statement.take, h.isNewline_eq]
    refine .ite (fun _ => .ok trivial) fun hl => ?_
    obtain rfl := h.eq_of_not_isNewline (Bool.eq_false_iff.mpr hl)
    exact .ite (fun _ => .ok trivial) fun _ => h.expect _ (fun _ => rfl) trivial
  | turn first =>
    rw [Statement.take, Statement.take, h.word_eq]
    split
    · exact .ok trivial
    · exact h.pushSlot first _ _
  | rock first target values =>
    exact (h.push_listing values).bind .error (fun values => .ok trivial) fun list => h.endWith _ _
  | give first =>
    rw [Statement.take, Statement.take, h.isWord_eq]
    exact .ite (fun _ => .ok trivial) fun _ => h.pushSlot first _ _
  | fixed node remaining optional => exact h.pushFixed node remaining optional
  | finished node => exact h.endWith node _
  | start blank => exact .error (h.unexpected _)
  | poetic target literal => exact .error (h.unexpected _)
  | verbatim target text started last => exact .error (h.unexpected _)

omit h in
/-- What a first word begins has read no digits yet. -/
theorem located_ofWord? {span : Span} {word : String} {s : Statement}
    (hs : ofWord? span word = some s) : s.Located := by
  unfold ofWord? at hs
  split at hs
  all_goals cases hs
  all_goals trivial

omit h in
/-- The end of a line where nothing has begun: an empty line is a statement of its own, and a comment
is none. -/
theorem pushStart_newline (hl : l.isNewline) (blank : Bool) :
    pushStart blank l = .ok (if blank then .done (.blank l.span) else .next fresh) := by
  rcases (Bool.or_eq_true _ _).mp hl with hk | hk
  · rw [Statement.pushStart, beq_iff_eq.mp hk]
  · rw [Statement.pushStart, beq_iff_eq.mp hk]

/-- A line of which nothing has been read. An empty line is where its end is. -/
theorem pushStart (blank : Bool) :
    Matches (Step.Keeps Located) E (pushStart blank l) (pushStart blank l') ∨
      pushStart blank l = .ok (.done (.blank l.span)) ∧
        pushStart blank l' = .ok (.done (.blank l'.span)) := by
  rcases h.same with rfl | ⟨hl, hl'⟩
  · left
    unfold Statement.pushStart
    split
    · exact .ok trivial
    · exact .ok trivial
    · refine .ok ?_
      split <;> trivial
    · refine .ok ?_
      split <;> trivial
    · split
      · rename_i s hs
        obtain ⟨word, -, hword⟩ := Option.bind_eq_some_iff.mp hs
        exact .ok (located_ofWord? hword)
      · exact h.pushBare _
  · rw [pushStart_newline hl, pushStart_newline hl']
    cases blank with
    | true => exact .inr ⟨rfl, rfl⟩
    | false => exact .inl (.ok trivial)

/-- **What a lexeme does to a statement.** -/
theorem push_statement {s : Statement} (hs : s.Located) :
    Matches (Step.Keeps Located) E (s.push l) (s.push l') ∨
      s.push l = .ok (.done (.blank l.span)) ∧ s.push l' = .ok (.done (.blank l'.span)) := by
  cases s with
  | start blank => exact h.pushStart blank
  | verbatim target text started last =>
    left
    rw [Statement.push, Statement.push, pushVerbatim, pushVerbatim, h.isNewline_eq]
    split
    · exact .ok trivial
    · obtain rfl := h.eq_of_not_isNewline (Bool.eq_false_iff.mpr ‹_›)
      exact .ok trivial
  | poetic target literal =>
    left
    refine (h.push_poetic hs).map fun step hstep => ?_
    cases step with
    | next literal => exact hstep
    | done value | yield value l'' => trivial
  | _ =>
    left
    rw [Statement.push, Statement.push, h.isTrivia_eq]
    · exact .ite (fun _ => .ok trivial) fun _ => h.take_statement _
    all_goals simp

end Exchange

/-! ### Lines -/

/-- A line whose statement does not take its place from its end. -/
def Line.Located : Line → Prop
  | statement s => s.Located
  | block _ _ _ current => current.Located

namespace Line

theorem located_fresh : fresh.Located := trivial

/-- What a line does to its block is the same on both sides. -/
theorem accept_matches (h : Uniform E) (header : Node) (body : List Node)
    (otherwise : Option (List Node)) (node : Node) :
    Matches (Step.Keeps Located) E (accept header body otherwise node)
      (accept header body otherwise node) := by
  unfold accept
  split
  · exact .ok trivial
  · exact .ok trivial
  · exact .error (h.unexpectedKind _ _)
  · exact .ok trivial
  · exact .ok trivial

/-- What a line becomes at the end of the source, if `E` relates the mistakes of the two ends. -/
theorem finish_matches (h : Uniform E) {stop stop' : Span}
    (hstop : ∀ within, E (.unfinished within stop) (.unfinished within stop')) (line : Line) :
    Matches Anything E (line.finish stop) (line.finish stop') := by
  induction line with
  | statement s => exact .ite (fun _ => .any _) fun _ => .error (hstop _)
  | block header body otherwise current ih =>
    refine ih.bind fun node _ => ?_
    cases node with
    | none => exact .any _
    | some node => exact (accept_matches h header body otherwise node).map_any _

end Line

/-- **What a lexeme does to a line.** An empty line in a block closes it, wherever its end is. -/
theorem Exchange.push_line {l l' : Lexeme} (h : Exchange E l l') {line : Line} (hline : line.Located) :
    Matches (Step.Keeps Line.Located) E (line.push l) (line.push l') ∨
      line.push l = .ok (.done (.blank l.span)) ∧ line.push l' = .ok (.done (.blank l'.span)) := by
  induction line with
  | statement s =>
    rcases h.push_statement hline with hmatch | ⟨hblank, hblank'⟩
    · left
      rw [Line.push_statement, Line.push_statement]
      refine hmatch.bind fun step hstep => ?_
      cases step with
      | next s => exact .ok hstep
      | done node =>
        refine .ok ?_
        show Step.Keeps Line.Located (if node.opensBlock then _ else _)
        split <;> trivial
      | yield node l'' => exact .ok trivial
    · right
      rw [Line.push_statement_done hblank, Line.push_statement_done hblank']
      exact ⟨rfl, rfl⟩
  | block header body otherwise current ih =>
    left
    rcases ih hline with hmatch | ⟨hblank, hblank'⟩
    · rw [Line.push_block, Line.push_block]
      refine hmatch.bind fun step hstep => ?_
      cases step with
      | next current => exact .ok hstep
      | done node => exact Line.accept_matches h.uniform header body otherwise node
      | yield node l'' => exact .ok trivial
    · rw [Line.push_block_done hblank, Line.push_block_done hblank']
      exact .ok trivial

end Ballad.Reading

namespace Ballad

open Reading

variable {E : ParseError → ParseError → Prop}

/-! ### Programs -/

/-- The same statements, and no mistake in either or mistakes that `E` relates. -/
structure Parsed.Matches (E : ParseError → ParseError → Prop) (p q : Parsed) : Prop where
  nodes_eq : q.nodes = p.nodes
  failure : Option.Rel E p.failure q.failure

namespace Program

/-- What a program makes of a statement, if what follows matches. -/
theorem emit_matches (h : Uniform E) (node : Node) {p q : Parsed} (hpq : p.Matches E q) :
    (emit node p).Matches E (emit node q) := by
  unfold emit
  split
  · exact hpq
  · exact ⟨rfl, .some (h.unexpectedKind _ _)⟩
  · exact ⟨congrArg (_ :: ·) hpq.nodes_eq, hpq.failure⟩

/-- **Lexemes that can be exchanged one by one are read alike.** -/
theorem read_exchange (h : Uniform E) {ls ls' : List Lexeme} (hls : List.Forall₂ (Exchange E) ls ls')
    {line : Line} (hline : line.Located) {last last' : Span}
    (hlast : ∀ within, E (.unfinished within last) (.unfinished within last')) :
    (read line last ls).Matches E (read line last' ls') := by
  induction hls generalizing line last last' with
  | nil =>
    rw [read, read]
    rcases Line.finish_matches h hlast line with ⟨node, hnode, hnode', -⟩ | ⟨e, e', he, he', hmistake⟩
    · rw [hnode, hnode']
      cases node with
      | none => exact ⟨rfl, .none⟩
      | some node => exact emit_matches h node ⟨rfl, .none⟩
    · rw [he, he']
      exact ⟨rfl, .some hmistake⟩
  | cons hl _ ih =>
    rcases hl.push_line hline with (⟨step, hstep, hstep', hkeeps⟩ | ⟨e, e', he, he', hmistake⟩) |
      ⟨hblank, hblank'⟩
    · rcases (Line.absorbs_push _ line).cases hstep with ⟨line', rfl⟩ | ⟨node, rfl⟩
      · rw [read_next hstep, read_next hstep']
        exact ih hkeeps hl.unfinished
      · rw [read_done hstep, read_done hstep']
        exact emit_matches h node (ih Line.located_fresh hl.unfinished)
    · rw [read_error he, read_error he']
      exact ⟨rfl, .some hmistake⟩
    · rw [read_done hblank, read_done hblank']
      exact ih Line.located_fresh hl.unfinished

end Program

end Ballad
