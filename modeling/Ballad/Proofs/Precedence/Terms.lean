import Ballad.Proofs.Precedence.Grammar
import Ballad.Proofs.Reading.Words

/-!
# Terms are read as the grammar has them

A lexeme that goes to the last part of a phrase goes through every open construct around it, and
none of these may take it for itself. Which of them would is a matter of ranks, so that both notions
below carry a bound.

- `Phrase.Reads`: a phrase takes lexemes, each of which also passes through constructs of a rank up
  to the bound.
- `Phrase.Whole`: a phrase has become a node, and what follows with a rank up to the bound takes the
  node as its operand.
- `Grammar.Term.reads`: the lexemes of a term are read, and the node of the term has been read then.
-/

namespace Ballad

open Reading

namespace Reading.Phrase

/-- Nothing takes a lexeme before it comes to this phrase, if all constructs around the phrase have
at most the given rank. -/
def Free (b : Nat) (p : Phrase) (l : Lexeme) : Prop :=
  p.isComplete → ∀ s, Suffix.of? .value l = some s → b < s.rank

/-- Lexemes that take one phrase to another. -/
inductive Reads (b : Nat) : Phrase → List Lexeme → Phrase → Prop where
  | nil {p : Phrase} : Reads b p [] p
  | cons {p q r : Phrase} {l : Lexeme} {ls : List Lexeme} (htake : p.take l = .ok (.next q))
      (hfree : Free b p l) (hrest : Reads b q ls r) : Reads b p (l :: ls) r

/-- A phrase that has become a node. -/
structure Whole (mode : Mode) (b : Nat) (p : Phrase) (n : Node) : Prop where
  complete : p.isComplete
  finish : ∀ stop, p.finish stop = .ok n
  take : ∀ l : Lexeme, l.isProperWord = false → (∀ s, Suffix.of? .value l = some s → s.rank ≤ b) →
    p.take l = afterOperand mode n l

variable {b c : Nat} {mode : Mode} {p q r : Phrase} {l : Lexeme} {ls ms : List Lexeme} {n : Node}

/-- Whatever comes, a phrase that is not complete is given it. -/
theorem free_of_isComplete_eq_false (h : p.isComplete = false) : Free b p l := by
  intro hcomplete
  exact absurd (h.symm.trans hcomplete) Bool.false_ne_true

/-- What continues no operand is given to the last phrase. -/
theorem free_of_of?_eq_none (h : Suffix.of? .value l = none) : Free b p l := by
  intro _ s hs
  exact absurd (h.symm.trans hs) (Option.some_ne_none s).symm

theorem Reads.single (htake : p.take l = .ok (.next q)) (hfree : Free b p l) : Reads b p [l] q :=
  .cons htake hfree .nil

/-- What is read in two parts is read as a whole. -/
theorem Reads.append (h : Reads b p ls q) (h' : Reads b q ms r) : Reads b p (ls ++ ms) r := by
  induction h with
  | nil => exact h'
  | cons htake hfree _ ih => exact .cons htake hfree (ih h')

/-- Inside of constructs that bind less, the same lexemes are read. -/
theorem Reads.mono (h : Reads b p ls q) (hcb : c ≤ b) : Reads c p ls q := by
  induction h with
  | nil => exact .nil
  | cons htake hfree _ ih =>
    exact .cons htake (fun hp s hs => Nat.lt_of_le_of_lt hcb (hfree hp s hs)) ih

/-- A phrase that is whole for all operators up to a rank is whole for fewer. -/
theorem Whole.mono (h : Whole mode b p n) (hcb : c ≤ b) : Whole mode c p n := by
  refine ⟨h.complete, h.finish, fun l hl hs => ?_⟩
  exact h.take l hl fun s hof => Nat.le_trans (hs s hof) hcb

/-! ### Open constructs -/

/-- A construct without open words does not look at what follows. -/
theorem refine_of_isSettled {shell : Shell} (h : shell.isSettled) (l : Lexeme) :
    shell.refine l = .ok none := by
  cases shell with
  | binary op tail left =>
    cases tail with
    | settled => rfl
    | _ => exact absurd h Bool.false_ne_true
  | _ => rfl

theorem settle_of_isSettled {shell : Shell} (h : shell.isSettled) : shell.settle = shell := by
  cases shell with
  | binary op tail left =>
    cases tail with
    | settled => rfl
    | _ => exact absurd h Bool.false_ne_true
  | _ => rfl

/-- A construct lets its last part take what binds stronger than the construct does. -/
theorem folds_eq_false {rank : Nat} (hfree : Free b p l) (hrank : rank ≤ b) :
    folds mode rank p l = false := by
  unfold folds
  split
  · rename_i s hs
    by_cases hp : p.isComplete
    · have hlt : b < s.rank := hfree hp s (Suffix.of?_value hs)
      have hnle : ¬ s.rank ≤ rank := by omega
      simp [hnle]
    · simp [hp]
  · rfl

/-- A construct with all of its words passes on what its last part may take. -/
theorem Reads.within_mode {shell : Shell} (mode : Mode) (h : Reads b p ls q)
    (hset : shell.isSettled) (hrank : shell.rank ≤ b) :
    Reads b (within mode shell p) ls (within mode shell q) := by
  induction h with
  | nil => exact .nil
  | @cons p q r l ls htake hfree _ ih =>
    refine .cons ?_ ?_ ih
    · rw [take, refine_of_isSettled hset, settle_of_isSettled hset]
      dsimp only
      rw [folds_eq_false hfree hrank, htake]
      rfl
    · intro hcomplete
      have hp : p.isComplete := (Bool.and_eq_true_iff.mp hcomplete).2
      exact hfree hp

/-- What a phrase reads, it reads as the last part of a construct. -/
theorem Reads.within {shell : Shell} (h : Reads b p ls q) (hset : shell.isSettled)
    (hrank : shell.rank ≤ b) :
    Reads b (within .value shell p) ls (within .value shell q) :=
  h.within_mode .value hset hrank

/-- What continues no operand ends the phrase. -/
theorem afterOperand_of_none (h : Suffix.of? .value l = none) (mode : Mode) (n : Node) :
    afterOperand mode n l = .ok (.yield n l) := by
  unfold afterOperand
  rw [Suffix.of?_eq_none_of_value h mode]

/-- A lexeme that has no use for a node ends it. -/
theorem Whole.take_yield (h : Whole mode b p n) (hproper : l.isProperWord = false)
    (hnone : Suffix.of? .value l = none) : p.take l = .ok (.yield n l) := by
  have hrank : ∀ s, Suffix.of? .value l = some s → s.rank ≤ b := by
    intro s hs
    exact absurd (hnone.symm.trans hs) (Option.some_ne_none s).symm
  rw [h.take l hproper hrank]
  exact afterOperand_of_none hnone mode n

/-- An index follows its array. -/
theorem afterOperand_index (h : Suffix.of? mode l = some .index) (n : Node) :
    afterOperand mode n l = .ok (.next (within mode (.index n) (empty .key))) := by
  unfold afterOperand
  rw [h]

/-- An operator follows its left operand. -/
theorem afterOperand_binary {op : Operator} {tail : Tail}
    (h : Suffix.of? mode l = some (.binary op tail)) (n : Node) :
    afterOperand mode n l = .ok (.next (within mode (.binary op tail n) (empty .value))) := by
  unfold afterOperand
  rw [h]

/-- A construct with all of its words becomes a node if its last part does. -/
theorem finish_within {shell : Shell} {stop : Span} (hset : shell.isSettled)
    (h : p.finish stop = .ok n) : (within mode shell p).finish stop = .ok (shell.close n) := by
  unfold Phrase.finish
  split
  · exact absurd hset Bool.false_ne_true
  · exact absurd hset Bool.false_ne_true
  · exact absurd hset Bool.false_ne_true
  · rw [h]
    rfl

/-- What follows a construct whose last part has become a node takes the node of the construct. -/
theorem Whole.within {shell : Shell} (h : Whole mode b p n) (hset : shell.isSettled) :
    Whole .value shell.rank (within .value shell p) (shell.close n) := by
  refine ⟨by rw [isComplete, hset, h.complete]; rfl, fun stop => finish_within hset (h.finish stop),
    fun l hl hs => ?_⟩
  rw [Phrase.take, refine_of_isSettled hset, settle_of_isSettled hset]
  dsimp only
  cases hof : Suffix.of? .value l with
  | none =>
    -- nothing follows, and the last part ends first
    have hfold : folds .value shell.rank p l = false :=
      folds_eq_false (free_of_of?_eq_none hof) (Nat.le_refl _)
    rw [hfold, h.take_yield hl hof]
    rfl
  | some s =>
    have hfold : folds .value shell.rank p l = true := by
      rw [folds, hof]
      simp [hs s hof, h.complete]
    rw [hfold, h.finish]
    rfl

/-- What follows a key takes the node of the index, wherever this stands. -/
theorem Whole.index {key : Node} (h : Whole .key suffixRank p key) (n : Node) :
    Whole mode suffixRank (Phrase.within mode (.index n) p)
      (.index (n.span.through key.span) n key) := by
  refine ⟨h.complete, fun stop => finish_within rfl (h.finish stop), fun l hl hs => ?_⟩
  rw [Phrase.take, refine_of_isSettled rfl, settle_of_isSettled rfl]
  dsimp only
  cases hof : Suffix.of? mode l with
  | none =>
    -- nothing but an index could go on with the key, and it would take the whole
    have hkey : Suffix.of? .key l = none := by
      cases hkey : Suffix.of? .key l with
      | none => rfl
      | some s =>
        rcases Suffix.of?_cases hkey with ⟨-, hat⟩ | hmode
        · exact absurd ((Suffix.of?_at hat mode).symm.trans hof) (Option.some_ne_none _)
        · cases hmode
    have hyield : p.take l = .ok (.yield key l) := by
      rw [h.take l hl hs]
      unfold afterOperand
      rw [hkey]
    rw [folds, hof, hyield]
    rfl
  | some s =>
    have hfold : folds mode (Shell.index n).rank p l = true := by
      rw [folds, hof]
      have hrank : s.rank ≤ (Shell.index n).rank := hs s (Suffix.of?_value hof)
      simp [hrank, h.complete]
    rw [hfold, h.finish]
    rfl

theorem whole_operand : Whole mode b (operand mode n) n :=
  ⟨rfl, fun _ => rfl, fun _ _ _ => rfl⟩

/-- A proper noun is whole at every word, and is a variable under its name in normal form. -/
theorem whole_proper {name : String} {span : Span} :
    Whole mode b (proper mode name span) (.var span (Name.normalize name)) := by
  refine ⟨rfl, fun _ => rfl, fun l hl _ => ?_⟩
  rw [take]
  have hcond : (l.isCapitalized && l.word.any (!Vocabulary.isReserved ·)) = false := hl
  rw [hcond]
  rfl

end Reading.Phrase

namespace Grammar

open Reading.Phrase

variable {mode : Mode} {ls : List Lexeme} {n : Node}

/-- A part of a proper noun is a capitalized word that is not reserved. -/
theorem word_of_isProperWord {l : Lexeme} (h : l.isProperWord) :
    l.isCapitalized ∧ ∃ word, l.word = some word ∧ Vocabulary.isReserved word = false := by
  obtain ⟨hcap, hany⟩ := Bool.and_eq_true_iff.mp h
  obtain ⟨word, hword, hres⟩ := (Option.any_eq_true _ _).mp hany
  exact ⟨hcap, word, hword, by simpa using hres⟩

/-- A phrase begins with a word as `ofWord` says. -/
theorem take_empty {l : Lexeme} {word : String} (h : l.word = some word) :
    (empty mode).take l = (ofWord mode l word).map .next := by
  obtain ⟨hk, rfl⟩ := Lexeme.kind_of_word h
  rw [take, start, hk]

/-- Nothing takes a lexeme from a phrase of which nothing has been read. -/
theorem free_empty {b : Nat} {l : Lexeme} : Free b (empty mode) l :=
  free_of_isComplete_eq_false rfl

/-- A literal is an operand, but no location. -/
theorem ofLiteral_eq (hmode : mode ≠ .location) (span : Span) (value : Literal) :
    ofLiteral mode span value = .ok (operand mode (.literal span value)) := by
  rw [ofLiteral, if_neg hmode]

/-- Capitalized words are read as one name. All but the first of them stop at no construct, as none
of them is a suffix. -/
theorem ProperNoun.reads {name : String} {span : Span} (h : ProperNoun ls name span) :
    Reads suffixRank (empty mode) ls (proper mode name span) := by
  induction h with
  | @first l hl =>
    obtain ⟨hcap, word, hword, hres⟩ := word_of_isProperWord hl
    have hun := Vocabulary.unreserved hres
    refine .single ?_ free_empty
    rw [take_empty hword, ofWord]
    simp [hun.article, hun.pronoun, hun.constant, hun.ne_not, hun.ne_roll, hun.ne_pop, hres, hcap]
    rfl
  | @next ls name span l _ hl ih =>
    obtain ⟨-, word, hword, hres⟩ := word_of_isProperWord hl
    have hnone : Suffix.of? .value l = none := by
      rw [Suffix.of?, hword]
      exact (Vocabulary.unreserved hres).suffix
    refine ih.append (.single ?_ (free_of_of?_eq_none hnone))
    have hcond : (l.isCapitalized && l.word.any (!Vocabulary.isReserved ·)) = true := hl
    rw [take, hcond]
    rfl

/-- A primary is read wherever it may stand: where a location is expected, it must be one. -/
theorem Primary.reads_mode (h : Primary ls n) (hloc : mode = .location → n.isLocation) :
    ∃ q, Reads suffixRank (empty mode) ls q ∧ Whole mode suffixRank q n := by
  have hliteral : ∀ span value, n = .literal span value → mode ≠ .location := by
    rintro span value rfl hmode
    exact absurd (hloc hmode) Bool.false_ne_true
  cases h with
  | @number l x hl hx =>
    refine ⟨_, .single ?_ free_empty, whole_operand⟩
    rw [take, start, hl]
    dsimp only
    rw [numberOf, hx]
    show Except.map Step.next (ofLiteral mode l.span (.number x)) = _
    rw [ofLiteral_eq (hliteral _ _ rfl)]
    rfl
  | @string l hl =>
    refine ⟨_, .single ?_ free_empty, whole_operand⟩
    rw [take, start, hl]
    dsimp only
    rw [ofLiteral_eq (hliteral _ _ rfl)]
    rfl
  | @constant l word value hl hv =>
    obtain ⟨harticle, hpronoun, -⟩ := Vocabulary.constant_begins hv
    refine ⟨_, .single ?_ free_empty, whole_operand⟩
    rw [take_empty hl, ofWord]
    simp [harticle, hpronoun, hv, ofLiteral_eq (hliteral _ _ rfl)]
    rfl
  | @pronoun l word hl hp =>
    obtain ⟨harticle, -⟩ := Vocabulary.pronoun_begins hp
    refine ⟨_, .single ?_ free_empty, whole_operand⟩
    rw [take_empty hl, ofWord]
    simp [harticle, hp]
    rfl
  | @simple l word hl hr hc =>
    have hun := Vocabulary.unreserved hr
    refine ⟨_, .single ?_ free_empty, whole_operand⟩
    rw [take_empty hl, ofWord]
    simp [hun.article, hun.pronoun, hun.constant, hun.ne_not, hun.ne_roll, hun.ne_pop, hr, hc]
    rfl
  | @common a l article noun ha hart hl =>
    obtain ⟨-, rfl⟩ := Lexeme.kind_of_word ha
    have hfirst : (empty mode).take a = .ok (.next (Phrase.article mode a)) := by
      rw [take_empty ha, ofWord, if_pos hart]
      rfl
    -- after an article any word is a noun, even one that is a suffix elsewhere
    have hsecond : (Phrase.article mode a).take l = .ok (.next (operand mode
        (.var (a.span.through l.span) (Text.lowercase a.literal ++ " " ++ noun)))) := by
      rw [take, hl]
    exact ⟨_, .cons hfirst free_empty (.single hsecond (free_of_isComplete_eq_false rfl)),
      whole_operand⟩
  | proper hls => exact ⟨_, hls.reads, whole_proper⟩

/-- Where a value or a key is expected, every primary is read. -/
theorem Primary.reads (h : Primary ls n) (hmode : mode ≠ .location) :
    ∃ q, Reads suffixRank (empty mode) ls q ∧ Whole mode suffixRank q n :=
  h.reads_mode fun heq => absurd heq hmode

/-- Reserved words are no part of a proper noun. -/
theorem not_isProperWord {l : Lexeme} {word : String} (hl : l.word = some word)
    (hr : Vocabulary.isReserved word) : l.isProperWord = false := by
  rw [Lexeme.isProperWord, hl]
  simp [hr]

/-- The word of an index takes the whole node before it, and lets through what comes after. -/
theorem reads_index {l : Lexeme} {ks : List Lexeme} {p : Phrase} {key : Node}
    (hp : Whole mode suffixRank p n) (hl : l.word = some "at") (hkey : Primary ks key) :
    ∃ q, Reads negationRank p (l :: ks) q ∧
      Whole mode suffixRank q (.index (n.span.through key.span) n key) := by
  obtain ⟨q, hreads, hwhole⟩ := hkey.reads (show Mode.key ≠ .location by decide)
  have hproper : l.isProperWord = false := not_isProperWord hl (by decide)
  have hrank : ∀ s, Suffix.of? .value l = some s → s.rank = suffixRank := by
    intro s hs
    obtain rfl := Option.some.inj ((Suffix.of?_at hl .value).symm.trans hs)
    rfl
  have htake : p.take l = .ok (.next (within mode (.index n) (empty .key))) := by
    rw [hp.take l hproper fun s hs => Nat.le_of_eq (hrank s hs)]
    exact afterOperand_index (Suffix.of?_at hl mode) n
  have hfree : Free negationRank p l := by
    intro _ s hs
    rw [hrank s hs]
    decide
  have hinside := hreads.within_mode mode (show (Shell.index n).isSettled from rfl) (Nat.le_refl _)
  exact ⟨_, .cons htake hfree (hinside.mono (by decide)), hwhole.index n⟩

/-- Primaries and entries of arrays are read as phrases that only suffixes continue. -/
theorem Subject.reads (h : Subject ls n) :
    ∃ q, Reads negationRank (empty .value) ls q ∧ Whole .value suffixRank q n := by
  induction h with
  | primary h =>
    obtain ⟨q, hreads, hwhole⟩ := h.reads (show Mode.value ≠ .location by decide)
    exact ⟨q, hreads.mono (by decide), hwhole⟩
  | @index ls ks l n key _ hl hkey ih =>
    obtain ⟨p, hreads, hwhole⟩ := ih
    obtain ⟨q, hindex, hq⟩ := reads_index hwhole hl hkey
    exact ⟨q, hreads.append hindex, hq⟩

/-- Negations stand around the subject, and an index after it goes to the subject. -/
theorem Term.reads (h : Term ls n) :
    ∃ q, Reads negationRank (empty .value) ls q ∧ Whole .value negationRank q n := by
  induction h with
  | subject h =>
    obtain ⟨q, hreads, hwhole⟩ := h.reads
    exact ⟨q, hreads, hwhole.mono (by decide)⟩
  | @negation ls l n hl _ ih =>
    obtain ⟨q, hreads, hwhole⟩ := ih
    have htake : (empty .value).take l =
        .ok (.next (within .value (.negation l.span) (empty .value))) := by
      rw [take_empty hl]
      rfl
    have hset : (Shell.negation l.span).isSettled := rfl
    exact ⟨_, .cons htake free_empty (hreads.within hset (Nat.le_refl _)), hwhole.within hset⟩

/-- They have no operator. -/
theorem Subject.operator?_eq_none (h : Subject ls n) : n.operator? = none := by
  cases h with
  | primary h => cases h <;> rfl
  | index _ _ _ => rfl

/-- Neither have terms. -/
theorem Term.operator?_eq_none (h : Term ls n) : n.operator? = none := by
  cases h with
  | subject h => exact h.operator?_eq_none
  | negation _ _ => rfl

/-! ### The first lexeme of a term -/

/-- A lexeme that does not go on with a comparison. -/
def Begins (l : Lexeme) : Prop :=
  ∀ word, l.word = some word → Vocabulary.refines word = false

/-- A word that no comparison has does not go on with one. -/
theorem begins_of_word {l : Lexeme} {word : String} (hl : l.word = some word)
    (h : Vocabulary.refines word = false) : Begins l := by
  intro w hw
  obtain rfl := Option.some.inj (hl.symm.trans hw)
  exact h

/-- Nor does anything that is no word. -/
theorem begins_of_kind {l : Lexeme} (h : l.kind ≠ .identifier) : Begins l := by
  intro w hw
  exact absurd (Lexeme.kind_of_word hw).1 h

/-- A proper noun begins with such a lexeme. -/
theorem ProperNoun.begins {name : String} {span : Span} (h : ProperNoun ls name span) :
    ∃ l rest, ls = l :: rest ∧ Begins l := by
  induction h with
  | @first l hl =>
    obtain ⟨-, word, hword, hres⟩ := word_of_isProperWord hl
    exact ⟨l, [], rfl, begins_of_word hword (Vocabulary.unreserved hres).refines⟩
  | @next ls name span l _ _ ih =>
    obtain ⟨k, rest, rfl, hk⟩ := ih
    exact ⟨k, rest ++ [l], rfl, hk⟩

/-- So do all primaries. -/
theorem Primary.begins (h : Primary ls n) : ∃ l rest, ls = l :: rest ∧ Begins l := by
  cases h with
  | @number l x hl hx => exact ⟨l, [], rfl, begins_of_kind (by rw [hl]; decide)⟩
  | @string l hl => exact ⟨l, [], rfl, begins_of_kind (by rw [hl]; decide)⟩
  | @constant l word value hl hv =>
    obtain ⟨-, -, href⟩ := Vocabulary.constant_begins hv
    exact ⟨l, [], rfl, begins_of_word hl href⟩
  | @pronoun l word hl hp =>
    obtain ⟨-, href⟩ := Vocabulary.pronoun_begins hp
    exact ⟨l, [], rfl, begins_of_word hl href⟩
  | @simple l word hl hr hc =>
    exact ⟨l, [], rfl, begins_of_word hl (Vocabulary.unreserved hr).refines⟩
  | @common a l article noun ha hart hl =>
    exact ⟨a, [l], rfl, begins_of_word ha (Vocabulary.refines_article hart)⟩
  | proper hls => exact hls.begins

/-- So do entries of arrays, which begin as their array does. -/
theorem Subject.begins (h : Subject ls n) : ∃ l rest, ls = l :: rest ∧ Begins l := by
  induction h with
  | primary h => exact h.begins
  | @index ls ks l n key _ _ _ ih =>
    obtain ⟨k, rest, rfl, hk⟩ := ih
    exact ⟨k, rest ++ l :: ks, rfl, hk⟩

/-- A term begins with `not`, or with a lexeme that does not go on with a comparison. -/
theorem Term.begins (h : Term ls n) :
    ∃ l rest, ls = l :: rest ∧ (l.word = some "not" ∨ Begins l) := by
  cases h with
  | subject h =>
    obtain ⟨l, rest, rfl, hl⟩ := h.begins
    exact ⟨l, rest, rfl, .inr hl⟩
  | @negation ls l n hl _ => exact ⟨l, ls, rfl, .inl hl⟩

end Grammar

end Ballad
