import Ballad.Proofs.Precedence.Terms
import Ballad.Proofs.Reading.Runs

/-!
# Lines that begin with a variable

Unless its first word belongs to a statement, a line is an expression at first. The word after the
expression may still make it an assignment or a function.

- `Phrase.Plain`: a word that belongs to the expression at the beginning of a line.
- `Phrase.Extends`: such words take the expression further.
- `Statement.Holds`: nothing but an expression has been read of a line.
- `Statement.Holds.goes`: the words of an expression are read so, with blanks and comments anywhere
  among them.
- `Grammar.Primary.extends`, `Grammar.Primary.extends_location`: the words of a variable, and of a
  pronoun, are such an expression.
-/

namespace Ballad

open Reading

/-! ### Words of an expression -/

namespace Reading.Phrase

/-- A word that belongs to the expression at the beginning of a line: it begins no statement, and
after a variable it is not the verb of one. -/
structure Plain (p : Phrase) (l : Lexeme) : Prop where
  word : l.word.isSome
  begins : p.isEmpty → l.word.bind (Statement.ofWord? l.span) = none
  assigns : p.isLocation → ∀ w ∈ l.word, Vocabulary.isCopula w = false ∧
    Vocabulary.isQuotative w = false
  declares : p.isVariable → ∀ w ∈ l.word, Vocabulary.isDeclarative w = false

/-- Words that take the expression at the beginning of a line further. -/
inductive Extends : Phrase → List Lexeme → Phrase → Prop where
  | nil {p : Phrase} : Extends p [] p
  | cons {p q r : Phrase} {l : Lexeme} {ls : List Lexeme} (hplain : Plain p l)
      (htake : p.take l = .ok (.next q)) (hrest : Extends q ls r) : Extends p (l :: ls) r

variable {b : Nat} {p q : Phrase} {l : Lexeme} {ls : List Lexeme} {word : String}

theorem ofWord?_eq_none (h : word ∉ Vocabulary.statementWords) (span : Span) :
    Statement.ofWord? span word = none := by
  unfold Statement.ofWord?
  split
  all_goals first | rfl | exact absurd (by decide) h

/-- A word that may name a variable is plain everywhere. -/
theorem plain_of_unreserved (hl : l.word = some word) (hr : Vocabulary.isReserved word = false)
    (p : Phrase) : Plain p l := by
  have hun := Vocabulary.unreserved hr
  constructor
  · rw [hl]
    rfl
  · intro _
    rw [hl]
    exact ofWord?_eq_none (Vocabulary.not_mem_statementWords hr) l.span
  · rintro _ w hw
    obtain rfl := Option.some.inj (hl.symm.trans hw)
    exact ⟨hun.copula, hun.quotative⟩
  · rintro _ w hw
    obtain rfl := Option.some.inj (hl.symm.trans hw)
    exact hun.declarative

/-- At the beginning of a line, a word is plain if it begins no statement. -/
theorem plain_of_first (hl : l.word = some word) (h : word ∉ Vocabulary.statementWords)
    (mode : Mode) : Plain (empty mode) l := by
  constructor
  · rw [hl]
    rfl
  · intro _
    rw [hl]
    exact ofWord?_eq_none h l.span
  · intro hloc
    exact absurd hloc Bool.false_ne_true
  · intro hvar
    exact absurd hvar Bool.false_ne_true

theorem plain_of_article (hl : l.word = some word) (hart : Vocabulary.isArticle word)
    (mode : Mode) : Plain (empty mode) l := by
  have hall : ∀ w ∈ Vocabulary.articles, w ∉ Vocabulary.statementWords := by decide
  exact plain_of_first hl (hall word (List.contains_iff_mem.mp hart)) mode

theorem plain_of_pronoun (hl : l.word = some word) (hp : Vocabulary.isPronoun word)
    (mode : Mode) : Plain (empty mode) l := by
  have hall : ∀ w ∈ Vocabulary.pronouns, w ∉ Vocabulary.statementWords := by decide
  exact plain_of_first hl (hall word (List.contains_iff_mem.mp hp)) mode

/-- After an article any word is a noun, whatever it means elsewhere. -/
theorem plain_of_noun (hl : l.word = some word) (mode : Mode) (a : Lexeme) :
    Plain (article mode a) l := by
  constructor
  · rw [hl]
    rfl
  · intro hempty
    exact absurd hempty Bool.false_ne_true
  · intro hloc
    exact absurd hloc Bool.false_ne_true
  · intro hvar
    exact absurd hvar Bool.false_ne_true

theorem Reads.extends (h : Reads b p ls q)
    (hls : ∀ l ∈ ls, ∃ word, l.word = some word ∧ Vocabulary.isReserved word = false) :
    Extends p ls q := by
  induction h with
  | nil => exact .nil
  | @cons p q r l ls htake _ _ ih =>
    obtain ⟨word, hl, hr⟩ := hls l List.mem_cons_self
    exact .cons (plain_of_unreserved hl hr p) htake
      (ih fun m hm => hls m (List.mem_cons_of_mem l hm))

/-- What has become a variable is a location. -/
theorem isLocation_of_finish {stop s : Span} {name : String}
    (h : p.finish stop = .ok (.var s name)) : p.isLocation := by
  cases p with
  | empty mode | article mode word => cases h
  | proper mode name span => rfl
  | operand mode node =>
    obtain rfl : node = .var s name := Except.ok.inj h
    rfl
  | within mode shell child =>
    unfold finish at h
    split at h
    · cases h
    · cases h
    · cases h
    · obtain ⟨node, -, hclose⟩ := map_eq_ok.mp h
      cases shell <;> cases hclose
  | call mode callee items delimited current =>
    rw [finish_call] at h
    split at h
    · cases h
    · obtain ⟨n, -, hnode⟩ := map_eq_ok.mp h
      cases hnode

end Reading.Phrase

/-! ### Variables -/

namespace Grammar

open Reading.Phrase

variable {ls : List Lexeme} {name : String} {span : Span}

theorem ProperNoun.unreserved (h : ProperNoun ls name span) :
    ∀ l ∈ ls, ∃ word, l.word = some word ∧ Vocabulary.isReserved word = false := by
  induction h with
  | first hl =>
    rintro m hm
    obtain rfl := List.mem_singleton.mp hm
    exact (word_of_isProperWord hl).2
  | next _ hl ih =>
    rintro m hm
    rcases List.mem_append.mp hm with hm | hm
    · exact ih m hm
    · obtain rfl := List.mem_singleton.mp hm
      exact (word_of_isProperWord hl).2

/-- The words of a variable are an expression at the beginning of a line. -/
theorem Primary.extends (h : Primary ls (.var span name)) :
    ∃ q, Extends (empty .value) ls q ∧ ∀ stop, q.finish stop = .ok (.var span name) := by
  obtain ⟨q, hreads, hwhole⟩ := h.reads (show Mode.value ≠ .location by decide)
  refine ⟨q, ?_, hwhole.finish⟩
  cases h with
  | simple hl hr _ =>
    refine hreads.extends fun m hm => ?_
    obtain rfl := List.mem_singleton.mp hm
    exact ⟨_, hl, hr⟩
  | proper hls => exact hreads.extends hls.unreserved
  | @common a l article noun ha hart hl =>
    cases hreads with
    | cons hfirst _ hrest =>
      cases hrest with
      | cons hsecond _ hnil =>
        cases hnil
        have harticle := hfirst
        rw [take_empty ha, ofWord, if_pos hart] at harticle
        cases harticle
        exact .cons (plain_of_article ha hart _) hfirst (.cons (plain_of_noun hl _ a) hsecond .nil)

/-- So are those of a pronoun. -/
theorem Primary.extends_location {n : Node} (h : Primary ls n) (hn : n.isLocation) :
    ∃ q, Extends (empty .value) ls q ∧ q.isLocation ∧ ∀ stop, q.finish stop = .ok n := by
  cases h with
  | number _ _ | string _ | constant _ _ => cases hn
  | @pronoun l word hl hp =>
    obtain ⟨harticle, -⟩ := Vocabulary.pronoun_begins hp
    have htake : (empty .value).take l = .ok (.next (operand .value (.pronoun l.span word))) := by
      rw [take_empty hl, ofWord]
      simp [harticle, hp]
      rfl
    exact ⟨_, .cons (plain_of_pronoun hl hp _) htake .nil, rfl, fun _ => rfl⟩
  | simple hl hr hc =>
    obtain ⟨q, hextends, hfinish⟩ := (Primary.simple hl hr hc).extends
    exact ⟨q, hextends, isLocation_of_finish (hfinish .origin), hfinish⟩
  | common ha hart hl =>
    obtain ⟨q, hextends, hfinish⟩ := (Primary.common ha hart hl).extends
    exact ⟨q, hextends, isLocation_of_finish (hfinish .origin), hfinish⟩
  | proper hls =>
    obtain ⟨q, hextends, hfinish⟩ := (Primary.proper hls).extends
    exact ⟨q, hextends, isLocation_of_finish (hfinish .origin), hfinish⟩

end Grammar

/-! ### The line -/

namespace Reading.Statement

/-- Nothing but an expression has been read of a line. -/
inductive Holds : Statement → Phrase → Prop where
  | start (blank : Bool) : Holds (.start blank) (.empty .value)
  | bare (p : Phrase) : Holds (.bare p) p

variable {s : Statement} {p q : Phrase} {l : Lexeme} {ls : List Lexeme}

theorem Holds.skip (h : Holds s p) (hl : l.isTrivia) :
    ∃ s', s.push l = .ok (.next s') ∧ Holds s' p := by
  cases h with
  | start blank =>
    have hkind : l.kind = .whitespace ∨ l.kind = .comment := by simpa [Lexeme.isTrivia] using hl
    rcases hkind with hk | hk
    · exact ⟨.start blank, by rw [push, pushStart, hk], .start blank⟩
    · exact ⟨.start false, by rw [push, pushStart, hk], .start false⟩
  | bare p => exact ⟨.bare p, if_pos hl, .bare p⟩

theorem pushBare_of_plain (hplain : p.Plain l) (htake : p.take l = .ok (.next q)) :
    pushBare p l = .ok (.next (.bare q)) := by
  obtain ⟨w, hw⟩ := Option.isSome_iff_exists.mp hplain.word
  obtain ⟨hkind, -⟩ := Lexeme.kind_of_word hw
  have hassigns : p.isLocation = false ∨
      Vocabulary.isCopula w = false ∧ Vocabulary.isQuotative w = false := by
    by_cases hloc : p.isLocation
    · exact .inr (hplain.assigns hloc w hw)
    · exact .inl (by simpa using hloc)
  have hdeclares : p.isVariable = false ∨ Vocabulary.isDeclarative w = false := by
    by_cases hvar : p.isVariable
    · exact .inr (hplain.declares hvar w hw)
    · exact .inl (by simpa using hvar)
  have hpush : p.push l = .ok (.next q) := by
    rw [Phrase.push_eq_take (by simp [Lexeme.isTrivia, hkind]), htake]
  unfold pushBare
  rw [if_neg (by rcases hassigns with h | h <;> simp [hw, h]),
    if_neg (by rcases hassigns with h | h <;> simp [hw, h]),
    if_neg (by rcases hdeclares with h | h <;> simp [hw, h]), Phrase.feed_of_next hpush]
  rfl

theorem Holds.take (h : Holds s p) (hplain : p.Plain l) (htake : p.take l = .ok (.next q)) :
    s.push l = .ok (.next (.bare q)) := by
  obtain ⟨w, hw⟩ := Option.isSome_iff_exists.mp hplain.word
  obtain ⟨hkind, -⟩ := Lexeme.kind_of_word hw
  cases h with
  | start blank =>
    rw [push, pushStart, hkind]
    dsimp only
    rw [hplain.begins rfl]
    exact pushBare_of_plain hplain htake
  | bare p =>
    have htrivia : l.isTrivia = false := by simp [Lexeme.isTrivia, hkind]
    show (if l.isTrivia then _ else pushBare p l) = _
    rw [htrivia]
    exact pushBare_of_plain hplain htake

/-- Blanks and comments among the words of an expression do not matter. -/
theorem Holds.goes (h : Holds s p) (hext : p.Extends (ls.filter (!·.isTrivia)) q) :
    ∃ s', Line.Goes (.statement s) ls (.statement s') ∧ Holds s' q := by
  -- over all lexemes, of which the expression takes only the words
  induction ls generalizing s p with
  | nil =>
    cases hext
    exact ⟨s, .nil, h⟩
  | cons l ls ih =>
    by_cases hl : l.isTrivia
    · rw [List.filter_cons_of_neg (by simp [hl])] at hext
      obtain ⟨s', hpush, hs'⟩ := h.skip hl
      obtain ⟨s'', hgoes, hs''⟩ := ih hs' hext
      exact ⟨s'', .cons (Line.push_statement_next hpush) hgoes, hs''⟩
    · rw [List.filter_cons_of_pos (by simp [hl])] at hext
      cases hext with
      | cons hplain htake hrest =>
        obtain ⟨s', hgoes, hs'⟩ := ih (.bare _) hrest
        exact ⟨s', .cons (Line.push_statement_next (h.take hplain htake)) hgoes, hs'⟩

end Reading.Statement

end Ballad
