import Ballad.Reading.Phrase

/-!
# Words and what they do to a phrase

The vocabulary is a number of short tables, and what is needed of them is checked word by word: what
a word begins, which suffix it is, and whether it goes on with a comparison.

- `Vocabulary.Unreserved`: what all words have in common that may name a variable.
- `Vocabulary.ofWord?_connective`, `Vocabulary.ofWord?_copula`, `Vocabulary.ofWord?_negatedCopula`:
  the suffixes that the words for operators are.
- `Suffix.of?_cases`: what follows an operand depends on the mode only in that less can follow.
-/

namespace Ballad

namespace Vocabulary

variable {word : String}

theorem mem_of_lookup {α : Type} {table : List (List String × α)} {a : α}
    (h : lookup table word = some a) : ∃ row ∈ table, word ∈ row.1 ∧ row.2 = a := by
  obtain ⟨row, hfind, ha⟩ := Option.map_eq_some_iff.mp h
  have hword : word ∈ row.1 := by simpa using List.find?_some hfind
  exact ⟨row, List.mem_of_find?_eq_some hfind, hword, ha⟩

/-- Whether a word after a copula belongs to the comparison. -/
def refines (word : String) : Bool :=
  word == "not" || word == "as" || (strict word).isSome

/-- What is known of a word that is not reserved. -/
structure Unreserved (word : String) : Prop where
  article : isArticle word = false
  pronoun : isPronoun word = false
  constant : constant word = none
  suffix : Reading.Suffix.ofWord? .value word = none
  refines : refines word = false
  ne_not : word ≠ "not"
  ne_roll : word ≠ "roll"
  ne_pop : word ≠ "pop"
  copula : isCopula word = false
  quotative : isQuotative word = false
  declarative : isDeclarative word = false

theorem not_mem_statementWords (h : isReserved word = false) : word ∉ statementWords := by
  rw [isReserved, Bool.or_eq_false_iff] at h
  simpa using h.2

theorem unreserved (h : isReserved word = false) : Unreserved word := by
  have h' := h
  simp only [isReserved, Bool.or_eq_false_iff, Option.isSome_eq_false_iff,
    Option.isNone_iff_eq_none] at h'
  obtain ⟨⟨⟨⟨⟨⟨⟨harticle, hpronoun⟩, hconstant⟩, hcopula⟩, hnegated⟩, hconnective⟩, hstrict⟩, -⟩ := h'
  have hne : ∀ w ∈ statementWords, word ≠ w := by
    rintro w hw rfl
    exact not_mem_statementWords h hw
  have hnone : ∀ ws : List String, (∀ w ∈ ws, w ∈ statementWords) → ws.contains word = false := by
    intro ws hws
    rw [← Bool.not_eq_true, List.contains_iff_mem]
    exact fun hmem => hne word (hws word hmem) rfl
  refine ⟨harticle, hpronoun, hconstant, ?_, ?_, hne _ (by decide), hne _ (by decide),
    hne _ (by decide), hcopula, hnone quotatives (by decide), hnone declaratives (by decide)⟩
  · have hat : word ≠ "at" := hne _ (by decide)
    have htaking : word ≠ "taking" := hne _ (by decide)
    simp [Reading.Suffix.ofWord?, hat, htaking, hconnective, hcopula, hnegated]
  · have hnot : word ≠ "not" := hne _ (by decide)
    have has : word ≠ "as" := hne _ (by decide)
    simp [refines, hnot, has, hstrict]

/-! ### Words that begin an operand -/

theorem refines_article (h : isArticle word) : refines word = false := by
  have hall : ∀ w ∈ articles, refines w = false := by decide
  exact hall word (List.contains_iff_mem.mp h)

theorem pronoun_begins (h : isPronoun word) : isArticle word = false ∧ refines word = false := by
  have hall : ∀ w ∈ pronouns, isArticle w = false ∧ refines w = false := by decide
  exact hall word (List.contains_iff_mem.mp h)

theorem constant_begins {value : Literal} (h : constant word = some value) :
    isArticle word = false ∧ isPronoun word = false ∧ refines word = false := by
  have hall : ∀ row ∈ constants, ∀ w ∈ row.1,
      isArticle w = false ∧ isPronoun w = false ∧ refines w = false := by
    decide
  obtain ⟨row, hrow, hword, -⟩ := mem_of_lookup h
  exact hall row hrow word hword

/-! ### Words that are an operator -/

open Reading (Suffix)

theorem ofWord?_connective {op : Operator} (h : connective word = some op) :
    Suffix.ofWord? .value word = some (.binary op .settled) := by
  have hall : ∀ row ∈ connectives, ∀ w ∈ row.1, w ≠ "at" ∧ w ≠ "taking" := by decide
  obtain ⟨row, hrow, hword, -⟩ := mem_of_lookup h
  obtain ⟨hat, htaking⟩ := hall row hrow word hword
  simp [Suffix.ofWord?, hat, htaking, h]

theorem ofWord?_copula (h : isCopula word) :
    Suffix.ofWord? .value word = some (.binary .equal .copula) := by
  have hall : ∀ w ∈ copulas, w ≠ "at" ∧ w ≠ "taking" ∧ connective w = none := by decide
  obtain ⟨hat, htaking, hconnective⟩ := hall word (List.contains_iff_mem.mp h)
  simp [Suffix.ofWord?, hat, htaking, hconnective, h]

theorem ofWord?_negatedCopula (h : isNegatedCopula word) :
    Suffix.ofWord? .value word = some (.binary .notEqual .settled) := by
  have hall : ∀ w ∈ negatedCopulas,
      w ≠ "at" ∧ w ≠ "taking" ∧ connective w = none ∧ isCopula w = false := by
    decide
  obtain ⟨hat, htaking, hconnective, hcopula⟩ := hall word (List.contains_iff_mem.mp h)
  simp [Suffix.ofWord?, hat, htaking, hconnective, hcopula, h]

theorem ne_of_strict {op : Operator} (h : strict word = some op) : word ≠ "not" ∧ word ≠ "as" := by
  have hall : ∀ row ∈ comparatives, ∀ w ∈ row.1, w ≠ "not" ∧ w ≠ "as" := by decide
  obtain ⟨row, hrow, hword, -⟩ := mem_of_lookup h
  exact hall row hrow word hword

/-- A comparison is read as a test for equality first, which binds as tightly. -/
theorem rank_strict {op : Operator} (h : strict word = some op) :
    op.rank = Operator.equal.rank := by
  have hall : ∀ row ∈ comparatives, row.2.rank = Operator.equal.rank := by decide
  obtain ⟨row, hrow, -, rfl⟩ := mem_of_lookup h
  exact hall row hrow

theorem rank_inclusive {op : Operator} (h : inclusive word = some op) :
    op.rank = Operator.equal.rank := by
  have hall : ∀ row ∈ positives, row.2.rank = Operator.equal.rank := by decide
  obtain ⟨row, hrow, -, rfl⟩ := mem_of_lookup h
  exact hall row hrow

end Vocabulary

theorem Lexeme.kind_of_word {l : Lexeme} {word : String} (h : l.word = some word) :
    l.kind = .identifier ∧ Text.lowercase l.literal = word := by
  unfold Lexeme.word at h
  by_cases hk : l.kind = .identifier
  · rw [if_pos hk] at h
    exact ⟨hk, Option.some.inj h⟩
  · rw [if_neg hk] at h
    exact absurd h (Option.some_ne_none word).symm

/-! ### Suffixes -/

namespace Reading.Suffix

variable {mode : Mode} {l : Lexeme}

/-- Only indexing follows an operand that is not a value. -/
theorem of?_cases {suffix : Suffix} (h : of? mode l = some suffix) :
    suffix = .index ∧ l.word = some "at" ∨ mode = .value := by
  obtain ⟨word, hword, h⟩ := Option.bind_eq_some_iff.mp h
  unfold ofWord? at h
  split at h
  · rename_i hat
    exact .inl ⟨(Option.some.inj h).symm, hat ▸ hword⟩
  · right
    by_cases hmode : mode = .value
    · exact hmode
    · rw [if_pos hmode] at h
      exact absurd h (by simp)

theorem of?_at (h : l.word = some "at") (mode : Mode) : of? mode l = some .index := by
  rw [of?, h]
  rfl

/-- What follows an operand that is not a value follows a value too. -/
theorem of?_value {suffix : Suffix} (h : of? mode l = some suffix) :
    of? .value l = some suffix := by
  rcases of?_cases h with ⟨rfl, hat⟩ | rfl
  · exact of?_at hat .value
  · exact h

/-- What follows no value follows nothing else. -/
theorem of?_eq_none_of_value (h : of? .value l = none) (mode : Mode) : of? mode l = none := by
  cases hs : of? mode l with
  | none => rfl
  | some s => exact absurd ((of?_value hs).symm.trans h) (Option.some_ne_none _)

end Reading.Suffix

end Ballad
