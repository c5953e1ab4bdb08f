import Ballad.Name

/-!
# Names are not empty

A word has a letter, its lower-case form has one too, and so has every name that is made of it.

- `Text.lower_ne_nil`: the lower-case form of a text is empty only if the text is.
- `Name.normalize_ne_empty`: the normal form of a name with a character that is not blank.
- `Text.not_isBlank_of_isUpper`: a capital letter is such a character.
- `Name.Made`: the names that are made of words, in one way or another.
-/

namespace Ballad

namespace Text

theorem lowerChar_ne_nil (c : Char) : lowerChar c ≠ [] := by
  unfold lowerChar
  repeat' split
  all_goals simp

theorem lower_ne_nil {cs : List Char} (h : cs ≠ []) (after : Bool) : lower after cs ≠ [] := by
  cases cs with
  | nil => exact absurd rfl h
  | cons c rest =>
    rw [lower]
    split
    · exact List.cons_ne_nil _ _
    · exact List.append_ne_nil_of_left_ne_nil (lowerChar_ne_nil c) _

theorem lowercase_ne_empty {s : String} (h : s ≠ "") : lowercase s ≠ "" := by
  have hs : s.toList ≠ [] := by simpa using h
  intro hlow
  have : (lowercase s).toList = [] := by rw [hlow]; rfl
  rw [lowercase, String.toList_ofList] at this
  exact lower_ne_nil hs false this

/-! ### Words -/

theorem wordsFrom_ne_nil {run cs : List Char} (h : run ≠ [] ∨ ∃ c ∈ cs, isBlank c = false) :
    wordsFrom run cs ≠ [] := by
  induction cs generalizing run with
  | nil =>
    have hrun : run ≠ [] := by simpa using h
    simp [wordsFrom, hrun]
  | cons c rest ih =>
    rw [wordsFrom]
    by_cases hc : isBlank c = true
    · rw [if_pos hc]
      by_cases hrun : run.isEmpty = true
      · rw [if_pos hrun]
        apply ih
        right
        obtain ⟨d, hd, hblank⟩ := h.resolve_left (by simpa using hrun)
        rcases List.mem_cons.mp hd with rfl | hd
        · exact absurd (hc.symm.trans hblank) (by decide)
        · exact ⟨d, hd, hblank⟩
      · rw [if_neg hrun]
        exact List.cons_ne_nil _ _
    · rw [if_neg hc]
      exact ih (.inl (List.cons_ne_nil _ _))

/-- Words are not empty. -/
theorem ne_nil_of_mem_wordsFrom {run cs w : List Char} (h : w ∈ wordsFrom run cs) : w ≠ [] := by
  induction cs generalizing run with
  | nil =>
    rw [wordsFrom] at h
    split at h
    · exact absurd h List.not_mem_nil
    · rename_i hrun
      rw [List.mem_singleton.mp h]
      simpa using hrun
  | cons c rest ih =>
    rw [wordsFrom] at h
    split at h
    · split at h
      · exact ih h
      · rename_i hrun
        rcases List.mem_cons.mp h with rfl | h
        · simpa using hrun
        · exact ih h
    · exact ih h

/-! ### Capital letters -/

/-- The code points of a table of ranges, one by one. -/
def codes (ranges : Array (Nat × Nat)) : List Nat :=
  ranges.toList.flatMap fun range => List.range' range.1 (range.2 + 1 - range.1)

theorem toNat_mem_codes {ranges : Array (Nat × Nat)} {c : Char} (h : inRanges ranges c) :
    c.toNat ∈ codes ranges := by
  obtain ⟨⟨first, last⟩, hmem, hc⟩ := Array.any_eq_true'.mp h
  have hc : first ≤ c.toNat ∧ c.toNat ≤ last := by simpa using hc
  refine List.mem_flatMap.mpr ⟨(first, last), Array.mem_toList_iff.mpr hmem, ?_⟩
  rw [List.mem_range'_1]
  omega

theorem not_isUpper_blanks : ∀ code ∈ codes blankRanges, isUpper (Char.ofNat code) = false := by
  decide +kernel

/-- A capital letter is no blank: there are few enough blanks to look at them one by one. -/
theorem not_isBlank_of_isUpper {c : Char} (h : isUpper c) : isBlank c = false := by
  rw [← Bool.not_eq_true]
  intro hblank
  have hlower := not_isUpper_blanks c.toNat (toNat_mem_codes hblank)
  rw [Char.ofNat_toNat] at hlower
  exact absurd (h.symm.trans hlower) (by decide)

end Text

namespace Name

open Text

/-- A name with a character that is not blank has a normal form with at least one character. -/
theorem normalize_ne_empty {name : String} (h : ∃ c ∈ name.toList, isBlank c = false) :
    normalize name ≠ "" := by
  have hwords : words name.toList ≠ [] := wordsFrom_ne_nil (.inr h)
  obtain ⟨w, ws, hws⟩ := List.exists_cons_of_ne_nil hwords
  have hw : w ≠ [] := ne_nil_of_mem_wordsFrom (hws ▸ List.mem_cons_self : w ∈ words name.toList)
  have hlow : lowerWords name = lower false w :: ws.map (lower false) := by
    rw [lowerWords, hws, List.map_cons]
  intro hempty
  have hnil : [' '].intercalate (lowerWords name) = [] := by
    simpa [normalize] using hempty
  rw [hlow] at hnil
  cases ws with
  | nil =>
    rw [List.map_nil, List.intercalate_singleton] at hnil
    exact lower_ne_nil hw false hnil
  | cons v vs =>
    rw [List.map_cons, List.intercalate_cons_cons, List.append_assoc] at hnil
    exact lower_ne_nil hw false (List.append_eq_nil_iff.mp hnil).1

/-- The names that are made of words of some kind: a word, a word after an article or the like, and a
proper noun, which is put together as it is written and has some character that is not blank. -/
inductive Made (word : String → Prop) : String → Prop where
  | simple {w : String} (h : word w) : Made word (lowercase w)
  | common {article noun : String} (harticle : word article) (hnoun : word noun) :
    Made word (lowercase article ++ " " ++ lowercase noun)
  | proper {text : String} (h : ∃ c ∈ text.toList, isBlank c = false) : Made word (normalize text)

theorem Made.ne_empty {word : String → Prop} {name : String} (h : Made word name)
    (hword : ∀ w, word w → w ≠ "") : name ≠ "" := by
  cases h with
  | simple h => exact lowercase_ne_empty (hword _ h)
  | common =>
    intro hempty
    have := congrArg String.toList hempty
    simp at this
  | proper h => exact normalize_ne_empty h

end Name

end Ballad
