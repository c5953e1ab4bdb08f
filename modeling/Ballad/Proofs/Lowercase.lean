import Ballad.Proofs.Naming

/-!
# Lower case is settled

The lower-case form of a text has no lower-case form other than itself, and no blanks that were not
there before. Both come down to the case table, in which thousands of characters stand in a few runs:
no run of lower-case forms meets a run of characters that have one, and this is seen from where the
runs begin, where they end and which parity they keep to.

- `Run`: a run of characters. `Run.apart`: whether two runs can be seen to be disjoint.
- `capitalRuns`, `lowerRuns`: the characters that have a lower-case form, and these forms. `runs`: the
  characters of a table of ranges.
- `isLowered`: the characters that are their own lower-case form.
- `lower_lower`, `not_isBlank_lower`: the two facts about texts.
-/

namespace Ballad.Text

/-! ### Runs of characters -/

/-- A run of characters: the first, the last, and the step from one to the next. -/
abbrev Run := Nat × Nat × Nat

namespace Run

/-- Whether a code point belongs to a run. -/
def has (r : Run) (code : Nat) : Bool :=
  inRow r.1 r.2.1 r.2.2 code

/-- Whether the code points of a run are seen to be all even or all odd. -/
def keepsParity (r : Run) : Bool :=
  r.2.2 == 2 || r.1 == r.2.1

/-- Whether two runs are seen to be disjoint: one ends before the other begins, or one has the even and
the other the odd code points. -/
def apart (r t : Run) : Bool :=
  Nat.blt r.2.1 t.1 || Nat.blt t.2.1 r.1 ||
    (r.keepsParity && t.keepsParity && (r.1 + t.1) % 2 == 1)

theorem has_iff {r : Run} {code : Nat} :
    r.has code ↔ r.1 ≤ code ∧ code ≤ r.2.1 ∧ (code - r.1) % r.2.2 = 0 := by
  simp [has, inRow, and_assoc]

/-- The code points of a run that keeps its parity have that of the first. -/
theorem parity_of_has {r : Run} (hparity : r.keepsParity) {code : Nat} (h : r.has code) :
    (code - r.1) % 2 = 0 := by
  obtain ⟨hfirst, hlast, hstep⟩ := has_iff.mp h
  rcases Bool.or_eq_true_iff.mp hparity with htwo | hone
  · rwa [eq_of_beq htwo] at hstep
  · have := eq_of_beq hone
    omega

theorem not_has_of_apart {r t : Run} (hapart : r.apart t) {code : Nat} (h : r.has code) :
    t.has code = false := by
  rw [← Bool.not_eq_true]
  intro ht
  obtain ⟨hfirst, hlast, -⟩ := has_iff.mp h
  obtain ⟨hfirst', hlast', -⟩ := has_iff.mp ht
  simp only [apart, Bool.or_eq_true, Bool.and_eq_true, beq_iff_eq, Nat.blt_eq] at hapart
  obtain (hbefore | hafter) | ⟨⟨hr, ht'⟩, hodd⟩ := hapart
  · omega
  · omega
  · have hparity := parity_of_has hr h
    have hparity' := parity_of_has ht' ht
    omega

end Run

/-! ### The runs of the case table -/

/-- The characters that have a lower-case form other than themselves. -/
def capitalRuns : List Run :=
  (0x41, 0x5A, 1) :: (0x130, 0x130, 1) ::
    lowerRows.toList.map fun (first, last, step, _) => (first, last, step)

/-- The runs of a table of ranges. -/
def runs (ranges : Array (Nat × Nat)) : List Run :=
  ranges.toList.map fun (first, last) => (first, last, 1)

/-- The lower-case forms of the characters beyond ASCII. -/
def lowerRuns : List Run :=
  lowerRows.toList.map fun (first, last, step, distance) =>
    ((first + distance).toNat, (last + distance).toNat, step)

theorem lowerRuns_apart : lowerRuns.all fun r => (capitalRuns ++ runs blankRanges).all r.apart := by
  decide +kernel

/-- No row of the table leads out of the code points of characters. -/
theorem lowerRows_valid : ∀ row ∈ lowerRows.toList,
    0 ≤ row.1 + row.2.2.2 ∧ (row.2.1 + row.2.2.2 < 0xD800 ∨
      0xE000 ≤ row.1 + row.2.2.2 ∧ row.2.1 + row.2.2.2 < 0x110000) := by
  decide +kernel

/-- Whether a character is its own lower-case form. -/
def isLowered (c : Char) : Bool :=
  capitalRuns.all fun r => !r.has c.toNat

theorem isLowered_iff {c : Char} : isLowered c ↔ ∀ r ∈ capitalRuns, r.has c.toNat = false := by
  simp [isLowered]

theorem inRanges_eq (ranges : Array (Nat × Nat)) (c : Char) :
    inRanges ranges c = (runs ranges).any fun r => r.has c.toNat := by
  rw [Bool.eq_iff_iff]
  simp [inRanges, runs, Run.has_iff, Nat.mod_one]

/-- What belongs to a run that is apart from others belongs to none of these. -/
theorem not_has_of_all_apart {r : Run} {ts : List Run} (hapart : ts.all r.apart) {code : Nat}
    (h : r.has code) : ∀ t ∈ ts, t.has code = false := fun t ht =>
  Run.not_has_of_apart (List.all_eq_true.mp hapart t ht) h

/-- What a row of the table makes of a character is lower case and no blank. -/
theorem lowered_of_row {first last step code : Nat} {distance : Int}
    (hrow : (first, last, step, distance) ∈ lowerRows) (hcode : inRow first last step code) :
    isLowered (Char.ofNat (code + distance).toNat) ∧
      isBlank (Char.ofNat (code + distance).toNat) = false := by
  have hmem := Array.mem_toList_iff.mpr hrow
  have hvalid : 0 ≤ first + distance ∧ (last + distance < 0xD800 ∨
      0xE000 ≤ first + distance ∧ last + distance < 0x110000) := lowerRows_valid _ hmem
  have hhas : Run.has (first, last, step) code := hcode
  obtain ⟨hfirst, hlast, hstep⟩ : first ≤ code ∧ code ≤ last ∧ (code - first) % step = 0 :=
    Run.has_iff.mp hhas
  have hchar : (Char.ofNat (code + distance).toNat).toNat = (code + distance).toNat := by
    have hcode : (code + distance).toNat.isValidChar := by
      unfold Nat.isValidChar
      omega
    rw [Char.ofNat, dif_pos hcode]
    rfl
  have himage : Run.has ((first + distance).toNat, (last + distance).toNat, step)
      (code + distance).toNat := by
    have hshift : (code + distance).toNat - (first + distance).toNat = code - first := by omega
    refine Run.has_iff.mpr ⟨Int.toNat_le_toNat (by omega), Int.toNat_le_toNat (by omega), ?_⟩
    exact (congrArg (· % step) hshift).trans hstep
  have hapart := List.all_eq_true.mp lowerRuns_apart _ (List.mem_map.mpr ⟨_, hmem, rfl⟩)
  have hnone := not_has_of_all_apart hapart himage
  rw [isLowered_iff, isBlank, inRanges_eq, hchar, List.any_eq_false]
  exact ⟨fun t ht => hnone t (List.mem_append_left _ ht),
    fun t ht => Bool.eq_false_iff.mp (hnone t (List.mem_append_right _ ht))⟩

/-! ### Characters -/

/-- What is left of ASCII in lower case. -/
def asciiRuns : List Run :=
  [(0, 0x40, 1), (0x5B, 0x7F, 1)]

theorem asciiRuns_apart : asciiRuns.all fun r => capitalRuns.all r.apart := by
  decide +kernel

theorem toLower_ascii : ∀ code < 128,
    (asciiRuns.any fun r => r.has (Char.ofNat code).toLower.toNat) ∧
    (Run.has (0x41, 0x5A, 1) code = false → (Char.ofNat code).toLower = Char.ofNat code) ∧
    (isBlank (Char.ofNat code).toLower → isBlank (Char.ofNat code)) := by
  decide +kernel

/-- A character that is its own lower-case form stays as it is. -/
theorem lowerChar_of_isLowered {c : Char} (h : isLowered c) : lowerChar c = [c] := by
  have hruns := isLowered_iff.mp h
  unfold lowerChar
  split
  · rename_i hascii
    have hsame := (toLower_ascii c.toNat hascii).2.1 (hruns _ List.mem_cons_self)
    rw [Char.ofNat_toNat] at hsame
    rw [hsame]
  · split
    · rename_i hdotted
      subst hdotted
      exact absurd h (by decide +kernel)
    · have hnone : ∀ row ∈ lowerRows, ¬ inRow row.1 row.2.1 row.2.2.1 c.toNat := by
        intro row hrow hhas
        have hrun : (row.1, row.2.1, row.2.2.1) ∈ capitalRuns :=
          List.mem_cons_of_mem _ (List.mem_cons_of_mem _
            (List.mem_map.mpr ⟨row, Array.mem_toList_iff.mpr hrow, rfl⟩))
        exact Bool.eq_false_iff.mp (hruns _ hrun) hhas
      unfold lowerBeyond
      rw [Array.find?_eq_none.mpr hnone]

theorem ne_sigma_of_isLowered {c : Char} (h : isLowered c) : c ≠ 'Σ' := by
  rintro rfl
  exact absurd h (by decide +kernel)

/-- The lower-case form of an ASCII character. -/
theorem lowered_toLower {c : Char} (hascii : c.toNat < 128) :
    isLowered c.toLower ∧ (isBlank c.toLower → isBlank c) := by
  obtain ⟨hruns, -, hblank⟩ := toLower_ascii c.toNat hascii
  rw [Char.ofNat_toNat] at hruns hblank
  obtain ⟨r, hr, hhas⟩ := List.any_eq_true.mp hruns
  have hapart := List.all_eq_true.mp asciiRuns_apart r hr
  exact ⟨isLowered_iff.mpr (not_has_of_all_apart hapart hhas), hblank⟩

/-- The lower-case form of a character beyond ASCII that is not the dotted capital I. -/
theorem lowered_lowerBeyond {c : Char} (hascii : ¬ c.toNat < 128) (hdotted : c ≠ 'İ') :
    isLowered (lowerBeyond c) ∧ (isBlank (lowerBeyond c) → isBlank c) := by
  unfold lowerBeyond
  split
  · rename_i first last step distance hfind
    have hrow : (first, last, step, distance) ∈ lowerRows := Array.mem_of_find?_eq_some hfind
    have hcode := Array.find?_some hfind
    obtain ⟨hlowered, hblank⟩ := lowered_of_row hrow hcode
    exact ⟨hlowered, fun h => absurd h (Bool.eq_false_iff.mp hblank)⟩
  · rename_i hfind
    refine ⟨isLowered_iff.mpr fun r hr => ?_, id⟩
    rw [← Bool.not_eq_true]
    intro hhas
    -- the run would have to be one of the table
    rcases List.mem_cons.mp hr with rfl | hr
    · obtain ⟨-, hlast, -⟩ := Run.has_iff.mp hhas
      exact hascii (Nat.lt_of_le_of_lt hlast (by decide))
    · rcases List.mem_cons.mp hr with rfl | hr
      · obtain ⟨hfirst, hlast, -⟩ := Run.has_iff.mp hhas
        refine hdotted (Char.toNat_inj.mp ?_)
        exact Nat.le_antisymm hlast hfirst
      · obtain ⟨row, hrow, rfl⟩ := List.mem_map.mp hr
        exact Array.find?_eq_none.mp hfind row (Array.mem_toList_iff.mp hrow) hhas

theorem lowered_of_mem_lowerChar {c d : Char} (h : d ∈ lowerChar c) :
    isLowered d ∧ (isBlank d → isBlank c) := by
  unfold lowerChar at h
  split at h
  · rename_i hascii
    rw [List.mem_singleton.mp h]
    exact lowered_toLower hascii
  · split at h
    · -- the two characters of the dotted capital I
      have hboth : ∀ d ∈ ['i', '̇'], isLowered d ∧ (isBlank d → isBlank c) := by
        refine List.forall_mem_cons.mpr ⟨?_, List.forall_mem_singleton.mpr ?_⟩
        · exact ⟨by decide +kernel, fun h => absurd h (by decide +kernel)⟩
        · exact ⟨by decide +kernel, fun h => absurd h (by decide +kernel)⟩
      exact hboth d h
    · rename_i hascii hdotted
      rw [List.mem_singleton.mp h]
      exact lowered_lowerBeyond hascii hdotted

/-! ### Texts -/

theorem lowered_of_mem_lower {cs : List Char} {after : Bool} {d : Char} (h : d ∈ lower after cs) :
    isLowered d ∧ (isBlank d → ∃ c ∈ cs, isBlank c) := by
  induction cs generalizing after with
  | nil => exact absurd h List.not_mem_nil
  | cons c rest ih =>
    have hrest : ∀ {after : Bool}, d ∈ lower after rest →
        isLowered d ∧ (isBlank d → ∃ x ∈ c :: rest, isBlank x) := by
      intro after hd
      obtain ⟨hlowered, hblank⟩ := ih hd
      refine ⟨hlowered, fun hd => ?_⟩
      obtain ⟨x, hx, hxblank⟩ := hblank hd
      exact ⟨x, List.mem_cons_of_mem c hx, hxblank⟩
    rw [lower] at h
    split at h
    · rcases List.mem_cons.mp h with rfl | hd
      · split
        · exact ⟨by decide +kernel, fun hblank => absurd hblank (by decide +kernel)⟩
        · exact ⟨by decide +kernel, fun hblank => absurd hblank (by decide +kernel)⟩
      · exact hrest hd
    · rcases List.mem_append.mp h with hd | hd
      · obtain ⟨hlowered, hblank⟩ := lowered_of_mem_lowerChar hd
        exact ⟨hlowered, fun hd => ⟨c, List.mem_cons_self, hblank hd⟩⟩
      · exact hrest hd

/-- A text of characters that are their own lower-case form stays as it is, wherever it stands. -/
theorem lower_of_forall_isLowered {cs : List Char} (h : ∀ c ∈ cs, isLowered c) (after : Bool) :
    lower after cs = cs := by
  induction cs generalizing after with
  | nil => rfl
  | cons c rest ih =>
    obtain ⟨hc, hrest⟩ := List.forall_mem_cons.mp h
    rw [lower, if_neg (ne_sigma_of_isLowered hc), lowerChar_of_isLowered hc, ih hrest]
    rfl

/-- **Lower case is settled.** -/
theorem lower_lower (after after' : Bool) (cs : List Char) :
    lower after' (lower after cs) = lower after cs :=
  lower_of_forall_isLowered (fun _ hc => (lowered_of_mem_lower hc).1) after'

/-- Words stay words. -/
theorem not_isBlank_lower {cs : List Char} (h : ∀ c ∈ cs, isBlank c = false) (after : Bool) :
    ∀ c ∈ lower after cs, isBlank c = false := by
  intro c hc
  rw [← Bool.not_eq_true]
  intro hblank
  obtain ⟨x, hx, hxblank⟩ := (lowered_of_mem_lower hc).2 hblank
  exact Bool.eq_false_iff.mp (h x hx) hxblank

end Ballad.Text
