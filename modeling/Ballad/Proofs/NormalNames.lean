import Ballad.Proofs.Fragments
import Ballad.Proofs.Lowercase
import Ballad.Proofs.WellFormed

/-!
# Names are in normal form

However a name is written, and in whichever of its ways the reader puts it together, what stands in the
trees is its normal form: words in lower case, with single blanks between them.

- `Text.IsWord`: a text with no blank in it. `Text.words_intercalate`: words with single blanks between
  them are found again.
- `Name.Normal`: a name in normal form, said without normalisation. `Name.normal_iff`: these are the
  names that normalisation leaves as they are.
- `Name.Made.normal`: names that are made of words are in normal form.
- `Lexeme.isWord_split`: the words that the reader gets have no blanks in them.
- `Program.everywhere_normal`: all names in the trees of a source are in normal form.
-/

namespace Ballad

namespace Text

/-! ### Words -/

/-- A text that is not empty, with no blank in it. -/
def IsWord (cs : List Char) : Prop :=
  cs ≠ [] ∧ ∀ c ∈ cs, isBlank c = false

theorem IsWord.lower {cs : List Char} (h : IsWord cs) (after : Bool) : IsWord (lower after cs) :=
  ⟨lower_ne_nil h.1 after, not_isBlank_lower h.2 after⟩

/-- A word is collected as a whole. -/
theorem wordsFrom_append {w : List Char} (h : ∀ c ∈ w, isBlank c = false) (run rest : List Char) :
    wordsFrom run (w ++ rest) = wordsFrom (w.reverse ++ run) rest := by
  induction w generalizing run with
  | nil => rfl
  | cons c w ih =>
    obtain ⟨hc, hw⟩ := List.forall_mem_cons.mp h
    rw [List.cons_append, wordsFrom, if_neg (Bool.eq_false_iff.mp hc), ih hw, List.reverse_cons,
      List.append_assoc]
    rfl

/-- Words with single blanks between them are found again. -/
theorem words_intercalate {ws : List (List Char)} (h : ∀ w ∈ ws, IsWord w) :
    words ([' '].intercalate ws) = ws := by
  induction ws with
  | nil => rfl
  | cons w rest ih =>
    obtain ⟨⟨hne, hw⟩, hrest⟩ := List.forall_mem_cons.mp h
    have hrun : ¬ (w.reverse ++ []).isEmpty := by simpa using hne
    cases rest with
    | nil =>
      have hlast := wordsFrom_append hw [] []
      rw [wordsFrom, if_neg hrun] at hlast
      simpa [words] using hlast
    | cons v vs =>
      have hblank : isBlank ' ' := by decide +kernel
      rw [words, List.intercalate_cons_cons, List.append_assoc, wordsFrom_append hw,
        List.singleton_append, wordsFrom, if_pos hblank, if_neg hrun]
      simpa [words] using ih hrest

theorem isWord_of_mem_wordsFrom {run cs w : List Char} (hrun : ∀ c ∈ run, isBlank c = false)
    (h : w ∈ wordsFrom run cs) : IsWord w := by
  refine ⟨ne_nil_of_mem_wordsFrom h, ?_⟩
  have hreverse : ∀ {run : List Char}, (∀ c ∈ run, isBlank c = false) →
      ∀ c ∈ run.reverse, isBlank c = false := fun hrun c hc => hrun c (List.mem_reverse.mp hc)
  induction cs generalizing run with
  | nil =>
    rw [wordsFrom] at h
    split at h
    · exact absurd h List.not_mem_nil
    · rw [List.mem_singleton.mp h]
      exact hreverse hrun
  | cons c rest ih =>
    rw [wordsFrom] at h
    split at h
    · split at h
      · exact ih (List.forall_mem_nil _) h
      · rcases List.mem_cons.mp h with rfl | h
        · exact hreverse hrun
        · exact ih (List.forall_mem_nil _) h
    · rename_i hc
      exact ih (List.forall_mem_cons.mpr ⟨Bool.eq_false_iff.mpr hc, hrun⟩) h

theorem isWord_of_mem_words {cs w : List Char} (h : w ∈ words cs) : IsWord w :=
  isWord_of_mem_wordsFrom (List.forall_mem_nil _) h

end Text

namespace Name

open Text

/-! ### The normal form -/

/-- A name in normal form: words in lower case, with single blanks between them. -/
def Normal (name : String) : Prop :=
  ∃ ws : List (List Char), (∀ w ∈ ws, IsWord w ∧ lower false w = w) ∧
    name = String.ofList ([' '].intercalate ws)

/-- Any words in lower case make a name in normal form. -/
theorem normal_lower {ws : List (List Char)} (h : ∀ w ∈ ws, IsWord w) :
    Normal (String.ofList ([' '].intercalate (ws.map (lower false)))) := by
  refine ⟨ws.map (lower false), fun w hw => ?_, rfl⟩
  obtain ⟨v, hv, rfl⟩ := List.mem_map.mp hw
  exact ⟨(h v hv).lower false, lower_lower false false v⟩

theorem normal_normalize (name : String) : Normal (normalize name) :=
  normal_lower fun _ hw => isWord_of_mem_words hw

/-- **The names in normal form are those that normalisation leaves as they are.** -/
theorem normal_iff {name : String} : Normal name ↔ normalize name = name := by
  constructor
  · rintro ⟨ws, hws, rfl⟩
    have hsame : ws.map (lower false) = ws :=
      (List.map_congr_left fun w hw => (hws w hw).2).trans (List.map_id ws)
    rw [normalize, lowerWords, String.toList_ofList, words_intercalate fun w hw => (hws w hw).1, hsame]
  · intro h
    rw [← h]
    exact normal_normalize name

/-- Names that are made of words are in normal form. -/
theorem Made.normal {word : String → Prop} {name : String} (h : Made word name)
    (hword : ∀ w, word w → IsWord w.toList) : Normal name := by
  cases h with
  | @simple w h =>
    have hnormal := normal_lower (List.forall_mem_singleton.mpr (hword w h))
    rwa [List.map_singleton, List.intercalate_singleton] at hnormal
  | @common article noun harticle hnoun =>
    have hnormal := normal_lower (List.forall_mem_cons.mpr
      ⟨hword article harticle, List.forall_mem_singleton.mpr (hword noun hnoun)⟩)
    rw [List.map_cons, List.map_singleton, List.intercalate_cons_cons, List.intercalate_singleton,
      String.ofList_append, String.ofList_append] at hnormal
    exact hnormal
  | @proper text _ => exact normal_normalize text

end Name

/-! ### The words of a source -/

namespace Text

theorem letterRanges_apart :
    (runs blankRanges).all fun r => (runs letterRanges).all r.apart := by
  decide +kernel

theorem not_isBlank_ascii : ∀ code < 128,
    (Char.ofNat code).isAlpha → isBlank (Char.ofNat code) = false := by
  decide +kernel

theorem not_isBlank_of_isLetter {c : Char} (h : isLetter c) : isBlank c = false := by
  unfold isLetter at h
  split at h
  · rename_i hascii
    have hblank := not_isBlank_ascii c.toNat hascii
    rw [Char.ofNat_toNat] at hblank
    exact hblank h
  · rw [inRanges_eq] at h
    obtain ⟨t, ht, hletter⟩ := List.any_eq_true.mp h
    rw [isBlank, inRanges_eq, List.any_eq_false]
    intro r hr hblank
    have hapart := List.all_eq_true.mp letterRanges_apart r hr
    exact Bool.eq_false_iff.mp (not_has_of_all_apart hapart hblank t ht) hletter

end Text

namespace Piece

/-- What belongs to a word has no blanks in it. -/
theorem not_isBlank_of_mem_cut {cs : List Char} {p : Piece} (hp : p ∈ cut cs)
    (hword : p.isWordPart) : ∀ c ∈ p.text, Text.isBlank c = false := by
  obtain ⟨c, rest, hc, hrest, rfl⟩ := exists_of_mem_cut hp hword
  refine List.forall_mem_cons.mpr ⟨?_, fun d hd => Text.not_isBlank_of_isLetter (hrest d hd)⟩
  rcases hc with rfl | hc
  · decide +kernel
  · exact Text.not_isBlank_of_isLetter hc

end Piece

namespace Lexeme

/-- A lexeme that belongs to a word has no blanks in it. -/
def Solid (l : Lexeme) : Prop :=
  l.kind = .identifier ∨ l.kind = .contraction → ∀ c ∈ l.literal.toList, Text.isBlank c = false

theorem solid_scan (source : String) : ∀ l ∈ scan source, l.Solid := by
  intro l hl hkind
  have hplain : l.kind ≠ .endOfInput ∧ l.kind ≠ .whitespace ∧ l.kind ≠ .string := by
    rcases hkind with hk | hk <;> simp [hk]
  obtain ⟨p, hp, hk, hliteral⟩ := exists_of_mem_scan hl hplain
  rw [← hk] at hkind
  rw [hliteral]
  exact Piece.not_isBlank_of_mem_cut hp (by simpa [Piece.isWordPart] using hkind)

theorem solid_attach {word contraction : Lexeme} (hword : word.Solid) (hcontraction : contraction.Solid)
    (hkind : word.kind = .identifier) (hkind' : contraction.kind = .contraction) :
    (word.attach contraction).Solid := by
  intro _ c hc
  rw [attach, String.toList_append] at hc
  rcases List.mem_append.mp hc with hc | hc
  · exact hword (.inl hkind) c hc
  · exact hcontraction (.inr hkind') c hc

theorem solid_settle {l : Lexeme} (h : l.Solid) : l.settle.Solid := by
  unfold settle
  split
  · rename_i hkind
    exact fun _ => h (.inr hkind)
  · exact h

/-- The words that a program is read from have no blanks in them. -/
theorem isWord_split (source : String) : ∀ l ∈ (lex source).flatMap splitCopula,
    l.kind = .identifier → Text.IsWord l.literal.toList := by
  intro l hl hkind
  have hne : l.literal.toList ≠ [] := by
    simpa using (written_split source l hl).literal_ne hkind
  refine ⟨hne, ?_⟩
  obtain ⟨m, hm, hlm⟩ := List.mem_flatMap.mp hl
  have hsolid : m.Solid :=
    forall_contract (fun _ _ => solid_attach) (fun _ => solid_settle) _ (solid_scan source) m hm
  rcases splitCopula_cases m with hsplit | ⟨hk, stem, copula, htext, -, -, hsplit⟩
  · rw [hsplit, List.mem_singleton] at hlm
    rw [hlm] at hkind ⊢
    exact hsolid (.inl hkind)
  · -- both words are parts of the one that they are taken from
    have hwhole := hsolid (.inl hk)
    rw [htext] at hwhole
    have hpart : ∀ text start stop, (∀ c ∈ text, c ∈ stem ++ copula) → l = wordAt text start stop →
        ∀ c ∈ l.literal.toList, Text.isBlank c = false := by
      rintro text start stop hmem rfl c hc
      rw [wordAt, String.toList_ofList] at hc
      exact hwhole c (hmem c hc)
    rw [hsplit] at hlm
    rcases List.mem_pair.mp hlm with hl | hl
    · exact hpart _ _ _ (fun c hc => List.mem_append_left _ hc) hl
    · exact hpart _ _ _ (fun c hc => List.mem_append_right _ hc) hl

end Lexeme

/-- **All names in the trees of a source are in normal form.** -/
theorem Program.everywhere_normal (source : String) :
    ∀ root ∈ (Program.parse source).nodes, root.Everywhere (Node.Spelled Name.Normal) := by
  intro root hroot
  have hsound : root.Everywhere (Node.Sound (.any fun w => Text.IsWord w.toList)) :=
    Program.everywhere_sound_words (Lexeme.isWord_split source) root hroot
  exact hsound.imp fun n hn => hn.spelled.imp fun name hname => hname.normal fun _ hw => hw

end Ballad
