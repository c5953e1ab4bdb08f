import Ballad.Lexeme.Contraction
import Mathlib.Data.List.Chain

/-!
# Lexemes tile the source

No stage on the way from a source to the lexemes that statements are read from loses, adds or moves
a character.

- `Lexeme.Contiguous`: lexemes that stand one after another from a position on.
- `Lexeme.Terminated`: how a stream of lexemes ends.
- `Lexeme.Tiled`: the lexemes of a source, all of it and nothing else.
- `Lexeme.Written`: what holds of each lexeme on its own, and is needed to take a copula off again.

Every stage is followed with three invariants, each of them a recursion over the stream: the source
text, `Contiguous`, and `Closed`. The last one knows whether the line before the stream is ended, as
the scanner does, and gives `Terminated` for a stream with nothing before it.
-/

namespace Ballad

namespace Lexeme

/-- The characters of a stream of lexemes. -/
def characters (ls : List Lexeme) : List Char :=
  ls.flatMap fun l => l.source.toList

/-- Lexemes that stand one after another from a position on: each starts where the one before it
ends, and ends where its source text leads to. -/
def Contiguous : Position → List Lexeme → Prop
  | _, [] => True
  | p, l :: ls => l.span = Span.ofText p l.source.toList ∧ Contiguous l.span.stop ls

/-- How a stream of lexemes ends. -/
structure Terminated (ls : List Lexeme) : Prop where
  /-- The last lexeme ends a line. -/
  newline_last : ∃ l, ls.getLast? = some l ∧ l.isNewline
  /-- The end of the input is nowhere but last, so that there is at most one. -/
  end_last : ∀ l ∈ ls.dropLast, l.kind ≠ .endOfInput
  /-- It is there exactly if the lexeme in front of it, if there is any, ends no line. -/
  end_iff : (∃ l ∈ ls, l.kind = .endOfInput) ↔
    ∀ l, (ls.filter (·.kind ≠ .endOfInput)).getLast? = some l → l.isNewline = false

/-- The lexemes of a source: put together they are the source, they stand one after another from the
origin on, and they end with one line terminator. -/
structure Tiled (source : String) (ls : List Lexeme) : Prop where
  text : String.join (ls.map Lexeme.source) = source
  contiguous : Contiguous .origin ls
  terminated : Terminated ls

/-- What holds of a single lexeme: only strings are decoded, and only the end of the input is
without text. -/
structure Written (l : Lexeme) : Prop where
  source_eq : l.kind ≠ .string → l.source = l.literal
  source_ne : l.kind ≠ .endOfInput → l.source.toList ≠ []

/-- A word has at least one character. -/
theorem Written.literal_ne {l : Lexeme} (h : l.Written) (hk : l.kind = .identifier) :
    l.literal ≠ "" := by
  intro hempty
  have hsource : l.source = l.literal := h.source_eq (by simp [hk])
  have hne : l.source.toList ≠ [] := h.source_ne (by simp [hk])
  rw [hsource, hempty] at hne
  exact hne rfl

/-- Lexemes that end properly, after a line that is `ended` or not. -/
def Closed : Bool → List Lexeme → Prop
  | ended, [] => ended = true
  | ended, l :: ls => (l.kind = .endOfInput → ended = false ∧ ls = []) ∧ Closed l.isNewline ls

@[simp] theorem characters_cons (l : Lexeme) (ls : List Lexeme) :
    characters (l :: ls) = l.source.toList ++ characters ls := rfl

theorem isNewline_iff {l : Lexeme} : l.isNewline ↔ l.kind = .newline ∨ l.kind = .endOfInput := by
  simp [isNewline]

/-! ### How a stream ends -/

/-- Lexemes that are closed end with the end of a line, if there are any. -/
theorem closed_getLast? {ls : List Lexeme} :
    ∀ {ended : Bool}, Closed ended ls → ls ≠ [] → ∃ l, ls.getLast? = some l ∧ l.isNewline := by
  induction ls with
  | nil =>
    intro ended _ hne
    exact absurd rfl hne
  | cons l ls ih =>
    intro ended h _
    cases ls with
    | nil => exact ⟨l, rfl, h.2⟩
    | cons m ms =>
      obtain ⟨last, hlast, hnl⟩ := ih h.2 (List.cons_ne_nil m ms)
      exact ⟨last, by rw [List.getLast?_cons_cons, hlast], hnl⟩

/-- Only the last of them can be the end of the input. -/
theorem closed_dropLast {ls : List Lexeme} :
    ∀ {ended : Bool}, Closed ended ls → ∀ l ∈ ls.dropLast, l.kind ≠ .endOfInput := by
  induction ls with
  | nil =>
    intro ended _ l hl
    exact absurd hl List.not_mem_nil
  | cons l ls ih =>
    intro ended h x hx hend
    cases ls with
    | nil => exact absurd hx List.not_mem_nil
    | cons m ms =>
      rw [List.dropLast_cons_cons, List.mem_cons] at hx
      rcases hx with rfl | hx
      · -- after the end of the input there is nothing
        exact absurd (h.1 hend).2 (List.cons_ne_nil m ms)
      · exact ih h.2 x hx hend

/-- The end of the input is there exactly if the last other lexeme, or else the line before the
stream, ends no line. -/
theorem closed_end_iff {ls : List Lexeme} :
    ∀ {ended : Bool}, Closed ended ls →
      ((∃ l ∈ ls, l.kind = .endOfInput) ↔
        ((ls.filter (·.kind ≠ .endOfInput)).getLast?.map isNewline).getD ended = false) := by
  induction ls with
  | nil =>
    intro ended h
    have : ended = true := h
    simp [this]
  | cons l ls ih =>
    intro ended h
    by_cases hend : l.kind = .endOfInput
    · obtain ⟨rfl, rfl⟩ := h.1 hend
      simp [hend]
    · -- for the rest of the stream this lexeme is the one before it
      have hrest := ih h.2
      rw [List.filter_cons_of_pos (by simpa using hend), List.getLast?_cons]
      simp only [List.mem_cons, exists_eq_or_imp, hend, false_or, hrest]
      cases (ls.filter (·.kind ≠ .endOfInput)).getLast? <;> simp

/-- After no line at all, to be closed is what a reader of lexemes relies on. -/
theorem terminated_of_closed {ls : List Lexeme} (h : Closed false ls) : Terminated ls := by
  have hne : ls ≠ [] := by
    rintro rfl
    exact Bool.false_ne_true h
  refine ⟨closed_getLast? h hne, closed_dropLast h, ?_⟩
  rw [closed_end_iff h]
  cases (ls.filter (·.kind ≠ .endOfInput)).getLast? <;> simp

/-- What has to be known of a stream to have it tiled. -/
theorem tiled_of {source : String} {ls : List Lexeme} (htext : characters ls = source.toList)
    (hplace : Contiguous .origin ls) (hclosed : Closed false ls) : Tiled source ls := by
  refine ⟨?_, hplace, terminated_of_closed hclosed⟩
  apply String.toList_inj.mp
  rw [String.toList_join, List.flatMap_map, ← htext]
  rfl

end Lexeme

/-! ### Pieces -/

namespace Piece

open Lexeme

/-- The pieces that the scanner may hand over: with text, and none of them the end of the input. -/
def Cut (p : Piece) : Prop :=
  p.text ≠ [] ∧ p.kind ≠ .endOfInput

theorem numberKind_ne (c : Char) (text : List Char) : numberKind c text ≠ .endOfInput := by
  unfold numberKind
  split <;> decide

/-- The end of the input is no piece of the text: it is put there when the pieces have been placed. -/
theorem extent_kind_ne (c : Char) (cs : List Char) : (extent c cs).1 ≠ .endOfInput := by
  unfold extent
  repeat' split
  all_goals first | exact numberKind_ne _ _ | simp

theorem cut_first (c : Char) (cs : List Char) : (first c cs).1.Cut :=
  ⟨by simp [first], extent_kind_ne c cs⟩

/-- Whatever is cut from a text is a piece as the scanner cuts them. -/
theorem cut_of_mem (cs : List Char) : ∀ p ∈ cut cs, p.Cut := by
  fun_induction cut cs with
  | case1 => simp
  | case2 c cs ih =>
    intro p hp
    rcases List.mem_cons.mp hp with rfl | hp
    · exact cut_first c cs
    · exact ih p hp

/-- The pieces of a text are the text. -/
theorem flatMap_cut (cs : List Char) : (cut cs).flatMap Piece.text = cs := by
  fun_induction cut cs with
  | case1 => rfl
  | case2 c cs ih => rw [List.flatMap_cons, ih, first_append]

/-- Joining blanks keeps the text. -/
theorem flatMap_join (p : Piece) (ps : List Piece) :
    (p.join ps).flatMap Piece.text = p.text ++ ps.flatMap Piece.text := by
  cases ps with
  | nil => rfl
  | cons q qs =>
    rw [join]
    split <;> simp

/-- So does joining them all along. -/
theorem flatMap_merge (ps : List Piece) :
    (merge ps).flatMap Piece.text = ps.flatMap Piece.text := by
  induction ps with
  | nil => rfl
  | cons p ps ih =>
    show (p.join (merge ps)).flatMap Piece.text = _
    rw [flatMap_join, ih, List.flatMap_cons]

/-- What is joined from such pieces is such a piece. -/
theorem cut_of_mem_join {p : Piece} {ps : List Piece} (hp : p.Cut) (hps : ∀ q ∈ ps, q.Cut) :
    ∀ q ∈ p.join ps, q.Cut := by
  cases ps with
  | nil => simpa [join] using hp
  | cons r rs =>
    rw [join]
    split
    · have hjoined : Cut ⟨.whitespace, p.text ++ r.text⟩ :=
        ⟨List.append_ne_nil_of_left_ne_nil hp.1 _, Kind.noConfusion⟩
      intro q hq
      rcases List.mem_cons.mp hq with rfl | hq
      · exact hjoined
      · exact hps q (List.mem_cons_of_mem r hq)
    · intro q hq
      rcases List.mem_cons.mp hq with rfl | hq
      · exact hp
      · exact hps q hq

theorem cut_of_mem_merge {ps : List Piece} (hps : ∀ q ∈ ps, q.Cut) : ∀ q ∈ merge ps, q.Cut := by
  induction ps with
  | nil => simp [merge]
  | cons p ps ih =>
    have hp : p.Cut := hps p List.mem_cons_self
    exact cut_of_mem_join hp (ih fun q hq => hps q (List.mem_cons_of_mem p hq))

/-- Not both of two neighbours are blank. -/
def Apart (p q : Lexeme.Kind) : Prop :=
  ¬ (p = .whitespace ∧ q = .whitespace)

/-- Joining takes care of the two pieces that meet; the piece that a blank one grows into was
already apart from the one after it. -/
theorem isChain_join (p : Piece) {ps : List Piece} (h : (ps.map kind).IsChain Apart) :
    ((p.join ps).map kind).IsChain Apart := by
  cases ps with
  | nil => exact .singleton _
  | cons q qs =>
    rw [join]
    split
    · rename_i hboth
      rw [List.map_cons, hboth.2] at h
      exact h
    · rename_i hapart
      exact .cons_cons hapart h

/-- After joining, no two blanks stand side by side. -/
theorem isChain_merge (ps : List Piece) : ((merge ps).map kind).IsChain Apart := by
  induction ps with
  | nil => exact .nil
  | cons p ps ih => exact isChain_join p ih

/-! ### Raw lexemes -/

@[simp] theorem toLexeme_kind (p : Piece) (a : Position) : (p.toLexeme a).kind = p.kind := by
  unfold toLexeme
  by_cases h : p.kind = .string <;> simp [h]

@[simp] theorem toLexeme_source (p : Piece) (a : Position) :
    (p.toLexeme a).source = String.ofList p.text := by
  unfold toLexeme
  by_cases h : p.kind = .string <;> simp [h, source]

@[simp] theorem toLexeme_span (p : Piece) (a : Position) :
    (p.toLexeme a).span = Span.ofText a p.text := by
  unfold toLexeme
  by_cases h : p.kind = .string <;> simp [h]

/-- The lexeme of a piece is one that could be written in a source. -/
theorem written_toLexeme {p : Piece} (hp : p.Cut) (a : Position) : (p.toLexeme a).Written := by
  constructor
  · intro h
    rw [toLexeme_kind] at h
    simp [toLexeme, h, source]
  · intro _
    simpa using hp.1

/-- Placing pieces keeps their text, for the end of the input has none. -/
theorem characters_place (ps : List Piece) :
    ∀ (a : Position) (ended : Bool), characters (place a ended ps) = ps.flatMap Piece.text := by
  induction ps with
  | nil =>
    intro a ended
    cases ended <;> rfl
  | cons p ps ih =>
    intro a ended
    rw [place, characters_cons, ih, toLexeme_source, String.toList_ofList, List.flatMap_cons]

/-- Each lexeme begins where the one before it ends. -/
theorem contiguous_place (ps : List Piece) :
    ∀ (a : Position) (ended : Bool), Contiguous a (place a ended ps) := by
  induction ps with
  | nil =>
    intro a ended
    cases ended with
    | true => trivial
    | false => exact ⟨rfl, trivial⟩
  | cons p ps ih =>
    intro a ended
    refine ⟨by simp, ?_⟩
    rw [toLexeme_span]
    exact ih _ _

/-- An end of the input is added exactly where the last line has no end. -/
theorem closed_place {ps : List Piece} (hps : ∀ q ∈ ps, q.Cut) :
    ∀ (a : Position) (ended : Bool), Closed ended (place a ended ps) := by
  induction ps with
  | nil =>
    intro a ended
    cases ended with
    | true => rfl
    | false => exact ⟨fun _ => ⟨rfl, rfl⟩, rfl⟩
  | cons p ps ih =>
    intro a ended
    have hp : p.kind ≠ .endOfInput := (hps p List.mem_cons_self).2
    refine ⟨fun hend => absurd (by simpa using hend) hp, ?_⟩
    have hended : (p.toLexeme a).isNewline = decide (p.kind = .newline) := by
      rw [Bool.eq_iff_iff, isNewline_iff, toLexeme_kind]
      simp [hp]
    rw [hended]
    exact ih (fun q hq => hps q (List.mem_cons_of_mem p hq)) _ _

/-- The lexemes of pieces are such as can be written in a source. -/
theorem written_of_mem_place {ps : List Piece} (hps : ∀ q ∈ ps, q.Cut) :
    ∀ (a : Position) (ended : Bool), ∀ l ∈ place a ended ps, l.Written := by
  induction ps with
  | nil =>
    intro a ended l hl
    cases ended with
    | true => exact absurd hl List.not_mem_nil
    | false =>
      rw [place, if_neg Bool.false_ne_true, List.mem_singleton] at hl
      subst hl
      exact ⟨fun _ => rfl, fun h => absurd rfl h⟩
  | cons p ps ih =>
    intro a ended l hl
    rcases List.mem_cons.mp hl with rfl | hl
    · exact written_toLexeme (hps p List.mem_cons_self) a
    · exact ih (fun q hq => hps q (List.mem_cons_of_mem p hq)) _ _ l hl

/-- Placing adds at most an end of the input, which is not blank. -/
theorem isChain_place (ps : List Piece) :
    ∀ (a : Position) (ended : Bool), (ps.map kind).IsChain Apart →
      ((place a ended ps).map Lexeme.kind).IsChain Apart := by
  induction ps with
  | nil =>
    intro a ended _
    cases ended with
    | true => exact .nil
    | false => exact .singleton _
  | cons p ps ih =>
    intro a ended h
    have htail := ih (a.advance p.text) (p.kind = .newline) h.tail
    rw [place, List.map_cons, toLexeme_kind]
    cases ps with
    | nil =>
      rw [place] at htail ⊢
      split
      · exact .singleton _
      · exact .cons_cons (fun hboth => Kind.noConfusion hboth.2) (.singleton _)
    | cons q qs =>
      rw [place, List.map_cons, toLexeme_kind] at htail ⊢
      exact .cons_cons h.rel htail

end Piece

namespace Lexeme

open Piece

/-- The pieces of a source are such as the scanner cuts. -/
theorem cut_of_mem_source (source : String) : ∀ p ∈ merge (cut source.toList), p.Cut :=
  cut_of_mem_merge (cut_of_mem source.toList)

/-- The scanner drops nothing. -/
theorem characters_scan (source : String) : characters (scan source) = source.toList := by
  rw [scan, characters_place, flatMap_merge, flatMap_cut]

/-- What the scanner finds covers the source from its origin on, without gaps. -/
theorem contiguous_scan (source : String) : Contiguous .origin (scan source) :=
  contiguous_place _ _ _

/-- What it finds is closed. -/
theorem closed_scan (source : String) : Closed false (scan source) :=
  closed_place (cut_of_mem_source source) _ _

/-- What it finds could be written in a source. -/
theorem written_scan (source : String) : ∀ l ∈ scan source, l.Written :=
  written_of_mem_place (cut_of_mem_source source) _ _

/-- No two blanks stand side by side in what it finds. -/
theorem isChain_scan (source : String) : ((scan source).map kind).IsChain Apart :=
  isChain_place _ _ _ (isChain_merge _)

/-! ### Contractions -/

@[simp] theorem settle_source (l : Lexeme) : l.settle.source = l.source := by
  unfold settle
  split <;> rfl

@[simp] theorem settle_span (l : Lexeme) : l.settle.span = l.span := by
  unfold settle
  split <;> rfl

/-- A contraction is put behind the word in the source, too. -/
@[simp] theorem attach_source (word contraction : Lexeme) :
    (word.attach contraction).source = word.source ++ contraction.source := rfl

/-- Settling changes the kind of a contraction only, and makes it a word or a blank. -/
theorem settle_kind (l : Lexeme) :
    l.settle.kind = l.kind ∧ l.kind ≠ .contraction ∨
      l.kind = .contraction ∧ (l.settle.kind = .identifier ∨ l.settle.kind = .whitespace) := by
  unfold settle
  by_cases h : l.kind = .contraction
  · rw [if_pos h]
    right
    refine ⟨h, ?_⟩
    show (if _ then _ else _) = _ ∨ (if _ then _ else _) = _
    split <;> simp
  · rw [if_neg h]
    exact .inl ⟨rfl, h⟩

/-- What has been settled is no contraction any more. -/
theorem settle_kind_ne_contraction (l : Lexeme) : l.settle.kind ≠ .contraction := by
  rcases settle_kind l with ⟨hk, hne⟩ | ⟨-, hk | hk⟩ <;> rw [hk]
  · exact hne
  · exact Kind.noConfusion
  · exact Kind.noConfusion

theorem settle_end_iff (l : Lexeme) : l.settle.kind = .endOfInput ↔ l.kind = .endOfInput := by
  rcases settle_kind l with ⟨hk, -⟩ | ⟨hc, hk | hk⟩ <;> simp [*]

theorem settle_isNewline (l : Lexeme) : l.settle.isNewline = l.isNewline := by
  rw [Bool.eq_iff_iff, isNewline_iff, isNewline_iff]
  rcases settle_kind l with ⟨hk, -⟩ | ⟨hc, hk | hk⟩ <;> simp [*]

/-- Settling a contraction leaves something that could be written. -/
theorem written_settle {l : Lexeme} (h : l.Written) : l.settle.Written := by
  constructor
  · intro hk
    have hlit : l.settle.literal = l.literal := by
      unfold settle
      split <;> rfl
    rw [settle_source, hlit]
    apply h.source_eq
    rcases settle_kind l with ⟨hk', -⟩ | ⟨hc, -⟩
    · rwa [← hk']
    · rw [hc]
      exact Kind.noConfusion
  · intro hk
    rw [settle_source]
    exact h.source_ne (mt (settle_end_iff l).mpr hk)

/-- So does putting it behind a word. -/
theorem written_attach {word contraction : Lexeme} (hw : word.Written) (hc : contraction.Written)
    (hword : word.kind = .identifier) (hcon : contraction.kind = .contraction) :
    (word.attach contraction).Written := by
  constructor
  · intro _
    rw [attach_source, hw.source_eq (hword ▸ Kind.noConfusion),
      hc.source_eq (hcon ▸ Kind.noConfusion)]
    rfl
  · intro _
    rw [attach_source, String.toList_append]
    exact List.append_ne_nil_of_left_ne_nil (hw.source_ne (hword ▸ Kind.noConfusion)) _

/-- Joining contractions keeps the text. The induction carries the lexeme that is still open for
one. -/
theorem characters_contractAfter (ls : List Lexeme) :
    ∀ last : Lexeme, characters (contractAfter last ls) = last.source.toList ++ characters ls := by
  induction ls with
  | nil =>
    intro last
    rfl
  | cons l ls ih =>
    intro last
    rw [contractAfter]
    split
    · rw [ih, attach_source, String.toList_append, List.append_assoc, characters_cons]
    · rw [characters_cons, ih, settle_source, characters_cons]

/-- The joined lexemes cover what the single ones covered. -/
theorem contiguous_contractAfter (ls : List Lexeme) :
    ∀ (last : Lexeme) (p : Position), Contiguous p (last :: ls) →
      Contiguous p (contractAfter last ls) := by
  induction ls with
  | nil =>
    intro last p h
    exact h
  | cons l ls ih =>
    intro last p h
    obtain ⟨hlast, hl, hls⟩ := h
    rw [contractAfter]
    split
    · refine ih _ p ⟨?_, hls⟩
      -- the word and the contraction after it are one stretch of text
      show last.span.through l.span = _
      rw [hl, hlast, attach_source, String.toList_append]
      simp [Span.through, Span.ofText]
    · exact ⟨hlast, ih _ _ ⟨by simpa using hl, by simpa using hls⟩⟩

/-- Joining contractions does not touch the ends of lines. -/
theorem closed_contractAfter (ls : List Lexeme) :
    ∀ (last : Lexeme) (ended : Bool), Closed ended (last :: ls) →
      Closed ended (contractAfter last ls) := by
  induction ls with
  | nil =>
    intro last ended h
    exact h
  | cons l ls ih =>
    intro last ended h
    obtain ⟨hlast, hl, hls⟩ := h
    rw [contractAfter]
    split
    · -- a contraction ends no line, and neither does the word that takes it up
      rename_i hjoin
      have hnl : l.isNewline = false := by
        rw [← Bool.not_eq_true, isNewline_iff]
        simp [hjoin.1]
      refine ih _ ended ⟨fun hend => Kind.noConfusion hend, ?_⟩
      rw [hnl] at hls
      exact hls
    · refine ⟨fun hend => absurd (hlast hend).2 (List.cons_ne_nil l ls), ih _ _ ⟨?_, ?_⟩⟩
      · rw [settle_end_iff]
        exact hl
      · rw [settle_isNewline]
        exact hls

/-- Every lexeme after contraction satisfies what a word with its contraction, and a settled lexeme,
do. -/
theorem forall_contractAfter {P : Lexeme → Prop} {Q : Lexeme → Prop}
    (hattach : ∀ w c, P w → Q c → w.kind = .identifier → c.kind = .contraction → P (w.attach c))
    (hsettle : ∀ l, Q l → P l.settle) (ls : List Lexeme) (hls : ∀ l ∈ ls, Q l) :
    ∀ last : Lexeme, P last → ∀ l ∈ contractAfter last ls, P l := by
  induction ls with
  | nil =>
    intro last hlast l hl
    rwa [List.mem_singleton.mp hl]
  | cons m ms ih =>
    intro last hlast
    have hm : Q m := hls m List.mem_cons_self
    have ih := ih fun l hl => hls l (List.mem_cons_of_mem m hl)
    rw [contractAfter]
    split
    · rename_i hjoin
      exact ih _ (hattach last m hlast hm hjoin.2 hjoin.1)
    · intro l hl
      rcases List.mem_cons.mp hl with rfl | hl
      · exact hlast
      · exact ih _ (hsettle m hm) l hl

/-- What holds of all lexemes and is kept when contractions are attached or settled holds of all that
is joined. -/
theorem forall_contract {P : Lexeme → Prop} {Q : Lexeme → Prop}
    (hattach : ∀ w c, P w → Q c → w.kind = .identifier → c.kind = .contraction → P (w.attach c))
    (hsettle : ∀ l, Q l → P l.settle) (ls : List Lexeme) (hls : ∀ l ∈ ls, Q l) :
    ∀ l ∈ contract ls, P l := by
  cases ls with
  | nil => simp [contract]
  | cons m ms =>
    exact forall_contractAfter hattach hsettle ms (fun l hl => hls l (List.mem_cons_of_mem m hl)) _
      (hsettle m (hls m List.mem_cons_self))

theorem characters_contract (ls : List Lexeme) : characters (contract ls) = characters ls := by
  cases ls with
  | nil => rfl
  | cons l ls => rw [contract, characters_contractAfter, settle_source, characters_cons]

theorem contiguous_contract {p : Position} {ls : List Lexeme} (h : Contiguous p ls) :
    Contiguous p (contract ls) := by
  cases ls with
  | nil => trivial
  | cons l ls => exact contiguous_contractAfter ls _ p ⟨by simpa using h.1, by simpa using h.2⟩

theorem closed_contract {ended : Bool} {ls : List Lexeme} (h : Closed ended ls) :
    Closed ended (contract ls) := by
  cases ls with
  | nil => exact h
  | cons l ls =>
    refine closed_contractAfter ls _ ended ⟨?_, ?_⟩
    · rw [settle_end_iff]
      exact h.1
    · rw [settle_isNewline]
      exact h.2

/-- The lexemes of a source are its text. -/
theorem characters_lex (source : String) : characters (lex source) = source.toList := by
  rw [lex, characters_contract, characters_scan]

/-- The lexemes of a source cover it from its origin on, without gaps. -/
theorem contiguous_lex (source : String) : Contiguous .origin (lex source) :=
  contiguous_contract (contiguous_scan source)

/-- The lexemes of a source are closed. -/
theorem closed_lex (source : String) : Closed false (lex source) :=
  closed_contract (closed_scan source)

/-- Every lexeme of a source could be written. -/
theorem written_lex (source : String) : ∀ l ∈ lex source, l.Written :=
  forall_contract (fun _ _ => written_attach) (fun _ => written_settle) _ (written_scan source)

/-- No contraction is left among the lexemes of a source. -/
theorem kind_ne_contraction_of_mem_lex (source : String) :
    ∀ l ∈ lex source, l.kind ≠ .contraction :=
  forall_contract (Q := fun _ => True) (fun _ _ _ _ _ _ => Kind.noConfusion)
    (fun l _ => settle_kind_ne_contraction l) _ (fun _ _ => trivial)

/-! ### Contracted copulas -/

/-- A word with the given text and place. -/
def wordAt (text : List Char) (start stop : Position) : Lexeme :=
  ⟨.identifier, String.ofList text, none, ⟨start, stop⟩⟩

/-- A suffix is cut off between two parts, neither of which is empty. -/
theorem cutSuffix?_eq_some {cs suffix stem tail : List Char} (hs : suffix ≠ [])
    (h : cutSuffix? cs suffix = some (stem, tail)) :
    cs = stem ++ tail ∧ stem ≠ [] ∧ tail ≠ [] := by
  unfold cutSuffix? at h
  dsimp only at h
  split at h
  · rename_i hcond
    obtain ⟨rfl, rfl⟩ := Prod.mk.inj (Option.some.inj h)
    rw [Bool.and_eq_true, Bool.not_eq_true', List.isEmpty_eq_false_iff] at hcond
    refine ⟨(List.take_append_drop _ _).symm, hcond.1, ?_⟩
    -- the tail has as many letters as the suffix
    intro htail
    have hsame := hcond.2
    rw [htail, Text.sameWord, beq_iff_eq] at hsame
    exact hs (List.map_eq_nil_iff.mp hsame.symm)
  · exact absurd h (by simp)

theorem copulaSuffixes_ne_nil : ∀ suffix ∈ copulaSuffixes, suffix ≠ [] := by
  decide

/-- A lexeme stays whole, or it is a word and becomes two that are its text. -/
theorem splitCopula_cases (l : Lexeme) :
    splitCopula l = [l] ∨
      l.kind = .identifier ∧ ∃ stem copula : List Char, l.literal.toList = stem ++ copula ∧
        stem ≠ [] ∧ copula ≠ [] ∧
        splitCopula l = [wordAt stem l.span.start (l.span.start.advance stem),
          wordAt copula (l.span.start.advance stem) l.span.stop] := by
  unfold splitCopula
  by_cases hk : l.kind = .identifier
  · rw [if_pos hk]
    cases hcut : copulaSuffixes.findSome? (cutSuffix? l.literal.toList) with
    | none => exact .inl rfl
    | some cut =>
      obtain ⟨stem, copula⟩ := cut
      obtain ⟨suffix, hmem, hsuffix⟩ := List.exists_of_findSome?_eq_some hcut
      obtain ⟨htext, hstem, hcopula⟩ :=
        cutSuffix?_eq_some (copulaSuffixes_ne_nil suffix hmem) hsuffix
      exact .inr ⟨hk, stem, copula, htext, hstem, hcopula, rfl⟩
  · rw [if_neg hk]
    exact .inl rfl

/-- Splitting a copula off makes no line ends and takes none away. -/
theorem isNewline_of_mem_splitCopula {l m : Lexeme} (h : m ∈ splitCopula l) :
    m.isNewline = l.isNewline := by
  rcases splitCopula_cases l with hsplit | ⟨hkind, stem, copula, -, -, -, hsplit⟩
  · rw [hsplit, List.mem_singleton] at h
    rw [h]
  · rw [hsplit] at h
    have hword : l.isNewline = false := by simp [isNewline, hkind]
    rcases List.mem_pair.mp h with rfl | rfl
    · exact hword.symm
    · exact hword.symm

theorem written_wordAt {text : List Char} (h : text ≠ []) (a b : Position) :
    (wordAt text a b).Written :=
  ⟨fun _ => rfl, fun _ => by simpa [wordAt, source] using h⟩

/-- Both parts of a split word could be written. -/
theorem written_splitCopula {l : Lexeme} (h : l.Written) : ∀ m ∈ splitCopula l, m.Written := by
  rcases splitCopula_cases l with hl | ⟨-, stem, copula, -, hstem, hcopula, hl⟩ <;> rw [hl]
  · simpa using h
  · simpa using ⟨written_wordAt hstem _ _, written_wordAt hcopula _ _⟩

/-- A word whose source is its literal covers the two words it becomes. -/
theorem source_of_split {l : Lexeme} (h : l.Written) (hk : l.kind = .identifier)
    {stem copula : List Char} (htext : l.literal.toList = stem ++ copula) :
    l.source.toList = stem ++ copula := by
  rw [h.source_eq (hk ▸ Kind.noConfusion), htext]

/-- Splitting copulas off keeps the text. -/
theorem characters_splitCopula {ls : List Lexeme} (h : ∀ l ∈ ls, l.Written) :
    characters (ls.flatMap splitCopula) = characters ls := by
  induction ls with
  | nil => rfl
  | cons l ls ih =>
    have hls := ih fun m hm => h m (List.mem_cons_of_mem l hm)
    rw [List.flatMap_cons]
    rcases splitCopula_cases l with hl | ⟨hk, stem, copula, htext, -, -, hl⟩ <;> rw [hl]
    · rw [List.singleton_append, characters_cons, characters_cons, hls]
    · rw [characters_cons, source_of_split (h l List.mem_cons_self) hk htext, ← hls]
      simp [wordAt, source]

/-- The two parts of a word cover what the word covered. -/
theorem contiguous_splitCopula {ls : List Lexeme} (h : ∀ l ∈ ls, l.Written) :
    ∀ p : Position, Contiguous p ls → Contiguous p (ls.flatMap splitCopula) := by
  induction ls with
  | nil =>
    intro p _
    trivial
  | cons l ls ih =>
    intro p hp
    obtain ⟨hl, hls⟩ := hp
    have hrest := ih (fun m hm => h m (List.mem_cons_of_mem l hm)) _ hls
    rw [List.flatMap_cons]
    rcases splitCopula_cases l with hsplit | ⟨hk, stem, copula, htext, -, -, hsplit⟩ <;> rw [hsplit]
    · exact ⟨hl, hrest⟩
    · -- the second word ends where both together do
      rw [source_of_split (h l List.mem_cons_self) hk htext] at hl
      have hstart : l.span.start = p := by rw [hl]; rfl
      have hstop : l.span.stop = (p.advance stem).advance copula := by
        rw [hl, ← Position.advance_append]
        rfl
      refine ⟨?_, ?_, hrest⟩
      · simp [wordAt, source, Span.ofText, hstart]
      · simp [wordAt, source, Span.ofText, hstart, hstop]

/-- Splitting copulas off does not touch the ends of lines. -/
theorem closed_splitCopula (ls : List Lexeme) :
    ∀ ended : Bool, Closed ended ls → Closed ended (ls.flatMap splitCopula) := by
  induction ls with
  | nil =>
    intro ended h
    exact h
  | cons l ls ih =>
    intro ended h
    obtain ⟨hend, hls⟩ := h
    rw [List.flatMap_cons]
    rcases splitCopula_cases l with hsplit | ⟨hk, stem, copula, -, -, -, hsplit⟩ <;> rw [hsplit]
    · refine ⟨fun he => ?_, ih _ hls⟩
      obtain ⟨hended, rfl⟩ := hend he
      exact ⟨hended, rfl⟩
    · have hnl : l.isNewline = false := by
        rw [← Bool.not_eq_true, isNewline_iff]
        simp [hk]
      rw [hnl] at hls
      exact ⟨Kind.noConfusion, Kind.noConfusion, ih _ hls⟩

/-! ### All three streams -/

/-- **The scanner tiles its source.** -/
theorem tiled_scan (source : String) : Tiled source (scan source) :=
  tiled_of (characters_scan source) (contiguous_scan source) (closed_scan source)

/-- **So do the lexemes**, when contractions have been joined. -/
theorem tiled_lex (source : String) : Tiled source (lex source) :=
  tiled_of (characters_lex source) (contiguous_lex source) (closed_lex source)

theorem contiguous_split (source : String) :
    Contiguous .origin ((lex source).flatMap splitCopula) :=
  contiguous_splitCopula (written_lex source) _ (contiguous_lex source)

theorem written_split (source : String) : ∀ l ∈ (lex source).flatMap splitCopula, l.Written := by
  intro l hl
  obtain ⟨m, hm, hlm⟩ := List.mem_flatMap.mp hl
  exact written_splitCopula (written_lex source m hm) l hlm

/-- **So do the lexemes that the reader gets**, when copulas have been split off. -/
theorem tiled_split (source : String) : Tiled source ((lex source).flatMap splitCopula) := by
  refine tiled_of ?_ (contiguous_split source) (closed_splitCopula _ _ (closed_lex source))
  rw [characters_splitCopula (written_lex source), characters_lex]

/-- **Nothing of a source is lost or moved**: the raw lexemes, the lexemes with their contractions
joined, and those with the copulas taken off again, each tile the source. No two blanks of the first
stream are neighbours, and the second has no contraction left. -/
theorem streams_tile_source (source : String) :
    Tiled source (scan source) ∧ Tiled source (lex source) ∧
      Tiled source ((lex source).flatMap splitCopula) ∧
      (scan source).IsChain (fun l m => ¬ (l.kind = .whitespace ∧ m.kind = .whitespace)) ∧
      ∀ l ∈ lex source, l.kind ≠ .contraction :=
  ⟨tiled_scan source, tiled_lex source, tiled_split source,
    (List.isChain_map kind).mp (isChain_scan source), kind_ne_contraction_of_mem_lex source⟩

end Lexeme

end Ballad
