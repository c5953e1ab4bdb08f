import Ballad.Proofs.Splicing
import Mathlib.Data.List.TakeWhile

/-!
# Lines are lexed word by word

The lexer starts anew after a word as well, if nothing goes on with the word. What stands before has
an influence on the positions of the lexemes after it, and on nothing else.

- `Piece.EndsWord`: a text whose last piece is a word, or a contraction that belongs to one.
- `Piece.Letters`, `Piece.Blanks`: a word of letters, and blanks.
- `Piece.Detached`: a text that goes on neither with a word nor with a number.
- `Piece.cut_append_word`: after a word such a text is cut as if it stood alone.
- `Lexeme.exists_of_mem_scan`: most lexemes are pieces of the source as they stand.
- `Lexeme.fragment`: the lexemes of a stretch of text, without the end of its last line.
- `Lexeme.fragment_append`: two stretches of text, one after the other.
- `Lexeme.split_eq_fragment`: a source whose last line is not ended is a stretch of text and an end.
- `Lexeme.ending`: the lexemes of the end of a source.
- `Lexeme.split_append_ending`: a source is a stretch of text and an end.
-/

namespace Ballad

namespace Piece

/-- Whether a piece belongs to a word. -/
def isWordPart (p : Piece) : Bool :=
  p.kind == .identifier || p.kind == .contraction

/-- A text whose last piece belongs to a word. -/
def EndsWord (cs : List Char) : Prop :=
  (cut cs).getLast?.any isWordPart

instance (cs : List Char) : Decidable (EndsWord cs) :=
  inferInstanceAs (Decidable (_ = true))

/-- A word of letters. -/
def Letters (cs : List Char) : Prop :=
  cs ≠ [] ∧ ∀ c ∈ cs, Text.isLetter c

instance (cs : List Char) : Decidable (Letters cs) :=
  decidable_of_iff (cs ≠ [] ∧ cs.all Text.isLetter) (by simp [Letters])

/-- One or more blanks. -/
def Blanks (cs : List Char) : Prop :=
  cs ≠ [] ∧ ∀ c ∈ cs, isSpace c

instance (cs : List Char) : Decidable (Blanks cs) :=
  decidable_of_iff (cs ≠ [] ∧ cs.all isSpace) (by simp [Blanks])

/-- A text that goes on neither with a word nor with a number. -/
def Detached (b : List Char) : Prop :=
  ∀ c ∈ b.head?, Text.isLetter c = false ∧ c.isDigit = false ∧ c ≠ '+' ∧ c ≠ '-'

/-! ### One piece -/

/-- Whether an exponent follows does not depend on detached text behind it. -/
theorem exponentFollows_append_detached {b : List Char} (hb : Detached b) (cs : List Char) :
    exponentFollows (cs ++ b) = exponentFollows cs := by
  match cs, b with
  | [], [] | [_], [] | _ :: _ :: _, _ => simp [exponentFollows]
  | [], d :: ds =>
    obtain ⟨-, hdigit, hplus, hminus⟩ := hb d rfl
    cases ds <;> simp [exponentFollows, hdigit, hplus, hminus]
  | [_], d :: ds => simp [exponentFollows, (hb d rfl).2.1]

/-- A word begins with a letter or an apostrophe. -/
theorem letter_of_isWordPart {c : Char} {cs : List Char} (h : (first c cs).1.isWordPart) :
    c = '\'' ∨ Text.isLetter c := by
  by_contra hnone
  obtain ⟨hquote, hletter⟩ := not_or.mp hnone
  simp only [isWordPart, first, extent, if_neg hquote, if_neg hletter] at h
  repeat' split at h
  all_goals simp [numberKind] at h
  split at h <;> simp at h

/-- Letters make a word, or a contraction after an apostrophe. -/
theorem extent_letter {c : Char} (h : c = '\'' ∨ Text.isLetter c) (cs : List Char) :
    extent c cs = (if c = '\'' then .contraction else .identifier, spanWhile Text.isLetter cs) := by
  have hopen : c ≠ '(' := by
    rintro rfl
    exact absurd h (by decide)
  have hdouble : c ≠ '"' := by
    rintro rfl
    exact absurd h (by decide)
  rw [extent.eq_def, if_neg hopen, if_neg hdouble]
  by_cases hquote : c = '\''
  · rw [if_pos hquote, if_pos hquote]
  · rw [if_neg hquote, if_neg hquote, if_pos (h.resolve_left hquote)]

/-- Only an apostrophe begins a contraction. -/
theorem extent_ne_contraction {c : Char} (h : c ≠ '\'') (cs : List Char) :
    (extent c cs).1 ≠ .contraction := by
  intro hk
  have hword : (first c cs).1.isWordPart := by simp [isWordPart, first, hk]
  rw [extent_letter (letter_of_isWordPart hword), if_neg h] at hk
  cases hk

/-- The blanks of the language, one by one. -/
theorem eq_of_isSpace {c : Char} (h : isSpace c) :
    c = ' ' ∨ c = '\t' ∨ c = '\x0b' ∨ c = '\x0c' := by
  simpa [isSpace, or_assoc] using h

/-- Blanks make a blank piece. -/
theorem extent_space {c : Char} (h : isSpace c) (cs : List Char) :
    extent c cs = (.whitespace, spanWhile isSpace cs) := by
  rcases eq_of_isSpace h with rfl | rfl | rfl | rfl <;> rfl

theorem isSpace_of_isLetter {c : Char} (h : Text.isLetter c) : isSpace c = false := by
  by_contra hspace
  rcases eq_of_isSpace (Bool.not_eq_false _ ▸ hspace) with rfl | rfl | rfl | rfl <;>
    exact absurd h (by decide)

/-- Blanks are detached from what is in front of them. -/
theorem Blanks.detached {s : List Char} (h : Blanks s) (b : List Char) : Detached (s ++ b) := by
  intro c hc
  rw [List.head?_append_of_ne_nil _ h.1] at hc
  rcases eq_of_isSpace (h.2 c (List.mem_of_mem_head? hc)) with rfl | rfl | rfl | rfl <;> decide

/-- A stretch that goes to the end of a text ends there if the text that follows does not go on with
it. -/
theorem spanWhile_append_left {p : Char → Bool} {cs b : List Char} (h : (spanWhile p cs).2 = [])
    (hb : ∀ c ∈ b.head?, p c = false) : spanWhile p (cs ++ b) = ((spanWhile p cs).1, b) := by
  unfold spanWhile at *
  induction cs with
  | nil =>
    cases b with
    | nil => rfl
    | cons d ds => simp [hb d rfl]
  | cons c cs ih =>
    by_cases hc : p c
    · simp only [List.dropWhile_cons_of_pos hc] at h
      have hrest := Prod.mk.inj (ih h)
      simp [hc, hrest.1, hrest.2]
    · simp [hc] at h

/-- A piece after which something is left, and a word, does not depend on a text that goes on
neither with a word nor with a number. -/
theorem first_append_detached {c : Char} {cs b : List Char} (hb : Detached b)
    (h : (first c cs).1.isWordPart ∨ (first c cs).2 ≠ []) :
    first c (cs ++ b) = ((first c cs).1, (first c cs).2 ++ b) := by
  by_cases hrest : (first c cs).2 = []
  · -- the piece is a word, and no letter follows
    have hword := extent_letter (letter_of_isWordPart (h.resolve_right (not_not.mpr hrest)))
    simp only [first, hword] at hrest ⊢
    rw [hrest, spanWhile_append_left hrest fun d hd => (hb d hd).1]
    rfl
  · have hnext : ∀ (s : NumberState) d ds, d :: ds <:+ cs → s.next d (ds ++ b) = s.next d ds := by
      intro s d ds _
      rw [NumberState.next, NumberState.next, exponentFollows_append_detached hb]
    simp only [first]
    rw [extent_append_right hrest hnext]

/-! ### All pieces -/

/-- After a word the text is cut as if it stood alone. -/
theorem cut_append_word {a b : List Char} (h : EndsWord a) (hb : Detached b) :
    cut (a ++ b) = cut a ++ cut b :=
  cut_append_of (P := (·.isWordPart)) (fun _ _ _ hfirst => first_append_detached hb hfirst)
    ((Option.any_eq_true _ _).mp h)

/-- A stretch of characters that all satisfy a predicate is taken whole. -/
theorem spanWhile_append_of_all {p : Char → Bool} {cs b : List Char} (hcs : ∀ c ∈ cs, p c)
    (hb : ∀ c ∈ b.head?, p c = false) : spanWhile p (cs ++ b) = (cs, b) := by
  have hspan : spanWhile p cs = (cs, []) := by
    rw [spanWhile, List.takeWhile_eq_self_iff.mpr hcs, List.dropWhile_eq_nil_iff.mpr hcs]
  rw [spanWhile_append_left (by rw [hspan]) hb, hspan]

/-- Letters before a text that does not go on with them are one piece, and so are an apostrophe and
letters. -/
theorem cut_wordPart {c : Char} {cs b : List Char} (hc : c = '\'' ∨ Text.isLetter c)
    (hcs : ∀ d ∈ cs, Text.isLetter d) (hb : ∀ d ∈ b.head?, Text.isLetter d = false) :
    cut (c :: (cs ++ b)) =
      ⟨if c = '\'' then .contraction else .identifier, c :: cs⟩ :: cut b := by
  rw [cut_cons, first, extent_letter hc, spanWhile_append_of_all hcs hb]

/-- Letters are cut off as one word, if no letter follows. -/
theorem cut_letters {w b : List Char} (hw : Letters w)
    (hb : ∀ c ∈ b.head?, Text.isLetter c = false) : cut (w ++ b) = ⟨.identifier, w⟩ :: cut b := by
  obtain ⟨hne, hletters⟩ := hw
  obtain ⟨c, cs, rfl⟩ := List.exists_cons_of_ne_nil hne
  obtain ⟨hc, hcs⟩ := List.forall_mem_cons.mp hletters
  have hquote : c ≠ '\'' := by
    rintro rfl
    exact absurd hc (by decide)
  rw [List.cons_append, cut_wordPart (.inr hc) hcs hb, if_neg hquote]

/-- Blanks and a word, before a text that does not go on with the word. -/
theorem cut_blanks_letters {s w b : List Char} (hs : Blanks s) (hw : Letters w)
    (hb : ∀ c ∈ b.head?, Text.isLetter c = false) :
    cut (s ++ (w ++ b)) = [⟨.whitespace, s⟩, ⟨.identifier, w⟩] ++ cut b := by
  obtain ⟨hne, hspaces⟩ := hs
  obtain ⟨c, cs, rfl⟩ := List.exists_cons_of_ne_nil hne
  obtain ⟨hc, hcs⟩ := List.forall_mem_cons.mp hspaces
  have hend : ∀ d ∈ (w ++ b).head?, isSpace d = false := by
    intro d hd
    rw [List.head?_append_of_ne_nil _ hw.1] at hd
    exact isSpace_of_isLetter (hw.2 d (List.mem_of_mem_head? hd))
  rw [List.cons_append, cut_cons, first, extent_space hc, spanWhile_append_of_all hcs hend]
  rw [cut_letters hw hb]
  rfl

/-- Letters alone are one word. -/
theorem cut_letters_alone {w : List Char} (hw : Letters w) : cut w = [⟨.identifier, w⟩] := by
  simpa [cut_nil] using cut_letters (b := []) hw (by simp)

/-- Blanks and letters are two pieces. -/
theorem cut_blanks_letters_alone {s w : List Char} (hs : Blanks s) (hw : Letters w) :
    cut (s ++ w) = [⟨.whitespace, s⟩, ⟨.identifier, w⟩] := by
  simpa [cut_nil] using cut_blanks_letters (b := []) hs hw (by simp)

/-- What belongs to a word is an apostrophe or a letter, and letters after it. -/
theorem exists_of_mem_cut {cs : List Char} {p : Piece} (hp : p ∈ cut cs) (hword : p.isWordPart) :
    ∃ c rest, (c = '\'' ∨ Text.isLetter c) ∧ (∀ d ∈ rest, Text.isLetter d) ∧
      p = ⟨if c = '\'' then .contraction else .identifier, c :: rest⟩ := by
  fun_induction cut cs with
  | case1 => cases hp
  | case2 c cs ih =>
    rcases List.mem_cons.mp hp with rfl | hp
    · have hletter := letter_of_isWordPart hword
      refine ⟨c, cs.takeWhile Text.isLetter, hletter, fun d hd => List.mem_takeWhile_imp hd, ?_⟩
      rw [first, extent_letter hletter]
      rfl
    · exact ih hp

/-- Words consist of letters. -/
theorem letters_of_mem_cut {cs : List Char} {p : Piece} (hp : p ∈ cut cs)
    (hk : p.kind = .identifier) : Letters p.text := by
  obtain ⟨c, rest, hc, hrest, rfl⟩ := exists_of_mem_cut hp (by simp [isWordPart, hk])
  have hquote : c ≠ '\'' := by
    rintro rfl
    cases hk
  exact ⟨List.cons_ne_nil c rest, List.forall_mem_cons.mpr ⟨hc.resolve_left hquote, hrest⟩⟩

/-- A text without a line feed has no line end among its pieces. -/
theorem newline_mem_of_cut {cs : List Char} {p : Piece} (hp : p ∈ cut cs)
    (hk : p.kind = .newline) : '\n' ∈ cs := by
  fun_induction cut cs with
  | case1 => cases hp
  | case2 c cs ih =>
    rcases List.mem_cons.mp hp with rfl | hp
    · rcases extent_newline hk with rfl | ⟨-, rest, rfl⟩
      · exact List.mem_cons_self
      · exact List.mem_cons_of_mem c List.mem_cons_self
    · rw [← first_append c cs]
      exact List.mem_append_right _ (ih hp)

/-- Joining blanks does not change what a text begins with. -/
theorem head?_merge (ps : List Piece) : (merge ps).head?.map kind = ps.head?.map kind := by
  cases ps with
  | nil => rfl
  | cons p ps =>
    show (p.join (merge ps)).head?.map kind = some p.kind
    cases merge ps with
    | nil => rfl
    | cons q qs =>
      rw [join]
      split
      · rename_i hblank
        simp [hblank.1]
      · rfl

/-- Merging leaves a piece as it is, or makes it a longer blank. -/
theorem exists_of_mem_merge {ps : List Piece} {p : Piece} (hp : p ∈ merge ps) :
    ∃ q ∈ ps, q.kind = p.kind ∧ (p.kind ≠ .whitespace → q = p) := by
  induction ps generalizing p with
  | nil => cases hp
  | cons q ps ih =>
    have hp : p ∈ q.join (merge ps) := hp
    cases hm : merge ps with
    | nil =>
      rw [hm, join, List.mem_singleton] at hp
      exact ⟨q, List.mem_cons_self, by rw [hp], fun _ => hp.symm⟩
    | cons r rs =>
      rw [hm, join] at hp
      split at hp
      · rename_i hblank
        rcases List.mem_cons.mp hp with rfl | hp
        · exact ⟨q, List.mem_cons_self, hblank.1, fun hk => absurd rfl hk⟩
        · obtain ⟨s, hs, hk⟩ := ih (hm ▸ List.mem_cons_of_mem r hp)
          exact ⟨s, List.mem_cons_of_mem q hs, hk⟩
      · rcases List.mem_cons.mp hp with rfl | hp
        · exact ⟨p, List.mem_cons_self, rfl, fun _ => rfl⟩
        · obtain ⟨s, hs, hk⟩ := ih (hm ▸ hp)
          exact ⟨s, List.mem_cons_of_mem q hs, hk⟩

/-! ### Placing -/

/-- The lexemes of pieces that begin at a position, without the end of their last line. -/
def lay (a : Position) : List Piece → List Lexeme
  | [] => []
  | p :: ps => p.toLexeme a :: lay (a.advance p.text) ps

/-- Laying pieces one after the other is laying them from where the first ones end. -/
theorem lay_append (a : Position) (ps qs : List Piece) :
    lay a (ps ++ qs) = lay a ps ++ lay (a.advance (ps.flatMap Piece.text)) qs := by
  induction ps generalizing a with
  | nil => rfl
  | cons p ps ih => simp [lay, ih]

/-- Laying pieces keeps their text. -/
theorem characters_lay (a : Position) (ps : List Piece) :
    Lexeme.characters (lay a ps) = ps.flatMap Piece.text := by
  induction ps generalizing a with
  | nil => rfl
  | cons p ps ih => simp [lay, ih]

/-- A placed lexeme is a piece, or the end of the source. -/
theorem exists_of_mem_place {a : Position} {ended : Bool} {ps : List Piece} {l : Lexeme}
    (h : l ∈ place a ended ps) (hk : l.kind ≠ .endOfInput) : ∃ p ∈ ps, ∃ b, l = p.toLexeme b := by
  induction ps generalizing a ended with
  | nil =>
    cases ended with
    | true => cases h
    | false =>
      obtain rfl := List.mem_singleton.mp h
      exact absurd rfl hk
  | cons p ps ih =>
    rcases List.mem_cons.mp h with rfl | h
    · exact ⟨p, List.mem_cons_self, a, rfl⟩
    · obtain ⟨q, hq, b, rfl⟩ := ih h
      exact ⟨q, List.mem_cons_of_mem p hq, b, rfl⟩

/-- What has been laid are lexemes of the pieces. -/
theorem exists_of_mem_lay {a : Position} {ps : List Piece} {l : Lexeme} (h : l ∈ lay a ps) :
    ∃ p ∈ ps, ∃ b, l = p.toLexeme b := by
  induction ps generalizing a with
  | nil => cases h
  | cons p ps ih =>
    rcases List.mem_cons.mp h with rfl | h
    · exact ⟨p, List.mem_cons_self, a, rfl⟩
    · obtain ⟨q, hq, b, hl⟩ := ih h
      exact ⟨q, List.mem_cons_of_mem p hq, b, hl⟩

/-- What stands in the middle of a line is placed apart from what follows. -/
theorem place_append_lay {ps : List Piece} (h : ps.getLast?.map kind ≠ some .newline)
    (qs : List Piece) (a : Position) : place a false (ps ++ qs) =
      lay a ps ++ place (a.advance (ps.flatMap Piece.text)) false qs := by
  -- whether the line before is ended does not matter to a piece
  suffices hany : ∀ ended : Bool, (ps = [] → ended = false) → place a ended (ps ++ qs) =
      lay a ps ++ place (a.advance (ps.flatMap Piece.text)) false qs from hany false fun _ => rfl
  induction ps generalizing a with
  | nil =>
    intro ended hended
    rw [hended rfl]
    rfl
  | cons p ps ih =>
    intro ended _
    cases ps with
    | nil =>
      have hp : p.kind ≠ .newline := by simpa using h
      simp [place, lay, hp]
    | cons q rs =>
      rw [List.getLast?_cons_cons] at h
      rw [List.cons_append, place, ih h _ _ fun hnil => absurd hnil (List.cons_ne_nil q rs)]
      simp [lay]

/-- A text whose last line is not ended is laid, and an end of the input is put behind it. -/
theorem place_eq_lay {ps : List Piece} (h : ps.getLast?.map kind ≠ some .newline) (a : Position) :
    place a false ps = lay a ps ++ [endOfInput (a.advance (ps.flatMap Piece.text))] := by
  have hplace := place_append_lay h [] a
  rwa [List.append_nil] at hplace

end Piece

namespace Lexeme

open Piece

/-- A lexeme that is neither put together nor decoded is a piece of the source. -/
theorem exists_of_mem_scan {source : String} {l : Lexeme} (hl : l ∈ scan source)
    (hplain : l.kind ≠ .endOfInput ∧ l.kind ≠ .whitespace ∧ l.kind ≠ .string) :
    ∃ p ∈ cut source.toList, p.kind = l.kind ∧ l.literal.toList = p.text := by
  obtain ⟨hend, hblank, hstring⟩ := hplain
  obtain ⟨p, hp, a, rfl⟩ := exists_of_mem_place hl hend
  rw [toLexeme_kind] at hblank hstring
  obtain ⟨q, hq, -, hsame⟩ := exists_of_mem_merge hp
  obtain rfl := hsame hblank
  exact ⟨q, hq, (toLexeme_kind q a).symm, by simp [toLexeme, hstring]⟩

/-! ### Contractions -/

/-- Where no contraction begins, lexemes can be cut without changing how contractions are joined. -/
theorem contract_append_of_head {ms : List Lexeme} (h : ∀ m ∈ ms.head?, m.kind ≠ .contraction)
    (ls : List Lexeme) : contract (ls ++ ms) = contract ls ++ contract ms :=
  contract_append fun m hm _ _ hjoin => h m hm hjoin.1

/-- What is no word and no contraction stays as it is. -/
theorem contract_cons {l : Lexeme} (hword : l.kind ≠ .identifier)
    (hcontraction : l.kind ≠ .contraction) (ls : List Lexeme) :
    contract (l :: ls) = l :: contract ls := by
  rw [contract, settle, if_neg hcontraction]
  cases ls with
  | nil => rfl
  | cons m ms => rw [contractAfter, if_neg fun hjoin => hword hjoin.2, contract]

/-! ### Words without apostrophes -/

theorem toLower_ne_apostrophe {c : Char} (h : Text.isLetter c) : c.toLower ≠ '\'' := by
  intro hc
  unfold Char.toLower at hc
  split at hc
  · rename_i hupper
    have hge : 65 ≤ c.val.toNat := UInt32.le_iff_toNat_le.mp hupper.1
    have hle : c.val.toNat ≤ 90 := UInt32.le_iff_toNat_le.mp hupper.2
    have hval : (c.val + 32).toNat = 39 := congrArg (·.val.toNat) hc
    have hadd : (32 : UInt32).toNat = 32 := rfl
    rw [UInt32.toNat_add] at hval
    omega
  · rw [hc] at h
    exact absurd h (by decide)

/-- A word of letters carries no copula. -/
theorem splitCopula_letters {w : List Char} (hw : Letters w) (a : Position) :
    splitCopula (toLexeme ⟨.identifier, w⟩ a) = [toLexeme ⟨.identifier, w⟩ a] := by
  have hliteral : (toLexeme ⟨.identifier, w⟩ a).literal.toList = w := String.toList_ofList
  have hkind : (toLexeme ⟨.identifier, w⟩ a).kind = .identifier := rfl
  have hquote : ∀ suffix ∈ copulaSuffixes, suffix.head? = some '\'' := by decide
  have hnone : copulaSuffixes.findSome? (cutSuffix? w) = none := by
    refine List.findSome?_eq_none_iff.mpr fun suffix hsuffix => if_neg fun hcut => ?_
    -- what is cut off begins with a letter, and a copula with an apostrophe
    have hsame := congrArg List.head? (beq_iff_eq.mp (Bool.and_eq_true_iff.mp hcut).2)
    rw [Text.lowerAscii, Text.lowerAscii, List.head?_map, List.head?_map,
      hquote suffix hsuffix] at hsame
    obtain ⟨c, hc, hlower⟩ := Option.map_eq_some_iff.mp hsame
    exact toLower_ne_apostrophe (hw.2 c (List.mem_of_mem_drop (List.mem_of_head? hc))) hlower
  rw [splitCopula, if_pos hkind, hliteral, hnone]

/-! ### Stretches of text -/

/-- The lexemes of a stretch of text, without the end of its last line. -/
def fragment (a : Position) (cs : List Char) : List Lexeme :=
  (contract (lay a (merge (cut cs)))).flatMap splitCopula

/-- What a stretch of text is cut and joined to could be written in a source. -/
theorem written_contract_lay (a : Position) (cs : List Char) :
    ∀ l ∈ contract (lay a (merge (cut cs))), l.Written := by
  refine forall_contract (fun _ _ => written_attach) (fun _ => written_settle) _ fun l hl => ?_
  obtain ⟨p, hp, b, rfl⟩ := exists_of_mem_lay hl
  exact written_toLexeme (cut_of_mem_merge (cut_of_mem cs) p hp) b

/-- So could its fragment. -/
theorem written_fragment (a : Position) (cs : List Char) : ∀ l ∈ fragment a cs, l.Written := by
  intro l hl
  obtain ⟨m, hm, hlm⟩ := List.mem_flatMap.mp hl
  exact written_splitCopula (written_contract_lay a cs m hm) l hlm

/-- The lexemes of a stretch of text are the text. -/
theorem characters_fragment (a : Position) (cs : List Char) : characters (fragment a cs) = cs := by
  rw [fragment, characters_splitCopula (written_contract_lay a cs), characters_contract,
    characters_lay, flatMap_merge, flatMap_cut]

/-- A stretch of text within a line. -/
theorem isNewline_of_mem_fragment {a : Position} {cs : List Char} (h : '\n' ∉ cs) :
    ∀ l ∈ fragment a cs, l.isNewline = false := by
  have hcontract : ∀ l ∈ contract (lay a (merge (cut cs))), l.isNewline = false := by
    refine forall_contract (Q := fun l => l.isNewline = false) (fun _ _ _ _ _ _ => rfl)
      (fun l hl => by rwa [settle_isNewline]) _ fun l hl => ?_
    obtain ⟨p, hp, b, rfl⟩ := exists_of_mem_lay hl
    obtain ⟨q, hq, hkind, -⟩ := exists_of_mem_merge hp
    rw [← Bool.not_eq_true, isNewline_iff, toLexeme_kind, ← hkind]
    rintro (hk | hk)
    · exact h (newline_mem_of_cut hq hk)
    · exact (cut_of_mem cs q hq).2 hk
  intro l hl
  obtain ⟨m, hm, hlm⟩ := List.mem_flatMap.mp hl
  rcases splitCopula_cases m with hsplit | ⟨-, stem, copula, -, -, -, hsplit⟩
  · rw [hsplit, List.mem_singleton] at hlm
    exact hlm ▸ hcontract m hm
  · rw [hsplit] at hlm
    rcases List.mem_pair.mp hlm with rfl | rfl <;> rfl

/-- The first lexeme of a text is of the kind that its first character begins. -/
theorem head?_lay (a : Position) (c : Char) (cs : List Char) :
    (lay a (merge (cut (c :: cs)))).head?.map kind = some (extent c cs).1 := by
  have hlay : ∀ ps : List Piece, (lay a ps).head?.map kind = ps.head?.map Piece.kind := by
    intro ps
    cases ps with
    | nil => rfl
    | cons p ps => simp [lay]
  rw [hlay, head?_merge, cut_cons]
  rfl

/-- Only an apostrophe joins the word in front of it. -/
theorem head?_ne_contraction {v : List Char} (h : v.head? ≠ some '\'') (a : Position) :
    ∀ l ∈ (lay a (merge (cut v))).head?, l.kind ≠ .contraction := by
  cases v with
  | nil =>
    intro l hl
    rw [cut_nil] at hl
    cases hl
  | cons c cs =>
    intro l hl
    have hkind := head?_lay a c cs
    rw [hl] at hkind
    rw [Option.some.inj hkind]
    exact extent_ne_contraction (by simpa using h) cs

/-- Where a text is cut in two, its lexemes are those of both parts, unless a blank or a contraction
stands there. -/
theorem fragment_append {u v : List Char} {k : Kind} (hcut : cut (u ++ v) = cut u ++ cut v)
    (hlast : (cut u).getLast?.map Piece.kind = some k) (hk : k ≠ .whitespace)
    (hhead : v.head? ≠ some '\'') (a : Position) :
    fragment a (u ++ v) = fragment a u ++ fragment (a.advance u) v := by
  unfold fragment
  rw [hcut, merge_append hlast hk, lay_append, flatMap_merge, flatMap_cut,
    contract_append_of_head (head?_ne_contraction hhead _), List.flatMap_append]

/-- A source whose last line is not ended. -/
theorem split_eq_fragment {source : String}
    (h : (cut source.toList).getLast?.map Piece.kind ≠ some .newline) :
    (lex source).flatMap splitCopula = fragment .origin source.toList ++
      [endOfInput (Position.origin.advance source.toList)] := by
  rw [← getLast?_merge] at h
  rw [lex, scan, place_eq_lay h, contract_append_of_head, List.flatMap_append, flatMap_merge,
    flatMap_cut]
  · rfl
  · intro m hm
    obtain rfl := Option.some.inj hm
    exact Kind.noConfusion

/-- A stretch of text that begins with no word begins with a lexeme of the kind of its first
piece. -/
theorem fragment_cons {c : Char} (hquote : c ≠ '\'') (hletter : Text.isLetter c = false)
    (cs : List Char) (a : Position) :
    ∃ l ls, fragment a (c :: cs) = l :: ls ∧ l.kind = (extent c cs).1 := by
  have hkind := head?_lay a c cs
  cases hlay : lay a (merge (cut (c :: cs))) with
  | nil =>
    rw [hlay] at hkind
    cases hkind
  | cons l ls =>
    rw [hlay] at hkind
    have hl : l.kind = (extent c cs).1 := Option.some.inj hkind
    have hword : l.kind ≠ .identifier := by
      intro hid
      have hpart : (first c cs).1.isWordPart := by simp [isWordPart, first, ← hl, hid]
      rcases letter_of_isWordPart hpart with rfl | hc
      · exact hquote rfl
      · simp [hletter] at hc
    have hcontraction : l.kind ≠ .contraction := hl ▸ extent_ne_contraction hquote cs
    refine ⟨l, (contract ls).flatMap splitCopula, ?_, hl⟩
    rw [fragment, hlay, contract_cons hword hcontraction, List.flatMap_cons, splitCopula,
      if_neg hword]
    rfl

/-- The fragment of letters is one word. -/
theorem fragment_letters {w : List Char} (hw : Letters w) (a : Position) :
    fragment a w = [toLexeme ⟨.identifier, w⟩ a] := by
  have hcontract : contract (lay a (merge [⟨.identifier, w⟩])) = [toLexeme ⟨.identifier, w⟩ a] := rfl
  rw [fragment, cut_letters_alone hw, hcontract, List.flatMap_singleton, splitCopula_letters hw]

/-- The fragment of blanks and letters is a blank and a word. -/
theorem fragment_blanks_letters {s w : List Char} (hs : Blanks s) (hw : Letters w) (a : Position) :
    fragment a (s ++ w) =
      [toLexeme ⟨.whitespace, s⟩ a, toLexeme ⟨.identifier, w⟩ (a.advance s)] := by
  have hcontract : contract (lay a (merge [⟨.whitespace, s⟩, ⟨.identifier, w⟩])) =
      [toLexeme ⟨.whitespace, s⟩ a, toLexeme ⟨.identifier, w⟩ (a.advance s)] := rfl
  rw [fragment, cut_blanks_letters_alone hs hw, hcontract, List.flatMap_cons,
    List.flatMap_singleton, splitCopula_letters hw]
  rfl

/-! ### The end of a source -/

/-- The lexemes of the end of a source, from the middle of a line on. -/
def ending (a : Position) (cs : List Char) : List Lexeme :=
  (contract (place a false (merge (cut cs)))).flatMap splitCopula

/-- Where it stands makes a difference to the positions of its lexemes only. -/
theorem bare_ending (a b : Position) (cs : List Char) :
    bare (ending a cs) = bare (ending b cs) :=
  bare_split_place a b false _

/-- Where a source is cut in two in the middle of a line, its lexemes are those of both parts. -/
theorem split_append_ending {source : String} {u v : List Char} {k : Kind}
    (hsource : source.toList = u ++ v) (hcut : cut (u ++ v) = cut u ++ cut v)
    (hlast : (cut u).getLast?.map Piece.kind = some k) (hk : k ≠ .whitespace ∧ k ≠ .newline)
    (hhead : v.head? ≠ some '\'') :
    (lex source).flatMap splitCopula =
      fragment .origin u ++ ending (Position.origin.advance u) v := by
  have hline : (merge (cut u)).getLast?.map Piece.kind ≠ some .newline := by
    rw [getLast?_merge, hlast]
    simpa using hk.2
  have hcontraction : ∀ l ∈ (place (Position.origin.advance u) false (merge (cut v))).head?,
      l.kind ≠ .contraction := by
    intro l hl
    cases hps : merge (cut v) with
    | nil =>
      rw [hps] at hl
      obtain rfl := Option.some.inj hl
      exact Kind.noConfusion
    | cons p ps =>
      refine head?_ne_contraction hhead (Position.origin.advance u) l ?_
      rw [hps] at hl ⊢
      exact hl
  rw [lex, scan, hsource, hcut, merge_append hlast hk.1, place_append_lay hline,
    contract_append_of_head, List.flatMap_append, flatMap_merge, flatMap_cut]
  · rfl
  · rw [flatMap_merge, flatMap_cut]
    exact hcontraction

end Lexeme

end Ballad
