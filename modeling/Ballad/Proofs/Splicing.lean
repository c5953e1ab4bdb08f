import Ballad.Proofs.Relocation.Lines
import Ballad.Proofs.Tiling

/-!
# Sources are lexed line by line

Where a line really ends, the lexer starts anew: what stands before the end has no influence on the
lexemes after it, and what stands after it none on those before. Only their positions depend on it.

- `Piece.EndsLine`: a text whose last piece ends a line. A comment or a string that is still open, and
  so takes the line end up, is no such text.
- `Piece.cut_append`: the text after such an end is cut as if it stood alone.
- `Piece.WholeLines`: texts that are made of whole lines.
- `Lexeme.place_move`: lexemes are moved along with their text.
- `Lexeme.continuation`: the lexemes of a text that comes after a line end, without their positions.
- `Lexeme.continuation_append`: the two texts one after the other.
-/

namespace Ballad

namespace Piece

/-- A text whose last piece ends a line. -/
def EndsLine (cs : List Char) : Prop :=
  (cut cs).getLast?.map kind = some .newline

/-- The end of a text ends as the text does. -/
theorem getLast?_of_suffix {c : Char} {cs a : List Char} (h : c :: cs <:+ a) :
    (c :: cs).getLast? = a.getLast? := by
  obtain ⟨u, rfl⟩ := h
  exact (List.getLast?_append_cons u c cs).symm

/-! ### One piece -/

/-- Whether an exponent follows is decided before the end of the line. -/
theorem exponentFollows_append {cs : List Char} (h : cs.getLast? = some '\n') (b : List Char) :
    exponentFollows (cs ++ b) = exponentFollows cs := by
  match cs, h with
  | [c], h =>
    obtain rfl : c = '\n' := by simpa using h
    cases b <;> rfl
  | _ :: _ :: _, _ => rfl

/-- A number looks ahead by two characters at most, and never beyond the end of the line. -/
theorem NumberState.next_append (s : NumberState) {c : Char} {cs : List Char}
    (h : (c :: cs).getLast? = some '\n') (b : List Char) : s.next c (cs ++ b) = s.next c cs := by
  cases cs with
  | nil =>
    obtain rfl : c = '\n' := by simpa using h
    simp [next]
  | cons d ds =>
    rw [List.getLast?_cons_cons] at h
    rw [next, next, exponentFollows_append h b]

/-- A number after which something is left does not depend on what follows that, if none of its
characters looks ahead so far. -/
theorem number_append_right {cs b : List Char}
    (hnext : ∀ (s : NumberState) c ds, c :: ds <:+ cs → s.next c (ds ++ b) = s.next c ds)
    (s : NumberState) (h : (number s cs).2 ≠ []) :
    number s (cs ++ b) = ((number s cs).1, (number s cs).2 ++ b) := by
  induction cs generalizing s with
  | nil => exact absurd rfl h
  | cons c cs ih =>
    rw [number] at h
    rw [List.cons_append, number, number, hnext s c cs (List.suffix_refl _)]
    cases hs : s.next c cs with
    | none => rfl
    | some s' =>
      rw [hs] at h
      have hrest := ih (fun s d ds hds => hnext s d ds (hds.trans (List.suffix_cons c cs))) s' h
      simp [hrest]

/-- A stretch that ends inside of a text ends there with more text behind it. -/
theorem spanWhile_append_right {p : Char → Bool} {cs : List Char} (h : (spanWhile p cs).2 ≠ [])
    (b : List Char) : spanWhile p (cs ++ b) = ((spanWhile p cs).1, (spanWhile p cs).2 ++ b) := by
  unfold spanWhile at *
  induction cs with
  | nil => exact absurd rfl h
  | cons c cs ih =>
    by_cases hc : p c
    · simp only [List.dropWhile_cons_of_pos hc] at h
      have hrest := Prod.mk.inj (ih h)
      simp [hc, hrest.1, hrest.2]
    · simp [hc]

/-- So does a comment. -/
theorem comment_append_right (depth : Nat) {cs : List Char} (h : (comment depth cs).2 ≠ [])
    (b : List Char) : comment depth (cs ++ b) = ((comment depth cs).1, (comment depth cs).2 ++ b) := by
  induction cs generalizing depth with
  | nil => exact absurd rfl h
  | cons c cs ih =>
    rw [comment] at h
    rw [List.cons_append, comment, comment]
    split
    · rfl
    · rename_i hclose
      rw [if_neg hclose] at h
      simp [ih _ h]

/-- So does a string. -/
theorem string_append_right {cs : List Char} (h : (string cs).2 ≠ []) (b : List Char) :
    string (cs ++ b) = ((string cs).1, (string cs).2 ++ b) := by
  fun_induction string cs with
  | case1 => exact absurd rfl h
  | case2 cs => rfl
  | case3 c cs text rest hrest ih =>
    rw [hrest] at ih
    simp only [List.cons_append, string]
    rw [ih h]
  | case4 c cs hquote hescape text rest hrest ih =>
    rw [hrest] at ih
    cases cs with
    | nil =>
      -- nothing follows, so nothing is left over
      rw [string] at hrest
      cases hrest
      exact absurd rfl h
    | cons d ds =>
      rw [List.cons_append, List.cons_append, string]
      · rw [← List.cons_append, ih h]
      · exact hquote
      · intro c' cs' hc hcs
        cases hcs
        exact hescape d ds hc rfl

/-- How far a piece goes is decided by its first character. -/
inductive Rule (c : Char) : Prop where
  | comment (hc : c = '(') (h : ∀ cs, extent c cs = (.comment, Piece.comment 1 cs))
  | string (h : ∀ cs, extent c cs = (.string, Piece.string cs))
  | run (kind : Lexeme.Kind) (p : Char → Bool) (hkind : kind ≠ .newline)
    (hline : p '\n' = false ∧ p '\r' = false)
    (h : ∀ cs, extent c cs = (kind, spanWhile p cs))
  | number
    (h : ∀ cs, extent c cs = (numberKind c (number (.start c) cs).1, Piece.number (.start c) cs))
  | lineFeed (hc : c = '\n') (h : ∀ cs, extent c cs = (.newline, [], cs))
  | carriageReturn (hc : c = '\r') (hfeed : ∀ cs, extent c ('\n' :: cs) = (.newline, ['\n'], cs))
    (h : ∀ cs, cs.head? ≠ some '\n' → extent c cs = (.whitespace, [], cs))
  | alone (kind : Lexeme.Kind) (hkind : kind ≠ .newline) (h : ∀ cs, extent c cs = (kind, [], cs))

/-- **What a piece is depends on the text behind it in one of four ways**, as its first character
says. -/
theorem rule (c : Char) : Rule c := by
  by_cases h₁ : c = '('
  · exact .comment h₁ fun cs => by rw [extent.eq_def, if_pos h₁]
  by_cases h₂ : c = '"'
  · exact .string fun cs => by rw [extent.eq_def, if_neg h₁, if_pos h₂]
  by_cases h₃ : c = '\''
  · exact .run .contraction Text.isLetter (by decide) (by decide) fun cs => by
      rw [extent.eq_def, if_neg h₁, if_neg h₂, if_pos h₃]
  by_cases h₄ : Text.isLetter c
  · exact .run .identifier Text.isLetter (by decide) (by decide) fun cs => by
      rw [extent.eq_def, if_neg h₁, if_neg h₂, if_neg h₃, if_pos h₄]
  by_cases h₅ : (c.isDigit || c = '+' || c = '-' || c = '.')
  · exact .number fun cs => by
      rw [extent.eq_def, if_neg h₁, if_neg h₂, if_neg h₃, if_neg h₄, if_pos h₅]
  by_cases h₆ : c = '\n'
  · exact .lineFeed h₆ fun cs => by
      rw [extent.eq_def, if_neg h₁, if_neg h₂, if_neg h₃, if_neg h₄, if_neg h₅, if_pos h₆]
  by_cases h₇ : c = '\r'
  · refine .carriageReturn h₇ (fun cs => ?_) fun cs hcs => ?_
    · rw [extent.eq_def, if_neg h₁, if_neg h₂, if_neg h₃, if_neg h₄, if_neg h₅, if_neg h₆, if_pos h₇]
      rfl
    · rw [extent.eq_def, if_neg h₁, if_neg h₂, if_neg h₃, if_neg h₄, if_neg h₅, if_neg h₆, if_pos h₇]
      split
      · exact absurd rfl hcs
      · rfl
  by_cases h₈ : (c = ',' || c = '&')
  · exact .alone .delimiter (by decide) fun cs => by
      rw [extent.eq_def, if_neg h₁, if_neg h₂, if_neg h₃, if_neg h₄, if_neg h₅, if_neg h₆, if_neg h₇,
        if_pos h₈]
  by_cases h₉ : isSpace c
  · exact .run .whitespace isSpace (by decide) (by decide) fun cs => by
      rw [extent.eq_def, if_neg h₁, if_neg h₂, if_neg h₃, if_neg h₄, if_neg h₅, if_neg h₆, if_neg h₇,
        if_neg h₈, if_pos h₉]
  · exact .alone .whitespace (by decide) fun cs => by
      rw [extent.eq_def, if_neg h₁, if_neg h₂, if_neg h₃, if_neg h₄, if_neg h₅, if_neg h₆, if_neg h₇,
        if_neg h₈, if_neg h₉]

/-- A piece after which something is left does not depend on what follows that, if numbers do not
look ahead so far. -/
theorem extent_append_right {c : Char} {cs b : List Char} (hrest : (extent c cs).2.2 ≠ [])
    (hnext : ∀ (s : NumberState) d ds, d :: ds <:+ cs → s.next d (ds ++ b) = s.next d ds) :
    extent c (cs ++ b) = ((extent c cs).1, (extent c cs).2.1, (extent c cs).2.2 ++ b) := by
  cases rule c with
  | comment _ h =>
    rw [h] at hrest
    rw [h, h, comment_append_right 1 hrest b]
  | string h =>
    rw [h] at hrest
    rw [h, h, string_append_right hrest b]
  | run kind p _ _ h =>
    rw [h] at hrest
    rw [h, h, spanWhile_append_right hrest b]
  | number h =>
    rw [h] at hrest
    rw [h, h, number_append_right hnext _ hrest]
  | lineFeed _ h => rw [h, h]
  | alone kind _ h => rw [h, h]
  | carriageReturn _ hfeed h =>
    cases cs with
    | nil =>
      rw [h [] (by simp)] at hrest
      exact absurd rfl hrest
    | cons d ds =>
      by_cases hd : d = '\n'
      · subst hd
        rw [List.cons_append, hfeed, hfeed]
      · rw [List.cons_append, h _ (by simpa using hd), h _ (by simpa using hd), List.cons_append]

/-- A piece that ends a line is a line feed, perhaps with a carriage return before it. -/
theorem extent_newline {c : Char} {cs : List Char} (h : (extent c cs).1 = .newline) :
    c = '\n' ∨ c = '\r' ∧ ∃ rest, cs = '\n' :: rest := by
  cases rule c with
  | comment _ hrule | string hrule =>
    rw [hrule] at h
    cases h
  | run kind _ hkind _ hrule | alone kind hkind hrule =>
    rw [hrule] at h
    exact absurd h hkind
  | number hrule =>
    rw [hrule] at h
    dsimp only [numberKind] at h
    split at h <;> cases h
  | lineFeed hc _ => exact .inl hc
  | carriageReturn hc _ hrule =>
    refine .inr ⟨hc, ?_⟩
    by_cases hcs : cs.head? = some '\n'
    · exact ⟨cs.tail, List.eq_cons_of_mem_head? hcs⟩
    · rw [hrule cs hcs] at h
      cases h

/-- A piece after which something is left, and a piece that ends a line, does not depend on what
follows. -/
theorem first_append_right {c : Char} {cs : List Char} (hend : (c :: cs).getLast? = some '\n')
    (h : (first c cs).1.kind = .newline ∨ (first c cs).2 ≠ []) (b : List Char) :
    first c (cs ++ b) = ((first c cs).1, (first c cs).2 ++ b) := by
  rcases h with h | h
  · rcases extent_newline h with rfl | ⟨rfl, rest, rfl⟩
    · rfl
    · rfl
  · cases cs with
    | nil =>
      obtain rfl : c = '\n' := by simpa using hend
      rfl
    | cons d ds =>
      rw [List.getLast?_cons_cons] at hend
      simp only [first]
      rw [extent_append_right h fun s _ _ hes => s.next_append ((getLast?_of_suffix hes).trans hend) b]

/-! ### All pieces -/

theorem cut_nil : cut [] = [] := by
  rw [cut]

/-- A text is cut piece by piece. -/
theorem cut_cons (c : Char) (cs : List Char) :
    cut (c :: cs) = (first c cs).1 :: cut (first c cs).2 := by
  rw [cut]

/-- The pieces from some point on are those of the text from there on. -/
theorem cut_flatMap_of_append {cs : List Char} {before after : List Piece}
    (h : cut cs = before ++ after) : cut (after.flatMap text) = after := by
  induction before generalizing cs with
  | nil => rw [← List.nil_append after, ← h, flatMap_cut]
  | cons p before ih =>
    cases cs with
    | nil =>
      rw [cut_nil] at h
      cases h
    | cons c cs =>
      rw [cut_cons] at h
      exact ih (List.cons.inj h).2

/-- If the last piece of a text is the end of a line, so is the last one of what is left after a
piece. -/
theorem getLast?_cut_rest {p : Piece} {cs : List Char} (hne : cs ≠ [])
    (h : (p :: cut cs).getLast?.map kind = some .newline) : EndsLine cs := by
  cases cs with
  | nil => exact absurd rfl hne
  | cons c cs =>
    rw [cut_cons, List.getLast?_cons_cons] at h
    rwa [EndsLine, cut_cons]

/-- A text whose last piece ends a line ends with a line feed. -/
theorem getLast?_of_endsLine {cs : List Char} (h : EndsLine cs) : cs.getLast? = some '\n' := by
  unfold EndsLine at h
  fun_induction cut cs with
  | case1 => cases h
  | case2 c cs ih =>
    by_cases hrest : (first c cs).2 = []
    · -- the piece is the last one, so it ends a line
      rw [hrest, cut_nil] at h
      rcases extent_newline (Option.some.inj h) with rfl | ⟨rfl, rest, rfl⟩
      · rw [show cs = [] from hrest]
        rfl
      · rw [show rest = [] from hrest]
        rfl
    · rw [← first_append c cs, List.getLast?_append, ih (getLast?_cut_rest hrest h)]
      rfl

/-- A text is cut as if it stood alone, if every piece before it ends where it would end without the
text. The last of them satisfies `P`, and after the others something is left. -/
theorem cut_append_of {P : Piece → Prop} {a b : List Char}
    (hfirst : ∀ c cs, c :: cs <:+ a → P (first c cs).1 ∨ (first c cs).2 ≠ [] →
      first c (cs ++ b) = ((first c cs).1, (first c cs).2 ++ b))
    (hlast : ∃ p, (cut a).getLast? = some p ∧ P p) : cut (a ++ b) = cut a ++ cut b := by
  fun_induction cut a with
  | case1 =>
    obtain ⟨p, hp, -⟩ := hlast
    cases hp
  | case2 c cs ih =>
    have hself := hfirst c cs (List.suffix_refl _)
    by_cases hrest : (first c cs).2 = []
    · obtain ⟨p, hp, hP⟩ := hlast
      rw [hrest, cut_nil] at hp
      cases hp
      rw [List.cons_append, cut_cons, hself (.inl hP), hrest, cut_nil]
      rfl
    · obtain ⟨d, ds, hds⟩ := List.exists_cons_of_ne_nil hrest
      rw [hds, cut_cons, List.getLast?_cons_cons, ← cut_cons, ← hds] at hlast
      have hsuffix : (first c cs).2 <:+ c :: cs := ⟨(first c cs).1.text, first_append c cs⟩
      rw [List.cons_append, cut_cons, hself (.inr hrest),
        ih (fun d ds hds => hfirst d ds (hds.trans hsuffix)) hlast]
      rfl

/-- After the end of a line the text is cut as if it stood alone. -/
theorem cut_append {a : List Char} (h : EndsLine a) (b : List Char) :
    cut (a ++ b) = cut a ++ cut b := by
  have hend := getLast?_of_endsLine h
  refine cut_append_of (P := fun p => p.kind = .newline) (fun c cs hcs hfirst => ?_)
    (Option.map_eq_some_iff.mp h)
  exact first_append_right ((getLast?_of_suffix hcs).trans hend) hfirst b

/-- A text that is made of whole lines. -/
def WholeLines (cs : List Char) : Prop :=
  cs = [] ∨ EndsLine cs

/-- Whole lines behind whole lines are whole lines. -/
theorem WholeLines.append {a b : List Char} (ha : WholeLines a) (hb : WholeLines b) :
    WholeLines (a ++ b) := by
  rcases ha with rfl | ha
  · exact hb
  rcases hb with rfl | hb
  · rw [List.append_nil]
    exact .inr ha
  · have hlast : EndsLine (a ++ b) := by
      unfold EndsLine at *
      rw [cut_append ha, List.getLast?_append]
      cases hlast : (cut b).getLast? with
      | none =>
        rw [hlast] at hb
        cases hb
      | some p => rwa [hlast] at hb
    exact .inr hlast

/-! ### Blanks -/

theorem join_ne_nil (p : Piece) (ps : List Piece) : p.join ps ≠ [] := by
  cases ps with
  | nil => simp [join]
  | cons q qs =>
    rw [join]
    split <;> simp

/-- Joining a blank looks at the first of the other pieces only. -/
theorem join_append (p : Piece) {ps : List Piece} (h : ps ≠ []) (qs : List Piece) :
    p.join (ps ++ qs) = p.join ps ++ qs := by
  cases ps with
  | nil => exact absurd rfl h
  | cons q rs =>
    rw [List.cons_append, join, join]
    split <;> rfl

/-- Joining a blank in front does not change how pieces end. -/
theorem getLast?_join (p : Piece) {ps : List Piece} (h : ps ≠ []) :
    (p.join ps).getLast?.map kind = ps.getLast?.map kind := by
  match ps, h with
  | [q], _ =>
    rw [join]
    split
    · rename_i hblank
      simp [hblank.2]
    · rfl
  | q :: r :: rs, _ =>
    rw [join]
    split <;> simp

/-- Nor does joining all blanks. -/
theorem getLast?_merge (ps : List Piece) : (merge ps).getLast?.map kind = ps.getLast?.map kind := by
  induction ps with
  | nil => rfl
  | cons p ps ih =>
    cases ps with
    | nil => rfl
    | cons q qs =>
      have hne : merge (q :: qs) ≠ [] := join_ne_nil q (merge qs)
      rw [List.getLast?_cons_cons, ← ih]
      exact getLast?_join p hne

/-- A piece that is no blank joins nothing. -/
theorem merge_append_cons {p : Piece} (h : p.kind ≠ .whitespace) (ps qs : List Piece) :
    merge (ps ++ p :: qs) = merge ps ++ p :: merge qs := by
  induction ps with
  | nil =>
    show p.join (merge qs) = p :: merge qs
    cases merge qs with
    | nil => rfl
    | cons q rs => exact if_neg fun hblank => h hblank.1
  | cons q ps ih =>
    show q.join (merge (ps ++ p :: qs)) = q.join (merge ps) ++ p :: merge qs
    rw [ih]
    cases merge ps with
    | nil => exact if_neg fun hblank => h hblank.2
    | cons r rs => exact join_append q (List.cons_ne_nil r rs) (p :: merge qs)

/-- Blanks are not joined over anything else. -/
theorem merge_append {ps : List Piece} {k : Lexeme.Kind} (h : ps.getLast?.map kind = some k)
    (hk : k ≠ .whitespace) (qs : List Piece) : merge (ps ++ qs) = merge ps ++ merge qs := by
  obtain ⟨p, hlast, rfl⟩ := Option.map_eq_some_iff.mp h
  obtain ⟨before, rfl⟩ := List.getLast?_eq_some_iff.mp hlast
  have halone : merge (before ++ [p]) = merge before ++ [p] := merge_append_cons hk before []
  rw [halone, List.append_assoc, List.append_assoc]
  exact merge_append_cons hk before qs

/-! ### Placing -/

/-- Placed pieces end with the end of a line if the pieces do. -/
theorem getLast?_place (ps : List Piece) :
    ∀ (a : Position) (ended : Bool), ((place a ended ps).getLast?.map Lexeme.kind = some .newline ↔
      ps.getLast?.map kind = some .newline) := by
  induction ps with
  | nil =>
    intro a ended
    cases ended <;> simp [place, endOfInput]
  | cons p ps ih =>
    intro a ended
    rw [place]
    cases ps with
    | nil =>
      rw [place]
      by_cases hp : p.kind = .newline
      · simp [hp]
      · simp [hp, endOfInput]
    | cons q qs =>
      rw [List.getLast?_cons_cons, ← ih (a.advance p.text) (p.kind = .newline), place,
        List.getLast?_cons_cons]

/-- After the end of a line, pieces are placed from there on. -/
theorem place_append {ps : List Piece} (qs : List Piece) :
    ∀ (a : Position) (ended : Bool), ps.getLast?.map kind = some .newline →
      place a ended (ps ++ qs) =
        place a ended ps ++ place (a.advance (ps.flatMap Piece.text)) true qs := by
  induction ps with
  | nil =>
    intro a ended h
    cases h
  | cons p ps ih =>
    intro a ended h
    rw [List.cons_append, place, place]
    cases ps with
    | nil =>
      have hp : p.kind = .newline := Option.some.inj h
      simp [place, hp]
    | cons q rs =>
      rw [List.getLast?_cons_cons] at h
      rw [ih _ _ h]
      simp

end Piece

namespace Lexeme

open Piece Placed

/-! ### Contractions -/

theorem contractAfter_ne_nil (last : Lexeme) (ls : List Lexeme) : contractAfter last ls ≠ [] := by
  induction ls generalizing last with
  | nil => simp [contractAfter]
  | cons l ls ih =>
    rw [contractAfter]
    split
    · exact ih _
    · simp

/-- How the list ends after a lexeme depends on that lexeme only if the list is empty. -/
theorem getLast?_cons_congr {x y : Lexeme} {ls : List Lexeme}
    (h : ls = [] → (x.kind = .newline ↔ y.kind = .newline)) :
    ((x :: ls).getLast?.map kind = some .newline ↔ (y :: ls).getLast?.map kind = some .newline) := by
  cases ls with
  | nil => simpa using h rfl
  | cons l ls => rw [List.getLast?_cons_cons, List.getLast?_cons_cons]

theorem settle_newline_iff (l : Lexeme) : l.settle.kind = .newline ↔ l.kind = .newline := by
  rcases settle_kind l with ⟨hk, -⟩ | ⟨hc, hk | hk⟩ <;> simp [*]

/-- Contractions join words only, so the end of a line stays what lexemes end with. -/
theorem getLast?_contractAfter (ls : List Lexeme) :
    ∀ last : Lexeme, ((contractAfter last ls).getLast?.map kind = some .newline ↔
      (last :: ls).getLast?.map kind = some .newline) := by
  induction ls with
  | nil =>
    intro last
    rfl
  | cons l ls ih =>
    intro last
    rw [contractAfter, List.getLast?_cons_cons]
    split
    · rename_i hjoin
      rw [ih]
      exact getLast?_cons_congr fun _ => by simp [attach, hjoin.1]
    · obtain ⟨m, ms, hm⟩ := List.exists_cons_of_ne_nil (contractAfter_ne_nil l.settle ls)
      rw [hm, List.getLast?_cons_cons, ← hm, ih]
      exact getLast?_cons_congr fun _ => settle_newline_iff l

theorem getLast?_contract (ls : List Lexeme) :
    (contract ls).getLast?.map kind = some .newline ↔ ls.getLast?.map kind = some .newline := by
  cases ls with
  | nil => rfl
  | cons l ls =>
    rw [contract, getLast?_contractAfter]
    exact getLast?_cons_congr fun _ => settle_newline_iff l

/-- Lexemes can be cut wherever a contraction does not follow a word. -/
theorem contractAfter_append {ms : List Lexeme} (ls : List Lexeme) :
    ∀ last : Lexeme, (∀ m ∈ ms.head?, ∀ k ∈ (contractAfter last ls).getLast?,
        ¬ (m.kind = .contraction ∧ k.kind = .identifier)) →
      contractAfter last (ls ++ ms) = contractAfter last ls ++ contract ms := by
  induction ls with
  | nil =>
    intro last h
    cases ms with
    | nil => rfl
    | cons m ms =>
      show contractAfter last (m :: ms) = last :: contract (m :: ms)
      rw [contractAfter, if_neg (h m rfl last rfl), contract]
  | cons l ls ih =>
    intro last h
    rw [List.cons_append, contractAfter, contractAfter]
    rw [contractAfter] at h
    split
    · rename_i hjoin
      rw [if_pos hjoin] at h
      exact ih _ h
    · rename_i hapart
      obtain ⟨k, ks, hk⟩ := List.exists_cons_of_ne_nil (contractAfter_ne_nil l.settle ls)
      rw [if_neg hapart, hk, List.getLast?_cons_cons, ← hk] at h
      rw [ih _ h]
      rfl

/-- Lexemes are contracted apart, unless a contraction comes after a word. -/
theorem contract_append {ls ms : List Lexeme} (h : ∀ m ∈ ms.head?, ∀ k ∈ (contract ls).getLast?,
      ¬ (m.kind = .contraction ∧ k.kind = .identifier)) :
    contract (ls ++ ms) = contract ls ++ contract ms := by
  cases ls with
  | nil => rfl
  | cons l ls => exact contractAfter_append ls l.settle h

/-- In particular they can be cut after the end of a line. -/
theorem contract_append_of_newline {ls : List Lexeme} (h : ls.getLast?.map kind = some .newline)
    (ms : List Lexeme) : contract (ls ++ ms) = contract ls ++ contract ms := by
  refine contract_append ?_
  rintro m - k hk ⟨-, hword⟩
  have hnewline := (getLast?_contract ls).mpr h
  rw [hk] at hnewline
  rw [Option.some.inj hnewline] at hword
  cases hword

/-- The lexer ends with a line end of the source exactly if the source does. -/
theorem endsLine_iff (source : String) :
    EndsLine source.toList ↔ (lex source).getLast?.map kind = some .newline := by
  rw [lex, getLast?_contract, scan, getLast?_place, getLast?_merge]
  rfl

/-! ### Positions -/

variable (g : Position → Position)

/-- A piece that begins elsewhere is its lexeme, moved. -/
theorem toLexeme_move {p : Piece} {a b : Position} (hstart : g a = b)
    (hstop : g (a.advance p.text) = b.advance p.text) : p.toLexeme b = move g (p.toLexeme a) := by
  subst hstart
  unfold toLexeme Span.ofText
  rw [← hstop]
  dsimp only
  split <;> rfl

/-- Lexemes are moved along with the position at which their text begins. -/
theorem place_move {a b : Position} (h : ∀ cs, g (a.advance cs) = b.advance cs) (ended : Bool)
    (ps : List Piece) : place b ended ps = move g (place a ended ps) := by
  have hstart : g a = b := h []
  induction ps generalizing a b ended with
  | nil =>
    subst hstart
    cases ended <;> rfl
  | cons p ps ih =>
    have hrest : ∀ cs, g ((a.advance p.text).advance cs) = (b.advance p.text).advance cs := by
      intro cs
      rw [← Position.advance_append, ← Position.advance_append]
      exact h (p.text ++ cs)
    rw [place, place, move_cons, toLexeme_move g hstart (h p.text), ih hrest _ (h p.text)]

theorem move_settle (l : Lexeme) : move g l.settle = (move g l).settle := by
  unfold settle
  rw [Lexeme.move_kind]
  split <;> rfl

/-- Contractions are joined wherever they stand. -/
theorem move_contractAfter (last : Lexeme) (ls : List Lexeme) :
    move g (contractAfter last ls) = contractAfter (move g last) (move g ls) := by
  induction ls generalizing last with
  | nil => rfl
  | cons l ls ih =>
    rw [move_cons, contractAfter, contractAfter, Lexeme.move_kind, Lexeme.move_kind]
    split
    · rw [ih]
      rfl
    · rw [move_cons, ih, move_settle]

theorem move_contract (ls : List Lexeme) : move g (contract ls) = contract (move g ls) := by
  cases ls with
  | nil => rfl
  | cons l ls => rw [contract, move_contractAfter, move_settle, move_cons, contract]

/-! ### Without positions -/

/-- But for positions, pieces are the same lexemes wherever they begin. -/
theorem bare_place (a a' : Position) (ended : Bool) (ps : List Piece) :
    bare (place a ended ps) = bare (place a' ended ps) := by
  induction ps generalizing a a' ended with
  | nil => cases ended <;> rfl
  | cons p ps ih =>
    have hfirst : bare (p.toLexeme a) = bare (p.toLexeme a') := by
      unfold toLexeme
      dsimp only
      split <;> rfl
    rw [place, place]
    show bare (p.toLexeme a) :: bare (place _ _ ps) = bare (p.toLexeme a') :: bare (place _ _ ps)
    rw [hfirst, ih]

/-- But for positions, a word is split into the same two parts wherever it stands. -/
theorem bare_splitCopula {l m : Lexeme} (h : bare l = bare m) :
    bare (splitCopula l) = bare (splitCopula m) := by
  have hkind : (bare l).kind = (bare m).kind := congrArg kind h
  have hliteral : (bare l).literal = (bare m).literal := congrArg literal h
  change l.kind = m.kind at hkind
  change l.literal = m.literal at hliteral
  have hself : bare [l] = bare [m] := congrArg (· :: []) h
  unfold splitCopula
  rw [hkind, hliteral]
  split
  · split
    · rfl
    · exact hself
  · exact hself

/-- So are all words. -/
theorem bare_flatMap_splitCopula {ls ms : List Lexeme} (h : bare ls = bare ms) :
    bare (ls.flatMap splitCopula) = bare (ms.flatMap splitCopula) := by
  induction ls generalizing ms with
  | nil =>
    cases ms with
    | nil => rfl
    | cons m ms => cases h
  | cons l ls ih =>
    cases ms with
    | nil => cases h
    | cons m ms =>
      obtain ⟨hhead, htail⟩ := List.cons.inj h
      rw [List.flatMap_cons, List.flatMap_cons, bare_append, bare_append, bare_splitCopula hhead,
        ih htail]

/-- Where a text stands makes a difference to the positions of its lexemes only. -/
theorem bare_split_place (a a' : Position) (ended : Bool) (ps : List Piece) :
    bare ((contract (place a ended ps)).flatMap splitCopula) =
      bare ((contract (place a' ended ps)).flatMap splitCopula) := by
  refine bare_flatMap_splitCopula ?_
  unfold bare
  rw [move_contract, move_contract]
  exact congrArg contract (bare_place a a' ended ps)

/-- The lexemes of a text that comes after a line end, without their positions. -/
def continuation (cs : List Char) : List Lexeme :=
  bare ((contract (place .origin true (merge (cut cs)))).flatMap splitCopula)

theorem continuation_nil : continuation [] = [] := by
  rw [continuation, cut_nil]
  rfl

/-- **Behind whole lines, a text is read as on its own**, but for positions. -/
theorem continuation_append {a : List Char} (h : WholeLines a) (b : List Char) :
    continuation (a ++ b) = continuation a ++ continuation b := by
  rcases h with rfl | h
  · rw [continuation_nil]
    rfl
  have hmerge : (merge (cut a)).getLast?.map Piece.kind = some .newline := by
    rw [getLast?_merge]
    exact h
  have hplace := (getLast?_place (merge (cut a)) .origin true).mpr hmerge
  unfold continuation
  rw [cut_append h, merge_append h (by decide), place_append _ _ _ hmerge, contract_append_of_newline hplace,
    List.flatMap_append, bare_append]
  exact congrArg _ (bare_split_place _ .origin true _)

/-- A source that is not empty is lexed as a text after a line end is. -/
theorem lex_eq_of_ne_empty {source : String} (h : source ≠ "") :
    lex source = contract (place .origin true (merge (cut source.toList))) := by
  have hne : merge (cut source.toList) ≠ [] := by
    intro hnil
    have htext := flatMap_merge (cut source.toList)
    rw [hnil, flatMap_cut] at htext
    exact h (String.toList_inj.mp htext.symm)
  rw [lex, scan]
  cases hps : merge (cut source.toList) with
  | nil => exact absurd hps hne
  | cons p ps => rfl

/-- A source that is not empty begins as a text after a line end does. -/
theorem bare_lex {source : String} (h : source ≠ "") :
    bare ((lex source).flatMap splitCopula) = continuation source.toList := by
  rw [lex_eq_of_ne_empty h]
  rfl

end Lexeme

end Ballad
