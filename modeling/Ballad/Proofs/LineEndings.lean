import Ballad.Proofs.Concatenation
import Ballad.Proofs.Fragments
import Ballad.Proofs.Reading.Exchange

/-!
# Line endings

A line may end with a carriage return and a line feed instead of a line feed. What is read does not
depend on it, and neither do the positions of anything: a carriage return before a line feed is part of
the end of the line, and no other lexeme ever gets to see it.

- `Text.crlf`: a text with the other line endings.
- `Piece.cut_crlf`: it is cut into the same pieces, line ends apart (`Piece.widen`). Only comments and
  strings can reach over the end of a line.
- `Lexeme.split_crlf`: its lexemes stand at the same places (`Lexeme.widen`).
- `Lexeme.exchange_widen`: for the reader, one end of a line is as good as the other.
-/

namespace Ballad

namespace Text

/-- A text with a carriage return in front of every line feed. -/
def crlf (cs : List Char) : List Char :=
  cs.flatMap fun c => if c = '\n' then ['\r', '\n'] else [c]

theorem crlf_nil : crlf [] = [] := rfl

theorem crlf_newline (cs : List Char) : crlf ('\n' :: cs) = '\r' :: '\n' :: crlf cs := rfl

theorem crlf_cons {c : Char} (h : c ≠ '\n') (cs : List Char) : crlf (c :: cs) = c :: crlf cs := by
  rw [crlf, List.flatMap_cons, if_neg h]
  rfl

end Text

open Text

namespace Piece

variable {cs : List Char}

/-! ### One piece -/

/-- A run that takes up neither character of a line end stops in front of either line ending. -/
theorem spanWhile_crlf {p : Char → Bool} (hreturn : p '\r' = false) (hfeed : p '\n' = false)
    (cs : List Char) :
    spanWhile p (crlf cs) = ((spanWhile p cs).1, crlf (spanWhile p cs).2) := by
  unfold spanWhile
  induction cs with
  | nil => rfl
  | cons c cs ih =>
    by_cases hc : c = '\n'
    · subst hc
      rw [crlf_newline]
      simp [hreturn, hfeed, crlf_newline]
    · rw [crlf_cons hc]
      obtain ⟨htake, hdrop⟩ := Prod.mk.inj ih
      by_cases hp : p c
      · simp [hp, htake, hdrop]
      · simp [hp, crlf_cons hc]

/-- An exponent is recognized with either line ending. -/
theorem exponentFollows_crlf (cs : List Char) : exponentFollows (crlf cs) = exponentFollows cs := by
  match cs with
  | [] => rfl
  | [c] =>
    by_cases hc : c = '\n'
    · subst hc
      rfl
    · rw [crlf_cons hc]
      rfl
  | c :: d :: cs =>
    by_cases hc : c = '\n'
    · subst hc
      rfl
    · rw [crlf_cons hc]
      by_cases hd : d = '\n'
      · subst hd
        rfl
      · rw [crlf_cons hd]
        rfl

/-- So is a number. -/
theorem number_crlf (s : NumberState) (cs : List Char) :
    number s (crlf cs) = ((number s cs).1, crlf (number s cs).2) := by
  induction cs generalizing s with
  | nil => rfl
  | cons c cs ih =>
    by_cases hc : c = '\n'
    · subst hc
      rfl
    · rw [crlf_cons hc, number, number]
      have hnext : s.next c (crlf cs) = s.next c cs := by
        unfold NumberState.next
        rw [exponentFollows_crlf]
      rw [hnext]
      cases s.next c cs with
      | none => rw [crlf_cons hc]
      | some s =>
        dsimp only
        rw [ih]

/-- A comment within a line. -/
theorem comment_crlf (depth : Nat) (h : '\n' ∉ (comment depth cs).1) :
    comment depth (crlf cs) = ((comment depth cs).1, crlf (comment depth cs).2) := by
  induction cs generalizing depth with
  | nil => rfl
  | cons c cs ih =>
    by_cases hclose : c = ')' ∧ depth ≤ 1
    · have hc : c ≠ '\n' := by
        rw [hclose.1]
        decide
      rw [crlf_cons hc, comment, comment, if_pos hclose, if_pos hclose]
    · rw [comment, if_neg hclose, List.mem_cons, not_or] at h
      obtain ⟨hc, hrest⟩ := h
      rw [crlf_cons (Ne.symm hc), comment, comment, if_neg hclose, if_neg hclose]
      dsimp only
      rw [ih _ hrest]

/-- A string within a line. -/
theorem string_crlf (h : '\n' ∉ (string cs).1) :
    string (crlf cs) = ((string cs).1, crlf (string cs).2) := by
  fun_induction string cs with
  | case1 => rfl
  | case2 cs =>
    rw [crlf_cons (by decide)]
    rfl
  | case3 c cs text rest hrest ih =>
    rw [hrest] at ih
    simp only [List.mem_cons, not_or] at h
    rw [crlf_cons (by decide), crlf_cons (Ne.symm h.2.1), string, ih h.2.2]
  | case4 c cs hquote hescape text rest hrest ih =>
    rw [hrest] at ih
    rw [List.mem_cons, not_or] at h
    obtain ⟨hc, htext⟩ := h
    rw [crlf_cons (Ne.symm hc), string, ih htext]
    · exact hquote
    · -- a backslash that nothing follows
      intro d ds hslash hds
      cases cs with
      | nil => cases hds
      | cons e es => exact hescape e es hslash rfl

/-- A piece that ends no line, and does not reach over the end of one. -/
theorem extent_crlf {c : Char} (hreturn : c ≠ '\r') (hfeed : c ≠ '\n')
    (h : (extent c cs).1 = .string ∨ (extent c cs).1 = .comment → '\n' ∉ (extent c cs).2.1) :
    extent c (crlf cs) = ((extent c cs).1, (extent c cs).2.1, crlf (extent c cs).2.2) := by
  cases rule c with
  | comment _ hrule =>
    rw [hrule] at h
    rw [hrule, hrule, comment_crlf 1 (h (.inr rfl))]
  | string hrule =>
    rw [hrule] at h
    rw [hrule, hrule, string_crlf (h (.inl rfl))]
  | run kind p _ hline hrule => rw [hrule, hrule, spanWhile_crlf hline.2 hline.1]
  | number hrule => rw [hrule, hrule, number_crlf]
  | lineFeed hc => exact absurd hc hfeed
  | carriageReturn hc => exact absurd hc hreturn
  | alone kind _ hrule => rw [hrule, hrule]

/-! ### All pieces -/

/-- A piece as it stands in a text with the other line endings. -/
def widen (p : Piece) : Piece :=
  if p.kind = .newline then ⟨.newline, ['\r', '\n']⟩ else p

/-- A line end stays a line end, and nothing else becomes one. -/
theorem widen_kind (p : Piece) : p.widen.kind = p.kind := by
  unfold widen
  split
  · rename_i hp
    exact hp.symm
  · rfl

/-- Only line ends are widened. -/
theorem widen_of_ne {p : Piece} (h : p.kind ≠ .newline) : p.widen = p :=
  if_neg h

/-- A text without carriage returns whose comments and strings lie within one line each is cut into
the same pieces. -/
theorem cut_crlf (hreturn : '\r' ∉ cs)
    (h : ∀ p ∈ cut cs, p.kind = .string ∨ p.kind = .comment → '\n' ∉ p.text) :
    cut (crlf cs) = (cut cs).map widen := by
  fun_induction cut cs with
  | case1 => rw [crlf_nil, cut_nil, List.map_nil]
  | case2 c cs ih =>
    have hrest : '\r' ∉ (first c cs).2 := by
      intro hmem
      rw [← first_append c cs] at hreturn
      exact hreturn (List.mem_append_right _ hmem)
    obtain ⟨hself, htail⟩ := List.forall_mem_cons.mp h
    rw [List.map_cons, ← ih hrest htail]
    by_cases hfeed : c = '\n'
    · subst hfeed
      rw [crlf_newline, cut_cons]
      rfl
    · have hc : c ≠ '\r' := by
        rintro rfl
        exact hreturn List.mem_cons_self
      have hkind : (first c cs).1.kind ≠ .newline := by
        intro hk
        rcases extent_newline hk with rfl | ⟨rfl, -⟩
        · exact hfeed rfl
        · exact hc rfl
      have htext : (extent c cs).1 = .string ∨ (extent c cs).1 = .comment →
          '\n' ∉ (extent c cs).2.1 :=
        fun hk hmem => hself hk (List.mem_cons_of_mem c hmem)
      rw [crlf_cons hfeed, cut_cons, widen_of_ne hkind, first, extent_crlf hc hfeed htext]
      rfl

/-- Blanks are joined before or after line ends are widened. -/
theorem merge_widen (ps : List Piece) : merge (ps.map widen) = (merge ps).map widen := by
  induction ps with
  | nil => rfl
  | cons p ps ih =>
    show p.widen.join (merge (ps.map widen)) = (p.join (merge ps)).map widen
    rw [ih]
    cases merge ps with
    | nil => rfl
    | cons q qs =>
      rw [List.map_cons, join, join, widen_kind, widen_kind]
      split
      · rename_i hblank
        have hp : p.kind ≠ .newline := by simp [hblank.1]
        have hq : q.kind ≠ .newline := by simp [hblank.2]
        rw [widen_of_ne hp, widen_of_ne hq]
        rfl
      · rfl

/-- A line ends with a line feed, perhaps with a carriage return before it. -/
theorem text_of_newline {p : Piece} (hp : p ∈ cut cs) (hk : p.kind = .newline) :
    p.text = ['\n'] ∨ p.text = ['\r', '\n'] := by
  fun_induction cut cs with
  | case1 => cases hp
  | case2 c cs ih =>
    rcases List.mem_cons.mp hp with rfl | hp
    · rcases extent_newline hk with rfl | ⟨rfl, rest, rfl⟩
      · exact .inl rfl
      · exact .inr rfl
    · exact ih hp

end Piece

/-! ### Lexemes -/

namespace Lexeme

open Piece

/-- A lexeme as it stands in a text with the other line endings. -/
def widen (l : Lexeme) : Lexeme :=
  if l.kind = .newline then { l with literal := "\r\n" } else l

theorem widen_of_ne {l : Lexeme} (h : l.kind ≠ .newline) : l.widen = l :=
  if_neg h

theorem widen_kind (l : Lexeme) : l.widen.kind = l.kind := by
  unfold widen
  split <;> rfl

/-- A line end that is two characters long ends its line where a short one does. -/
theorem toLexeme_widen {p : Piece}
    (h : p.kind = .newline → p.text = ['\n'] ∨ p.text = ['\r', '\n']) (a : Position) :
    p.widen.toLexeme a = (p.toLexeme a).widen ∧ a.advance p.widen.text = a.advance p.text := by
  by_cases hk : p.kind = .newline
  · obtain ⟨kind, text⟩ := p
    subst hk
    rcases h rfl with rfl | rfl
    · exact ⟨rfl, rfl⟩
    · exact ⟨rfl, rfl⟩
  · rw [Piece.widen_of_ne hk, widen_of_ne (by rwa [toLexeme_kind])]
    exact ⟨rfl, rfl⟩

/-- Both line endings take up a line end and nothing else, so that nothing moves. -/
theorem place_widen {ps : List Piece}
    (h : ∀ p ∈ ps, p.kind = .newline → p.text = ['\n'] ∨ p.text = ['\r', '\n']) (a : Position)
    (ended : Bool) : place a ended (ps.map Piece.widen) = (place a ended ps).map widen := by
  induction ps generalizing a ended with
  | nil => cases ended <;> rfl
  | cons p ps ih =>
    obtain ⟨hp, hps⟩ := List.forall_mem_cons.mp h
    obtain ⟨hlexeme, hadvance⟩ := toLexeme_widen hp a
    rw [List.map_cons, place, place, List.map_cons, hlexeme, hadvance, Piece.widen_kind, ih hps]

/-- Line ends have no contraction that would have to settle. -/
theorem settle_widen (l : Lexeme) : l.widen.settle = l.settle.widen := by
  by_cases hk : l.kind = .newline
  · have hsettle : l.settle = l := if_neg (by simp [hk])
    rw [hsettle, settle, widen_kind, if_neg (by simp [hk])]
  · have hsettle : l.settle.kind ≠ .newline := by
      rcases settle_kind l with ⟨h, -⟩ | ⟨-, h | h⟩ <;> rw [h]
      · exact hk
      · exact Kind.noConfusion
      · exact Kind.noConfusion
    rw [widen_of_ne hk, widen_of_ne hsettle]

/-- Contractions are joined before or after line ends are widened. -/
theorem contractAfter_widen (last : Lexeme) (ls : List Lexeme) :
    contractAfter last.widen (ls.map widen) = (contractAfter last ls).map widen := by
  induction ls generalizing last with
  | nil => rfl
  | cons l ls ih =>
    rw [List.map_cons, contractAfter, contractAfter, widen_kind, widen_kind]
    split
    · rename_i hjoin
      have hword : last.kind ≠ .newline := by simp [hjoin.2]
      have hcontraction : l.kind ≠ .newline := by simp [hjoin.1]
      rw [widen_of_ne hword, widen_of_ne hcontraction, ← ih, widen_of_ne (l := last.attach l)]
      exact Kind.noConfusion
    · rw [settle_widen, ih, List.map_cons]

/-- The same for all lexemes of a text. -/
theorem contract_widen (ls : List Lexeme) :
    contract (ls.map widen) = (contract ls).map widen := by
  cases ls with
  | nil => rfl
  | cons l ls => rw [List.map_cons, contract, contract, settle_widen, contractAfter_widen]

/-- Words are split before or after line ends are widened. -/
theorem splitCopula_widen (l : Lexeme) : splitCopula l.widen = (splitCopula l).map widen := by
  by_cases hk : l.kind = .newline
  · rw [splitCopula, splitCopula, widen_kind, if_neg (by simp [hk]), if_neg (by simp [hk])]
    rfl
  · rw [widen_of_ne hk]
    rcases splitCopula_cases l with hsplit | ⟨-, stem, copula, -, -, -, hsplit⟩ <;> rw [hsplit]
    · rw [List.map_singleton, widen_of_ne hk]
    · rfl

/-! ### Sources -/

/-- Every piece is placed somewhere. -/
theorem exists_mem_place {p : Piece} {ps : List Piece} (h : p ∈ ps) (a : Position) (ended : Bool) :
    ∃ b, p.toLexeme b ∈ place a ended ps := by
  induction ps generalizing a ended with
  | nil => cases h
  | cons q ps ih =>
    rcases List.mem_cons.mp h with rfl | h
    · exact ⟨a, List.mem_cons_self⟩
    · obtain ⟨b, hb⟩ := ih h (a.advance q.text) (q.kind = .newline)
      exact ⟨b, List.mem_cons_of_mem _ hb⟩

/-- Contractions leave everything alone that is no part of a word. -/
theorem mem_contract {l : Lexeme} {ls : List Lexeme} (h : l ∈ ls) (hword : l.kind ≠ .identifier)
    (hcontraction : l.kind ≠ .contraction) : l ∈ contract ls := by
  obtain ⟨before, after, rfl⟩ := List.append_of_mem h
  rw [contract_append_of_head, contract_cons hword hcontraction]
  · exact List.mem_append_right _ List.mem_cons_self
  · intro m hm
    obtain rfl := Option.some.inj hm
    exact hcontraction

/-- Every comment and every string of a source is one of its lexemes. -/
theorem exists_mem_lex {source : String} {p : Piece} (hp : p ∈ cut source.toList)
    (hk : p.kind = .string ∨ p.kind = .comment) :
    ∃ l ∈ lex source, l.kind = p.kind ∧ l.source.toList = p.text := by
  have hmerge : p ∈ merge (cut source.toList) := by
    obtain ⟨before, after, hcut⟩ := List.append_of_mem hp
    have hblank : p.kind ≠ .whitespace := by rcases hk with hk | hk <;> simp [hk]
    rw [hcut, merge_append_cons hblank]
    exact List.mem_append_right _ List.mem_cons_self
  obtain ⟨b, hb⟩ := exists_mem_place hmerge .origin false
  refine ⟨p.toLexeme b, mem_contract hb ?_ ?_, toLexeme_kind p b, ?_⟩
  · rcases hk with hk | hk <;> simp [hk]
  · rcases hk with hk | hk <;> simp [hk]
  · rw [toLexeme_source, String.toList_ofList]

/-- The lexemes of a source with the other line endings. -/
theorem split_crlf {source : String} (hreturn : '\r' ∉ source.toList)
    (h : ∀ l ∈ lex source, l.kind = .string ∨ l.kind = .comment → '\n' ∉ l.source.toList) :
    split (String.ofList (crlf source.toList)) = (split source).map widen := by
  have hpieces : ∀ p ∈ cut source.toList,
      p.kind = .string ∨ p.kind = .comment → '\n' ∉ p.text := by
    intro p hp hk
    obtain ⟨l, hl, hkind, htext⟩ := exists_mem_lex hp hk
    rw [← htext]
    exact h l hl (hkind ▸ hk)
  have hends : ∀ p ∈ merge (cut source.toList),
      p.kind = .newline → p.text = ['\n'] ∨ p.text = ['\r', '\n'] := by
    intro p hp hk
    obtain ⟨q, hq, -, heq⟩ := exists_of_mem_merge hp
    obtain rfl := heq (by simp [hk])
    exact text_of_newline hq hk
  calc split (String.ofList (crlf source.toList))
      = ((lex source).map widen).flatMap splitCopula := by
        rw [split, lex, scan, String.toList_ofList, cut_crlf hreturn hpieces, merge_widen,
          place_widen hends, contract_widen, lex, scan]
    _ = (split source).map widen := by
        rw [split, List.flatMap_map, List.map_flatMap]
        simp only [splitCopula_widen]

end Lexeme

/-! ### Mistakes -/

namespace ParseError

/-- Mistakes that read the same, at the same place. -/
def SameReport (e e' : ParseError) : Prop :=
  e'.message = e.message ∧ e'.span = e.span

theorem SameReport.refl (e : ParseError) : SameReport e e :=
  ⟨rfl, rfl⟩

/-- Mistakes with the same text and the same place read the same. -/
theorem SameReport.of {e e' : ParseError} (htext : e'.cause.text = e.cause.text)
    (hspan : e'.span = e.span) : SameReport e e' := by
  refine ⟨?_, hspan⟩
  unfold message
  rw [htext, hspan]

/-- What is reported of them is the same. -/
theorem SameReport.map_eq {failure failure' : Option ParseError}
    (h : Option.Rel SameReport failure failure') :
    failure'.map (fun e => (e.message, e.span)) = failure.map fun e => (e.message, e.span) := by
  cases h with
  | none => rfl
  | some hreport => exact congrArg some (Prod.ext hreport.1 hreport.2)

/-- Mistakes without a lexeme in them stay what they are. -/
theorem uniform_sameReport : Reading.Uniform SameReport :=
  ⟨fun _ _ => .refl _, fun _ _ => .refl _⟩

end ParseError

namespace Lexeme

open ParseError

/-- A message calls the end of a line by its name and does not show its text. -/
theorem text_widen (l : Lexeme) : l.widen.text = l.text := by
  by_cases hk : l.kind = .newline
  · have hnewline : l.isNewline := by simp [isNewline, hk]
    have hwiden : l.widen.isNewline := by simp [isNewline, widen_kind, hk]
    rw [text, text, if_pos hnewline, if_pos hwiden, widen_kind]
  · rw [widen_of_ne hk]

/-- A widened line end is at the same place. -/
theorem span_widen (l : Lexeme) : l.widen.span = l.span := by
  unfold widen
  split <;> rfl

/-- **A line end may be exchanged for a widened one**: what is made of it, or complained about, is the
same. -/
theorem exchange_widen (l : Lexeme) : Reading.Exchange SameReport l l.widen where
  uniform := uniform_sameReport
  same := by
    by_cases hk : l.kind = .newline
    · right
      simp [isNewline, widen_kind, hk]
    · exact .inl (widen_of_ne hk)
  unexpected within := by
    have htext : (Cause.unexpectedLexeme l.widen within).text =
        (Cause.unexpectedLexeme l within).text :=
      congrArg (fun text => "Unexpected " ++ text ++ " while parsing " ++ within.name ++ ".")
        (text_widen l)
    exact .of htext (span_widen l)
  unexpectedWord expected := by
    by_cases hk : l.kind = .newline
    · have hword : l.kind ≠ .identifier := by simp [hk]
      rw [ParseError.unexpectedWord, ParseError.unexpectedWord, widen_kind, span_widen,
        if_neg hword, if_neg hword]
      exact .refl _
    · rw [widen_of_ne hk]
      exact .refl _
  unfinished within := by
    rw [span_widen]
    exact .refl _
  invalidNumber _ _ := .refl _

end Lexeme

namespace Program

open Lexeme ParseError

/-- A source without carriage returns whose comments and strings lie within one line each is read in
the same way with either line ending: it has the same statements at the same places, and the same
mistake, if any, with the same message at the same place. -/
theorem parse_crlf {source : String} (hreturn : '\r' ∉ source.toList)
    (h : ∀ l ∈ lex source, l.kind = .string ∨ l.kind = .comment → '\n' ∉ l.source.toList) :
    (parse (String.ofList (crlf source.toList))).nodes = (parse source).nodes ∧
      (parse (String.ofList (crlf source.toList))).failure.map (fun e => (e.message, e.span)) =
        (parse source).failure.map fun e => (e.message, e.span) := by
  have hlexemes : List.Forall₂ (Reading.Exchange SameReport) (split source)
      ((split source).map widen) :=
    List.forall₂_map_right_iff.mpr (List.forall₂_same.mpr fun l _ => exchange_widen l)
  have hread := read_exchange uniform_sameReport hlexemes Reading.Line.located_fresh
    (fun within => SameReport.refl (.unfinished within .origin))
  rw [← split_crlf hreturn h, ← parse_eq_read, ← parse_eq_read] at hread
  exact ⟨hread.nodes_eq, SameReport.map_eq hread.failure⟩

/-- A loop with a comment, a string and an empty line, and a statement that the end of its line cuts
off. -/
theorem parse_crlf_unfinished :
    let source := "while x (so\\n far)\nsay \"a\\n\"\n\nput x into\nsay x"
    (parse source).nodes.length = 1 ∧
      (parse source).failure.map (·.message) =
        some "Error on line 4: Unexpected newline while parsing location." ∧
      (parse (String.ofList (crlf source.toList))).nodes = (parse source).nodes ∧
      (parse (String.ofList (crlf source.toList))).failure.map (fun e => (e.message, e.span)) =
        (parse source).failure.map fun e => (e.message, e.span) := by
  exact ⟨by decide +kernel, by decide +kernel, parse_crlf (by decide +kernel) (by decide +kernel)⟩

end Program

end Ballad
