import Ballad.Proofs.Fragments
import Ballad.Proofs.Reading.Targets

/-!
# Text that is assigned as it stands

After a variable and `says` the rest of the line is a string. It is put together from the sources of
the lexemes again, and the blank after the verb does not belong to it. But every character that means
nothing counts as blank to the lexer, so that the first character is lost as well if it is a mark:
`x says!hi` assigns `hi`.

- `Statement.ends_verbatim`: a line that is taken as it stands, from the verb to its end.
- `Grammar.Names`: a text that is a variable.
- `Verbatim.dropBlank`, `Verbatim.beginsWithMark`: a text without the blank in front of it, and when
  the lexer takes something else for a blank.
- `Verbatim.spoken`: the text that is assigned. `Verbatim.spoken_eq_dropBlank_iff` compares both.
- `Verbatim.parse_verb`: what is read from such a line.
-/

namespace Ballad

open Reading

/-! ### The rest of the line -/

namespace Reading.Statement

open Lexeme Line

/-- The characters of the lexemes after the verb, without the blank that the first one begins
with. -/
def quoted : List Lexeme → List Char
  | [] => []
  | l :: ls =>
    (if l.kind = .whitespace then l.source.toList.tail else l.source.toList) ++ characters ls

variable {ls : List Lexeme}

theorem push_verbatim {l : Lexeme} (h : l.isNewline = false) (target : Node) (text : String)
    (last : Span) :
    (verbatim target text true last).push l =
      .ok (.next (verbatim target (text ++ l.source) true l.span)) := by
  show Except.ok (pushVerbatim target text true last l) = _
  rw [pushVerbatim, if_neg (by simp [h])]
  rfl

/-- Once the text has begun, every lexeme of the line belongs to it. -/
theorem goes_verbatim (hls : ∀ l ∈ ls, l.isNewline = false) (target : Node) (text : String)
    (last : Span) :
    ∃ last', Goes (statement (verbatim target text true last)) ls
      (statement (verbatim target (text ++ String.ofList (characters ls)) true last')) := by
  induction ls generalizing text last with
  | nil =>
    refine ⟨last, ?_⟩
    have hnil : text ++ String.ofList (characters []) = text := by simp [characters]
    rw [hnil]
    exact .nil
  | cons l ls ih =>
    have hfirst := push_verbatim (hls l List.mem_cons_self) target text last
    obtain ⟨last', hrest⟩ := ih (fun m hm => hls m (List.mem_cons_of_mem l hm)) (text ++ l.source)
      l.span
    refine ⟨last', .cons (push_statement_next hfirst) ?_⟩
    have htext : text ++ String.ofList (characters (l :: ls)) =
        text ++ l.source ++ String.ofList (characters ls) := by
      apply String.toList_inj.mp
      simp
    rw [htext]
    exact hrest

/-- The line ends with an assignment of its text. -/
theorem ends_verbatim {l : Lexeme} (hls : ∀ l ∈ ls, l.isNewline = false) (hl : l.isNewline)
    (target : Node) (last : Span) :
    ∃ span last', Ends (statement (verbatim target "" false last)) (ls ++ [l])
      (.assign span target (.literal last' (.string (String.ofList (quoted ls))))) := by
  have hend : ∀ text started last, Ends (statement (verbatim target text started last)) [l]
      (.assign (target.span.through last) target (.literal last (.string text))) := by
    intro text started last
    have hpush : (verbatim target text started last).push l = .ok (.done
        (.assign (target.span.through last) target (.literal last (.string text)))) := by
      show Except.ok (pushVerbatim target text started last l) = _
      rw [pushVerbatim, if_pos hl]
    exact .last (push_statement_done hpush)
  cases ls with
  | nil => exact ⟨_, _, hend "" false last⟩
  | cons m ms =>
    -- the first lexeme may lose a blank, and all others are taken whole
    have hfirst : (verbatim target "" false last).push m = .ok (.next (verbatim target
        (String.ofList (if m.kind = .whitespace then m.source.toList.tail else m.source.toList))
        true m.span)) := by
      show Except.ok (pushVerbatim target "" false last m) = _
      rw [pushVerbatim, if_neg (by simp [hls m List.mem_cons_self])]
      by_cases hk : m.kind = .whitespace <;> simp [hk]
    have hms : ∀ x ∈ ms, x.isNewline = false := fun x hx => hls x (List.mem_cons_of_mem m hx)
    obtain ⟨last', hgoes⟩ := goes_verbatim hms target
      (String.ofList (if m.kind = .whitespace then m.source.toList.tail else m.source.toList)) m.span
    refine ⟨target.span.through last', last', .cons (push_statement_next hfirst) ?_⟩
    rw [quoted, String.ofList_append]
    exact hgoes.ends (hend _ true last')

theorem push_verb {p : Phrase} {n : Node} {l : Lexeme} (hl : l.word = some "says")
    (hloc : p.isLocation) (hfinish : ∀ stop, p.finish stop = .ok n) :
    (bare p).push l = .ok (.next (verbatim n "" false l.span)) := by
  obtain ⟨hkind, -⟩ := Lexeme.kind_of_word hl
  have hcopula : Vocabulary.isCopula "says" = false := by decide
  have hquotative : Vocabulary.isQuotative "says" := by decide
  show (if l.isTrivia then _ else pushBare p l) = _
  rw [if_neg (by simp [Lexeme.isTrivia, hkind]), pushBare, if_neg (by simp [hl, hcopula]),
    if_pos (by simp [hl, hquotative, hloc]), hfinish]
  rfl

end Reading.Statement

/-- A text that is a variable: its words spell one, and it ends with the last of them. -/
structure Grammar.Names (x name : String) : Prop where
  ends : Piece.EndsWord x.toList
  spells : ∃ span,
    Primary ((Lexeme.fragment .origin x.toList).filter (!·.isTrivia)) (.var span name)

namespace Verbatim

open Piece Lexeme

/-! ### The text after the verb -/

/-- A text without the blank that it may begin with. -/
def dropBlank : List Char → List Char
  | [] => []
  | c :: cs => if isSpace c then cs else c :: cs

/-- Whether a text begins with a character that is no blank but counts as one. -/
def beginsWithMark : List Char → Bool
  | [] => false
  | c :: cs => (extent c cs).1 == .whitespace && !isSpace c

/-- The text that is assigned. -/
def spoken : List Char → List Char
  | [] => []
  | c :: cs => if (extent c cs).1 = .whitespace then cs else c :: cs

theorem spoken_of_beginsWithMark {t : List Char} (h : beginsWithMark t) : spoken t = t.tail := by
  cases t with
  | nil => rfl
  | cons c cs =>
    obtain ⟨hk, -⟩ := Bool.and_eq_true_iff.mp h
    rw [spoken, if_pos (by simpa using hk)]
    rfl

/-- Only a mark makes a difference. -/
theorem spoken_eq_dropBlank_iff (t : List Char) :
    spoken t = dropBlank t ↔ beginsWithMark t = false := by
  cases t with
  | nil => exact ⟨fun _ => rfl, fun _ => rfl⟩
  | cons c cs =>
    by_cases hspace : isSpace c
    · simp [spoken, dropBlank, beginsWithMark, hspace, extent_space hspace cs]
    · by_cases hk : (extent c cs).1 = .whitespace
      · simp [spoken, dropBlank, beginsWithMark, hspace, hk]
      · simp [spoken, dropBlank, beginsWithMark, hspace, hk]

/-- Of a text that does not go on with the verb nothing is left out but a blank: its first lexeme is
of the kind of its first piece. -/
theorem quoted_fragment {t : List Char}
    (h : ∀ c ∈ t.head?, Text.isLetter c = false ∧ c ≠ '\'') (a : Position) :
    Statement.quoted (fragment a t) = spoken t := by
  cases t with
  | nil =>
    rw [fragment, cut_nil]
    rfl
  | cons c cs =>
    obtain ⟨hletter, hquote⟩ := h c rfl
    obtain ⟨l, ls, hfragment, hkind⟩ := fragment_cons hquote hletter cs a
    have htext : l.source.toList ++ characters ls = c :: cs := by
      rw [← characters_fragment a (c :: cs), hfragment]
      rfl
    rw [hfragment, Statement.quoted, spoken, hkind]
    split
    · rename_i hblank
      have hwritten := written_fragment a (c :: cs) l (hfragment ▸ List.mem_cons_self)
      have hne : l.source.toList ≠ [] := hwritten.source_ne (by simp [hkind, hblank])
      rw [← List.tail_append_of_ne_nil hne, htext]
      rfl
    · exact htext

/-! ### The lexemes of the line -/

/-- A blank and the verb, before a text that does not go on with it. -/
theorem cut_verb {t : List Char} (h : ∀ c ∈ t.head?, Text.isLetter c = false) :
    cut (" says".toList ++ t) =
      [⟨.whitespace, [' ']⟩, ⟨.identifier, ['s', 'a', 'y', 's']⟩] ++ cut t := by
  have hblank : Blanks [' '] := by decide
  have hverb : Letters ['s', 'a', 'y', 's'] := by decide
  exact cut_blanks_letters hblank hverb h

theorem cut_verb_alone :
    cut " says".toList = [⟨.whitespace, [' ']⟩, ⟨.identifier, ['s', 'a', 'y', 's']⟩] := by
  have hcut := cut_verb (t := []) (by simp)
  rwa [List.append_nil, cut_nil, List.append_nil] at hcut

theorem fragment_verb (a : Position) : ∃ blank verb, fragment a " says".toList = [blank, verb] ∧
    blank.isTrivia ∧ verb.word = some "says" := by
  have hblank : Blanks [' '] := by decide
  have hverb : Letters ['s', 'a', 'y', 's'] := by decide
  have hlower : Text.lowercase "says" = "says" := by decide
  exact ⟨_, _, fragment_blanks_letters hblank hverb a, rfl, congrArg some hlower⟩

/-- A line of a variable, the verb and a text. -/
theorem split_verb {x t name : String} (hx : Grammar.Names x name) (hline : '\n' ∉ t.toList)
    (hhead : ∀ c ∈ t.toList.head?, Text.isLetter c = false ∧ c ≠ '\'') :
    ∃ a b e, (lex (x ++ " says" ++ t)).flatMap splitCopula = fragment .origin x.toList ++
      (fragment a " says".toList ++ (fragment b t.toList ++ [endOfInput e])) := by
  have hsource : (x ++ " says" ++ t).toList = x.toList ++ (" says".toList ++ t.toList) := by simp
  have hdetached : Detached (" says".toList ++ t.toList) := by
    rintro c hc
    obtain rfl : ' ' = c := Option.some.inj hc
    decide
  have hfirst := cut_append_word hx.ends hdetached
  have hsecond : cut (" says".toList ++ t.toList) = cut " says".toList ++ cut t.toList := by
    rw [cut_verb fun c hc => (hhead c hc).1, cut_verb_alone]
  have hapostrophe : t.toList.head? ≠ some '\'' := fun hquote => (hhead _ hquote).2 rfl
  -- a word ends the first part, and the verb the second one
  obtain ⟨p, hp, hpart⟩ := (Option.any_eq_true _ _).mp hx.ends
  have hword : p.kind ≠ .whitespace := by
    intro hk
    simp [isWordPart, hk] at hpart
  have hlast : (cut (x ++ " says" ++ t).toList).getLast?.map Piece.kind ≠ some .newline := by
    intro hnewline
    rw [hsource, hfirst, hsecond, List.getLast?_append, List.getLast?_append,
      cut_verb_alone] at hnewline
    cases hr : (cut t.toList).getLast? with
    | none =>
      rw [hr] at hnewline
      cases hnewline
    | some r =>
      rw [hr] at hnewline
      exact hline (newline_mem_of_cut (List.mem_of_getLast? hr) (Option.some.inj hnewline))
  refine ⟨Position.origin.advance x.toList,
    (Position.origin.advance x.toList).advance " says".toList,
    Position.origin.advance (x.toList ++ (" says".toList ++ t.toList)), ?_⟩
  rw [split_eq_fragment hlast, hsource, fragment_append hfirst (by rw [hp]; rfl) hword (by simp),
    fragment_append hsecond (by rw [cut_verb_alone]; rfl) (by decide) hapostrophe,
    List.append_assoc, List.append_assoc]

/-- A variable, the verb and a text are read as one assignment. -/
theorem parse_verb {x t name : String} (hx : Grammar.Names x name) (hline : '\n' ∉ t.toList)
    (hhead : ∀ c ∈ t.toList.head?, Text.isLetter c = false ∧ c ≠ '\'') :
    ∃ span s₁ s₂, Program.parse (x ++ " says" ++ t) = ⟨[.assign span (.var s₁ name)
      (.literal s₂ (.string (String.ofList (spoken t.toList))))], none⟩ := by
  obtain ⟨s₁, hprimary⟩ := hx.spells
  obtain ⟨p, hextends, hfinish⟩ := hprimary.extends
  obtain ⟨s, hgoes, hholds⟩ := (Statement.Holds.start true).goes hextends
  obtain ⟨a, b, e, hsplit⟩ := split_verb hx hline hhead
  obtain ⟨blank, verb, hpair, hblank, hverb⟩ := fragment_verb a
  cases hholds with
  | start blank =>
    -- a variable has been read
    cases hfinish .origin
  | bare p =>
    have hskip : (Statement.bare p).push blank = .ok (.next (.bare p)) := if_pos hblank
    have hpush := Statement.push_verb hverb (Phrase.isLocation_of_finish (hfinish .origin)) hfinish
    have htext : ∀ l ∈ fragment b t.toList, l.isNewline = false := isNewline_of_mem_fragment hline
    have hend : (endOfInput e).isNewline := rfl
    obtain ⟨span, s₂, hends⟩ := Statement.ends_verbatim htext hend (.var s₁ name) verb.span
    have hyields := Line.Yields.cons (hgoes.ends (.cons (Line.push_statement_next hskip)
      (.cons (Line.push_statement_next hpush) hends))) rfl .nil
    refine ⟨span, s₁, s₂, ?_⟩
    rw [List.append_nil, quoted_fragment hhead b] at hyields
    rw [Program.parse, Program.ofLexemes, hsplit, hpair]
    exact Program.read_yields hyields .origin

/-- **Text is assigned as it stands.** A line of a variable, `says` and a text that does not go on
with the verb is one assignment. What is assigned is the text without the blank in front of it,
unless the text begins with a mark: then this is left out as if it were a blank. -/
theorem says_assigns_text_iff {x t name : String} (hx : Grammar.Names x name)
    (hline : '\n' ∉ t.toList)
    (hhead : ∀ c ∈ t.toList.head?, Text.isLetter c = false ∧ c ≠ '\'') :
    ∃ span s₁ s₂ text, Program.parse (x ++ " says" ++ t) =
        ⟨[.assign span (.var s₁ name) (.literal s₂ (.string text))], none⟩ ∧
      (text = String.ofList (dropBlank t.toList) ↔ beginsWithMark t.toList = false) ∧
      (beginsWithMark t.toList → text = String.ofList t.toList.tail) := by
  obtain ⟨span, s₁, s₂, hparse⟩ := parse_verb hx hline hhead
  refine ⟨span, s₁, s₂, _, hparse, ?_, ?_⟩
  · rw [← spoken_eq_dropBlank_iff, ← String.toList_inj, String.toList_ofList, String.toList_ofList]
  · intro hmark
    rw [spoken_of_beginsWithMark hmark]

theorem names_feelgood : Grammar.Names "Doctor Feelgood" "doctor feelgood" := by
  have hwords : (fragment .origin "Doctor Feelgood".toList).filter (!·.isTrivia) =
      [⟨.identifier, "Doctor", none, ⟨⟨1, 0⟩, ⟨1, 6⟩⟩⟩] ++
        [⟨.identifier, "Feelgood", none, ⟨⟨1, 7⟩, ⟨1, 15⟩⟩⟩] := by
    decide +kernel
  have hname : Name.normalize ("Doctor" ++ " " ++ "Feelgood") = "doctor feelgood" := by
    decide +kernel
  refine ⟨by decide +kernel, ?_⟩
  rw [hwords, ← hname]
  exact ⟨_, .proper (.next (.first (by decide +kernel)) (by decide +kernel))⟩

/-- The text may hold words with contractions, numbers and delimiters. -/
theorem says_assigns_text_iff_proper :
    Grammar.Names "Doctor Feelgood" "doctor feelgood" ∧
      ∃ span s₁ s₂, Program.parse "Doctor Feelgood says\tLet's rock, 24/7!" =
        ⟨[.assign span (.var s₁ "doctor feelgood") (.literal s₂ (.string "Let's rock, 24/7!"))],
          none⟩ := by
  have hhead : ∀ c ∈ "\tLet's rock, 24/7!".toList.head?, Text.isLetter c = false ∧ c ≠ '\'' := by
    rintro c hc
    obtain rfl : '\t' = c := Option.some.inj hc
    decide
  refine ⟨names_feelgood, ?_⟩
  obtain ⟨span, s₁, s₂, text, hparse, htext, -⟩ :=
    says_assigns_text_iff names_feelgood (by decide) hhead
  have hspoken : text = "Let's rock, 24/7!" := by
    rw [htext.mpr (by decide)]
    decide
  rw [hspoken] at hparse
  exact ⟨span, s₁, s₂, hparse⟩

theorem names_x : Grammar.Names "x" "x" := by
  have hwords : (fragment .origin "x".toList).filter (!·.isTrivia) =
      [⟨.identifier, "x", none, ⟨⟨1, 0⟩, ⟨1, 1⟩⟩⟩] := by
    decide +kernel
  refine ⟨by decide +kernel, ?_⟩
  rw [hwords]
  exact ⟨_, .simple (by decide +kernel) (by decide) (by decide +kernel)⟩

/-- A text that begins with an exclamation mark loses it, though this is no blank. -/
theorem says_drops_mark :
    dropBlank "!hi".toList = "!hi".toList ∧
      ∃ span s₁ s₂, Program.parse "x says!hi" =
        ⟨[.assign span (.var s₁ "x") (.literal s₂ (.string "hi"))], none⟩ := by
  have hhead : ∀ c ∈ "!hi".toList.head?, Text.isLetter c = false ∧ c ≠ '\'' := by
    rintro c hc
    obtain rfl : '!' = c := Option.some.inj hc
    decide
  refine ⟨by decide, ?_⟩
  obtain ⟨span, s₁, s₂, hparse⟩ := parse_verb names_x (by decide) hhead
  have hspoken : String.ofList (spoken "!hi".toList) = "hi" := by decide
  rw [hspoken] at hparse
  exact ⟨span, s₁, s₂, hparse⟩

end Verbatim

end Ballad
