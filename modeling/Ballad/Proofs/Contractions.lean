import Ballad.Proofs.Fragments
import Ballad.Proofs.Reading.Targets

/-!
# Contracted copulas

The lexer cuts `Tommy's` in two, joins the parts to one word, and takes the copula off again before
statements are read. What is left is the word as it was, and the copula as a word of its own. So a line
that begins with a variable or a pronoun and `'s` is read as one with `is`, and so is all that follows.

- `Lexeme.splitCopula_attach`: a copula that has been joined to a word is taken off again.
- `Lexeme.fragment_contracted`, `Lexeme.fragment_full`: the lexemes of both spellings differ only in the
  copula, and in the blank before it.
- `Grammar.Refers`: a text that is a variable or a pronoun, of words of letters.
- `Program.parse_copula`: both spellings are read as an assignment to what the words before them are.
-/

namespace Ballad

open Reading

namespace Lexeme

open Piece

variable {x suffix w : List Char}

theorem endsWord_of_kind {k : Kind} (hx : (cut x).getLast?.map Piece.kind = some k)
    (hk : k = .identifier ∨ k = .contraction) : EndsWord x := by
  obtain ⟨p, hp, rfl⟩ := Option.map_eq_some_iff.mp hx
  rw [EndsWord, hp]
  simpa [isWordPart] using hk

/-! ### Joining and taking off -/

theorem cutSuffix?_append (hw : w ≠ []) (suffix : List Char) :
    cutSuffix? (w ++ suffix) suffix = some (w, suffix) := by
  have hlength : (w ++ suffix).length - suffix.length = w.length := by simp
  rw [cutSuffix?, hlength, List.take_left, List.drop_left]
  simp [hw, Text.sameWord]

theorem findSome?_cutSuffix? (hw : w ≠ []) (hsuffix : suffix ∈ copulaSuffixes) :
    copulaSuffixes.findSome? (cutSuffix? (w ++ suffix)) = some (w, suffix) := by
  have hcases : suffix = ['\'', 's'] ∨ suffix = ['\'', 'r', 'e'] := by
    simpa [copulaSuffixes] using hsuffix
  rcases hcases with rfl | rfl
  · rw [copulaSuffixes, List.findSome?_cons, cutSuffix?_append hw]
  · -- the other copula is shorter, and is not what the word ends with
    have hshort : cutSuffix? (w ++ ['\'', 'r', 'e']) ['\'', 's'] = none := by
      have hdrop : (w ++ ['\'', 'r', 'e']).drop ((w ++ ['\'', 'r', 'e']).length - 2) = ['r', 'e'] := by
        have hlength : (w ++ ['\'', 'r', 'e']).length - 2 = w.length + 1 := by simp
        rw [hlength, List.drop_append]
        simp
      refine if_neg fun hcut => ?_
      have hsame := (Bool.and_eq_true_iff.mp hcut).2
      rw [show ['\'', 's'].length = 2 from rfl, hdrop] at hsame
      exact absurd hsame (by decide)
    rw [copulaSuffixes, List.findSome?_cons, hshort]
    dsimp only
    rw [List.findSome?_cons, cutSuffix?_append hw]

/-- A copula that has been joined to a word is taken off again. -/
theorem splitCopula_attach (hw : w ≠ []) (hsuffix : suffix ∈ copulaSuffixes) (a b : Position) :
    splitCopula ((toLexeme ⟨.identifier, w⟩ a).attach (toLexeme ⟨.contraction, suffix⟩ b)) =
      [toLexeme ⟨.identifier, w⟩ a,
        ⟨.identifier, String.ofList suffix, none, ⟨a.advance w, b.advance suffix⟩⟩] := by
  have hliteral : ((toLexeme ⟨.identifier, w⟩ a).attach
      (toLexeme ⟨.contraction, suffix⟩ b)).literal.toList = w ++ suffix := by
    simp [attach, toLexeme]
  have hkind : ((toLexeme ⟨.identifier, w⟩ a).attach
      (toLexeme ⟨.contraction, suffix⟩ b)).kind = .identifier := rfl
  rw [splitCopula, if_pos hkind, hliteral, findSome?_cutSuffix? hw hsuffix]
  rfl

/-! ### The lexemes of both spellings -/

/-- A contracted copula is a piece of its own. -/
theorem cut_contracted (hx : (cut x).getLast?.map Piece.kind = some .identifier)
    (hsuffix : suffix ∈ copulaSuffixes) :
    cut (x ++ suffix) = cut x ++ [⟨.contraction, suffix⟩] := by
  have halone : ∀ s ∈ copulaSuffixes, Detached s ∧ cut s = [⟨.contraction, s⟩] := by
    intro s hs
    obtain ⟨cs, rfl, hcs⟩ : ∃ cs, s = '\'' :: cs ∧ Letters cs := by
      rcases List.mem_pair.mp hs with rfl | rfl
      · exact ⟨['s'], rfl, by decide⟩
      · exact ⟨['r', 'e'], rfl, by decide⟩
    constructor
    · intro c hc
      obtain rfl : '\'' = c := Option.some.inj hc
      decide
    · simpa [cut_nil] using cut_wordPart (b := []) (.inl rfl) hcs.2 (by simp)
  obtain ⟨hdetached, hcut⟩ := halone suffix hsuffix
  rw [cut_append_word (endsWord_of_kind hx (.inl rfl)) hdetached, hcut]

/-- So are blanks and a word. -/
theorem cut_full {s : List Char} (hx : (cut x).getLast?.map Piece.kind = some .identifier)
    (hs : Blanks s) (hw : Letters w) :
    cut (x ++ (s ++ w)) = cut x ++ [⟨.whitespace, s⟩, ⟨.identifier, w⟩] := by
  rw [cut_append_word (endsWord_of_kind hx (.inl rfl)) (hs.detached w), cut_blanks_letters_alone hs hw]

/-- The lexemes of a text from one of its words on do not depend on what comes before the word. -/
theorem fragment_of_cut {ps qs : List Piece} (h : cut x = ps ++ ⟨.identifier, w⟩ :: qs)
    (a : Position) : fragment a x = (contract (lay a (merge ps))).flatMap splitCopula ++
      (contract (lay (a.advance (ps.flatMap Piece.text))
        (⟨.identifier, w⟩ :: merge qs))).flatMap splitCopula := by
  have hword : (⟨.identifier, w⟩ : Piece).kind ≠ .whitespace := Kind.noConfusion
  have hhead : ∀ m ∈ (lay (a.advance (ps.flatMap Piece.text))
      (⟨.identifier, w⟩ :: merge qs)).head?, m.kind ≠ .contraction := by
    rintro m hm
    obtain rfl := Option.some.inj hm
    exact Kind.noConfusion
  rw [fragment, h, merge_append_cons hword, lay_append, flatMap_merge,
    contract_append_of_head hhead, List.flatMap_append]

/-- With a contracted copula, a text has one more lexeme. -/
theorem fragment_contracted (hx : (cut x).getLast?.map Piece.kind = some .identifier)
    (hsuffix : suffix ∈ copulaSuffixes) (a : Position) : ∃ span,
    fragment a (x ++ suffix) =
      fragment a x ++ [⟨.identifier, String.ofList suffix, none, span⟩] := by
  -- the last piece of the text is the word that the copula is joined to
  obtain ⟨p, hp, hkind⟩ := Option.map_eq_some_iff.mp hx
  obtain ⟨ps, hps⟩ := List.getLast?_eq_some_iff.mp hp
  obtain ⟨k, w⟩ := p
  obtain rfl : k = .identifier := hkind
  have hmem : (⟨.identifier, w⟩ : Piece) ∈ cut x := hps ▸ List.mem_append_right ps (by simp)
  have hw : Letters w := letters_of_mem_cut hmem rfl
  have hcut := cut_contracted hx hsuffix
  rw [hps, List.append_assoc, List.singleton_append] at hcut
  let b := a.advance (ps.flatMap Piece.text)
  refine ⟨⟨b.advance w, (b.advance w).advance suffix⟩, ?_⟩
  have hjoined : contract (lay b [⟨.identifier, w⟩, ⟨.contraction, suffix⟩]) =
      [(toLexeme ⟨.identifier, w⟩ b).attach (toLexeme ⟨.contraction, suffix⟩ (b.advance w))] := rfl
  have halone : contract (lay b [⟨.identifier, w⟩]) = [toLexeme ⟨.identifier, w⟩ b] := rfl
  have hmerge : ∀ p : Piece, merge [p] = [p] := fun p => rfl
  rw [fragment_of_cut hcut, fragment_of_cut hps, hmerge, hjoined, List.append_assoc]
  rw [show merge [] = [] from rfl, halone, List.flatMap_singleton, List.flatMap_singleton,
    splitCopula_attach hw.1 hsuffix, splitCopula_letters hw]
  rfl

/-- With blanks and a word, it has two more. -/
theorem fragment_full {s : List Char} (hx : (cut x).getLast?.map Piece.kind = some .identifier)
    (hs : Blanks s) (hw : Letters w) (a : Position) :
    fragment a (x ++ (s ++ w)) = fragment a x ++
      [toLexeme ⟨.whitespace, s⟩ (a.advance x),
        toLexeme ⟨.identifier, w⟩ ((a.advance x).advance s)] := by
  have hcut : cut (x ++ (s ++ w)) = cut x ++ cut (s ++ w) :=
    cut_append_word (endsWord_of_kind hx (.inl rfl)) (hs.detached w)
  have hhead : (s ++ w).head? ≠ some '\'' := by
    intro hquote
    rw [List.head?_append_of_ne_nil _ hs.1] at hquote
    exact absurd (hs.2 _ (List.mem_of_mem_head? hquote)) (by decide)
  rw [fragment_append hcut hx (by decide) hhead, fragment_blanks_letters hs hw]

end Lexeme

/-! ### Variables and pronouns -/

namespace Grammar

open Piece Lexeme

/-- A text of words of letters, with blanks between any two, and the lexemes of the words. -/
inductive Worded : List Char → List Lexeme → Prop where
  | word {w : List Char} (hw : Letters w) : Worded w [toLexeme ⟨.identifier, w⟩ .origin]
  | append {x s w : List Char} {ls : List Lexeme} (hx : Worded x ls) (hs : Blanks s)
      (hw : Letters w) : Worded (x ++ (s ++ w))
        (ls ++ [toLexeme ⟨.identifier, w⟩ ((Position.origin.advance x).advance s)])

/-- A text that is a variable or a pronoun, of words of letters. -/
structure Refers (x : String) (n : Node) : Prop where
  words : ∃ ls, Worded x.toList ls ∧ Primary ls n
  location : n.isLocation

/-- The lexer ends such a text with a word, and finds no others in it. -/
theorem Worded.lexed {x : List Char} {ls : List Lexeme} (h : Worded x ls) :
    (cut x).getLast?.map Piece.kind = some .identifier ∧
    (fragment .origin x).filter (!·.isTrivia) = ls := by
  induction h with
  | @word w hw =>
    rw [cut_letters_alone hw, fragment_letters hw]
    exact ⟨rfl, rfl⟩
  | @append x s w ls hx hs hw ih =>
    obtain ⟨hlast, hfilter⟩ := ih
    refine ⟨by rw [cut_full hlast hs hw, List.getLast?_append]; rfl, ?_⟩
    rw [fragment_full hlast hs hw, List.filter_append, hfilter]
    rfl

theorem Refers.ends {x : String} {n : Node} (h : Refers x n) :
    (cut x.toList).getLast?.map Piece.kind = some .identifier := by
  obtain ⟨ls, hwords, -⟩ := h.words
  exact hwords.lexed.1

theorem Refers.spells {x : String} {n : Node} (h : Refers x n) :
    Primary ((fragment .origin x.toList).filter (!·.isTrivia)) n := by
  obtain ⟨ls, hwords, hprimary⟩ := h.words
  exact hwords.lexed.2 ▸ hprimary

end Grammar

/-! ### Reading on after a copula -/

namespace Reading.Statement

theorem push_copula {p : Phrase} {n : Node} {l : Lexeme} {word : String} (hl : l.word = some word)
    (hword : Vocabulary.isCopula word) (hloc : p.isLocation)
    (hfinish : ∀ stop, p.finish stop = .ok n) :
    (bare p).push l = .ok (.next (poetic n .leading)) := by
  obtain ⟨hkind, -⟩ := Lexeme.kind_of_word hl
  show (if l.isTrivia then _ else pushBare p l) = _
  rw [if_neg (by simp [Lexeme.isTrivia, hkind]), pushBare, if_pos (by simp [hl, hword, hloc]), hfinish]
  rfl

end Reading.Statement

namespace Program

open Lexeme Piece

variable {x r : String} {n : Node}

/-- After a variable or a pronoun, blanks and a copula, a line is an assignment to it. -/
theorem read_copula (hx : Grammar.Refers x n) {blanks ms : List Lexeme} {l : Lexeme} {word : String}
    (hblanks : ∀ b ∈ blanks, b.isTrivia) (hl : l.word = some word)
    (hword : Vocabulary.isCopula word) :
    read .fresh .origin (fragment .origin x.toList ++ (blanks ++ l :: ms)) =
      read (.statement (.poetic n .leading)) l.span ms := by
  obtain ⟨p, hextends, hloc, hfinish⟩ := hx.spells.extends_location hx.location
  have hwords : (fragment .origin x.toList ++ blanks).filter (!·.isTrivia) =
      (fragment .origin x.toList).filter (!·.isTrivia) := by
    have hnone : blanks.filter (!·.isTrivia) = [] := by simpa using hblanks
    rw [List.filter_append, hnone, List.append_nil]
  -- the blanks are passed over with those among the words
  rw [← hwords] at hextends
  obtain ⟨s, hgoes, hholds⟩ := (Statement.Holds.start true).goes hextends
  obtain ⟨last, hread⟩ := read_goes hgoes (l :: ms) .origin
  cases hholds with
  | start blank =>
    -- a line that has not begun is no variable
    cases hfinish .origin
  | bare p =>
    rw [← List.append_assoc]
    exact hread.trans
      (read_next (Line.push_statement_next (Statement.push_copula hl hword hloc hfinish)) last)

/-- What follows the copula is read without regard to where it stands. -/
theorem parse_copula (hx : Grammar.Refers x n) {u : List Char} {k : Lexeme.Kind}
    {blanks : List Lexeme} {l : Lexeme} {word : String}
    (hlast : (cut (x.toList ++ u)).getLast?.map Piece.kind = some k)
    (hk : k = .identifier ∨ k = .contraction) (hr : Detached r.toList)
    (hquote : r.toList.head? ≠ some '\'')
    (hfragment : fragment .origin (x.toList ++ u) = fragment .origin x.toList ++ (blanks ++ [l]))
    (hblanks : ∀ b ∈ blanks, b.isTrivia) (hl : l.word = some word)
    (hword : Vocabulary.isCopula word) :
    bare (parse (x ++ String.ofList u ++ r)) =
      read (bare (Line.statement (.poetic n .leading))) .origin (bare (ending .origin r.toList)) := by
  have hsource : (x ++ String.ofList u ++ r).toList = x.toList ++ u ++ r.toList := by simp
  have hcut : cut (x.toList ++ u ++ r.toList) = cut (x.toList ++ u) ++ cut r.toList :=
    cut_append_word (endsWord_of_kind hlast hk) hr
  have hinside : k ≠ .whitespace ∧ k ≠ .newline := by
    rcases hk with rfl | rfl <;> decide
  rw [parse, ofLexemes, split_append_ending hsource hcut hlast hinside hquote, hfragment,
    List.append_assoc, List.append_assoc, List.singleton_append, read_copula hx hblanks hl hword,
    bare_ending .origin (Position.origin.advance (x.toList ++ u))]
  exact move_read _ _ _ _

/-- A contracted copula is read as any full one, before what goes on with neither. -/
theorem bare_parse_contracted (hx : Grammar.Refers x n) {suffix s w : List Char}
    (hsuffix : suffix ∈ copulaSuffixes) (hs : Blanks s) (hw : Letters w)
    (hcopula : Vocabulary.isCopula (Text.lowercase (String.ofList w))) (hr : Detached r.toList)
    (hquote : r.toList.head? ≠ some '\'') :
    bare (parse (x ++ String.ofList suffix ++ r)) =
      bare (parse (x ++ String.ofList (s ++ w) ++ r)) := by
  have hshort : bare (parse (x ++ String.ofList suffix ++ r)) =
      read (bare (Line.statement (.poetic n .leading))) .origin (bare (ending .origin r.toList)) := by
    have hlast : (cut (x.toList ++ suffix)).getLast?.map Piece.kind = some .contraction := by
      rw [cut_contracted hx.ends hsuffix, List.getLast?_concat]
      rfl
    have hword : ∀ s ∈ copulaSuffixes, Vocabulary.isCopula (Text.lowercase (String.ofList s)) := by
      decide
    obtain ⟨span, hfragment⟩ := fragment_contracted hx.ends hsuffix .origin
    have hlexemes : fragment .origin (x.toList ++ suffix) = fragment .origin x.toList ++
        ([] ++ [⟨.identifier, String.ofList suffix, none, span⟩]) := hfragment
    exact parse_copula hx hlast (.inr rfl) hr hquote hlexemes (by simp) rfl (hword suffix hsuffix)
  have hlong : bare (parse (x ++ String.ofList (s ++ w) ++ r)) =
      read (bare (Line.statement (.poetic n .leading))) .origin (bare (ending .origin r.toList)) := by
    have hlast : (cut (x.toList ++ (s ++ w))).getLast?.map Piece.kind = some .identifier := by
      rw [cut_full hx.ends hs hw, List.getLast?_append]
      rfl
    have hlexemes : fragment .origin (x.toList ++ (s ++ w)) = fragment .origin x.toList ++
        ([toLexeme ⟨.whitespace, s⟩ (Position.origin.advance x.toList)] ++
          [toLexeme ⟨.identifier, w⟩ ((Position.origin.advance x.toList).advance s)]) :=
      fragment_full hx.ends hs hw .origin
    have hblank : ∀ b ∈ [toLexeme ⟨.whitespace, s⟩ (Position.origin.advance x.toList)],
        b.isTrivia := by
      intro b hb
      obtain rfl := List.mem_singleton.mp hb
      rfl
    exact parse_copula hx hlast (.inl rfl) hr hquote hlexemes hblank rfl hcopula
  exact hshort.trans hlong.symm

/-- **Contracted copulas are read as full ones.** After a variable or a pronoun and before a blank, or
anything else that does not go on with the word, `'s` is read as `is`, and `'re` as `are`: all
statements of the source, and the mistake that ends the reading, are the same but for their
positions. -/
theorem contracted_copulas_read_alike (hx : Grammar.Refers x n) (hr : Detached r.toList)
    (hquote : r.toList.head? ≠ some '\'') :
    bare (parse (x ++ "'s" ++ r)) = bare (parse (x ++ " is" ++ r)) ∧
    bare (parse (x ++ "'re" ++ r)) = bare (parse (x ++ " are" ++ r)) := by
  have hblank : Blanks [' '] := by decide
  have his : String.ofList ([' '] ++ ['i', 's']) = " is" := rfl
  have hare : String.ofList ([' '] ++ ['a', 'r', 'e']) = " are" := rfl
  rw [← his, ← hare]
  constructor
  · exact bare_parse_contracted hx (show ['\'', 's'] ∈ copulaSuffixes by decide) hblank
      (show Letters ['i', 's'] by decide) (by decide) hr hquote
  · exact bare_parse_contracted hx (show ['\'', 'r', 'e'] ∈ copulaSuffixes by decide) hblank
      (show Letters ['a', 'r', 'e'] by decide) (by decide) hr hquote

/-- The rest may go on over lines, and end with a mistake. -/
theorem contracted_copulas_read_alike_proper :
    (∃ n, Grammar.Refers "Billie  Jean" n) ∧
    bare (parse "Billie  Jean's not my lover\nShe's\n") =
      bare (parse "Billie  Jean is not my lover\nShe's\n") := by
  have hfirst : Letters "Billie".toList := by decide +kernel
  have hblanks : Blanks "  ".toList := by decide +kernel
  have hlast : Letters "Jean".toList := by decide +kernel
  have hbillie : Grammar.Refers "Billie  Jean" (.var _ _) :=
    ⟨⟨_, .append (.word hfirst) hblanks hlast,
      .proper (.next (.first (by decide +kernel)) (by decide +kernel))⟩, rfl⟩
  have hrest : Detached " not my lover\nShe's\n".toList := by
    rintro c hc
    obtain rfl : ' ' = c := Option.some.inj hc
    decide
  exact ⟨⟨_, hbillie⟩, (contracted_copulas_read_alike hbillie hrest (by decide)).1⟩

end Program

end Ballad
