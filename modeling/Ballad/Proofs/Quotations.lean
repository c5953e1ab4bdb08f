import Ballad.Proofs.Splicing

/-!
# Every text can be quoted

A text is quoted by putting it between double quotes, with a backslash before each backslash and each
double quote in it. The lexer reads this as a string that denotes the text. The string ends with the
last quote, whatever the text holds and whatever follows; and what follows is lexed as if it stood
alone.

- `Position.startingAt`: positions of a text that does not begin where sources begin.
- `Piece.escaped`, `Lexeme.quotation`: how a text is quoted.
- `Piece.string_quotation`: the closing quote is found. `Piece.decode_quotation`: the text is read back.
- `Lexeme.scan_quotation`: the lexemes of a quoted text and of what follows it.
-/

namespace Ballad

open Placed

namespace Position

/-- A position of a text that begins at `start`, by the position that it has if the text begins at the
origin. Only in the first line does the column depend on where the text begins. -/
def startingAt (start p : Position) : Position :=
  if p.line = 1 then ⟨start.line, start.column + p.column⟩
  else ⟨start.line + (p.line - 1), p.column⟩

theorem startingAt_next (start : Position) {p : Position} (hline : 1 ≤ p.line) (c : Char) :
    start.startingAt (p.next c) = (start.startingAt p).next c := by
  obtain ⟨line, column⟩ := p
  have hline : 1 ≤ line := hline
  unfold startingAt next
  by_cases hc : c = '\n'
  · rw [if_pos hc, if_pos hc]
    by_cases hfirst : line = 1
    · subst hfirst
      rfl
    · have hsub : line + 1 - 1 = line - 1 + 1 := by omega
      simp only [hfirst, if_false, show line + 1 ≠ 1 by omega, hsub]
      rfl
  · rw [if_neg hc, if_neg hc]
    by_cases hfirst : line = 1
    · subst hfirst
      rfl
    · simp only [hfirst, if_false]

/-- A text leads from `start` to where it leads from the origin, moved by as much. -/
theorem startingAt_advance (start : Position) (cs : List Char) :
    start.startingAt (origin.advance cs) = start.advance cs := by
  -- all positions on the way are in the first line or below
  suffices h : ∀ p : Position, 1 ≤ p.line →
      start.startingAt (p.advance cs) = (start.startingAt p).advance cs from h origin (Nat.le_refl 1)
  induction cs with
  | nil =>
    intro p _
    rfl
  | cons c cs ih =>
    intro p hline
    have hnext : 1 ≤ (p.next c).line := by
      unfold next
      split
      · exact Nat.le_succ_of_le hline
      · exact hline
    rw [advance_cons, advance_cons, ih _ hnext, startingAt_next start hline]

end Position

/-! ### Quoting -/

namespace Piece

/-- How a character is written between quotes. -/
def escaped (c : Char) : List Char :=
  if c = '\\' ∨ c = '"' then ['\\', c] else [c]

theorem string_escaped (c : Char) (cs : List Char) :
    string (escaped c ++ cs) = (escaped c ++ (string cs).1, (string cs).2) := by
  unfold escaped
  by_cases hc : c = '\\' ∨ c = '"'
  · rw [if_pos hc]
    rfl
  · obtain ⟨hslash, hquote⟩ := not_or.mp hc
    rw [if_neg hc, List.singleton_append, string]
    · rfl
    · exact hquote
    · exact fun _ _ h _ => hslash h

theorem decode_escaped (c : Char) (cs : List Char) : decode (escaped c ++ cs) = c :: decode cs := by
  unfold escaped
  by_cases hc : c = '\\' ∨ c = '"'
  · rw [if_pos hc]
    rcases hc with rfl | rfl <;> rfl
  · obtain ⟨hslash, hquote⟩ := not_or.mp hc
    rw [if_neg hc, List.singleton_append, decode]
    · exact hquote
    all_goals
      intros
      exact hslash ‹_›

/-- **A quoted text ends at its closing quote**, and no character in it is taken for that. -/
theorem string_quotation (t u : List Char) :
    string (t.flatMap escaped ++ '"' :: u) = (t.flatMap escaped ++ ['"'], u) := by
  induction t with
  | nil => rfl
  | cons c t ih => rw [List.flatMap_cons, List.append_assoc, string_escaped, ih, List.append_assoc]

/-- **A quoted text denotes the text.** -/
theorem decode_quotation (t u : List Char) : decode (t.flatMap escaped ++ '"' :: u) = t := by
  induction t with
  | nil => rfl
  | cons c t ih => rw [List.flatMap_cons, List.append_assoc, decode_escaped, ih]

/-- A string ends no line. -/
theorem place_string (a : Position) (ended : Bool) (w : List Char) (ps : List Piece) :
    place a ended (⟨.string, w⟩ :: ps) =
      toLexeme ⟨.string, w⟩ a :: place (a.advance w) false ps :=
  rfl

end Piece

namespace Lexeme

open Piece Position

/-- A text in double quotes. -/
def quotation (t : String) : String :=
  String.ofList ('"' :: t.toList.flatMap escaped ++ ['"'])

theorem toList_quotation (t : String) :
    (quotation t).toList = '"' :: (t.toList.flatMap escaped ++ ['"']) :=
  String.toList_ofList

theorem cut_quotation_append (t u : String) :
    cut (quotation t ++ u).toList = ⟨.string, (quotation t).toList⟩ :: cut u.toList := by
  have hstring := string_quotation t.toList u.toList
  have hfirst : first '"' (t.toList.flatMap escaped ++ '"' :: u.toList) =
      (⟨.string, (quotation t).toList⟩, u.toList) := by
    show ((⟨.string, '"' :: (string _).1⟩ : Piece), (string _).2) = _
    rw [hstring, toList_quotation]
  rw [String.toList_append, toList_quotation, List.cons_append, List.append_assoc,
    List.singleton_append, cut_cons, hfirst, toList_quotation]

/-- The lexeme of a text in quotes at the beginning of a source. -/
theorem toLexeme_quotation (t : String) :
    toLexeme ⟨.string, (quotation t).toList⟩ .origin =
      ⟨.string, t, some (quotation t), .ofText .origin (quotation t).toList⟩ := by
  have hdecode : decode (quotation t).toList.tail = t.toList := by
    rw [toList_quotation]
    exact decode_quotation t.toList []
  rw [toLexeme, if_pos rfl, hdecode, String.ofList_toList, String.ofList_toList]

/-- **Every text can be written as a string, whatever comes after it.** The quoted text is one string
lexeme, which denotes the text and is spelled as it stands there. What follows has the lexemes that it
has alone, as far on as the quoted text goes. -/
theorem scan_quotation (t u : String) :
    scan (quotation t ++ u) =
      ⟨.string, t, some (quotation t), .ofText .origin (quotation t).toList⟩ ::
        move (startingAt (Position.origin.advance (quotation t).toList)) (scan u) := by
  have hkind : Kind.string ≠ .whitespace := by decide
  have hmerge : merge (⟨.string, (quotation t).toList⟩ :: cut u.toList) =
      ⟨.string, (quotation t).toList⟩ :: merge (cut u.toList) :=
    merge_append_cons hkind [] (cut u.toList)
  have hplace : place (Position.origin.advance (quotation t).toList) false (merge (cut u.toList)) =
      move (startingAt (Position.origin.advance (quotation t).toList)) (scan u) :=
    place_move _ (startingAt_advance _) false _
  rw [scan, cut_quotation_append, hmerge, place_string, toLexeme_quotation, hplace]

/-- A text of two lines that ends with a backslash, and a word after it in the second line. -/
example : scan (quotation "\n\\" ++ " x") =
    [⟨.string, "\n\\", some "\"\n\\\\\"", ⟨⟨1, 0⟩, ⟨2, 3⟩⟩⟩,
      ⟨.whitespace, " ", none, ⟨⟨2, 3⟩, ⟨2, 4⟩⟩⟩, ⟨.identifier, "x", none, ⟨⟨2, 4⟩, ⟨2, 5⟩⟩⟩,
      ⟨.endOfInput, "", none, ⟨⟨2, 5⟩, ⟨2, 5⟩⟩⟩] := by
  decide +kernel

end Lexeme

end Ballad
