import Ballad.Proofs.Reading.Runs
import Ballad.Proofs.Splicing

/-!
# Sources one after the other

If a source ends with a line end, and no block is open there, then what follows is read as if it stood
alone, only further down.

- `Position.down`: a position some lines further down. The lexer does not notice the difference
  (`Lexeme.split_append`).
- `Program.lineAfter`: the line that is being read after some lexemes, and `Program.endsInBlock`:
  whether a block is open where a source ends.
- `Program.read_start`: at the top level it makes no difference whether a line has begun with a
  comment.
- `Program.read_append`: reading goes on after the first source with a new line.
-/

namespace Ballad

open Reading Placed

/-! ### Further down -/

namespace Position

/-- A position that is `k` lines further down. -/
def down (k : Nat) (p : Position) : Position := ⟨p.line + k, p.column⟩

theorem down_next (k : Nat) (p : Position) (c : Char) : (p.down k).next c = (p.next c).down k := by
  unfold next down
  split
  · rw [Nat.add_right_comm]
  · rfl

theorem down_advance (k : Nat) (p : Position) (cs : List Char) :
    (p.down k).advance cs = (p.advance cs).down k := by
  induction cs generalizing p with
  | nil => rfl
  | cons c cs ih => rw [advance_cons, advance_cons, down_next, ih]

theorem line_advance (p : Position) (cs : List Char) :
    (p.advance cs).line = p.line + cs.count '\n' := by
  induction cs generalizing p with
  | nil => rfl
  | cons c cs ih =>
    rw [advance_cons, ih, List.count_cons]
    unfold next
    by_cases hc : c = '\n'
    · simp only [hc, if_true, beq_self_eq_true]
      omega
    · simp only [hc, if_false, beq_iff_eq]
      omega

/-- After the end of a line, a text leads to the beginning of another one. -/
theorem advance_of_getLast? {cs : List Char} (h : cs.getLast? = some '\n') :
    origin.advance cs = origin.down (cs.count '\n') := by
  obtain ⟨before, rfl⟩ := List.getLast?_eq_some_iff.mp h
  have hcolumn : (origin.advance (before ++ ['\n'])).column = 0 := by
    rw [advance_append]
    rfl
  have hline := line_advance origin (before ++ ['\n'])
  cases hp : origin.advance (before ++ ['\n']) with
  | mk line column =>
    rw [hp] at hcolumn hline
    cases hcolumn
    cases hline
    rfl

end Position

open Position

namespace Lexeme

open Piece

/-- The lexemes that statements are read from. -/
def split (source : String) : List Lexeme :=
  (lex source).flatMap splitCopula

theorem splitCopula_down (k : Nat) (l : Lexeme) :
    splitCopula (move (down k) l) = move (down k) (splitCopula l) := by
  have hself : [move (down k) l] = move (down k) [l] := rfl
  unfold splitCopula
  rw [move_kind, move_literal]
  split
  · split
    · show [_, _] = [_, _]
      rw [show (move (down k) l).span.start = l.span.start.down k from rfl, down_advance]
      rfl
    · exact hself
  · exact hself

theorem flatMap_splitCopula_down (k : Nat) (ls : List Lexeme) :
    (move (down k) ls).flatMap splitCopula = move (down k) (ls.flatMap splitCopula) := by
  induction ls with
  | nil => rfl
  | cons l ls ih =>
    rw [move_cons, List.flatMap_cons, List.flatMap_cons, move_append, splitCopula_down, ih]

/-- The lexemes of a source after another one are its own, further down. -/
theorem split_append {a b : String} (ha : EndsLine a.toList) (hb : b ≠ "") :
    split (a ++ b) = split a ++ move (down (a.toList.count '\n')) (split b) := by
  have hmerge : (merge (cut a.toList)).getLast?.map Piece.kind = some .newline := by
    rw [getLast?_merge]
    exact ha
  have hplace := (getLast?_place (merge (cut a.toList)) .origin false).mpr hmerge
  -- the second source is placed where the first one leads to
  have hwhere : Position.origin.advance ((merge (cut a.toList)).flatMap Piece.text) =
      Position.origin.down (a.toList.count '\n') := by
    rw [flatMap_merge, flatMap_cut]
    exact advance_of_getLast? (getLast?_of_endsLine ha)
  have hplaced := place_move (down (a.toList.count '\n')) fun cs => (down_advance _ .origin cs).symm
  have hlex : lex (a ++ b) = lex a ++ move (down (a.toList.count '\n')) (lex b) := by
    rw [lex_eq_of_ne_empty hb, lex, lex, scan, scan, String.toList_append, cut_append ha,
      merge_append ha (by decide), place_append _ _ _ hmerge, contract_append_of_newline hplace,
      hwhere, hplaced, move_contract]
  unfold split
  rw [hlex, List.flatMap_append, flatMap_splitCopula_down]

end Lexeme

/-! ### Reading on -/

namespace Program

/-- The line that is being read after some lexemes, if there is no mistake in them. -/
def lineAfter (line : Line) : List Lexeme → Option Line
  | [] => some line
  | l :: ls =>
    match line.push l with
    | .error _ => none
    | .ok (.next line) => lineAfter line ls
    | .ok (.done _) | .ok (.yield ..) => lineAfter .fresh ls

/-- Whether a block is open where a source ends. -/
def endsInBlock (source : String) : Bool :=
  (lineAfter .fresh (Lexeme.split source)).any Line.isBlock

theorem lineAfter_next {line mid : Line} {l : Lexeme} (h : line.push l = .ok (.next mid))
    (ls : List Lexeme) : lineAfter line (l :: ls) = lineAfter mid ls := by
  rw [lineAfter, h]

theorem lineAfter_done {line : Line} {l : Lexeme} {n : Node} (h : line.push l = .ok (.done n))
    (ls : List Lexeme) : lineAfter line (l :: ls) = lineAfter .fresh ls := by
  rw [lineAfter, h]

/-- An empty line and a line with nothing but a comment are the same at the top level. -/
theorem read_start (blank : Bool) (last : Span) (ls : List Lexeme) :
    read (.statement (.start blank)) last ls = read .fresh last ls := by
  induction ls generalizing blank last with
  | nil => rfl
  | cons l ls ih =>
    rw [Line.fresh, Statement.fresh, read_cons, read_cons, Line.push_statement, Line.push_statement,
      Statement.push, Statement.push]
    unfold Statement.pushStart
    cases l.kind with
    | whitespace => exact (ih blank l.span).trans (ih true l.span).symm
    | newline =>
      cases blank with
      | true => rfl
      | false => rfl
    | endOfInput =>
      cases blank with
      | true => rfl
      | false => rfl
    | _ => rfl

/-- What a statement of the top level adds to what is read. -/
def shown (node : Node) : List Node :=
  match node with
  | .blank _ => []
  | node => [node]

/-- A statement is added to what follows, or ends the reading. -/
theorem emit_cases (node : Node) :
    (∀ rest, emit node rest = ⟨shown node ++ rest.nodes, rest.failure⟩) ∨
    ∀ rest, (emit node rest).failure ≠ none := by
  cases node with
  | otherwise span => exact .inr fun rest => nofun
  | _ => exact .inl fun rest => rfl

/-- Lexemes that are read without a mistake, and leave no block open, leave a new line behind. -/
theorem read_append {line mid : Line} {ls : List Lexeme} {last : Span}
    (hafter : lineAfter line ls = some mid) (hclosed : mid.isBlock = false)
    (hread : (read line last ls).failure = none) (ms : List Lexeme) :
    ∃ last', read line last (ls ++ ms) =
      ⟨(read line last ls).nodes ++ (read .fresh last' ms).nodes, (read .fresh last' ms).failure⟩ := by
  induction ls generalizing line last with
  | nil =>
    cases hafter
    cases mid with
    | block => cases hclosed
    | statement s =>
      -- the first source may end here, so no statement has begun
      cases s with
      | start blank => exact ⟨last, read_start blank last ms⟩
      | _ => cases hread
  | cons l ls ih =>
    rw [List.cons_append]
    cases hpush : line.push l with
    | error e =>
      rw [read_error hpush] at hread
      cases hread
    | ok step =>
      rcases (Line.absorbs_push l line).cases hpush with ⟨line', rfl⟩ | ⟨node, rfl⟩
      · rw [lineAfter_next hpush] at hafter
        rw [read_next hpush] at hread ⊢
        rw [read_next hpush]
        exact ih hafter hread
      · rw [lineAfter_done hpush] at hafter
        rw [read_done hpush] at hread ⊢
        rw [read_done hpush]
        rcases emit_cases node with hemit | hemit
        · rw [hemit] at hread
          obtain ⟨last', hrest⟩ := ih hafter hread
          refine ⟨last', ?_⟩
          rw [hemit, hemit, hrest, List.append_assoc]
        · exact absurd hread (hemit _)

/-- Where there is no mistake, there is a line that is being read. -/
theorem lineAfter_isSome {line : Line} {ls : List Lexeme} {last : Span}
    (hread : (read line last ls).failure = none) : (lineAfter line ls).isSome := by
  induction ls generalizing line last with
  | nil => rfl
  | cons l ls ih =>
    cases hpush : line.push l with
    | error e =>
      rw [read_error hpush] at hread
      cases hread
    | ok step =>
      rcases (Line.absorbs_push l line).cases hpush with ⟨line', rfl⟩ | ⟨node, rfl⟩
      · rw [read_next hpush] at hread
        rw [lineAfter_next hpush]
        exact ih hread
      · rw [read_done hpush] at hread
        rw [lineAfter_done hpush]
        rcases emit_cases node with hemit | hemit
        · rw [hemit] at hread
          exact ih hread
        · exact absurd hread (hemit _)

theorem parse_eq_read (source : String) :
    parse source = read .fresh .origin (Lexeme.split source) := rfl

/-- Only where nothing is read, the span of the lexeme before makes a difference, and a new line is not
one of these places. -/
theorem read_fresh_last (last last' : Span) (ls : List Lexeme) :
    read .fresh last ls = read .fresh last' ls := by
  cases ls with
  | nil => rfl
  | cons l ls => rfl

/-- **Sources are read one after the other**: if the last lexeme of `a` is a real line end, `a` is read
without a mistake and no block is open at its end, then what is read from `a` and `b` together are the
statements of `a`, and after them what is read from `b`, as many lines further down as `a` has line
feeds. -/
theorem parse_append {a b : String} (hline : (Lexeme.lex a).getLast?.map Lexeme.kind = some .newline)
    (hread : (parse a).failure = none) (hclosed : endsInBlock a = false) :
    parse (a ++ b) = ⟨(parse a).nodes ++ move (down (a.toList.count '\n')) (parse b).nodes,
      move (down (a.toList.count '\n')) (parse b).failure⟩ := by
  have hends : Piece.EndsLine a.toList := (Lexeme.endsLine_iff a).mpr hline
  rw [parse_eq_read] at hread
  obtain ⟨mid, hafter⟩ := Option.isSome_iff_exists.mp (lineAfter_isSome hread)
  have hmid : mid.isBlock = false := by
    rw [endsInBlock, hafter] at hclosed
    exact hclosed
  by_cases hb : b = ""
  · -- alone, the empty source is a line that is ended by the end of the input
    subst hb
    have hempty : (parse "").failure = none ∧ (parse "").nodes.isEmpty := by
      decide +kernel
    rw [hempty.1, List.isEmpty_iff.mp hempty.2, String.append_empty]
    show parse a = ⟨(parse a).nodes ++ [], none⟩
    rw [List.append_nil, parse_eq_read, ← hread]
  · obtain ⟨last', happend⟩ := read_append hafter hmid hread
      (move (down (a.toList.count '\n')) (Lexeme.split b))
    have hmoved := move_read (down (a.toList.count '\n')) .fresh .origin (Lexeme.split b)
    rw [parse_eq_read, Lexeme.split_append hends hb, happend, read_fresh_last last'
      (move (down (a.toList.count '\n')) .origin)]
    rw [Line.move_fresh] at hmoved
    rw [← hmoved]
    rfl

/-- A conditional that an empty line closes, and a source whose second line is cut off. -/
theorem parse_append_unfinished : ∃ a b : String,
    (Lexeme.lex a).getLast?.map Lexeme.kind = some .newline ∧ (parse a).failure = none ∧
    endsInBlock a = false ∧
    parse (a ++ b) = ⟨(parse a).nodes ++ move (down 4) (parse b).nodes,
      move (down 4) (parse b).failure⟩ ∧
    (parse a).nodes.length = 1 ∧ (parse b).nodes.length = 1 ∧
    (parse b).failure.map (·.span.start.line) = some 2 ∧
    (parse (a ++ b)).failure.map (·.span.start.line) = some 6 := by
  refine ⟨"if true\n(a\nb) say 1\n\n", "Tommy's gone\nput 1 into", by decide +kernel,
    by decide +kernel, by decide +kernel, ?_, by decide +kernel, by decide +kernel,
    by decide +kernel, by decide +kernel⟩
  exact parse_append (by decide +kernel) (by decide +kernel) (by decide +kernel)

end Program

end Ballad
