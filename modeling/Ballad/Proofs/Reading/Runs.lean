import Ballad.Program
import Ballad.Proofs.Reading.LineEnds

/-!
# Runs of the reader

- `Line.Goes`, `Line.Ends`: what several lexemes do to a line. A run of a line is lifted into the block
  that the line stands in.
- `Line.Yields`: lexemes that are a number of whole statements, one after the other.
- `Program.read_yields`: these statements are what is read from them.
- `Line.ends_or_opens`: a single line that is read as a statement ends it, or opens a block.
-/

namespace Ballad.Reading

/-! ### Runs of a line -/

namespace Line

/-- Lexemes take a line to another one, without ending it. -/
inductive Goes : Line → List Lexeme → Line → Prop where
  | nil {line : Line} : Goes line [] line
  | cons {line mid stop : Line} {l : Lexeme} {ls : List Lexeme}
    (hl : line.push l = .ok (.next mid)) (hls : Goes mid ls stop) : Goes line (l :: ls) stop

/-- Lexemes end a line, the last of them with a node. -/
inductive Ends : Line → List Lexeme → Node → Prop where
  | last {line : Line} {l : Lexeme} {n : Node} (hl : line.push l = .ok (.done n)) : Ends line [l] n
  | cons {line mid : Line} {l : Lexeme} {ls : List Lexeme} {n : Node}
    (hl : line.push l = .ok (.next mid)) (hls : Ends mid ls n) : Ends line (l :: ls) n

variable {line mid stop : Line} {ls ms : List Lexeme} {n m : Node}

/-- A mistake in a statement is a mistake in its line. -/
theorem push_statement_error {s : Statement} {l : Lexeme} {e : ParseError}
    (h : s.push l = .error e) : (statement s).push l = .error e := by
  rw [push_statement, h]
  rfl

/-- A statement goes on in its line. -/
theorem push_statement_next {s s' : Statement} {l : Lexeme} (h : s.push l = .ok (.next s')) :
    (statement s).push l = .ok (.next (statement s')) := by
  rw [push_statement, h]
  rfl

/-- A statement that has ended opens a block, or is all of it. -/
theorem push_statement_done {s : Statement} {l : Lexeme} (h : s.push l = .ok (.done n)) :
    (statement s).push l =
      .ok (if n.opensBlock then .next (block n [] none fresh) else .done n) := by
  rw [push_statement, h]
  rfl

/-- Lexemes that go on after others. -/
theorem Goes.append (h : Goes line ls mid) (h' : Goes mid ms stop) : Goes line (ls ++ ms) stop := by
  induction h with
  | nil => exact h'
  | cons hl _ ih => exact .cons hl (ih h')

/-- Lexemes that end what others have begun. -/
theorem Goes.ends (h : Goes line ls mid) (h' : Ends mid ms n) : Ends line (ls ++ ms) n := by
  induction h with
  | nil => exact h'
  | cons hl _ ih => exact .cons hl (ih h')

section

variable {header : Node} {body : List Node} {other : Option (List Node)}

/-- A line of a block goes on inside of the block. -/
theorem push_block_next {l : Lexeme} (h : line.push l = .ok (.next mid)) :
    (block header body other line).push l = .ok (.next (block header body other mid)) := by
  rw [push_block, h]
  rfl

/-- A line of a block that has ended is offered to the block. -/
theorem push_block_done {l : Lexeme} (h : line.push l = .ok (.done n)) :
    (block header body other line).push l = accept header body other n := by
  rw [push_block, h]
  rfl

/-- A line that ends inside of a block does to the block what its node does. -/
theorem Ends.goes_block (h : Ends line ls n)
    (haccept : accept header body other n = .ok (.next stop)) :
    Goes (block header body other line) ls stop := by
  induction h with
  | last hl => exact .cons ((push_block_done hl).trans haccept) .nil
  | cons hl _ ih => exact .cons (push_block_next hl) (ih haccept)

/-- A block ends with its last line. -/
theorem Ends.ends_block (h : Ends line ls n)
    (haccept : accept header body other n = .ok (.done m)) :
    Ends (block header body other line) ls m := by
  induction h with
  | last hl => exact .last ((push_block_done hl).trans haccept)
  | cons hl _ ih => exact .cons (push_block_next hl) (ih haccept)

end

/-! ### Whole statements -/

/-- A statement is one more of the body. -/
theorem accept_body (header : Node) (body : List Node) (hmark : n.isMark = false) :
    accept header body none n = .ok (.next (block header (body ++ [n]) none fresh)) := by
  cases n <;> first | rfl | cases hmark

/-- After `else`, it is one more of the other branch. -/
theorem accept_other (header : Node) (body other : List Node) (hmark : n.isMark = false) :
    accept header body (some other) n =
      .ok (.next (block header body (some (other ++ [n])) fresh)) := by
  cases n <;> first | rfl | cases hmark

/-- Lexemes that are whole statements, one after the other. -/
inductive Yields : List Lexeme → List Node → Prop where
  | nil : Yields [] []
  | cons {ls ms : List Lexeme} {n : Node} {ns : List Node} (hls : Ends fresh ls n)
    (hmark : n.isMark = false) (hms : Yields ms ns) : Yields (ls ++ ms) (n :: ns)

variable {ns : List Node}

/-- Whole statements in a block are added to its body, -/
theorem Yields.goes_body (h : Yields ls ns) (header : Node) (body : List Node) :
    Goes (block header body none fresh) ls (block header (body ++ ns) none fresh) := by
  induction h generalizing body with
  | nil =>
    rw [List.append_nil]
    exact .nil
  | @cons ls ms n ns hls hmark _ ih =>
    have hfirst := hls.goes_block (accept_body header body hmark)
    have hrest := ih (body ++ [n])
    rw [List.append_assoc, List.singleton_append] at hrest
    exact hfirst.append hrest

/-- and after `else` to its second body. -/
theorem Yields.goes_other (h : Yields ls ns) (header : Node) (body other : List Node) :
    Goes (block header body (some other) fresh) ls (block header body (some (other ++ ns)) fresh) := by
  induction h generalizing other with
  | nil =>
    rw [List.append_nil]
    exact .nil
  | @cons ls ms n ns hls hmark _ ih =>
    have hfirst := hls.goes_block (accept_other header body other hmark)
    have hrest := ih (other ++ [n])
    rw [List.append_assoc, List.singleton_append] at hrest
    exact hfirst.append hrest

end Line

end Ballad.Reading

namespace Ballad.Program

open Reading Line

variable {line mid : Line} {ls ms : List Lexeme} {n : Node} {ns : List Node}

theorem read_next {l : Lexeme} (h : line.push l = .ok (.next mid)) (last : Span) :
    read line last (l :: ls) = read mid l.span ls := by
  rw [read_cons, h]

theorem read_done {l : Lexeme} (h : line.push l = .ok (.done n)) (last : Span) :
    read line last (l :: ls) = emit n (read fresh l.span ls) := by
  rw [read_cons, h]

theorem read_error {l : Lexeme} {e : ParseError} (h : line.push l = .error e) (last : Span) :
    read line last (l :: ls) = .fail e := by
  rw [read_cons, h]

/-- What goes on is read from there on. -/
theorem read_goes (h : Goes line ls mid) (ms : List Lexeme) (last : Span) :
    ∃ last', read line last (ls ++ ms) = read mid last' ms := by
  induction h generalizing last with
  | nil => exact ⟨last, rfl⟩
  | @cons line mid stop l ls hl _ ih =>
    obtain ⟨last', hrest⟩ := ih l.span
    exact ⟨last', (read_next hl last).trans hrest⟩

/-- What has ended is emitted, and reading begins anew. -/
theorem read_ends (h : Ends line ls n) (last : Span) :
    ∃ last', read line last (ls ++ ms) = emit n (read fresh last' ms) := by
  induction h generalizing last with
  | @last line l n hl =>
    exact ⟨l.span, read_done hl last⟩
  | @cons line mid l ls n hl _ ih =>
    obtain ⟨last', hrest⟩ := ih l.span
    refine ⟨last', ?_⟩
    rw [List.cons_append, read_next hl, ← hrest]

/-- All but empty lines and `else` are emitted. -/
theorem emit_of_not_isMark (hmark : n.isMark = false) (rest : Parsed) :
    emit n rest = rest.cons n := by
  cases n <;> first | rfl | cases hmark

/-- Whole statements are what is read from their lexemes. -/
theorem read_yields (h : Yields ls ns) (last : Span) : read fresh last ls = ⟨ns, none⟩ := by
  induction h generalizing last with
  | nil => rfl
  | @cons ls ms n ns hls hmark _ ih =>
    obtain ⟨last', hfirst⟩ := read_ends hls last
    rw [hfirst, ih last', emit_of_not_isMark hmark]
    rfl

/-- A line that is read as one statement ends with it, or opens a block with it. The line end is
read last, so the statement is finished with it. -/
theorem ends_or_opens {s : Statement} {last : Span} {l : Lexeme}
    (hls : ∀ x ∈ ls, x.isNewline = false)
    (hread : read (statement s) last (ls ++ [l]) = ⟨[n], none⟩) :
    Ends (statement s) (ls ++ [l]) n ∧ n.isMark = false ∧ n.opensBlock = false ∨
    ∃ header, Goes (statement s) (ls ++ [l]) (block header [] none fresh) ∧
      header.opensBlock ∧ blockNode header [] none = n := by
  induction ls generalizing s last with
  | nil =>
    rw [List.nil_append] at hread
    cases hpush : s.push l with
    | error e =>
      rw [read_error (push_statement_error hpush)] at hread
      cases hread
    | ok step =>
      rcases (s.absorbs_push l).cases hpush with ⟨s', rfl⟩ | ⟨node, rfl⟩
      · -- the source ends inside of the statement, or there was none
        rw [read_next (push_statement_next hpush)] at hread
        simp only [read, Line.finish, Statement.finish] at hread
        cases hstart : s'.isStart <;> rw [hstart] at hread <;> cases hread
      · have hpushed := push_statement_done hpush
        cases hopen : node.opensBlock with
        | true =>
          rw [if_pos hopen] at hpushed
          have hmark : (blockNode node [] none).isMark = false := by
            cases node <;> first | rfl | cases hopen
          have hend : read (block node [] none fresh) l.span [] =
              emit (blockNode node [] none) ⟨[], none⟩ := rfl
          rw [read_next hpushed, hend, emit_of_not_isMark hmark] at hread
          obtain ⟨rfl, -⟩ := List.cons.inj (congrArg Parsed.nodes hread)
          exact .inr ⟨node, .cons hpushed .nil, hopen, rfl⟩
        | false =>
          rw [if_neg (by simp [hopen])] at hpushed
          have hend : read fresh l.span [] = ⟨[], none⟩ := rfl
          rw [read_done hpushed, hend] at hread
          cases hmark : node.isMark with
          | true =>
            cases node with
            | otherwise _ | blank _ => cases hread
            | _ => cases hmark
          | false =>
            rw [emit_of_not_isMark hmark] at hread
            obtain ⟨rfl, -⟩ := List.cons.inj (congrArg Parsed.nodes hread)
            exact .inl ⟨.last hpushed, hmark, hopen⟩
  | cons x ls ih =>
    rw [List.cons_append] at hread
    cases hpush : s.push x with
    | error e =>
      rw [read_error (push_statement_error hpush)] at hread
      cases hread
    | ok step =>
      rcases (s.absorbs_push x).cases hpush with ⟨s', rfl⟩ | ⟨node, rfl⟩
      · have hnext := push_statement_next hpush
        rw [read_next hnext] at hread
        rcases ih (fun y hy => hls y (List.mem_cons_of_mem x hy)) hread with
          ⟨hends, hrest⟩ | ⟨header, hgoes, hrest⟩
        · exact .inl ⟨.cons hnext hends, hrest⟩
        · exact .inr ⟨header, .cons hnext hgoes, hrest⟩
      · have hnewline := Statement.isNewline_of_done hpush
        rw [hls x List.mem_cons_self] at hnewline
        cases hnewline

end Ballad.Program
