import Ballad.Proofs.Reading.Runs

/-!
# Where statements begin and end

A statement ends with its line, and the next one begins after it. So the lexemes of a program are
divided among its statements, each of which is read from a fresh start, and the lines and blocks of
the program only ever see the nodes of whole statements.

- `Statement.lastLine`, `Statement.Untold`: the lexemes after the last end of a line, and what is known
  of them if no statement has begun.
- `Statement.Divides`: lexemes as whole statements, one after the other, and a rest in which none ends.
  There is exactly one way to divide them (`Statement.exists_divides`, `Statement.Divides.unique`).
- `Line.innermost`, `Line.receive`: the one statement that a line is reading, and what the line makes of
  it when it is whole. A lexeme does nothing else to a line.
- `Program.arrange`: what a program makes of whole statements.
- `Program.read_divides`: this is what it makes of their lexemes.
-/

namespace Ballad.Reading

variable {l : Lexeme} {ls ms rest rest' : List Lexeme} {n : Node}
  {whole whole' : List (List Lexeme × Node)}

namespace Statement

variable {s t : Statement} {blank : Bool}

/-! ### Lines that have not begun -/

/-- The lexemes after the last end of a line. -/
def lastLine (ls : List Lexeme) : List Lexeme :=
  ls.foldl (fun line l => if l.isNewline then [] else line ++ [l]) []

/-- A line end begins a new line; anything else belongs to the last one. -/
theorem lastLine_concat (ls : List Lexeme) (l : Lexeme) :
    lastLine (ls ++ [l]) = if l.isNewline then [] else lastLine ls ++ [l] := by
  simp [lastLine]

/-- A line with nothing but blanks and comments, and with a comment unless it is `blank`. -/
structure Untold (line : List Lexeme) (blank : Bool) : Prop where
  trivia : ∀ l ∈ line, l.isTrivia
  comment_iff : blank = false ↔ ∃ l ∈ line, l.kind = .comment

theorem untold_nil : Untold [] true :=
  ⟨by simp, by simp⟩

theorem Untold.whitespace {line : List Lexeme} (h : Untold line blank) (hl : l.kind = .whitespace) :
    Untold (line ++ [l]) blank := by
  constructor
  · simpa [Lexeme.isTrivia, hl, or_imp, forall_and] using h.trivia
  · rw [h.comment_iff]
    simp [hl, or_and_right, exists_or]

theorem Untold.comment {line : List Lexeme} (h : Untold line blank) (hl : l.kind = .comment) :
    Untold (line ++ [l]) false := by
  constructor
  · simpa [Lexeme.isTrivia, hl, or_imp, forall_and] using h.trivia
  · simp [hl, or_and_right, exists_or]

/-- As long as no statement has begun, there is nothing in its line but blanks and comments. -/
theorem untold_of_readAll (h : readAll push fresh ls = .ok (.next (start blank))) :
    Untold (lastLine ls) blank := by
  refine readAll_history (P := fun ls s => ∀ blank, s = start blank → Untold (lastLine ls) blank)
    ?_ h [] ?_ blank rfl
  · rintro ls s l t hs hpush blank rfl
    have hcases := push_cases s l
    rw [hpush] at hcases
    rw [lastLine_concat]
    rcases hcases with honward | ⟨hkind, -, hnext⟩ | ⟨hkind, hstart, hnext⟩ | ⟨hline, -, hnext⟩
    · -- a statement that has begun does not go back to its start
      cases honward.2
    · cases hnext
      rw [if_neg (by simp [Lexeme.isNewline, hkind])]
      exact (hs blank rfl).whitespace hkind
    · obtain ⟨before, rfl⟩ := eq_start hstart
      cases hnext
      rw [if_neg (by simp [Lexeme.isNewline, hkind])]
      exact (hs before rfl).comment hkind
    · cases hnext
      rw [if_pos hline]
      exact untold_nil
  · intro blank hblank
    cases hblank
    exact untold_nil

/-- The end of a line ends a statement, or is a mistake. Only a line with nothing but comments is
forgotten at its end. -/
theorem push_newline (hl : l.isNewline) (s : Statement) :
    (∃ n, s.push l = .ok (.done n)) ∨ (∃ e, s.push l = .error e) ∨
      s = start false ∧ s.push l = .ok (.next fresh) := by
  have hcases := push_cases s l
  cases hpush : s.push l with
  | error e => exact .inr (.inl ⟨e, rfl⟩)
  | ok step =>
    rcases (s.absorbs_push l).cases hpush with ⟨t, rfl⟩ | ⟨n, rfl⟩
    · rw [hpush] at hcases
      rcases hcases with ⟨hline, -⟩ | ⟨hkind, -⟩ | ⟨hkind, -⟩ | ⟨-, hs, hnext⟩
      · rw [hl] at hline
        cases hline
      · simp [Lexeme.isNewline, hkind] at hl
      · simp [Lexeme.isNewline, hkind] at hl
      · exact .inr (.inr ⟨hs, hnext⟩)
    · exact .inl ⟨n, rfl⟩

/-! ### Lexemes and whole statements -/

/-- Lexemes are whole statements, one after the other, and a rest in which none ends. -/
structure Divides (ls : List Lexeme) (whole : List (List Lexeme × Node)) (rest : List Lexeme) :
    Prop where
  lexemes : ls = whole.flatMap Prod.fst ++ rest
  ended : ∀ p ∈ whole, readAll push fresh p.1 = .ok (.done (p.2, []))
  unended : ∀ n ms, readAll push fresh rest ≠ .ok (.done (n, ms))

/-- The first statement of a division is the one that is read first. -/
theorem Divides.head {p : List Lexeme × Node} (h : Divides ls (p :: whole) rest) :
    readAll push fresh ls = .ok (.done (p.2, whole.flatMap Prod.fst ++ rest)) := by
  rw [h.lexemes, List.flatMap_cons, List.append_assoc]
  exact readAll_append (h.ended p List.mem_cons_self) _

/-- The others divide what is left. -/
theorem Divides.tail {p : List Lexeme × Node} (h : Divides ls (p :: whole) rest) :
    Divides (whole.flatMap Prod.fst ++ rest) whole rest :=
  ⟨rfl, fun q hq => h.ended q (List.mem_cons_of_mem p hq), h.unended⟩

/-- All lexemes can be divided. -/
theorem exists_divides (ls : List Lexeme) : ∃ whole rest, Divides ls whole rest := by
  by_cases h : ∃ n ms, readAll push fresh ls = .ok (.done (n, ms))
  · obtain ⟨n, ms, hread⟩ := h
    obtain ⟨ks, hls, hks, hdone⟩ := readAll_done hread
    -- a statement takes at least one lexeme, so there are fewer left to divide
    have hlt : ms.length < ls.length := by
      have hpos := List.length_pos_iff.mpr hks
      rw [hls, List.length_append]
      omega
    obtain ⟨whole, rest, hrest⟩ := exists_divides ms
    refine ⟨(ks, n) :: whole, rest, ?_, ?_, hrest.unended⟩
    · rw [hls, hrest.lexemes, List.flatMap_cons, List.append_assoc]
    · intro p hp
      rcases List.mem_cons.mp hp with rfl | hp
      · exact hdone
      · exact hrest.ended p hp
  · exact ⟨[], ls, rfl, by simp, fun n ms hread => h ⟨n, ms, hread⟩⟩
termination_by ls.length

/-- There is one way to divide them. -/
theorem Divides.unique (h : Divides ls whole rest) (h' : Divides ls whole' rest') :
    whole = whole' ∧ rest = rest' := by
  induction whole generalizing ls whole' with
  | nil =>
    cases whole' with
    | nil => exact ⟨rfl, h.lexemes.symm.trans h'.lexemes⟩
    | cons q whole' =>
      have hread := h'.head
      rw [h.lexemes] at hread
      exact absurd hread (h.unended _ _)
  | cons p whole ih =>
    cases whole' with
    | nil =>
      have hread := h.head
      rw [h'.lexemes] at hread
      exact absurd hread (h'.unended _ _)
    | cons q whole' =>
      -- the first statement is what is read first, and what is left after it are the same lexemes
      have hread := h.head.symm.trans h'.head
      injection hread with hread
      injection hread with hread
      obtain ⟨hnode, hrest⟩ := Prod.mk.inj hread
      have hfirst : p.1 = q.1 := by
        have hls := h.lexemes.symm.trans h'.lexemes
        rw [List.flatMap_cons, List.flatMap_cons, List.append_assoc, List.append_assoc, hrest] at hls
        exact List.append_cancel_right hls
      have htail := h'.tail
      rw [← hrest] at htail
      obtain ⟨rfl, rfl⟩ := ih h.tail htail
      exact ⟨congrArg (· :: whole) (Prod.ext hfirst hnode), rfl⟩

end Statement

/-! ### Lines and blocks -/

namespace Line

variable {line line' : Line} {s t : Statement}

/-- The statement that is being read, in all the blocks that are open. -/
def innermost : Line → Statement
  | statement s => s
  | block _ _ _ current => current.innermost

/-- The line with that statement further on. -/
def become (t : Statement) : Line → Line
  | statement _ => statement t
  | block header body otherwise current => block header body otherwise (current.become t)

/-- What a line makes of its statement when that is whole. -/
def receive (node : Node) : Line → Except ParseError (Step Line Node)
  | statement _ => .ok (if node.opensBlock then .next (block node [] none fresh) else .done node)
  | block header body otherwise current =>
    (current.receive node).bind fun
      | .next current => .ok (.next (block header body otherwise current))
      | .done node => accept header body otherwise node
      | .yield node l => .ok (.yield node l)

/-- What is around a line never gets a lexeme back. -/
theorem absorbs_receive (n : Node) (line : Line) : Absorbs (line.receive n) := by
  induction line with
  | statement s => exact absorbs_open n
  | block header body otherwise current ih =>
    rw [receive]
    cases hcurrent : current.receive n with
    | error e => exact .error e
    | ok step =>
      rcases ih.cases hcurrent with ⟨current', rfl⟩ | ⟨node, rfl⟩
      · exact .next _
      · exact absorbs_accept header body otherwise node

/-- The innermost statement of a line is what it has become. -/
theorem innermost_become (t : Statement) (line : Line) : (line.become t).innermost = t := by
  induction line with
  | statement s => rfl
  | block header body otherwise current ih => exact ih

theorem receive_become (t : Statement) (n : Node) (line : Line) :
    (line.become t).receive n = line.receive n := by
  induction line with
  | statement s => rfl
  | block header body otherwise current ih => rw [become, receive, receive, ih]

/-- A line goes on as its innermost statement does. -/
theorem push_of_next (h : line.innermost.push l = .ok (.next t)) :
    line.push l = .ok (.next (line.become t)) := by
  induction line with
  | statement s => exact push_statement_next h
  | block header body otherwise current ih => exact push_block_next (ih h)

/-- A line receives its innermost statement when that ends. -/
theorem push_of_done (h : line.innermost.push l = .ok (.done n)) :
    line.push l = line.receive n := by
  induction line with
  | statement s => exact push_statement_done h
  | block header body otherwise current ih =>
    have hblock := push_block l header body otherwise current
    rw [ih h] at hblock
    exact hblock

/-- After a whole statement a line begins another one. -/
theorem innermost_receive (h : line.receive n = .ok (.next line')) :
    line'.innermost = .fresh := by
  induction line generalizing line' with
  | statement s =>
    rw [receive] at h
    split at h
    · cases h
      rfl
    · cases h
  | block header body otherwise current ih =>
    obtain ⟨step, hstep, h⟩ := bind_eq_ok.mp h
    cases step with
    | next current' =>
      cases h
      have hcurrent : current'.innermost = .fresh := ih hstep
      exact hcurrent
    | yield m l => cases h
    | done m =>
      -- the block has taken up what has ended in it, and reads a fresh line
      have haccept : accept header body otherwise m = .ok (.next line') := h
      unfold accept at haccept
      split at haccept <;> cases haccept <;> rfl

end Line

end Ballad.Reading

/-! ### Programs -/

namespace Ballad.Program

open Reading Line

variable {ls ms rest : List Lexeme} {n : Node} {whole : List (List Lexeme × Node)}

/-- What a program makes of one more whole statement, and of what follows. -/
def offer (line : Line) (node : Node) (follow : Line → Parsed) : Parsed :=
  match line.receive node with
  | .error e => .fail e
  | .ok (.next line) => follow line
  | .ok (.done node) | .ok (.yield node _) => emit node (follow .fresh)

/-- What a program makes of whole statements, and of what follows. -/
def arrange (line : Line) (follow : Line → Parsed) : List Node → Parsed
  | [] => follow line
  | node :: nodes => offer line node fun line => arrange line follow nodes

theorem offer_congr {line : Line} {follow follow' : Line → Parsed}
    (h : ∀ line, line.innermost = .fresh → follow line = follow' line) :
    offer line n follow = offer line n follow' := by
  unfold offer
  cases hreceive : line.receive n with
  | error e => rfl
  | ok step =>
    cases step with
    | next line' => exact h line' (innermost_receive hreceive)
    | done m | yield m _ => exact congrArg (emit m) (h .fresh rfl)

/-- A program makes of the lexemes of a statement what it makes of the statement. -/
theorem read_of_done {s : Statement}
    (h : readAll Statement.push s ls = .ok (.done (n, ms))) (last : Span) :
    ∃ last', ∀ line : Line, line.innermost = s →
      read line last ls = offer line n fun line => read line last' ms := by
  -- the line is not fixed: each lexeme makes another one of it, with the same blocks open
  induction ls generalizing s last with
  | nil => cases h
  | cons l ls ih =>
    obtain ⟨step, hpush, h⟩ := bind_eq_ok.mp h
    cases step with
    | yield m l' => cases h
    | done m =>
      cases h
      refine ⟨l.span, ?_⟩
      rintro line rfl
      rw [read_cons, push_of_done hpush]
      rfl
    | next t =>
      obtain ⟨last', hread⟩ := ih h l.span
      refine ⟨last', ?_⟩
      rintro line rfl
      rw [read_next (push_of_next hpush), hread _ (innermost_become t line), offer, offer,
        receive_become]

/-- **Statements that divide some lexemes are arranged as they are read.** -/
theorem read_divides (h : Statement.Divides ls whole rest) (last : Span) :
    ∃ last', ∀ line : Line, line.innermost = .fresh →
      read line last ls = arrange line (fun line => read line last' rest) (whole.map Prod.snd) := by
  induction whole generalizing ls last with
  | nil => exact ⟨last, fun line _ => by rw [h.lexemes]; rfl⟩
  | cons p whole ih =>
    obtain ⟨mid, hfirst⟩ := read_of_done h.head last
    obtain ⟨last', hrest⟩ := ih h.tail mid
    refine ⟨last', fun line hline => ?_⟩
    rw [hfirst line hline]
    exact offer_congr hrest

open Statement in
/-- **Statements end with their lines.** Whatever has been read of a statement, it ends only with the
end of a line, which it reads itself: no lexeme is handed back. The end of a line ends it or is a mistake, unless there were nothing but comments in the
line; then nothing has been read of a statement afterwards. So all lexemes are divided among whole
statements, each read from a fresh start to its last lexeme, and a rest in which no statement ends. They
are divided in exactly one way, and a program is made from the whole statements and the rest. -/
theorem statements_end_with_lines :
    (∀ ls s, readAll push fresh ls = .ok (.next s) → ∀ l,
      (∀ n, s.push l = .ok (.done n) → l.isNewline) ∧ Absorbs (s.push l) ∧
      (l.isNewline → (∃ n, s.push l = .ok (.done n)) ∨ (∃ e, s.push l = .error e) ∨
        s = start false ∧ s.push l = .ok (.next fresh) ∧ Untold (lastLine ls) false)) ∧
    ∀ ls, ∃ whole rest, Divides ls whole rest ∧
      (∀ whole' rest', Divides ls whole' rest' → whole = whole' ∧ rest = rest') ∧
      ∀ last, ∃ last', read .fresh last ls =
        arrange .fresh (fun line => read line last' rest) (whole.map Prod.snd) := by
  constructor
  · intro ls s hread l
    refine ⟨fun n => isNewline_of_done, s.absorbs_push l, fun hl => ?_⟩
    rcases push_newline hl s with hdone | herror | ⟨rfl, hnext⟩
    · exact .inl hdone
    · exact .inr (.inl herror)
    · exact .inr (.inr ⟨rfl, hnext, untold_of_readAll hread⟩)
  · intro ls
    obtain ⟨whole, rest, hdivides⟩ := exists_divides ls
    refine ⟨whole, rest, hdivides, fun whole' rest' => hdivides.unique, fun last => ?_⟩
    obtain ⟨last', hread⟩ := read_divides hdivides last
    exact ⟨last', hread .fresh rfl⟩

open Statement in
/-- A line of a comment is forgotten at its end. -/
theorem statements_end_with_lines_comment : ∃ comment stop,
    Lexeme.lex "(rain)\n" = [comment, stop] ∧ stop.isNewline ∧
    readAll push fresh [comment] = .ok (.next (start false)) ∧
    (start false).push stop = .ok (.next fresh) ∧ Untold (lastLine [comment]) false := by
  have hlex : Lexeme.lex "(rain)\n" = [⟨.comment, "(rain)", none, ⟨⟨1, 0⟩, ⟨1, 6⟩⟩⟩,
      ⟨.newline, "\n", none, ⟨⟨1, 6⟩, ⟨2, 0⟩⟩⟩] := by
    decide +kernel
  have hread : readAll push fresh [⟨.comment, "(rain)", none, ⟨⟨1, 0⟩, ⟨1, 6⟩⟩⟩] =
      .ok (.next (start false)) := rfl
  have hstop : (⟨.newline, "\n", none, ⟨⟨1, 6⟩, ⟨2, 0⟩⟩⟩ : Lexeme).isNewline := rfl
  refine ⟨_, _, hlex, hstop, hread, ?_⟩
  rcases (statements_end_with_lines.1 _ _ hread _).2.2 hstop with ⟨n, hn⟩ | ⟨e, he⟩ | ⟨-, hnext, huntold⟩
  · cases hn
  · cases he
  · exact ⟨hnext, huntold⟩

end Ballad.Program
