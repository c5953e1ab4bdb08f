import Ballad.Proofs.Reading.Runs
import Ballad.Proofs.Splicing

/-!
# Block structure

A forest of statements is written down line by line: a statement without a body is its line, and a
block is its first line, its bodies with an `else` between them if there are two, and one empty line.
Reading what has been written gives the forest back, but for positions.

- `SourceLine`: a line of text that is read as one statement.
- `Forest`: statements and blocks, nested to any depth.
- `Forest.render`: the text of a forest, and `Forest.nodes`: its statements.
- `Forest.yields_render`: the lexemes of the text are those statements.
-/

namespace Ballad

open Reading Line

/-! ### Blocks -/

namespace Node

/-- A block with the given bodies in the place of its own. -/
def fill (body other : List Node) : Node → Node
  | conditional s c _ _ => conditional s c body other
  | loop s c _ goal => loop s c body goal
  | function s name parameters _ => function s name parameters body
  | n => n

/-- Whether a node is a conditional. -/
def isConditional : Node → Bool
  | conditional .. => true
  | _ => false

/-- But for positions, a block is filled with the same nodes. -/
theorem bare_fill (n : Node) (body other : List Node) :
    bare (n.fill body other) = (bare n).fill (bare body) (bare other) := by
  unfold bare
  cases n <;> simp [fill]

theorem opensBlock_of_isConditional {n : Node} (h : n.isConditional) : n.opensBlock := by
  cases n <;> first | rfl | cases h

theorem isConditional_bare (n : Node) : (bare n).isConditional = n.isConditional := by
  cases n <;> rfl

/-- A block is no mark, whatever it is filled with. -/
theorem isMark_bare_fill {n : Node} (h : n.opensBlock) (body other : List Node) :
    (bare (n.fill body other)).isMark = false := by
  cases n <;> first | rfl | cases h

end Node

/-- Without positions a block only gets its bodies. -/
theorem blockNode_eq_fill {header : Node} (hopen : header.opensBlock)
    (hspan : header.span = .origin) {body : List Node} {other : Option (List Node)}
    (hbody : ∀ n ∈ body, n.span = .origin) (hother : ∀ ns ∈ other, ∀ n ∈ ns, n.span = .origin) :
    blockNode header body other = (blockNode header [] none).fill body (other.getD []) := by
  have hblock : blockSpan header body other = .origin := by
    unfold blockSpan
    split
    · rename_i last hlast
      have horigin : last.span = .origin := by
        rcases Option.or_eq_some_iff.mp hlast with hlast | ⟨-, hlast⟩
        · obtain ⟨ns, hns, hlast⟩ := Option.bind_eq_some_iff.mp hlast
          exact hother ns hns last (List.mem_of_getLast? hlast)
        · exact hbody last (List.mem_of_getLast? hlast)
      rw [hspan, horigin]
      rfl
    · exact hspan
  have hempty : blockSpan header [] none = .origin := hspan
  unfold blockNode
  rw [hblock, hempty]
  cases header with
  | conditional | loop | function => rfl
  | _ => cases hopen

/-! ### Lines -/

/-- A text is one line if its only line end is the one that is written after it. A comment or a string
that is still open would take that line end up. -/
def IsLine (text : String) : Prop :=
  ((Lexeme.lex (text ++ "\n")).filter Lexeme.isNewline).map Lexeme.kind = [.newline]

instance (text : String) : Decidable (IsLine text) :=
  inferInstanceAs (Decidable (_ = _))

/-- The statement that a text is read as, if it is read as one. -/
def Program.single? (text : String) : Option Node :=
  match Program.parse text with
  | ⟨[node], none⟩ => some node
  | _ => none

/-- A line of text that is read as one statement. -/
structure SourceLine where
  text : String
  isLine : IsLine text
  reads : (Program.single? (text ++ "\n")).isSome

namespace SourceLine

/-- The statement of a line. -/
def node (line : SourceLine) : Node :=
  (Program.single? (line.text ++ "\n")).get line.reads

/-- A line with its end. -/
def written (line : SourceLine) : String :=
  line.text ++ "\n"

/-- The lexemes of a line with its end. -/
def lexemes (line : SourceLine) : List Lexeme :=
  Lexeme.continuation line.written.toList

/-- A line of source is read as its node. -/
theorem parse_eq (line : SourceLine) :
    Program.parse line.written = ⟨[line.node], none⟩ := by
  have hsome : Program.single? line.written = some line.node := (Option.some_get _).symm
  unfold Program.single? at hsome
  split at hsome
  · rename_i node hparse
    rw [hparse, Option.some.inj hsome]
  · cases hsome

/-- The lexemes of a line, in front of its end and with it. -/
theorem lex_eq (line : SourceLine) :
    ∃ ls l, Lexeme.lex line.written = ls ++ [l] ∧ (∀ x ∈ ls, x.isNewline = false) ∧
      l.kind = .newline := by
  have hclosed := Lexeme.closed_lex line.written
  have hne : Lexeme.lex line.written ≠ [] := by
    intro hnil
    rw [hnil] at hclosed
    cases hclosed
  -- every source ends with a line end, and here there is only one
  obtain ⟨l, hlast, hnewline⟩ := Lexeme.closed_getLast? hclosed hne
  obtain ⟨ls, hls⟩ := List.getLast?_eq_some_iff.mp hlast
  have hkinds : ((Lexeme.lex line.written).filter Lexeme.isNewline).map Lexeme.kind = [.newline] :=
    line.isLine
  rw [hls, List.filter_append, List.filter_singleton, hnewline, cond_true, List.map_append,
    List.map_singleton, ← List.nil_append [Lexeme.Kind.newline]] at hkinds
  obtain ⟨hnone, hkind⟩ := List.append_inj' hkinds rfl
  refine ⟨ls, l, hls, ?_, List.singleton_inj.mp hkind⟩
  intro x hx
  have hempty := List.filter_eq_nil_iff.mp (List.map_eq_nil_iff.mp hnone) x hx
  exact Bool.eq_false_iff.mpr hempty

/-- A line of source ends with its line end. -/
theorem wholeLines (line : SourceLine) : Piece.WholeLines line.written.toList := by
  obtain ⟨ls, l, hls, -, hl⟩ := line.lex_eq
  refine .inr ((Lexeme.endsLine_iff line.written).mpr ?_)
  rw [hls, List.getLast?_concat, Option.map_some, hl]

end SourceLine

/-- But for positions, a program is read from the lexemes of its text. -/
theorem Program.bare_parse {source : String} (h : source ≠ "") :
    bare (parse source) = read fresh .origin (Lexeme.continuation source.toList) := by
  rw [← Lexeme.bare_lex h]
  exact move_read _ fresh .origin _

namespace SourceLine

/-- A line ends with its statement, or opens a block with it, wherever it stands. -/
theorem ends_or_opens (line : SourceLine) :
    Ends fresh line.lexemes (bare line.node) ∧
      (bare line.node).isMark = false ∧ line.node.opensBlock = false ∨
    ∃ header, Goes fresh line.lexemes (block header [] none fresh) ∧
      header.opensBlock ∧ blockNode header [] none = bare line.node := by
  have hne : line.written ≠ "" := by
    intro h
    have hchars := congrArg String.toList h
    simp [written] at hchars
  obtain ⟨ls, l, hls, hnone, hl⟩ := line.lex_eq
  have hsplit : (Lexeme.lex line.written).flatMap Lexeme.splitCopula =
      ls.flatMap Lexeme.splitCopula ++ [l] := by
    rw [hls, List.flatMap_append, List.flatMap_singleton, Lexeme.splitCopula, if_neg (by simp [hl])]
  have hlexemes : line.lexemes = bare (ls.flatMap Lexeme.splitCopula) ++ [bare l] := by
    rw [lexemes, ← Lexeme.bare_lex hne, hsplit, bare_append]
    rfl
  have hbefore : ∀ x ∈ bare (ls.flatMap Lexeme.splitCopula), x.isNewline = false := by
    intro x hx
    obtain ⟨y, hy, rfl⟩ := List.mem_map.mp hx
    obtain ⟨z, hz, hy⟩ := List.mem_flatMap.mp hy
    rw [Lexeme.move_isNewline, Lexeme.isNewline_of_mem_splitCopula hy, hnone z hz]
  have hread : Program.read fresh .origin line.lexemes = ⟨[bare line.node], none⟩ := by
    rw [lexemes, ← Program.bare_parse hne, line.parse_eq]
    rfl
  -- the line end is the last lexeme and the only one that can end the statement
  rw [hlexemes] at hread ⊢
  rcases Program.ends_or_opens hbefore hread with ⟨hends, hmark, hopen⟩ | hopens
  · exact .inl ⟨hends, hmark, by simpa [bare] using hopen⟩
  · exact .inr hopens

/-- A line that opens no block ends with its node, wherever it stands. -/
theorem ends (line : SourceLine) (h : line.node.opensBlock = false) :
    Ends fresh line.lexemes (bare line.node) ∧ (bare line.node).isMark = false := by
  rcases line.ends_or_opens with ⟨hends, hmark, -⟩ | ⟨header, -, hopen, hnode⟩
  · exact ⟨hends, hmark⟩
  · have hblock : (blockNode header [] none).opensBlock := by
      cases header <;> first | rfl | cases hopen
    rw [hnode, bare, Node.opensBlock_move, h] at hblock
    cases hblock

/-- A line that opens a block leaves it open, with nothing in it. -/
theorem opens (line : SourceLine) (h : line.node.opensBlock) :
    ∃ header, Goes fresh line.lexemes (block header [] none fresh) ∧
      header.opensBlock ∧ blockNode header [] none = bare line.node := by
  rcases line.ends_or_opens with ⟨-, -, hopen⟩ | hopens
  · rw [hopen] at h
    cases h
  · exact hopens

end SourceLine

/-! ### Forests -/

/-- Statements and blocks one after the other. -/
inductive Forest where
  | nil
  /-- A statement without a body. -/
  | sentence (line : SourceLine) (plain : line.node.opensBlock = false) (rest : Forest)
  /-- A conditional, a loop or a function with its body. -/
  | block (line : SourceLine) (opens : line.node.opensBlock) (body rest : Forest)
  /-- A conditional with two bodies. -/
  | divided (line : SourceLine) (conditional : line.node.isConditional) (body other rest : Forest)

namespace Forest

/-- The text of a forest. Every block is closed by one empty line. -/
def render : Forest → String
  | nil => ""
  | sentence line _ rest => line.written ++ rest.render
  | block line _ body rest => line.written ++ (body.render ++ ("\n" ++ rest.render))
  | divided line _ body other rest =>
    line.written ++ (body.render ++ ("else\n" ++ (other.render ++ ("\n" ++ rest.render))))

/-- The statements of a forest. -/
def nodes : Forest → List Node
  | nil => []
  | sentence line _ rest => line.node :: rest.nodes
  | block line _ body rest => line.node.fill body.nodes [] :: rest.nodes
  | divided line _ body other rest => line.node.fill body.nodes other.nodes :: rest.nodes

end Forest

/-! ### Reading a forest -/

/-- An empty line ends as such. -/
theorem ends_blank : Ends fresh (Lexeme.continuation "\n".toList) (.blank .origin) := by
  have hlexemes : Lexeme.continuation "\n".toList = [⟨.newline, "\n", none, .origin⟩] := by
    decide +kernel
  rw [hlexemes]
  exact .last rfl

/-- So does `else` on a line of its own. -/
theorem ends_otherwise : Ends fresh (Lexeme.continuation "else\n".toList) (.otherwise .origin) := by
  have hlexemes : Lexeme.continuation "else\n".toList =
      [⟨.identifier, "else", none, .origin⟩, ⟨.newline, "\n", none, .origin⟩] := by
    decide +kernel
  rw [hlexemes]
  exact .cons (by rfl) (.last (by rfl))

/-- A block that a line has opened is closed by an empty line, and is then the statement of the line
with its bodies. -/
theorem ends_of_opens {line : SourceLine} {header : Node}
    (hopens : Goes fresh line.lexemes (block header [] none fresh)) (hopen : header.opensBlock)
    (hnode : blockNode header [] none = bare line.node) {ls : List Lexeme} {body : List Node}
    (other : Option (List Node))
    (hbodies : Goes (block header [] none fresh) ls (block header (bare body) (bare other) fresh)) :
    Ends fresh (line.lexemes ++ (ls ++ Lexeme.continuation "\n".toList))
      (bare (line.node.fill body (other.getD []))) := by
  have hspan : header.span = .origin := by
    rw [← Node.span_bare line.node, ← hnode]
    cases header <;> rfl
  have hbare : ∀ ns : List Node, ∀ n ∈ bare ns, n.span = .origin := by
    intro ns n hn
    obtain ⟨m, -, rfl⟩ := List.mem_map.mp hn
    exact Node.span_bare m
  have hother : ∀ ns ∈ bare other, ∀ n ∈ ns, n.span = .origin := by
    intro ns hns
    obtain ⟨ms, -, rfl⟩ := Option.map_eq_some_iff.mp hns
    exact hbare ms
  have hblock : blockNode header (bare body) (bare other) =
      bare (line.node.fill body (other.getD [])) := by
    rw [blockNode_eq_fill hopen hspan (hbare body) hother, hnode, Node.bare_fill]
    cases other <;> rfl
  rw [← hblock]
  exact hopens.ends (hbodies.ends (ends_blank.ends_block rfl))

namespace Forest

theorem wholeLines_blank : Piece.WholeLines "\n".toList :=
  .inr (by unfold Piece.EndsLine; decide +kernel)

theorem wholeLines_else : Piece.WholeLines "else\n".toList :=
  .inr (by unfold Piece.EndsLine; decide +kernel)

/-- The text of a forest is made of whole lines. -/
theorem wholeLines_render (forest : Forest) : Piece.WholeLines forest.render.toList := by
  induction forest with
  | nil => exact .inl rfl
  | sentence line _ rest ih =>
    rw [render, String.toList_append]
    exact line.wholeLines.append ih
  | block line _ body rest ihBody ihRest =>
    rw [render, String.toList_append, String.toList_append, String.toList_append]
    exact line.wholeLines.append (ihBody.append (wholeLines_blank.append ihRest))
  | divided line _ body other rest ihBody ihOther ihRest =>
    rw [render, String.toList_append, String.toList_append, String.toList_append,
      String.toList_append, String.toList_append]
    exact line.wholeLines.append (ihBody.append (wholeLines_else.append
      (ihOther.append (wholeLines_blank.append ihRest))))

/-- The text of a forest is its statements. The induction is on the forest: a line is a run of its
own, and the run of a body is lifted into the block that its first line has opened. -/
theorem yields_render (forest : Forest) :
    Yields (Lexeme.continuation forest.render.toList) (bare forest.nodes) := by
  induction forest with
  | nil =>
    rw [render, String.toList_empty, Lexeme.continuation_nil]
    exact .nil
  | sentence line plain rest ih =>
    obtain ⟨hends, hmark⟩ := line.ends plain
    rw [render, String.toList_append, Lexeme.continuation_append line.wholeLines]
    exact .cons hends hmark ih
  | block line opens body rest ihBody ihRest =>
    obtain ⟨header, hopens, hopen, hnode⟩ := line.opens opens
    have hbody := ihBody.goes_body header []
    have hclosed := ends_of_opens hopens hopen hnode none hbody
    have hall := Yields.cons hclosed (Node.isMark_bare_fill opens _ _) ihRest
    rw [render, String.toList_append, String.toList_append, String.toList_append,
      Lexeme.continuation_append line.wholeLines,
      Lexeme.continuation_append body.wholeLines_render,
      Lexeme.continuation_append wholeLines_blank]
    rw [List.append_assoc, List.append_assoc] at hall
    exact hall
  | divided line conditional body other rest ihBody ihOther ihRest =>
    have opens := Node.opensBlock_of_isConditional conditional
    obtain ⟨header, hopens, hopen, hnode⟩ := line.opens opens
    -- only a conditional takes an `else`
    have haccept : accept header (bare body.nodes) none (.otherwise .origin) =
        .ok (.next (.block header (bare body.nodes) (some []) fresh)) := by
      have hheader : (blockNode header [] none).isConditional := by
        rw [hnode, Node.isConditional_bare]
        exact conditional
      cases header <;> first | rfl | cases hheader
    have hbody := ihBody.goes_body header []
    have helse := ends_otherwise.goes_block haccept
    have hother := ihOther.goes_other header (bare body.nodes) []
    have hclosed := ends_of_opens hopens hopen hnode (some other.nodes)
      (hbody.append (helse.append hother))
    have hall := Yields.cons hclosed (Node.isMark_bare_fill opens _ _) ihRest
    rw [render, String.toList_append, String.toList_append, String.toList_append,
      String.toList_append, String.toList_append, Lexeme.continuation_append line.wholeLines,
      Lexeme.continuation_append body.wholeLines_render,
      Lexeme.continuation_append wholeLines_else,
      Lexeme.continuation_append other.wholeLines_render,
      Lexeme.continuation_append wholeLines_blank]
    simp only [List.append_assoc] at hall
    exact hall

/-- A program with lines in it has some text. -/
theorem render_ne_empty {forest : Forest} (h : forest ≠ nil) : forest.render ≠ "" := by
  intro hempty
  have hchars := congrArg String.toList hempty
  cases forest with
  | nil => exact h rfl
  | sentence | block | divided => simp [render, SourceLine.written] at hchars

/-- **Block structure is read back**: the text of a forest is read without a mistake, and what is read
are the statements of the forest, but for positions. -/
theorem parse_render (forest : Forest) :
    (Program.parse forest.render).failure = none ∧
    bare (Program.parse forest.render).nodes = bare forest.nodes := by
  by_cases hnil : forest = nil
  · -- the empty source is a line that is ended by the end of the input
    subst hnil
    have hempty : (Program.parse "").failure = none ∧ (Program.parse "").nodes.isEmpty := by
      decide +kernel
    refine ⟨hempty.1, ?_⟩
    rw [render, List.isEmpty_iff.mp hempty.2, nodes]
  · have hread := Program.bare_parse (render_ne_empty hnil)
    rw [Program.read_yields forest.yields_render] at hread
    constructor
    · have hfailure : bare (Program.parse forest.render).failure = none :=
        congrArg Parsed.failure hread
      exact Option.map_eq_none_iff.mp hfailure
    · exact congrArg Parsed.nodes hread

/-- A loop around a conditional with two bodies, one of them empty. -/
example : ∃ forest : Forest,
    forest.render = "while true\nif Tommy is 1\nelse\nsay \"no\"\n\n\nsay 1\n" ∧
    forest.nodes.length = 2 := by
  refine ⟨.block ⟨"while true", ?_, ?_⟩ ?_
    (.divided ⟨"if Tommy is 1", ?_, ?_⟩ ?_ .nil (.sentence ⟨"say \"no\"", ?_, ?_⟩ ?_ .nil) .nil)
    (.sentence ⟨"say 1", ?_, ?_⟩ ?_ .nil), ?_, rfl⟩
  all_goals decide +kernel

/-- A string that is still open at the end of its line takes up the lines after it: two lines that
are statements alone are one together. -/
theorem render_open_string :
    (Program.single? "say \"rain").any (!·.opensBlock) ∧
    (Program.single? "say 1").any (!·.opensBlock) ∧
    (Program.parse "say \"rain\nsay 1\n").nodes.length = 1 := by
  decide +kernel

end Forest

end Ballad
