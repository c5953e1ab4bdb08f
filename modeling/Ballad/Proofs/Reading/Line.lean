import Ballad.Proofs.Reading.Statement
import Ballad.Program

/-!
# What lines and programs become

- `Lines`: the lines of a block that have been read, in order.
- `Line.Sound`: the invariant of the open blocks and the statement inside of them.
- `Line.push_sound`, `Line.finish_built`: one lexeme, and the end of the source.
- `Program.everywhere_sound`: every node of a program that is read from lexemes in order is sound,
  and so is every node below it.
-/

namespace Ballad

open Reading

variable {R : Order} {a b c : Position} {n : Node}

namespace Reading

/-- The lines of a block between two positions. None of them ends after the last one. -/
structure Lines (R : Order) (a b : Position) (ns : List Node) : Prop where
  inside : ∀ n ∈ ns, R.Inside a b n.span
  sound : ∀ n ∈ ns, n.Everywhere (Node.Sound R)
  le_last : ∀ last, ns.getLast? = some last → ∀ n ∈ ns, R.le n.span.stop last.span.stop

theorem lines_nil : Lines R a b [] :=
  ⟨by simp, by simp, by simp⟩

theorem Lines.append {ns : List Node} (h : Lines R a c ns) (hac : R.le a c)
    (hn : n.Built R c b) (hmark : n.isMark = false) : Lines R a b (ns ++ [n]) := by
  have hcb : R.le c b := R.le_trans hn.inside.le_stop hn.inside.stop
  constructor
  · intro m hm
    rcases List.mem_append.mp hm with hm | hm
    · exact (h.inside m hm).of_stop_le hcb
    · rw [List.mem_singleton.mp hm]
      exact hn.inside.of_le_start hac
  · intro m hm
    rcases List.mem_append.mp hm with hm | hm
    · exact h.sound m hm
    · rw [List.mem_singleton.mp hm]
      exact hn.sound hmark
  · intro last hlast m hm
    obtain rfl : n = last := by simpa using hlast
    rcases List.mem_append.mp hm with hm | hm
    · exact R.le_trans (h.inside m hm).stop hn.inside.le_stop
    · rw [List.mem_singleton.mp hm]
      exact R.le_refl _

/-- The two bodies of a block are one sequence of lines, and the last of them ends the block. -/
theorem blockSpan_eq (header : Node) (body : List Node) (otherwise : Option (List Node)) :
    blockSpan header body otherwise =
      match (body ++ otherwise.getD []).getLast? with
      | some last => header.span.through last.span
      | none => header.span := by
  unfold blockSpan
  rw [List.getLast?_append]
  cases otherwise <;> rfl

/-- The span of a block reaches over its first line and over all lines after it. -/
theorem blockSpan_covers {header : Node} {body : List Node} {otherwise : Option (List Node)}
    (hheader : R.Inside a b header.span)
    (hlines : Lines R header.span.stop b (body ++ otherwise.getD [])) :
    R.Inside a b (blockSpan header body otherwise) ∧
      (blockSpan header body otherwise).start = header.span.start ∧
      R.le header.span.stop (blockSpan header body otherwise).stop ∧
      ∀ n ∈ body ++ otherwise.getD [], R.Covers (blockSpan header body otherwise) n.span := by
  rw [blockSpan_eq]
  cases hlast : (body ++ otherwise.getD []).getLast? with
  | none =>
    have hnil : body ++ otherwise.getD [] = [] := List.getLast?_eq_none_iff.mp hlast
    refine ⟨hheader, rfl, R.le_refl _, ?_⟩
    rw [hnil]
    simp
  | some last =>
    have hmem : last ∈ body ++ otherwise.getD [] := List.mem_of_getLast? hlast
    have hend := hlines.inside last hmem
    refine ⟨hheader.through hend, rfl, hend.le_stop, fun n hn => ⟨?_, ?_⟩⟩
    · exact R.le_trans hheader.le (hlines.inside n hn).start
    · exact hlines.le_last last hlast n hn

/-- A first line and the lines after it make a node of a block. -/
theorem blockNode_built {header : Node} {body : List Node} {otherwise : Option (List Node)}
    (hopen : header.opensBlock) (hheader : header.Built R a b)
    (hlines : Lines R header.span.stop b (body ++ otherwise.getD [])) :
    (blockNode header body otherwise).Built R a b := by
  obtain ⟨hinside, hstart, hstop, hcovers⟩ := blockSpan_covers hheader.inside hlines
  have hpart : ∀ n ∈ body ++ otherwise.getD [],
      n.Part R (blockSpan header body otherwise) :=
    fun n hn => ⟨hcovers n hn, hlines.sound n hn⟩
  have hbody : ∀ n ∈ body, n.Part R (blockSpan header body otherwise) :=
    fun n hn => hpart n (List.mem_append_left _ hn)
  -- what lies in the first line lies in the block
  have hsub : ∀ n : Node, R.Covers header.span n.span → n.Everywhere (Node.Sound R) →
      n.Part R (blockSpan header body otherwise) := by
    intro n hn hsound
    refine ⟨⟨?_, R.le_trans hn.2 hstop⟩, hsound⟩
    rw [hstart]
    exact hn.1
  cases header with
  | conditional span condition thenBody elseBody =>
    obtain ⟨hhere, hbelow⟩ := Node.everywhere_iff.mp (hheader.sound rfl)
    have hcond : condition ∈ (Node.conditional span condition thenBody elseBody).children :=
      List.mem_cons_self
    refine ⟨hinside, fun _ => Node.sound_of_parts (by simp [Node.Ordinary, blockNode]) hhere.formed
      trivial ?_⟩
    intro n hn
    rcases List.mem_cons.mp hn with rfl | hn
    · exact hsub n (hhere.placed n hcond) (hbelow n hcond)
    · exact hpart n hn
  | loop span condition loopBody goal =>
    obtain ⟨hhere, hbelow⟩ := Node.everywhere_iff.mp (hheader.sound rfl)
    have hcond : condition ∈ (Node.loop span condition loopBody goal).children :=
      List.mem_cons_self
    refine ⟨hinside, fun _ => Node.sound_of_parts (by simp [Node.Ordinary, blockNode]) hhere.formed
      trivial ?_⟩
    intro n hn
    rcases List.mem_cons.mp hn with rfl | hn
    · exact hsub n (hhere.placed n hcond) (hbelow n hcond)
    · exact hbody n hn
  | function span name parameters functionBody =>
    have hhere := (hheader.sound rfl).here
    exact ⟨hinside, fun _ => Node.sound_of_parts (by simp [Node.Ordinary, blockNode]) hhere.formed
      hhere.spelled hbody⟩
  | _ => exact absurd hopen (by simp [Node.opensBlock])

namespace Line

/-- What is asked of a line that begins after `a` and has been read up to `b`. -/
def Sound (R : Order) : Line → Position → Position → Prop
  | statement s, a, b => s.Sound R a b
  | block header body otherwise current, a, b =>
    header.opensBlock ∧ ∃ c, header.Built R a c ∧
      Lines R header.span.stop c (body ++ otherwise.getD []) ∧ R.le c b ∧ current.Sound R c b

/-- What a step of a line has to give, if it is read up to `b`. -/
def StepSound (R : Order) (a b : Position) : Step Line Node → Prop
  | .next line => line.Sound R a b
  | .done n | .yield n _ => n.Built R a b

theorem fresh_sound : fresh.Sound R a b := trivial

/-- A finished line closes the block it stands in, or becomes one of its lines. -/
theorem accept_sound {header : Node} {body : List Node} {otherwise : Option (List Node)}
    {s : Step Line Node} (hopen : header.opensBlock) (hheader : header.Built R a c)
    (hlines : Lines R header.span.stop c (body ++ otherwise.getD [])) (hn : n.Built R c b)
    (h : accept header body otherwise n = .ok s) : StepSound R a b s := by
  have hcb : R.le c b := R.le_trans hn.inside.le_stop hn.inside.stop
  have hheader' := hheader.of_stop_le hcb
  have hlines' : Lines R header.span.stop b (body ++ otherwise.getD []) :=
    ⟨fun m hm => (hlines.inside m hm).of_stop_le hcb, hlines.sound, hlines.le_last⟩
  have hmore : n.isMark = false → Lines R header.span.stop b (body ++ otherwise.getD [] ++ [n]) :=
    hlines.append hheader.inside.stop hn
  unfold accept at h
  split at h
  · -- an empty line
    obtain rfl := Except.ok.inj h
    exact blockNode_built hopen hheader' hlines'
  · -- the first `else` of a conditional
    obtain rfl := Except.ok.inj h
    exact ⟨hopen, b, hheader', hlines', R.le_refl b, fresh_sound⟩
  · exact absurd h (by simp)
  · -- a line after `else`
    obtain rfl := Except.ok.inj h
    have hmark : n.isMark = false := Node.isMark_eq_false (by assumption) (by assumption)
    refine ⟨hopen, b, hheader', ?_, R.le_refl b, fresh_sound⟩
    simpa using hmore hmark
  · -- a line before it
    obtain rfl := Except.ok.inj h
    have hmark : n.isMark = false := Node.isMark_eq_false (by assumption) (by assumption)
    refine ⟨hopen, b, hheader', ?_, R.le_refl b, fresh_sound⟩
    simpa using hmore hmark

/-- **A lexeme keeps a line sound**, or ends it with a node that is built. The induction is on the
open blocks. -/
theorem push_sound {line : Line} {l : Lexeme} :
    ∀ {a b : Position} {s : Step Line Node}, line.Sound R a b → R.le a b → R.Follows b l →
      line.push l = .ok s → StepSound R a l.span.stop s := by
  induction line with
  | statement s =>
    intro a b t hs hab hl h
    rw [push_statement] at h
    obtain ⟨u, hu, hnext⟩ := bind_eq_ok.mp h
    have hsound := Statement.push_sound hs hab hl hu
    rcases (s.absorbs_push l).cases hu with ⟨s', rfl⟩ | ⟨n, rfl⟩
    · obtain rfl := Except.ok.inj hnext
      exact hsound
    · obtain rfl := Except.ok.inj hnext
      split
      · -- the lines of the block begin after the lexeme that ends its first line
        rename_i hopen
        exact ⟨hopen, l.span.stop, hsound, lines_nil, R.le_refl _, fresh_sound⟩
      · exact hsound
  | block header body otherwise current ih =>
    intro a b t hs hab hl h
    obtain ⟨hopen, c, hheader, hlines, hcb, hcurrent⟩ := hs
    rw [push_block] at h
    obtain ⟨u, hu, hnext⟩ := bind_eq_ok.mp h
    have hsound := ih hcurrent hcb hl hu
    rcases (absorbs_push l current).cases hu with ⟨current', rfl⟩ | ⟨n, rfl⟩
    · obtain rfl := Except.ok.inj hnext
      exact ⟨hopen, c, hheader, hlines, R.le_trans hcb hl.le_stop, hsound⟩
    · exact accept_sound hopen hheader hlines hsound hnext

/-- The end of the source closes every block. -/
theorem finish_built {line : Line} {stop : Span} :
    ∀ {a b : Position} {n : Node}, line.Sound R a b → R.le a b → line.finish stop = .ok (some n) →
      n.Built R a b := by
  induction line with
  | statement s =>
    intro a b n _ _ h
    rw [finish, Statement.finish] at h
    split at h
    · exact absurd (Except.ok.inj h) (by simp)
    · exact absurd h (by simp)
  | block header body otherwise current ih =>
    intro a b n hs hab h
    obtain ⟨hopen, c, hheader, hlines, hcb, hcurrent⟩ := hs
    obtain ⟨last, hlast, hnext⟩ := bind_eq_ok.mp h
    cases last with
    | none =>
      obtain rfl := Option.some.inj (Except.ok.inj hnext)
      exact (blockNode_built hopen hheader hlines).of_stop_le hcb
    | some m =>
      obtain ⟨t, ht, hn⟩ := map_eq_ok.mp hnext
      have hsound := accept_sound hopen hheader hlines (ih hcurrent hcb hlast) ht
      cases t with
      | next line =>
        cases line with
        | statement s => exact absurd hn (by simp)
        | block header body otherwise current =>
          obtain rfl := Option.some.inj hn
          obtain ⟨hopen, d, hheader, hlines, hdb, -⟩ := hsound
          exact (blockNode_built hopen hheader hlines).of_stop_le hdb
      | done m | yield m l =>
        obtain rfl := Option.some.inj hn
        exact hsound

end Line

end Reading

namespace Program

theorem emit_sound {rest : Parsed} (hn : n.Built R a b)
    (hrest : ∀ m ∈ rest.nodes, m.Everywhere (Node.Sound R)) :
    ∀ m ∈ (emit n rest).nodes, m.Everywhere (Node.Sound R) := by
  unfold emit
  split
  · exact hrest
  · simp [Parsed.fail]
  · have hmark : n.isMark = false := Node.isMark_eq_false (by assumption) (by assumption)
    intro m hm
    rcases List.mem_cons.mp hm with rfl | hm
    · exact hn.sound hmark
    · exact hrest m hm

/-- What has been read of a program is kept sound by the rest of its lexemes. -/
theorem read_sound {ls : List Lexeme} :
    ∀ {line : Line} {last : Span} {a b : Position}, line.Sound R a b → R.le a b → R.Stream b ls →
      ∀ m ∈ (read line last ls).nodes, m.Everywhere (Node.Sound R) := by
  induction ls with
  | nil =>
    intro line last a b hline hab _
    rw [read]
    split
    · simp [Parsed.fail]
    · simp
    · rename_i n hn
      exact emit_sound (Line.finish_built hline hab hn) (by simp)
  | cons l ls ih =>
    intro line last a b hline hab hstream
    obtain ⟨hl, hls⟩ := hstream
    rw [read]
    split
    · simp [Parsed.fail]
    · rename_i line' hpush
      have hsound := Line.push_sound hline hab hl hpush
      exact ih hsound (R.le_trans hab hl.le_stop) hls
    · rename_i n hpush
      have hsound := Line.push_sound hline hab hl hpush
      exact emit_sound hsound (ih Line.fresh_sound (R.le_refl l.span.stop) hls)
    · rename_i n l' hpush
      exact absurd hpush (Line.absorbs_push l line n l')

/-- Every node of a program that is read from lexemes in order is sound, at every depth. -/
theorem everywhere_sound {ls : List Lexeme}
    (h : R.Stream .origin (ls.flatMap Lexeme.splitCopula)) :
    ∀ m ∈ (ofLexemes ls).nodes, m.Everywhere (Node.Sound R) :=
  read_sound Line.fresh_sound (R.le_refl Position.origin) h

end Program

end Ballad
