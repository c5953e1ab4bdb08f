import Ballad.Program
import Ballad.Proofs.Relocation.Phrases

/-!
# Reading does not look at positions

- `Statement.move_push`, `Line.move_push`: one step of reading commutes with moving positions.
- `Program.move_read`: so does reading as a whole. A source that has been moved is read as before, with
  all positions moved.
-/

namespace Ballad

open Placed

variable (g : Position → Position)

namespace Reading

/-! ### Statements -/

instance : Placed Part where
  move g
    | .source => .source
    | .into source => .into (move g source)
    | .argument source into => .argument (move g source) (move g into)

@[simp] theorem Part.move_source : move g Part.source = .source := rfl

instance : Placed Slot where
  move g
    | .letValue target => .letValue (move g target)
    | .putTarget value => .putTarget (move g value)
    | .popTarget source => .popTarget (move g source)
    | .change kind part => .change kind (move g part)
    | slot => slot

instance : Placed Statement where
  move g
    | .start blank => .start blank
    | .bare phrase => .bare (move g phrase)
    | .poetic target literal => .poetic (move g target) (move g literal)
    | .verbatim target text started last => .verbatim (move g target) text started (move g last)
    | .parameters name names current => .parameters (move g name) names (move g current)
    | .slot start slot phrase => .slot (move g start) (move g slot) (move g phrase)
    | .listen start => .listen (move g start)
    | .adjust start up target count last =>
      .adjust (move g start) up (move g target) count (move g last)
    | .turn start => .turn (move g start)
    | .rock start target values => .rock (move g start) (move g target) (move g values)
    | .give start => .give (move g start)
    | .fixed node remaining optional => .fixed (move g node) remaining optional
    | .finished node => .finished (move g node)

@[simp] theorem move_assignment (target value : Node) :
    move g (assignment target value) = assignment (move g target) (move g value) := by
  simp [assignment]

@[simp] theorem move_adjustment (start : Span) (up : Bool) (target : Node) (count : Nat)
    (last : Span) :
    move g (adjustment start up target count last) =
      adjustment (move g start) up (move g target) count (move g last) := by
  simp [adjustment]

/-- Whether a change has a place to be stored in does not depend on where it stands. -/
theorem move_changeNode (start : Span) (kind : Change) (source : Node) (into argument : Option Node) :
    move g (changeNode start kind source into argument) =
      changeNode (move g start) kind (move g source) (move g into) (move g argument) := by
  cases into with
  | none =>
    cases hlocation : source.isLocation with
    | false => simp [changeNode, hlocation]
    | true => cases argument <;> simp [changeNode, hlocation]
  | some into => cases argument <;> simp [changeNode]

@[simp] theorem move_headNode (start : Span) (head : Head) (condition : Node) :
    move g (headNode start head condition) = headNode (move g start) head (move g condition) := by
  cases head <;> simp [headNode]

@[simp] theorem move_pushNode (start : Span) (target : Node) (values : List Node)
    (stop : Option Span) :
    move g (pushNode start target values stop) =
      pushNode (move g start) (move g target) (move g values) (move g stop) := by
  cases stop <;> simp [pushNode]

/-- The items of a list that has been moved are its items, moved. -/
theorem items_move (node : Node) :
    items (move g node) = (move g (items node).1, move g (items node).2) := by
  cases node <;> simp [items, Node.span]

@[simp] theorem move_functionNode (name : Node) (parameters : List String) (stop : Span) :
    move g (functionNode name parameters stop) =
      functionNode (move g name) parameters (move g stop) := by
  cases name <;> simp [functionNode, Node.span]

namespace Slot

@[simp] theorem move_letTarget : move g letTarget = letTarget := rfl
@[simp] theorem move_letValue (t : Node) : move g (letValue t) = letValue (move g t) := rfl
@[simp] theorem move_putValue : move g putValue = putValue := rfl
@[simp] theorem move_putTarget (v : Node) : move g (putTarget v) = putTarget (move g v) := rfl
@[simp] theorem move_output : move g output = output := rfl
@[simp] theorem move_inputTarget : move g inputTarget = inputTarget := rfl
@[simp] theorem move_adjustTarget (up : Bool) : move g (adjustTarget up) = adjustTarget up := rfl
@[simp] theorem move_turnTarget (m : Option Rounding) : move g (turnTarget m) = turnTarget m := rfl
@[simp] theorem move_pushTarget : move g pushTarget = pushTarget := rfl
@[simp] theorem move_popSource : move g popSource = popSource := rfl
@[simp] theorem move_popTarget (s : Node) : move g (popTarget s) = popTarget (move g s) := rfl
@[simp] theorem move_change (k : Change) (p : Part) : move g (change k p) = change k (move g p) := rfl
@[simp] theorem move_condition (head : Head) : move g (condition head) = condition head := rfl
@[simp] theorem move_giveBack : move g giveBack = giveBack := rfl

variable (s : Slot)

@[simp] theorem construct_move : (move g s).construct = s.construct := by
  cases s <;> rfl

@[simp] theorem mode_move : (move g s).mode = s.mode := by
  cases s with
  | change kind part => cases part <;> rfl
  | _ => rfl

end Slot

namespace Statement

@[simp] theorem move_start (blank : Bool) : move g (start blank) = start blank := rfl
@[simp] theorem move_bare (p : Phrase) : move g (bare p) = bare (move g p) := rfl
@[simp] theorem move_poetic (t : Node) (p : Poetic) :
    move g (poetic t p) = poetic (move g t) (move g p) := rfl
@[simp] theorem move_verbatim (t : Node) (text : String) (started : Bool) (last : Span) :
    move g (verbatim t text started last) = verbatim (move g t) text started (move g last) := rfl
@[simp] theorem move_parameters (name : Node) (names : List String) (p : Phrase) :
    move g (parameters name names p) = parameters (move g name) names (move g p) := rfl
@[simp] theorem move_slot (s : Span) (slot_ : Slot) (p : Phrase) :
    move g (slot s slot_ p) = slot (move g s) (move g slot_) (move g p) := rfl
@[simp] theorem move_listen (s : Span) : move g (listen s) = listen (move g s) := rfl
@[simp] theorem move_adjust (s : Span) (up : Bool) (t : Node) (count : Nat) (last : Span) :
    move g (adjust s up t count last) = adjust (move g s) up (move g t) count (move g last) := rfl
@[simp] theorem move_turn (s : Span) : move g (turn s) = turn (move g s) := rfl
@[simp] theorem move_rock (s : Span) (t : Node) (vs : Listing) :
    move g (rock s t vs) = rock (move g s) (move g t) (move g vs) := rfl
@[simp] theorem move_give (s : Span) : move g (give s) = give (move g s) := rfl
@[simp] theorem move_fixed (n : Node) (remaining : List String) (optional : Bool) :
    move g (fixed n remaining optional) = fixed (move g n) remaining optional := rfl
@[simp] theorem move_finished (n : Node) : move g (finished n) = finished (move g n) := rfl

variable (l : Lexeme)

@[simp] theorem construct_move (s : Statement) : (move g s).construct = s.construct := by
  cases s with
  | slot start s phrase => exact Slot.construct_move g s
  | _ => rfl

@[simp] theorem move_await (start : Span) (s : Slot) :
    move g (await start s) = await (move g start) (move g s) := by
  show slot (move g start) (move g s) (.empty s.mode) = _
  rw [await, Slot.mode_move]

/-- The end of a line is the end of a line wherever it stands. -/
theorem move_endWith (node : Node) (within : Construct) :
    move g (endWith node l within) = endWith (move g node) (move g l) within := by
  rw [endWith, endWith, Lexeme.move_isNewline]
  split <;> rfl

/-- So is a word that has to be there. -/
theorem move_expect (word : String) (then_ : Statement) :
    move g (expect word l then_) = expect word (move g l) (move g then_) := by
  rw [expect, expect, Lexeme.move_isWord]
  split <;> rfl

end Statement

open Statement

/-- What the end of a part of a change leads to. -/
theorem Part.move_close (start : Span) (kind : Change) (node : Node) (l : Lexeme) (part : Part) :
    move g (part.close start kind node l) =
      (move g part).close (move g start) kind (move g node) (move g l) := by
  have hchange : ∀ source into argument,
      move g ((changeNode start kind source into argument).map
        (.done : Node → Step Statement Node)) =
      (changeNode (move g start) kind (move g source) (move g into) (move g argument)).map .done := by
    intro source into argument
    rw [← move_changeNode]
    exact move_map g _ fun _ => rfl
  cases part with
  | source =>
    show move g (close start kind node l source) =
      close (move g start) kind (move g node) (move g l) source
    rw [close, close, Lexeme.move_isNewline, Lexeme.move_isWord, Lexeme.move_isWord]
    split
    · exact hchange node none none
    · split
      · rfl
      · split <;> rfl
  | into source =>
    show move g (close start kind node l (into source)) =
      close (move g start) kind (move g node) (move g l) (into (move g source))
    rw [close, close, Lexeme.move_isNewline, Lexeme.move_isWord]
    split
    · exact hchange source (some node) none
    · split <;> rfl
  | argument source dest =>
    show move g (close start kind node l (argument source dest)) =
      close (move g start) kind (move g node) (move g l) (argument (move g source) (move g dest))
    rw [close, close, Lexeme.move_isNewline]
    split
    · exact hchange source dest (some node)
    · rfl

/-- What the end of the phrase of a slot leads to. A slot copies the spans of its parts, and no
other. -/
theorem Slot.move_close (start : Span) (node : Node) (l : Lexeme) (s : Slot) :
    move g (s.close start node l) = (move g s).close (move g start) (move g node) (move g l) := by
  cases s with
  | adjustTarget up => exact move_expect g l (directionWord up) (.adjust start up node 1 l.span)
  | turnTarget mode =>
    cases mode with
    | some mode => simp [close, move_endWith]
    | none =>
      simp only [move_turnTarget, close, Lexeme.move_word]
      split
      · simp
      · simp
  | pushTarget =>
    cases h : l.isWord "with" <;> simp [close, move_endWith, h]
  | popSource => cases h : l.isWord "into" <;> simp [close, move_endWith, h]
  | giveBack => cases h : l.isWord "back" <;> simp [close, move_endWith, h]
  | change kind part => exact Part.move_close g start kind node l part
  | popTarget source =>
    have hspan : ∀ (span : Span) (target : Node), (Node.pop span target).span = span :=
      fun _ _ => rfl
    simp [close, move_endWith, construct, hspan]
  | _ => simp [close, move_endWith, move_expect, construct]

namespace Statement

variable (l : Lexeme)

/-- What a first word begins. -/
theorem move_ofWord? (span : Span) (word : String) :
    move g (ofWord? span word) = ofWord? (move g span) word := by
  unfold ofWord?
  split <;> simp

/-- Which of the forms a line with an expression takes is decided by the words and by what the
expression is. -/
theorem move_pushBare (phrase : Phrase) :
    move g (pushBare phrase l) = pushBare (move g phrase) (move g l) := by
  unfold pushBare
  rw [Lexeme.move_word, Phrase.isLocation_move, Lexeme.move_span, ← Phrase.move_finish,
    Phrase.isVariable_move, ← Phrase.move_feed]
  split
  · exact move_map g _ fun _ => rfl
  · split
    · exact move_map g _ fun _ => rfl
    · split
      · exact move_map g _ fun _ => rfl
      · refine move_bind g _ fun fed => ?_
        cases fed with
        | pending phrase => rfl
        | finished node l => exact move_endWith g l node .expression

/-- What a first lexeme begins. -/
theorem move_pushStart (blank : Bool) :
    move g (pushStart blank l) = pushStart blank (move g l) := by
  have hword : (move g l).word.bind (ofWord? (move g l).span) =
      move g (l.word.bind (ofWord? l.span)) := by
    rw [Lexeme.move_word, Lexeme.move_span]
    cases l.word with
    | none => rfl
    | some word => exact (move_ofWord? g l.span word).symm
  unfold pushStart
  rw [Lexeme.move_kind, hword]
  cases l.kind with
  | newline | endOfInput => cases blank <;> rfl
  | whitespace | comment => rfl
  | _ =>
    cases l.word.bind (ofWord? l.span) with
    | some statement => rfl
    | none => exact move_pushBare g l (.empty .value)

/-- Text that is assigned as it stands is the same text elsewhere. -/
theorem move_pushVerbatim (target : Node) (text : String) (started : Bool) (last : Span) :
    move g (pushVerbatim target text started last l) =
      pushVerbatim (move g target) text started (move g last) (move g l) := by
  unfold pushVerbatim
  rw [Lexeme.move_isNewline]
  split
  · simp
  · rfl

/-- A function is declared with the same names elsewhere. -/
theorem move_pushParameter (name : Node) (names : List String) (current : Phrase) :
    move g (pushParameter name names current l) =
      pushParameter (move g name) names (move g current) (move g l) := by
  have hseparates : ∀ l : Lexeme, separatesParameters (move g l) = separatesParameters l :=
    fun _ => rfl
  unfold pushParameter
  rw [Phrase.isEmpty_move, hseparates, ← Phrase.move_feed]
  split
  · rfl
  · refine move_bind g _ fun fed => ?_
    cases fed with
    | pending current => rfl
    | finished node l =>
      cases node with
      | var last parameter =>
        show move g (if l.isNewline then _ else _) = if (move g l).isNewline then _ else _
        rw [Lexeme.move_isNewline, hseparates]
        split
        · simp
        · split <;> rfl
      | _ => exact congrArg Except.error (ParseError.move_unexpectedKind g _ _)

/-- The phrase of a slot reads on. -/
theorem move_pushSlot (start : Span) (s : Slot) (phrase : Phrase) :
    move g (pushSlot start s phrase l) =
      pushSlot (move g start) (move g s) (move g phrase) (move g l) := by
  unfold pushSlot
  rw [← Phrase.move_feed]
  refine move_bind g _ fun fed => ?_
  cases fed with
  | pending phrase => rfl
  | finished node l => exact Slot.move_close g start node l s

/-- A fixed phrase reads on. -/
theorem move_pushFixed (node : Node) (remaining : List String) (optional : Bool) :
    move g (pushFixed node remaining optional l) =
      pushFixed (move g node) remaining optional (move g l) := by
  unfold pushFixed
  rw [Lexeme.move_isNewline]
  split
  · rfl
  · cases remaining with
    | nil => rfl
    | cons word rest => simp [move_expect]

/-- What a lexeme does to a statement that has begun. -/
theorem move_take (s : Statement) : move g (s.take l) = (move g s).take (move g l) := by
  cases s with
  | bare phrase => exact move_pushBare g l phrase
  | parameters name names current => exact move_pushParameter g l name names current
  | slot first s phrase => exact move_pushSlot g l first s phrase
  | listen first =>
    rw [move_listen, take, take, Lexeme.move_isNewline]
    split
    · simp
    · simp [move_expect]
  | adjust first up target count last =>
    rw [move_adjust, take, take, Lexeme.move_isNewline, Lexeme.move_kind]
    split
    · simp
    · split
      · rfl
      · exact move_expect g l _ _
  | turn first =>
    rw [move_turn, take, take, Lexeme.move_word]
    split
    · simp
    · exact move_pushSlot g l first (.turnTarget none) (.empty .location)
  | rock first target values =>
    rw [move_rock, take, take, ← Listing.move_push]
    refine move_bind g _ fun step => ?_
    cases step with
    | next values => rfl
    | done list => simp [items_move]
    | yield list l => simp [items_move, move_endWith]
  | give first =>
    rw [move_give, take, take, Lexeme.move_isWord]
    split
    · simp
    · exact move_pushSlot g l first .giveBack (.empty .value)
  | fixed node remaining optional => exact move_pushFixed g l node remaining optional
  | finished node => exact move_endWith g l node .endOfStatement
  | start _ | poetic _ _ | verbatim _ _ _ _ => rfl

/-- **One step of reading a statement commutes with moving.** -/
theorem move_push (s : Statement) : move g (s.push l) = (move g s).push (move g l) := by
  have htake : move g (if l.isTrivia then .ok (.next s) else s.take l) =
      if (move g l).isTrivia then .ok (.next (move g s)) else (move g s).take (move g l) := by
    rw [Lexeme.move_isTrivia]
    split
    · rfl
    · exact move_take g l s
  cases s with
  | start blank => exact move_pushStart g l blank
  | verbatim target text started last =>
    exact congrArg Except.ok (move_pushVerbatim g l target text started last)
  | poetic target literal =>
    rw [move_poetic, push, push, ← Poetic.move_push]
    refine move_map g _ fun step => ?_
    cases step <;> simp
  | _ => exact htake

/-- So does the end of the source. -/
theorem move_finish (s : Statement) (stop : Span) :
    move g (s.finish stop) = (move g s).finish (move g stop) := by
  have hstart : (move g s).isStart = s.isStart := by
    cases s <;> rfl
  rw [finish, finish, hstart, construct_move]
  split <;> rfl

end Statement

/-! ### Lines -/

namespace Line

/-- Every position in a line is moved. -/
def moved (g : Position → Position) : Line → Line
  | statement s => statement (move g s)
  | block header body otherwise current =>
    block (move g header) (move g body) (move g otherwise) (current.moved g)

instance : Placed Line := ⟨moved⟩

@[simp] theorem move_statement (s : Statement) : move g (statement s) = statement (move g s) := rfl
@[simp] theorem move_block (header : Node) (body : List Node) (otherwise : Option (List Node))
    (current : Line) :
    move g (block header body otherwise current) =
      block (move g header) (move g body) (move g otherwise) (move g current) := rfl
@[simp] theorem move_fresh : move g fresh = fresh := rfl

end Line

/-- The span of a block comes out of its lines. -/
theorem move_blockSpan (header : Node) (body : List Node) (otherwise : Option (List Node)) :
    move g (blockSpan header body otherwise) =
      blockSpan (move g header) (move g body) (move g otherwise) := by
  have hlast : (((move g otherwise).bind List.getLast?).or (move g body).getLast?) =
      move g ((otherwise.bind List.getLast?).or body.getLast?) := by
    have hmap : ∀ nodes : List Node, (move g nodes).getLast? = move g nodes.getLast? :=
      fun _ => List.getLast?_map
    cases otherwise with
    | none => exact hmap body
    | some nodes =>
      show ((move g nodes).getLast?).or (move g body).getLast? = move g (nodes.getLast?.or body.getLast?)
      rw [hmap, hmap]
      cases nodes.getLast? <;> rfl
  rw [blockSpan, blockSpan, hlast]
  cases (otherwise.bind List.getLast?).or body.getLast? <;> simp

/-- The node of a block comes out of its lines, too. -/
theorem move_blockNode (header : Node) (body : List Node) (otherwise : Option (List Node)) :
    move g (blockNode header body otherwise) =
      blockNode (move g header) (move g body) (move g otherwise) := by
  have hother : (move g otherwise).getD [] = move g (otherwise.getD []) := by
    cases otherwise <;> rfl
  cases header <;> simp [blockNode, move_blockSpan, hother, Node.withSpan]

namespace Line

/-- A line is taken into its block wherever it stands. -/
theorem move_accept (header : Node) (body : List Node) (otherwise : Option (List Node))
    (node : Node) :
    move g (accept header body otherwise node) =
      accept (move g header) (move g body) (move g otherwise) (move g node) := by
  cases node with
  | blank span => simp [accept, move_blockNode]
  | otherwise span => cases header <;> cases otherwise <;> simp [accept]
  | _ => cases otherwise <;> simp [accept]

/-- **One step of reading a line commutes with moving.** The induction goes into the open blocks. -/
theorem move_push (line : Line) (l : Lexeme) :
    move g (line.push l) = (move g line).push (move g l) := by
  induction line with
  | statement s =>
    rw [move_statement, push_statement, push_statement, ← Statement.move_push]
    refine move_bind g _ fun step => ?_
    cases step with
    | next s => rfl
    | done node => simp
    | yield node l => rfl
  | block header body otherwise current ih =>
    rw [move_block, push_block, push_block, ← ih]
    refine move_bind g _ fun step => ?_
    cases step with
    | next current => rfl
    | done node => exact move_accept g header body otherwise node
    | yield node l => rfl

/-- So does the end of the source, in all the blocks that are open. -/
theorem move_finish (line : Line) (stop : Span) :
    move g (line.finish stop) = (move g line).finish (move g stop) := by
  induction line with
  | statement s => exact Statement.move_finish g s stop
  | block header body otherwise current ih =>
    rw [move_block, finish, finish, ← ih]
    refine move_bind g _ fun result => ?_
    cases result with
    | none => simp [move_blockNode]
    | some node =>
      show _ = (accept _ _ _ (move g node)).map _
      rw [← move_accept]
      refine move_map g _ fun step => ?_
      cases step with
      | done node | yield node l => rfl
      | next line => cases line <;> simp [move_blockNode]

end Line

end Reading

/-! ### Programs -/

instance : Placed Parsed := ⟨fun g p => ⟨move g p.nodes, move g p.failure⟩⟩

namespace Program

open Reading

/-- What a program makes of a statement at its top level. -/
theorem move_emit (node : Node) (rest : Parsed) :
    move g (emit node rest) = emit (move g node) (move g rest) := by
  cases node <;> rfl

/-- Reading a source that has been moved is moving what has been read. -/
theorem move_read (line : Line) (last : Span) (ls : List Lexeme) :
    move g (read line last ls) = read (move g line) (move g last) (move g ls) := by
  induction ls generalizing line last with
  | nil =>
    show _ = read (move g line) (move g last) []
    rw [read, read, ← Line.move_finish]
    cases line.finish last with
    | error e => rfl
    | ok result =>
      cases result with
      | none => rfl
      | some node => exact move_emit g node _
  | cons l ls ih =>
    rw [move_cons, read_cons, read_cons, ← Line.move_push]
    cases line.push l with
    | error e => rfl
    | ok step =>
      cases step with
      | next line => exact ih line l.span
      | done node | yield node _ =>
        show move g (emit node _) = emit (move g node) _
        rw [move_emit, ih]
        rfl

end Program

end Ballad
