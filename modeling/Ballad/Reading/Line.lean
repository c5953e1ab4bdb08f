import Ballad.Reading.Statement

/-!
# Lines and blocks

The lines after a conditional, a loop or a function belong to its body until an empty line, or the end
of the source, closes it.

- `Line`: the statement that is being read, inside of the blocks that are open.
- `Line.push`: takes a lexeme. A line at the top level ends with its statement, and a block with the
  line that closes it.
- `Line.finish`: the end of the source closes every open block.
-/

namespace Ballad.Reading

/-- The statement that is being read, inside of the blocks that are open (`Line`). -/
inductive Line where
  | statement (s : Statement)
  /-- An open block: its first line, the lines of its body, those after `else`, and the line that is
  being read. -/
  | block (header : Node) (body : List Node) (otherwise : Option (List Node)) (current : Line)
deriving Repr

/-- The span of a block (in `BlockBuilder::build`): from its first to its last line. -/
def blockSpan (header : Node) (body : List Node) (otherwise : Option (List Node)) : Span :=
  match (otherwise.bind List.getLast?).or body.getLast? with
  | some last => header.span.through last.span
  | none => header.span

/-- The node of a block with the given lines (`BlockBuilder::build`). -/
def blockNode (header : Node) (body : List Node) (otherwise : Option (List Node)) : Node :=
  let span := blockSpan header body otherwise
  match header with
  | .conditional _ condition _ _ => .conditional span condition body (otherwise.getD [])
  | .loop _ condition _ goal => .loop span condition body goal
  | .function _ name parameters _ => .function span name parameters body
  | header => header.withSpan span

namespace Line

/-- A line of which nothing has been read (`Line::default`). -/
def fresh : Line := statement .fresh

/-- Whether a block is open. -/
def isBlock : Line → Bool
  | block .. => true
  | statement _ => false

/-- What a finished line does to the block that it stands in (`BlockBuilder::accept`). -/
def accept (header : Node) (body : List Node) (otherwise : Option (List Node)) (node : Node) :
    Except ParseError (Step Line Node) :=
  match node, header, otherwise with
  | .blank _, _, _ => .ok (.done (blockNode header body otherwise))
  | .otherwise _, .conditional .., none => .ok (.next (block header body (some []) fresh))
  | .otherwise _, _, _ => .error (.unexpectedKind node "statement")
  | node, _, some nodes => .ok (.next (block header body (some (nodes ++ [node])) fresh))
  | node, _, none => .ok (.next (block header (body ++ [node]) none fresh))

theorem absorbs_accept (header : Node) (body : List Node) (otherwise : Option (List Node))
    (node : Node) : Absorbs (accept header body otherwise node) := by
  unfold accept
  split
  · exact .done _
  · exact .next _
  · exact .error _
  · exact .next _
  · exact .next _

theorem absorbs_open (node : Node) :
    Absorbs (.ok (if node.opensBlock then .next (block node [] none fresh) else .done node)) := by
  split
  · exact .next _
  · exact .done _

/-- What a lexeme does to a line, and that the line does not hand it back. A line that did would have
to read the same lexeme again in the next line, over and over. -/
def pushAbsorbing (l : Lexeme) : Line → { step : Except ParseError (Step Line Node) // Absorbs step }
  | statement s =>
    match h : s.push l with
    | .error e => ⟨.error e, .error e⟩
    | .ok (.next s) => ⟨.ok (.next (statement s)), .next _⟩
    | .ok (.done node) =>
      ⟨.ok (if node.opensBlock then .next (block node [] none fresh) else .done node),
        absorbs_open node⟩
    | .ok (.yield node l') => absurd h (s.absorbs_push l node l')
  | block header body otherwise current =>
    match current.pushAbsorbing l with
    | ⟨.error e, _⟩ => ⟨.error e, .error e⟩
    | ⟨.ok (.next current), _⟩ => ⟨.ok (.next (block header body otherwise current)), .next _⟩
    | ⟨.ok (.done node), _⟩ => ⟨accept header body otherwise node, absorbs_accept _ _ _ _⟩
    | ⟨.ok (.yield node l'), h⟩ => absurd rfl (h node l')

/-- What a lexeme does to a line (`Line::push`, `BlockBuilder::push`). -/
def push (l : Lexeme) (line : Line) : Except ParseError (Step Line Node) :=
  (line.pushAbsorbing l).1

/-- **A line ends with its last lexeme**: it hands none back. -/
theorem absorbs_push (l : Lexeme) (line : Line) : Absorbs (line.push l) :=
  (line.pushAbsorbing l).2

/-- What a lexeme does to a line that stands in no block. -/
theorem push_statement (l : Lexeme) (s : Statement) :
    push l (statement s) = (s.push l).bind fun
      | .next s => .ok (.next (statement s))
      | .done node => .ok (if node.opensBlock then .next (block node [] none fresh) else .done node)
      | .yield node l => .ok (.yield node l) := by
  unfold push pushAbsorbing
  split
  · rename_i h
    rw [h]
    rfl
  · rename_i h
    rw [h]
    rfl
  · rename_i h
    rw [h]
    rfl
  · rename_i node l' h
    exact absurd h (s.absorbs_push l node l')

/-- What a lexeme does to an open block. -/
theorem push_block (l : Lexeme) (header : Node) (body : List Node) (otherwise : Option (List Node))
    (current : Line) :
    push l (block header body otherwise current) = (current.push l).bind fun
      | .next current => .ok (.next (block header body otherwise current))
      | .done node => accept header body otherwise node
      | .yield node l => .ok (.yield node l) := by
  unfold push
  rw [pushAbsorbing]
  split
  · rename_i h
    rw [h]
    rfl
  · rename_i h
    rw [h]
    rfl
  · rename_i h
    rw [h]
    rfl
  · rename_i node l' h _
    exact absurd rfl (h node l')

/-- What a line becomes if the source ends at `stop` (`Line::finish`, `BlockBuilder::finish`). -/
def finish (stop : Span) : Line → Except ParseError (Option Node)
  | statement s => s.finish stop
  | block header body otherwise current =>
    (current.finish stop).bind fun
      | none => .ok (some (blockNode header body otherwise))
      | some node =>
        (accept header body otherwise node).map fun
          | .next (block header body otherwise _) => some (blockNode header body otherwise)
          | .next (statement _) => none
          | .done node | .yield node _ => some node

end Line

end Ballad.Reading
