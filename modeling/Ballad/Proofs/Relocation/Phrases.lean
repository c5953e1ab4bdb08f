import Ballad.Proofs.Relocation.Trees
import Ballad.Reading.Listing
import Ballad.Reading.Poetic

/-!
# Phrases do not look at positions

The reader copies positions into the trees and into its mistakes, and decides nothing by them. So one
step of reading commutes with moving: here for expressions, lists and poetic literals.

- `Phrase.move_take`: what a lexeme does to an expression.
- `Listing.move_push`, `Poetic.move_push`: what it does to a list and to a poetic literal.
-/

namespace Ballad

open Placed

variable (g : Position → Position)

namespace Reading

/-! ### Phrases -/

instance : Placed Shell where
  move g
    | .negation start => .negation (move g start)
    | .pop start => .pop (move g start)
    | .binary op tail left => .binary op tail (move g left)
    | .index target => .index (move g target)

namespace Shell

@[simp] theorem move_negation (s : Span) : move g (negation s) = negation (move g s) := rfl
@[simp] theorem move_pop (s : Span) : move g (pop s) = pop (move g s) := rfl
@[simp] theorem move_binary (op : Operator) (tail : Tail) (left : Node) :
    move g (binary op tail left) = binary op tail (move g left) := rfl
@[simp] theorem move_index (t : Node) : move g (index t) = index (move g t) := rfl

variable (shell : Shell)

@[simp] theorem rank_move : (move g shell).rank = shell.rank := by
  cases shell <;> rfl

@[simp] theorem isSettled_move : (move g shell).isSettled = shell.isSettled := by
  cases shell <;> rfl

@[simp] theorem move_settle : move g shell.settle = (move g shell).settle := by
  cases shell <;> rfl

@[simp] theorem move_close (child : Node) :
    move g (shell.close child) = (move g shell).close (move g child) := by
  cases shell <;> simp [close]

/-- Whether a word refines a comparison does not depend on where it stands. -/
theorem move_refine (l : Lexeme) : move g (shell.refine l) = (move g shell).refine (move g l) := by
  cases shell with
  | negation _ | pop _ | index _ => rfl
  | binary op tail left =>
    cases tail with
    | copula =>
      simp only [move_binary, refine, Lexeme.move_word]
      split
      · rfl
      · rfl
      · rename_i word _ _ _
        cases Vocabulary.strict word <;> rfl
      · rfl
    | than => by_cases h : l.isWord "than" <;> simp [refine, h]
    | as =>
      simp only [move_binary, refine, Lexeme.move_word]
      split <;> rfl
    | secondAs => by_cases h : l.isWord "as" <;> simp [refine, h]
    | settled => rfl

end Shell

/-- The span of a list comes out of the source if there is something in it. -/
@[simp] theorem move_listNode {items : List Node} (h : items ≠ []) :
    move g (listNode items) = listNode (move g items) := by
  simp [listNode, Node.move_spanOf g h]

/-- A call is closed in the same way elsewhere, also where it is no list that closes it. -/
theorem move_closeCall (callee child : Node) :
    move g (closeCall callee child) = closeCall (move g callee) (move g child) := by
  cases child <;> simp [closeCall]

namespace Phrase

/-- Every position in a phrase is moved. -/
def moved (g : Position → Position) : Phrase → Phrase
  | empty mode => empty mode
  | article mode word => article mode (move g word)
  | proper mode name span => proper mode name (move g span)
  | operand mode node => operand mode (move g node)
  | within mode shell child => within mode (move g shell) (child.moved g)
  | call mode callee items delimited current =>
    call mode (move g callee) (move g items) delimited (current.moved g)

instance : Placed Phrase := ⟨moved⟩

@[simp] theorem move_empty (mode : Mode) : move g (empty mode) = empty mode := rfl
@[simp] theorem move_article (mode : Mode) (word : Lexeme) :
    move g (article mode word) = article mode (move g word) := rfl
@[simp] theorem move_proper (mode : Mode) (name : String) (span : Span) :
    move g (proper mode name span) = proper mode name (move g span) := rfl
@[simp] theorem move_operand (mode : Mode) (node : Node) :
    move g (operand mode node) = operand mode (move g node) := rfl
@[simp] theorem move_within (mode : Mode) (shell : Shell) (child : Phrase) :
    move g (within mode shell child) = within mode (move g shell) (move g child) := rfl
@[simp] theorem move_call (mode : Mode) (callee : Node) (items : List Node) (delimited : Bool)
    (current : Phrase) :
    move g (call mode callee items delimited current) =
      call mode (move g callee) (move g items) delimited (move g current) := rfl

variable (p : Phrase)

@[simp] theorem isEmpty_move : (move g p).isEmpty = p.isEmpty := by
  cases p <;> rfl

@[simp] theorem isComplete_move : (move g p).isComplete = p.isComplete := by
  induction p with
  | within mode shell child ih => simp [isComplete, ih]
  | call mode callee items delimited current ih => simpa [isComplete] using ih
  | _ => rfl

@[simp] theorem isLocation_move : (move g p).isLocation = p.isLocation := by
  cases p with
  | operand mode node => simp [isLocation]
  | within mode shell child => cases shell <;> simp [isLocation]
  | _ => rfl

@[simp] theorem mode_move : (move g p).mode = p.mode := by
  cases p <;> rfl

@[simp] theorem isVariable_move : (move g p).isVariable = p.isVariable := by
  cases p with
  | operand mode node => cases node <;> rfl
  | _ => rfl

variable (l : Lexeme)

/-- What a list becomes at the end of the source. -/
theorem move_finishItems (stop : Span) (items : List Node) (current : Phrase)
    (last : Except ParseError Node) :
    move g (finishItems stop items current last) =
      finishItems (move g stop) (move g items) (move g current) (move g last) := by
  simp only [finishItems, isEmpty_move, Ballad.isEmpty_move, move_ite, move_error,
    ParseError.move_unfinished]
  rw [move_map g (fun node => listNode (move g items ++ [node])) fun node => by simp]

/-- What an expression becomes at the end of the source. The induction goes into the open
constructs. -/
theorem move_finish (stop : Span) : move g (p.finish stop) = (move g p).finish (move g stop) := by
  induction p with
  | within mode shell child ih =>
    have hclose : move g ((child.finish stop).map shell.close) =
        ((move g child).finish (move g stop)).map (move g shell).close := by
      rw [← ih]
      exact move_map g _ fun node => Shell.move_close g shell node
    cases shell with
    | binary op tail left =>
      cases tail with
      | copula | settled => exact hclose
      | than | as | secondAs => simp [finish]
    | _ => exact hclose
  | call mode callee items delimited current ih =>
    simp only [move_call, finish]
    rw [← ih, ← move_finishItems]
    exact move_bind g _ (move_closeCall g callee)
  | _ => simp [finish]

theorem move_ofLiteral (mode : Mode) (span : Span) (value : Literal) :
    move g (ofLiteral mode span value) = ofLiteral mode (move g span) value := by
  simp [ofLiteral]

theorem move_numberOf : move g (numberOf l) = numberOf (move g l) := by
  simp only [numberOf, Lexeme.move_literal]
  split <;> simp

/-- What a word begins is decided by the word and its capital letter. -/
theorem move_ofWord (mode : Mode) (word : String) :
    move g (ofWord mode l word) = ofWord mode (move g l) word := by
  have hliteral : ∀ value, move g (ofLiteral mode l.span value) =
      ofLiteral mode (move g l).span value := move_ofLiteral g mode l.span
  have hcapital : (move g l).isCapitalized = l.isCapitalized := rfl
  unfold ofWord
  rw [hcapital]
  repeat' split
  all_goals first | rfl | exact hliteral _

/-- What a lexeme begins. -/
theorem move_start (mode : Mode) : move g (start mode l) = start mode (move g l) := by
  simp only [start, Lexeme.move_kind]
  split
  · rw [← move_numberOf]
    exact move_bind g _ fun n => move_ofLiteral g mode l.span (.number n)
  · exact move_ofLiteral g mode l.span (.string l.literal)
  · exact move_ofWord g l mode _
  · simp

/-- What follows an operand is decided by its word. -/
theorem move_afterOperand (mode : Mode) (node : Node) :
    move g (afterOperand mode node l) = afterOperand mode (move g node) (move g l) := by
  have hsuffix : Suffix.of? mode (move g l) = Suffix.of? mode l := rfl
  simp only [afterOperand, hsuffix]
  split
  · simp
  · simp
  · simp
  · cases node <;> simp

/-- Whether a construct is closed does not depend on positions. -/
theorem folds_move (mode : Mode) (rank : Nat) (child : Phrase) :
    folds mode rank (move g child) (move g l) = folds mode rank child l := by
  have hsuffix : Suffix.of? mode (move g l) = Suffix.of? mode l := rfl
  simp [folds, hsuffix]

/-- Nor does whether a lexeme separates items. -/
theorem separates_move (delimited : Bool) (current : Phrase) :
    separates delimited (move g current) (move g l) = separates delimited current l := by
  simp [separates]

/-- What a lexeme does to the items of a list, if it does so to the current one. -/
theorem move_pushItem (items : List Node) (delimited : Bool) (current : Phrase)
    (inner : Except ParseError (Step Phrase Node)) :
    move g (pushItem l items delimited current inner) =
      pushItem (move g l) (move g items) delimited (move g current) (move g inner) := by
  have hword : (move g l).isWord "and" = l.isWord "and" := rfl
  unfold pushItem
  rw [separates_move, isComplete_move, isEmpty_move, Ballad.isEmpty_move, hword]
  split
  · split
    · rw [Lexeme.move_span, ← move_finish]
      exact move_map g _ fun item => by simp
    · split
      · rfl
      · rfl
  · refine move_map g _ fun step => ?_
    cases step <;> simp

/-- Reading on goes down the open constructs. -/
theorem move_take : move g (p.take l) = (move g p).take (move g l) := by
  induction p with
  | empty mode =>
    rw [move_empty, take, take, ← move_start]
    exact move_map g _ fun _ => rfl
  | article mode word =>
    simp only [move_article, take, Lexeme.move_word]
    split <;> rfl
  | proper mode name span =>
    have hcapital : (move g l).isCapitalized = l.isCapitalized := rfl
    have hword : (move g l).word = l.word := rfl
    rw [move_proper, take, take, hcapital, hword]
    split
    · rfl
    · exact move_afterOperand g l mode _
  | operand mode node => exact move_afterOperand g l mode node
  | within mode shell child ih =>
    rw [move_within, take, take, ← Shell.move_refine]
    cases shell.refine l with
    | error e => rfl
    | ok refined =>
      cases refined with
      | some shell => rfl
      | none =>
        -- the construct has all of its words: it is closed, or its last part reads on
        have hafter : ∀ node l, move g (afterOperand mode (shell.settle.close node) l) =
            afterOperand mode ((move g shell).settle.close (move g node)) (move g l) := by
          intro node l
          rw [move_afterOperand, Shell.move_close, Shell.move_settle]
        simp only [move_ok, move_none]
        rw [← Shell.move_settle, Shell.rank_move, folds_move]
        split
        · rw [Lexeme.move_span, ← move_finish, Shell.move_settle]
          exact move_bind g _ fun node => hafter node l
        · rw [← ih, Shell.move_settle]
          refine move_bind g _ fun step => ?_
          cases step with
          | next child | done node => simp
          | yield node l => exact hafter node l
  | call mode callee items delimited current ih =>
    have hafter : ∀ list l, move g ((closeCall callee list).bind fun node => afterOperand mode node l) =
        (closeCall (move g callee) (move g list)).bind fun node => afterOperand mode node (move g l) := by
      intro list l
      rw [← move_closeCall]
      exact move_bind g _ fun node => move_afterOperand g l mode node
    rw [move_call, take, take, folds_move, separates_move]
    split
    · rw [Lexeme.move_span, ← move_finish, ← move_finishItems]
      exact move_bind g _ fun list => hafter list l
    · rw [← ih, ← move_pushItem]
      refine move_bind g _ fun step => ?_
      cases step with
      | next state => rfl
      | done list =>
        simp only [move_done]
        rw [← move_closeCall]
        exact move_map g _ fun _ => rfl
      | yield list l => exact hafter list l

theorem move_push : move g (p.push l) = (move g p).push (move g l) := by
  rw [push, push, Lexeme.move_isTrivia]
  split
  · rfl
  · exact move_take g p l

end Phrase

instance : Placed Fed where
  move g
    | .pending p => .pending (move g p)
    | .finished node l => .finished (move g node) (move g l)

/-- What a construct learns of a phrase in it. -/
theorem Phrase.move_feed (p : Phrase) (l : Lexeme) :
    move g (p.feed l) = (move g p).feed (move g l) := by
  rw [feed, feed, ← move_push, mode_move]
  refine move_map g _ fun step => ?_
  cases step <;> rfl

/-! ### Lists and poetic literals -/

instance : Placed Listing := ⟨fun g list => ⟨move g list.items, list.delimited, move g list.current⟩⟩

@[simp] theorem Listing.move_empty : move g Listing.empty = Listing.empty := rfl

/-- **One step of reading a list commutes with moving.** -/
theorem Listing.move_push (list : Listing) (l : Lexeme) :
    move g (list.push l) = (move g list).push (move g l) := by
  rw [push, push, Lexeme.move_isTrivia]
  split
  · rfl
  · show _ = (Phrase.pushItem (move g l) (move g list.items) list.delimited (move g list.current)
      ((move g list.current).take (move g l))).map _
    rw [← Phrase.move_take, ← Phrase.move_pushItem]
    refine move_map g _ fun step => ?_
    cases step <;> rfl

instance : Placed Digits := ⟨fun g d => { d with span := move g d.span }⟩

namespace Digits

variable (d : Digits)

theorem move_flush : move g d.flush = (move g d).flush := by
  obtain ⟨integer, fraction, pending, dotted, span⟩ := d
  cases pending <;> cases dotted <;> rfl

/-- What a lexeme adds to the digits of a poetic number is its letters. -/
theorem move_push (l : Lexeme) : move g (d.push l) = (move g d).push (move g l) := by
  have hdotted : (move g d).dotted = d.dotted := rfl
  have hliteral : (move g l).literal = l.literal := rfl
  rw [push, push, Lexeme.move_kind]
  split
  · obtain ⟨integer, fraction, pending, dotted, span⟩ := d
    cases span <;> rfl
  · rw [hdotted, hliteral, ← move_flush]
    split <;> rfl
  · exact move_flush g d

/-- The literal of a poetic number. Its span begins with the first word, or else where the line
ends. -/
theorem move_finish (stop : Span) : move g (d.finish stop) = (move g d).finish (move g stop) := by
  have hspan : move g (d.flush.span.getD stop) = (move g d).flush.span.getD (move g stop) := by
    rw [← move_flush]
    show _ = (move g d.flush.span).getD (move g stop)
    cases d.flush.span <;> rfl
  have hinteger : (move g d).flush.integer = d.flush.integer := by
    rw [← move_flush]
    rfl
  have hfraction : (move g d).flush.fraction = d.flush.fraction := by
    rw [← move_flush]
    rfl
  have hvalue : (move g d).flush.value = d.flush.value := by
    rw [← move_flush]
    rfl
  simp only [finish, hinteger, hfraction, hvalue, ← hspan]
  split <;> simp

end Digits

instance : Placed Poetic where
  move g
    | .leading => .leading
    | .literal node => .literal (move g node)
    | .constant node => .constant (move g node)
    | .digits read => .digits (move g read)

namespace Poetic

theorem move_start (l : Lexeme) : move g (start l) = start (move g l) := by
  rw [start, start, Lexeme.move_kind]
  split
  · rw [← Phrase.move_numberOf]
    exact move_map g _ fun _ => rfl
  · rfl
  · rw [Lexeme.move_word]
    split
    · rfl
    · show Except.ok (digits (move g (Digits.push {} l))) = _
      rw [Digits.move_push]
      rfl

/-- **One step of reading a poetic literal commutes with moving.** -/
theorem move_push (p : Poetic) (l : Lexeme) : move g (p.push l) = (move g p).push (move g l) := by
  cases p with
  | leading =>
    show move g (push leading l) = push leading (move g l)
    rw [push, push, Lexeme.move_isTrivia, Lexeme.move_isNewline]
    split
    · rfl
    · split
      · rfl
      · rw [← move_start]
        exact move_map g _ fun _ => rfl
  | literal node =>
    show move g (push (literal node) l) = push (literal (move g node)) (move g l)
    rw [push, push, Lexeme.move_isTrivia, Lexeme.move_isNewline]
    split
    · rfl
    · split <;> rfl
  | constant node =>
    show move g (push (constant node) l) = push (constant (move g node)) (move g l)
    rw [push, push, Lexeme.move_isNewline]
    split <;> rfl
  | digits d =>
    show move g (push (digits d) l) = push (digits (move g d)) (move g l)
    rw [push, push, Lexeme.move_isNewline]
    split
    · rw [Lexeme.move_span, ← Digits.move_finish]
      exact move_map g _ fun _ => rfl
    · rw [← Digits.move_push]
      rfl

end Poetic

end Reading

end Ballad
