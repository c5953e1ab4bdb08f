import Ballad.ParseError
import Ballad.Reading.Step

/-!
# Moving positions

What a source is read to holds positions: lexemes, trees and mistakes do, and so does everything that
the reader puts together out of them. All of them can be moved at once.

- `Placed`: what has positions in it, and how to move them.
- `bare`: a value whose positions have all been moved to the origin, which is to forget them.
- `Node.moved`: moving a tree keeps everything in it but the positions.
-/

namespace Ballad

/-- What has positions in it. -/
class Placed (α : Type) where
  /-- Every position is moved. -/
  move : (Position → Position) → α → α

open Placed

variable (g : Position → Position)

section

variable {α β : Type} [Placed α] [Placed β]

instance : Placed Span := ⟨fun g s => ⟨g s.start, g s.stop⟩⟩
instance : Placed Lexeme := ⟨fun g l => { l with span := move g l.span }⟩
instance : Placed Bool := ⟨fun _ b => b⟩
instance : Placed String := ⟨fun _ s => s⟩
instance : Placed Number := ⟨fun _ n => n⟩
instance : Placed (Option α) := ⟨fun g => Option.map (move g)⟩
instance : Placed (List α) := ⟨fun g => List.map (move g)⟩
instance : Placed (α × β) := ⟨fun g p => (move g p.1, move g p.2)⟩

instance : Placed (Except α β) where
  move g
    | .ok b => .ok (move g b)
    | .error a => .error (move g a)

instance : Placed (Reading.Step α β) where
  move g
    | .next a => .next (move g a)
    | .done b => .done (move g b)
    | .yield b l => .yield (move g b) (move g l)

@[simp] theorem move_through (a b : Span) : move g (a.through b) = (move g a).through (move g b) :=
  rfl
@[simp] theorem move_bool (b : Bool) : move g b = b := rfl
@[simp] theorem move_string (s : String) : move g s = s := rfl
@[simp] theorem move_number (n : Number) : move g n = n := rfl
@[simp] theorem move_none : move g (none : Option α) = none := rfl
@[simp] theorem move_some (a : α) : move g (some a) = some (move g a) := rfl
@[simp] theorem move_nil : move g ([] : List α) = [] := rfl
@[simp] theorem move_cons (a : α) (as : List α) : move g (a :: as) = move g a :: move g as := rfl
@[simp] theorem move_pair (a : α) (b : β) : move g (a, b) = (move g a, move g b) := rfl
@[simp] theorem move_ok (b : β) : move g (.ok b : Except α β) = .ok (move g b) := rfl
@[simp] theorem move_error (a : α) : move g (.error a : Except α β) = .error (move g a) := rfl
@[simp] theorem move_next (a : α) :
    move g (.next a : Reading.Step α β) = .next (move g a) := rfl
@[simp] theorem move_done (b : β) :
    move g (.done b : Reading.Step α β) = .done (move g b) := rfl
@[simp] theorem move_yield (b : β) (l : Lexeme) :
    move g (.yield b l : Reading.Step α β) = .yield (move g b) (move g l) := rfl

@[simp] theorem move_append (as bs : List α) : move g (as ++ bs) = move g as ++ move g bs :=
  List.map_append

@[simp] theorem isEmpty_move (as : List α) : (move g as).isEmpty = as.isEmpty := by
  cases as <;> rfl

@[simp] theorem move_ite (c : Prop) [Decidable c] (a b : α) :
    move g (if c then a else b) = if c then move g a else move g b :=
  apply_ite (move g) c a b

end

/-- A value without its positions: all of them are moved to the origin. -/
def bare {α : Type} [Placed α] (a : α) : α :=
  Placed.move (fun _ => .origin) a

/-- Positions are forgotten one by one. -/
theorem bare_append {α : Type} [Placed α] (as bs : List α) : bare (as ++ bs) = bare as ++ bare bs :=
  move_append _ as bs

section

variable {ε α β : Type} [Placed ε] [Placed α] [Placed β]

/-- Moving what goes on commutes with going on. -/
theorem move_bind {x : Except ε α} {f : α → Except ε β} (f' : α → Except ε β)
    (h : ∀ a, move g (f a) = f' (move g a)) : move g (x.bind f) = (move g x).bind f' := by
  cases x with
  | error e => rfl
  | ok a => exact h a

theorem move_map {x : Except ε α} {f : α → β} (f' : α → β)
    (h : ∀ a, move g (f a) = f' (move g a)) :
    move g (x.map f) = (move g x).map f' := by
  cases x with
  | error e => rfl
  | ok a => exact congrArg Except.ok (h a)

end

/-! ### Lexemes and trees -/

namespace Lexeme

variable (l : Lexeme)

@[simp] theorem move_kind : (move g l).kind = l.kind := rfl
@[simp] theorem move_literal : (move g l).literal = l.literal := rfl
@[simp] theorem move_spelling : (move g l).spelling = l.spelling := rfl
@[simp] theorem move_span : (move g l).span = move g l.span := rfl
@[simp] theorem move_source : (move g l).source = l.source := rfl
@[simp] theorem move_isTrivia : (move g l).isTrivia = l.isTrivia := rfl
@[simp] theorem move_isNewline : (move g l).isNewline = l.isNewline := rfl
@[simp] theorem move_word : (move g l).word = l.word := rfl
@[simp] theorem move_isWord (w : String) : (move g l).isWord w = l.isWord w := rfl
@[simp] theorem move_isCapitalized : (move g l).isCapitalized = l.isCapitalized := rfl

end Lexeme

namespace Node

mutual

/-- Every position in a tree is moved. -/
def moved (g : Position → Position) : Node → Node
  | literal s v => literal (move g s) v
  | var s n => var (move g s) n
  | pronoun s w => pronoun (move g s) w
  | index s t k => index (move g s) (t.moved g) (k.moved g)
  | list s items => list (move g s) (movedAll g items)
  | binary s op l r => binary (move g s) op (l.moved g) (r.moved g)
  | negation s x => negation (move g s) (x.moved g)
  | call s c as => call (move g s) (c.moved g) (movedAll g as)
  | pop s t => pop (move g s) (t.moved g)
  | assign s t v => assign (move g s) (t.moved g) (v.moved g)
  | input s t => input (move g s) (moved? g t)
  | output s v => output (move g s) (v.moved g)
  | push s t vs => push (move g s) (t.moved g) (movedAll g vs)
  | change s k src i a => change (move g s) k (src.moved g) (moved? g i) (moved? g a)
  | round s t m => round (move g s) (t.moved g) m
  | conditional s c b o => conditional (move g s) (c.moved g) (movedAll g b) (movedAll g o)
  | loop s c b goal => loop (move g s) (c.moved g) (movedAll g b) goal
  | function s n ps b => function (move g s) n ps (movedAll g b)
  | giveBack s v => giveBack (move g s) (v.moved g)
  | breakLoop s => breakLoop (move g s)
  | continueLoop s => continueLoop (move g s)
  | otherwise s => otherwise (move g s)
  | blank s => blank (move g s)

/-- Every position in some trees is moved. -/
def movedAll (g : Position → Position) : List Node → List Node
  | [] => []
  | n :: ns => n.moved g :: movedAll g ns

/-- Every position in a tree, if there is one, is moved. -/
def moved? (g : Position → Position) : Option Node → Option Node
  | none => none
  | some n => some (n.moved g)

end

instance : Placed Node := ⟨moved⟩

/-- The trees of a list are moved one by one. -/
theorem movedAll_eq (ns : List Node) : movedAll g ns = move g ns := by
  induction ns with
  | nil => rfl
  | cons n ns ih => exact congrArg (n.moved g :: ·) ih

theorem moved?_eq (n : Option Node) : moved? g n = move g n := by
  cases n <;> rfl

@[simp] theorem move_literal (s : Span) (v : Literal) :
    move g (literal s v) = literal (move g s) v := rfl
@[simp] theorem move_var (s : Span) (n : String) : move g (var s n) = var (move g s) n := rfl
@[simp] theorem move_pronoun (s : Span) (w : String) :
    move g (pronoun s w) = pronoun (move g s) w := rfl
@[simp] theorem move_index (s : Span) (t k : Node) :
    move g (index s t k) = index (move g s) (move g t) (move g k) := rfl
@[simp] theorem move_binary (s : Span) (op : Operator) (l r : Node) :
    move g (binary s op l r) = binary (move g s) op (move g l) (move g r) := rfl
@[simp] theorem move_negation (s : Span) (x : Node) :
    move g (negation s x) = negation (move g s) (move g x) := rfl
@[simp] theorem move_pop (s : Span) (t : Node) : move g (pop s t) = pop (move g s) (move g t) := rfl
@[simp] theorem move_assign (s : Span) (t v : Node) :
    move g (assign s t v) = assign (move g s) (move g t) (move g v) := rfl
@[simp] theorem move_output (s : Span) (v : Node) :
    move g (output s v) = output (move g s) (move g v) := rfl
@[simp] theorem move_round (s : Span) (t : Node) (m : Rounding) :
    move g (round s t m) = round (move g s) (move g t) m := rfl
@[simp] theorem move_giveBack (s : Span) (v : Node) :
    move g (giveBack s v) = giveBack (move g s) (move g v) := rfl
@[simp] theorem move_breakLoop (s : Span) : move g (breakLoop s) = breakLoop (move g s) := rfl
@[simp] theorem move_continueLoop (s : Span) :
    move g (continueLoop s) = continueLoop (move g s) := rfl
@[simp] theorem move_otherwise (s : Span) : move g (otherwise s) = otherwise (move g s) := rfl
@[simp] theorem move_blank (s : Span) : move g (blank s) = blank (move g s) := rfl

@[simp] theorem move_list (s : Span) (items : List Node) :
    move g (list s items) = list (move g s) (move g items) :=
  congrArg (list (move g s)) (movedAll_eq g items)

@[simp] theorem move_call (s : Span) (c : Node) (as : List Node) :
    move g (call s c as) = call (move g s) (move g c) (move g as) :=
  congrArg (call (move g s) (move g c)) (movedAll_eq g as)

@[simp] theorem move_input (s : Span) (t : Option Node) :
    move g (input s t) = input (move g s) (move g t) :=
  congrArg (input (move g s)) (moved?_eq g t)

@[simp] theorem move_push (s : Span) (t : Node) (vs : List Node) :
    move g (push s t vs) = push (move g s) (move g t) (move g vs) :=
  congrArg (push (move g s) (move g t)) (movedAll_eq g vs)

@[simp] theorem move_change (s : Span) (k : Change) (src : Node) (i a : Option Node) :
    move g (change s k src i a) = change (move g s) k (move g src) (move g i) (move g a) := by
  show change (move g s) k (src.moved g) (moved? g i) (moved? g a) = _
  rw [moved?_eq, moved?_eq]
  rfl

@[simp] theorem move_conditional (s : Span) (c : Node) (b o : List Node) :
    move g (conditional s c b o) = conditional (move g s) (move g c) (move g b) (move g o) := by
  show conditional (move g s) (c.moved g) (movedAll g b) (movedAll g o) = _
  rw [movedAll_eq, movedAll_eq]
  rfl

@[simp] theorem move_loop (s : Span) (c : Node) (b : List Node) (goal : Bool) :
    move g (loop s c b goal) = loop (move g s) (move g c) (move g b) goal := by
  show loop (move g s) (c.moved g) (movedAll g b) goal = _
  rw [movedAll_eq]
  rfl

@[simp] theorem move_function (s : Span) (n : String) (ps : List String) (b : List Node) :
    move g (function s n ps b) = function (move g s) n ps (move g b) :=
  congrArg (function (move g s) n ps) (movedAll_eq g b)

variable (n : Node)

@[simp] theorem span_move : (move g n).span = move g n.span := by
  cases n <;> rfl

/-- Where a tree without positions stands cannot be told. -/
theorem span_bare : (bare n).span = .origin :=
  span_move _ n

@[simp] theorem isLocation_move : (move g n).isLocation = n.isLocation := by
  cases n <;> rfl

@[simp] theorem opensBlock_move : (move g n).opensBlock = n.opensBlock := by
  cases n <;> rfl

@[simp] theorem kind_move : (move g n).kind = n.kind := by
  cases n with
  | literal s v => cases v <;> rfl
  | change s k src i a => cases k <;> rfl
  | _ => rfl

@[simp] theorem move_withSpan (s : Span) : move g (n.withSpan s) = (move g n).withSpan (move g s) := by
  cases n <;> rfl

/-- The span of no nodes at all is the only one that does not come out of the source. -/
theorem move_spanOf {ns : List Node} (h : ns ≠ []) : move g (spanOf ns) = spanOf (move g ns) := by
  cases ns with
  | nil => exact absurd rfl h
  | cons m ms =>
    show move g (spanOf (m :: ms)) = spanOf (move g m :: move g ms)
    rw [spanOf, spanOf, move_through, span_move]
    congr 1
    rw [← span_move]
    exact congrArg span (List.getLast_map _).symm

end Node

/-! ### Mistakes -/

instance : Placed ParseError.Cause where
  move g
    | .unexpectedLexeme l within => .unexpectedLexeme (move g l) within
    | cause => cause

instance : Placed ParseError := ⟨fun g e => ⟨move g e.cause, move g e.span⟩⟩

namespace ParseError

@[simp] theorem move_unexpected (l : Lexeme) (within : Construct) :
    move g (unexpected l within) = unexpected (move g l) within := rfl

@[simp] theorem move_unexpectedWord (l : Lexeme) (expected : String) :
    move g (unexpectedWord l expected) = unexpectedWord (move g l) expected := rfl

@[simp] theorem move_unexpectedKind (node : Node) (expected : String) :
    move g (unexpectedKind node expected) = unexpectedKind (move g node) expected := by
  rw [unexpectedKind, unexpectedKind, Node.kind_move, Node.span_move]
  rfl

@[simp] theorem move_unfinished (within : Construct) (span : Span) :
    move g (unfinished within span) = unfinished within (move g span) := rfl

@[simp] theorem move_invalidNumber (literal : String) (span : Span) :
    move g (⟨.invalidNumber literal, span⟩ : ParseError) = ⟨.invalidNumber literal, move g span⟩ :=
  rfl

end ParseError

end Ballad
