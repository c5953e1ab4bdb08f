import Ballad.Proofs.Naming
import Ballad.Proofs.Tree
import Ballad.Reading.Phrase

/-!
# Where nodes lie

The shape of a tree does not depend on where its lexemes stand, while its spans nest only if the
lexemes come in the order of the text. Both follow from the same walk through the reader, which is
therefore done over an order of positions that is not fixed.

- `Order`: an order of positions, and what is known of words.
- `Order.Stream`: lexemes that come in this order.
- `Node.Placed`: the span of a node reaches over the spans of its children. One form of statement
  is an exception, and `Placed` says what holds of it instead.
- `Node.Fits`: a node that a phrase of some mode may become, between two positions.
- `Order.any`: the order in which any lexemes come.
-/

namespace Ballad

open Reading

/-- An order of positions. -/
structure Order where
  /-- Not after. -/
  le : Position → Position → Prop
  /-- Before. -/
  lt : Position → Position → Prop
  /-- What is known of words. -/
  word : String → Prop
  le_refl : ∀ p, le p p
  le_trans : ∀ {p q r}, le p q → le q r → le p r
  le_of_lt : ∀ {p q}, lt p q → le p q
  lt_of_lt_of_le : ∀ {p q r}, lt p q → le q r → lt p r
  lt_of_le_of_lt : ∀ {p q r}, le p q → lt q r → lt p r

namespace Order

variable (R : Order)

/-- A span between two positions. -/
structure Inside (a b : Position) (s : Span) : Prop where
  start : R.le a s.start
  le : R.le s.start s.stop
  stop : R.le s.stop b

/-- A span that reaches over another. -/
def Covers (outer inner : Span) : Prop :=
  R.le outer.start inner.start ∧ R.le inner.stop outer.stop

/-- A lexeme that may come after a position. -/
structure Follows (p : Position) (l : Lexeme) : Prop where
  start : R.le p l.span.start
  le : R.le l.span.start l.span.stop
  word : l.kind = .identifier → R.lt l.span.start l.span.stop
  spelled : l.kind = .identifier → R.word l.literal

/-- Lexemes that come one after another, the first of them after a position. -/
def Stream : Position → List Lexeme → Prop
  | _, [] => True
  | p, l :: ls => R.Follows p l ∧ Stream l.span.stop ls

variable {R}

/-- What lies inside of a stretch lies inside of one that ends later. -/
theorem Inside.of_stop_le {a b c : Position} {s : Span} (h : R.Inside a b s) (hbc : R.le b c) :
    R.Inside a c s :=
  ⟨h.start, h.le, R.le_trans h.stop hbc⟩

/-- Or of one that begins earlier. -/
theorem Inside.of_le_start {a b c : Position} {s : Span} (h : R.Inside b c s) (hab : R.le a b) :
    R.Inside a c s :=
  ⟨R.le_trans hab h.start, h.le, h.stop⟩

/-- A stretch begins before all that lies inside of it ends. -/
theorem Inside.le_stop {a b : Position} {s : Span} (h : R.Inside a b s) : R.le a s.stop :=
  R.le_trans h.start h.le

/-- A span that begins with one and ends with a later one lies where both of them do. -/
theorem Inside.through {a b c : Position} {s t : Span} (hs : R.Inside a b s)
    (ht : R.Inside s.stop c t) : R.Inside a c (s.through t) :=
  ⟨hs.start, R.le_trans hs.le ht.le_stop, ht.stop⟩

/-- From one span to a later one: the first is covered. -/
theorem covers_through_left {c : Position} {s t : Span} (ht : R.Inside s.stop c t) :
    R.Covers (s.through t) s :=
  ⟨R.le_refl _, ht.le_stop⟩

/-- So is the later one. -/
theorem covers_through_right {a b c : Position} {s t : Span} (hs : R.Inside a b s)
    (ht : R.Inside s.stop c t) : R.Covers (s.through t) t :=
  ⟨R.le_trans hs.le ht.start, R.le_refl _⟩

/-- A lexeme lies between its place and its end. -/
theorem Follows.inside {p : Position} {l : Lexeme} (h : R.Follows p l) :
    R.Inside p l.span.stop l.span :=
  ⟨h.start, h.le, R.le_refl _⟩

theorem Follows.le_stop {p : Position} {l : Lexeme} (h : R.Follows p l) : R.le p l.span.stop :=
  R.le_trans h.start h.le

/-- What follows a place follows all places before it. -/
theorem Follows.of_le {p q : Position} {l : Lexeme} (h : R.Follows q l) (hpq : R.le p q) :
    R.Follows p l :=
  ⟨R.le_trans hpq h.start, h.le, h.word, h.spelled⟩

/-- The order in which any lexemes come. -/
def any (word : String → Prop) : Order where
  le _ _ := True
  lt _ _ := True
  word := word
  le_refl _ := trivial
  le_trans _ _ := trivial
  le_of_lt _ := trivial
  lt_of_lt_of_le _ _ := trivial
  lt_of_le_of_lt _ _ := trivial

/-- Where any order will do, all lexemes follow each other. -/
theorem stream_any {word : String → Prop} {ls : List Lexeme}
    (h : ∀ l ∈ ls, l.kind = .identifier → word l.literal) :
    ∀ p : Position, (Order.any word).Stream p ls := by
  induction ls with
  | nil =>
    intro p
    trivial
  | cons l ls ih =>
    intro p
    exact ⟨⟨trivial, trivial, fun _ => trivial, h l List.mem_cons_self⟩,
      ih (fun m hm => h m (List.mem_cons_of_mem l hm)) _⟩

end Order

namespace Node

/-- Whether a node takes the last entry off an array. -/
def isPop : Node → Bool
  | pop .. => true
  | _ => false

/-- The span of a node reaches over those of its children. An assignment of an entry that is taken
off an array may instead have the span of its value alone, and its target ends after it. -/
def Placed (R : Order) : Node → Prop
  | assign s target value =>
    R.Covers s value.span ∧
      (R.Covers s target.span ∧ (value.isPop → R.lt s.start value.span.start) ∨
        value.isPop ∧ value.span = s ∧ R.lt s.stop target.span.stop)
  | n => ∀ c ∈ n.children, R.Covers n.span c.span

/-- What the reader makes sure of at one node. -/
structure Sound (R : Order) (n : Node) : Prop where
  formed : n.Formed
  placed : n.Placed R
  spelled : n.Spelled (Name.Made R.word)
  direct : n.Direct

/-- Words that are not empty make names that are not empty. -/
theorem Sound.named {lettered : Prop} {n : Node} (h : n.Sound (.any fun w => lettered → w ≠ ""))
    (hlettered : lettered) : n.Named := by
  refine Spelled.named (h.spelled.imp fun name hname => hname.ne_empty fun w hw => ?_)
  exact hw hlettered

end Node

/-- The nodes that a phrase may become. -/
def Reading.Mode.Accepts : Mode → Node → Prop
  | .value, n => n.isOperand
  | .location, n => n.isLocation
  | .key, n => n.isPath

/-- Whatever is accepted somewhere is an operand. -/
theorem Reading.Mode.Accepts.isOperand {mode : Mode} {n : Node} (h : mode.Accepts n) :
    n.isOperand := by
  cases mode with
  | value => exact h
  | location => exact Node.isOperand_of_isLocation h
  | key => exact Node.isOperand_of_isPath h

/-- Names are accepted everywhere. -/
theorem Reading.Mode.accepts_of_isName {n : Node} (h : n.isName) (mode : Mode) :
    mode.Accepts n := by
  cases n with
  | var | pronoun => cases mode <;> rfl
  | _ => cases h

/-- Entries are accepted where their array is. -/
theorem Reading.Mode.Accepts.index {mode : Mode} {target key : Node} (htarget : mode.Accepts target)
    (hkey : key.isAtom) (s : Span) : mode.Accepts (.index s target key) := by
  cases mode with
  | value | location => rfl
  | key => exact Bool.and_eq_true_iff.mpr ⟨htarget, hkey⟩

namespace Node

/-- A node that a phrase of some mode may become, with its span between two positions. -/
structure Fits (R : Order) (mode : Mode) (a b : Position) (n : Node) : Prop where
  inside : R.Inside a b n.span
  sound : n.Everywhere (Sound R)
  accepts : mode.Accepts n

variable {R : Order} {mode : Mode} {a b c : Position} {n m : Node}

/-- A node that fits a stretch fits one that ends later. -/
theorem Fits.of_stop_le (h : n.Fits R mode a b) (hbc : R.le b c) : n.Fits R mode a c :=
  ⟨h.inside.of_stop_le hbc, h.sound, h.accepts⟩

/-- Or one that begins earlier. -/
theorem Fits.of_le_start (h : n.Fits R mode b c) (hab : R.le a b) : n.Fits R mode a c :=
  ⟨h.inside.of_le_start hab, h.sound, h.accepts⟩

/-- A node fits up to its own end. -/
theorem Fits.upToStop (h : n.Fits R mode a b) : n.Fits R mode a n.span.stop :=
  ⟨⟨h.inside.start, h.inside.le, R.le_refl _⟩, h.sound, h.accepts⟩

/-- Operands of every mode are values. -/
theorem Fits.value (h : n.Fits R mode a b) : n.Fits R .value a b :=
  ⟨h.inside, h.sound, h.accepts.isOperand⟩

/-- A node that may stand below a node of the given span. -/
structure Part (R : Order) (s : Span) (n : Node) : Prop where
  covers : R.Covers s n.span
  sound : n.Everywhere (Sound R)

/-- A node in front of a span is a part of both together. -/
theorem Fits.part_left {s : Span} (h : n.Fits R mode a b) (hs : R.Inside n.span.stop c s) :
    n.Part R (n.span.through s) :=
  ⟨Order.covers_through_left hs, h.sound⟩

/-- So is a node behind one. -/
theorem Fits.part_right {s : Span} (h : n.Fits R mode s.stop c) (hs : R.Inside a b s) :
    n.Part R (s.through n.span) :=
  ⟨Order.covers_through_right hs h.inside, h.sound⟩

/-- A node between the two ends of a span is a part of it. -/
theorem Fits.part {s : Span} (h : n.Fits R mode a b) (ha : R.le s.start a) (hb : R.le b s.stop) :
    n.Part R s :=
  ⟨⟨R.le_trans ha h.inside.start, R.le_trans h.inside.stop hb⟩, h.sound⟩

/-- A node that is neither an assignment nor a change. -/
def Ordinary (n : Node) : Prop :=
  (∀ s t v, n ≠ assign s t v) ∧ ∀ s kind source into argument, n ≠ change s kind source into argument

/-- A node of the right shape whose children are parts of it is sound. Assignments and changes are
treated apart. -/
theorem sound_of_parts (hordinary : n.Ordinary) (hformed : n.Formed)
    (hspelled : n.Spelled (Name.Made R.word)) (hparts : ∀ c ∈ n.children, c.Part R n.span) :
    n.Everywhere (Sound R) := by
  obtain ⟨hassign, hchange⟩ := hordinary
  have hbelow : ∀ c ∈ n.children, R.Covers n.span c.span := fun c hc => (hparts c hc).covers
  refine ⟨?_, fun c hc => (hparts c hc).sound⟩
  cases n with
  | assign s t v => exact absurd rfl (hassign s t v)
  | change s kind source into argument => exact absurd rfl (hchange s kind source into argument)
  | _ => exact ⟨hformed, hbelow, hspelled, trivial⟩

/-- A node without children is sound, if it has the right shape. -/
theorem sound_of_leaf (hchildren : n.children = []) (hformed : n.Formed)
    (hspelled : n.Spelled (Name.Made R.word)) : n.Everywhere (Sound R) := by
  refine sound_of_parts ⟨?_, ?_⟩ hformed hspelled ?_
  · rintro s t v rfl
    exact absurd hchildren (List.cons_ne_nil t [v])
  · rintro s kind source into argument rfl
    exact absurd hchildren (List.cons_ne_nil source _)
  · rw [hchildren]
    simp

/-- An assignment that reaches over its target and its value, and begins before a value that is
taken off an array. -/
theorem sound_assign {s : Span} {target value : Node} (ht : target.Part R s) (hv : value.Part R s)
    (hloc : target.isLocation) (hval : value.isOperand)
    (hpop : value.isPop → R.lt s.start value.span.start) :
    (assign s target value).Everywhere (Sound R) := by
  refine ⟨⟨⟨hloc, hval⟩, ⟨hv.covers, .inl ⟨ht.covers, hpop⟩⟩, trivial, trivial⟩, ?_⟩
  simpa [children] using ⟨ht.sound, hv.sound⟩

/-- A change whose source is a path. -/
theorem sound_change {s : Span} {kind : Change} {source : Node} {into argument : Option Node}
    (hformed : (change s kind source into argument).Formed) (hsource : source.isPath)
    (hparts : ∀ c ∈ (change s kind source into argument).children, c.Part R s) :
    (change s kind source into argument).Everywhere (Sound R) :=
  ⟨⟨hformed, fun c hc => (hparts c hc).covers, trivial, hsource⟩,
    fun c hc => (hparts c hc).sound⟩

end Node

end Ballad
