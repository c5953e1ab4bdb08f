import Ballad.Proofs.Reading.Line
import Ballad.Proofs.Tiling

/-!
# Spans nest

The lexemes of a source come in the order of its text, so that what the reader makes sure of over
any order (`Program.everywhere_sound`) holds over this one: the span of a node contains the spans of
its children. There is one exception. The sentence that takes an entry off an array and stores it,
as in `roll x into y`, has the span of the words before `into`, and its target lies outside of it.

- `Order.text`: the order of the text.
- `Order.stream_text`: lexemes that stand one after another come in this order.
- `Node.Nested`: the span of a node contains those of its children.
- `Node.isCutShort`: the sentences that end before their target.
-/

namespace Ballad

namespace Position

instance : LT Position := ⟨fun p q => p.line < q.line ∨ p.line = q.line ∧ p.column < q.column⟩

theorem le_def {p q : Position} : p ≤ q ↔ p.line < q.line ∨ p.line = q.line ∧ p.column ≤ q.column :=
  Iff.rfl

theorem lt_def {p q : Position} : p < q ↔ p.line < q.line ∨ p.line = q.line ∧ p.column < q.column :=
  Iff.rfl

theorem not_lt_of_le {p q : Position} (h : p ≤ q) : ¬ q < p := by
  rw [le_def] at h
  rw [lt_def]
  omega

/-- A character moves the position on, be it to the next column or to the next line. -/
theorem lt_next (p : Position) (c : Char) : p < p.next c := by
  rw [lt_def, next]
  by_cases hc : c = '\n'
  · rw [if_pos hc]
    left
    show p.line < p.line + 1
    omega
  · rw [if_neg hc]
    right
    show p.line = p.line ∧ p.column < p.column + 1
    omega

end Position

namespace Order

/-- The order of the text, in which words have letters. -/
def text : Order where
  le p q := p ≤ q
  lt p q := p < q
  word w := w ≠ ""
  le_refl p := by
    rw [Position.le_def]
    omega
  le_trans {p q r} hpq hqr := by
    rw [Position.le_def] at *
    omega
  le_of_lt {p q} h := by
    rw [Position.lt_def] at h
    rw [Position.le_def]
    omega
  lt_of_lt_of_le {p q r} hpq hqr := by
    rw [Position.lt_def, Position.le_def] at *
    omega
  lt_of_le_of_lt {p q r} hpq hqr := by
    rw [Position.lt_def, Position.le_def] at *
    omega

theorem text_le_advance (cs : List Char) : ∀ p : Position, text.le p (p.advance cs) := by
  induction cs with
  | nil =>
    intro p
    exact text.le_refl p
  | cons c cs ih =>
    intro p
    exact text.le_trans (text.le_of_lt (Position.lt_next p c)) (ih (p.next c))

/-- Text moves the position on, if there is any. -/
theorem text_lt_advance (p : Position) {cs : List Char} (h : cs ≠ []) :
    text.lt p (p.advance cs) := by
  cases cs with
  | nil => exact absurd rfl h
  | cons c cs => exact text.lt_of_lt_of_le (Position.lt_next p c) (text_le_advance cs (p.next c))

/-- Lexemes that stand one after another come in the order of the text. -/
theorem stream_text {ls : List Lexeme} (hwritten : ∀ l ∈ ls, l.Written) :
    ∀ {p : Position}, Lexeme.Contiguous p ls → text.Stream p ls := by
  induction ls with
  | nil =>
    intro p _
    trivial
  | cons l ls ih =>
    intro p hplace
    obtain ⟨hspan, hrest⟩ := hplace
    have hl : l.Written := hwritten l List.mem_cons_self
    have hstart : l.span.start = p := by rw [hspan, Span.ofText]
    have hstop : l.span.stop = p.advance l.source.toList := by rw [hspan, Span.ofText]
    refine ⟨⟨?_, ?_, ?_, ?_⟩, ih (fun m hm => hwritten m (List.mem_cons_of_mem l hm)) hrest⟩
    · rw [hstart]
      exact text.le_refl p
    · rw [hstart, hstop]
      exact text_le_advance _ p
    · intro hk
      rw [hstart, hstop]
      exact text_lt_advance p (hl.source_ne (by simp [hk]))
    · intro hk
      exact hl.literal_ne hk

/-- The lexemes that a program is read from come in the order of its text. -/
theorem stream_source (source : String) :
    text.Stream .origin ((Lexeme.lex source).flatMap Lexeme.splitCopula) :=
  stream_text (Lexeme.written_split source) (Lexeme.contiguous_split source)

end Order

namespace Node

/-- The span of a node contains those of its children. -/
def Nested (n : Node) : Prop :=
  ∀ c ∈ n.children, n.span.contains c.span

instance (n : Node) : Decidable n.Nested :=
  inferInstanceAs (Decidable (∀ c ∈ n.children, n.span.contains c.span))

/-- Whether a node is an assignment with no more than the span of the entry that it takes off an
array. -/
def isCutShort : Node → Bool
  | assign s _ (pop t _) => s == t
  | _ => false

theorem nested_iff_of_placed {n : Node} (h : n.Placed .text) : n.Nested ↔ n.isCutShort = false := by
  cases n
  case assign s target value =>
    obtain ⟨hvalue, ⟨htarget, hpop⟩ | ⟨hpop, rfl, hlt⟩⟩ := h
    · have hnested : (assign s target value).Nested := by
        intro c hc
        rcases List.mem_pair.mp hc with rfl | rfl
        · exact htarget
        · exact hvalue
      refine iff_of_true hnested ?_
      cases value
      case pop t x =>
        -- a span that starts before that of its value differs from it
        refine beq_eq_false_iff_ne.mpr ?_
        rintro rfl
        exact Position.not_lt_of_le (Order.text.le_refl s.start) (hpop rfl)
      all_goals rfl
    · cases value
      case pop t x =>
        -- the target ends after the sentence does
        refine iff_of_false ?_ (by simp [isCutShort, span])
        intro hnested
        have htarget := hnested target (by simp [children])
        exact Position.not_lt_of_le htarget.2 hlt
      all_goals exact absurd hpop Bool.false_ne_true
  all_goals exact iff_of_true h rfl

end Node

namespace Program

/-- **Spans nest, with one exception.** At every depth of every tree that is read from a source, the
span of a node contains the spans of its children exactly if the node does not take an entry off an
array to store it in a target that is named after it. -/
theorem spans_nest_iff (source : String) :
    ∀ root ∈ (parse source).nodes,
      root.Everywhere fun n => n.Nested ↔ n.isCutShort = false := by
  intro root hroot
  have hsound : root.Everywhere (Node.Sound .text) :=
    everywhere_sound (Order.stream_source source) root hroot
  exact hsound.imp fun n hn => Node.nested_iff_of_placed hn.placed

/-- Where the target is named in another sentence form, all spans nest. -/
theorem spans_nest_put :
    ∃ root ∈ (parse "put roll the stack into my hand").nodes, root.Nested := by
  have hroot : ∃ root ∈ (parse "put roll the stack into my hand").nodes,
      root.isCutShort = false := by
    decide +kernel
  obtain ⟨root, hmem, hshort⟩ := hroot
  have hiff := (spans_nest_iff _ root hmem).here
  exact ⟨root, hmem, hiff.mpr hshort⟩

/-- A target that is named after the entry lies outside of its sentence. -/
theorem spans_nest_roll :
    (parse "roll x into y").failure = none ∧
      ∃ root ∈ (parse "roll x into y").nodes, ¬ root.Nested := by
  decide +kernel

end Program

end Ballad
