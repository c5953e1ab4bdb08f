import Ballad.Name
import Ballad.Number.Decimal
import Ballad.Lexeme.Basic
import Ballad.Vocabulary

/-!
# The grammar of expressions

Operands that are joined by operators, said without a reader: which lexemes are an operand, which
are an operator, and which tree a chain of both stands for.

- `Grammar.Primary`, `Grammar.Subject`, `Grammar.Term`: literals and variables, those with indices,
  and these with negations in front.
- `Grammar.Spelling`: the ways to write an operator.
- `Grammar.Chain`: terms with operators between them.
- `Node.inOrder`: the operands and the operators of a tree from left to right.
- `Node.Ranked`: a tree in which operators that bind tighter are further down, and operators that
  bind alike lean to the left.
- `Node.Ranked.eq_of_inOrder_eq`: a chain is the in-order sequence of at most one such tree.
-/

namespace Ballad

/-- An operand or an operator in a sequence of both. -/
inductive Item where
  | operand (node : Node)
  | operator (op : Operator)

namespace Node

/-- The operator of a binary operation. -/
def operator? : Node → Option Operator
  | binary _ op _ _ => some op
  | _ => none

/-- The operands and the operators of a tree from left to right. What is no binary operation is an
operand. -/
def inOrder : Node → List Item
  | binary _ op left right => left.inOrder ++ .operator op :: right.inOrder
  | n => [.operand n]

/-- Operators to the left of an operator bind at least as tightly as it does, and those to the right
of it more tightly. -/
def Ranked : Node → Prop
  | binary s op left right =>
    s = left.span.through right.span ∧
      (∀ o ∈ left.operator?, op.rank ≤ o.rank) ∧ (∀ o ∈ right.operator?, op.rank < o.rank) ∧
      left.Ranked ∧ right.Ranked
  | _ => True

/-! ### Trees of a sequence -/

variable {n : Node}

theorem inOrder_of_operator?_eq_none (h : n.operator? = none) : n.inOrder = [.operand n] := by
  cases n
  case binary s op left right => exact absurd h (Option.some_ne_none op)
  all_goals rfl

theorem ranked_of_operator?_eq_none (h : n.operator? = none) : n.Ranked := by
  cases n
  case binary s op left right => exact absurd h (Option.some_ne_none op)
  all_goals trivial

theorem inOrder_ne_nil (n : Node) : n.inOrder ≠ [] := by
  cases n <;> simp [inOrder]

/-- The operator at the root of a tree binds loosest of all. -/
theorem Ranked.le_of_mem {b : Nat} (h : n.Ranked) (hb : ∀ o ∈ n.operator?, b ≤ o.rank) :
    ∀ o, .operator o ∈ n.inOrder → b ≤ o.rank := by
  fun_induction inOrder n with
  | case1 s op left right ihleft ihright =>
    obtain ⟨-, hle, hlt, hleft, hright⟩ := h
    have hop : b ≤ op.rank := hb op rfl
    intro o ho
    rcases List.mem_append.mp ho with ho | ho
    · exact ihleft hleft (fun p hp => Nat.le_trans hop (hle p hp)) o ho
    · rcases List.mem_cons.mp ho with heq | ho
      · obtain rfl := Item.operator.inj heq
        exact hop
      · exact ihright hright (fun p hp => Nat.le_trans hop (Nat.le_of_lt (hlt p hp))) o ho
  | case2 n hn =>
    intro o ho
    exact absurd (List.mem_singleton.mp ho) Item.noConfusion

end Node

/-- Where a sequence is divided at an operator such that those in front of it bind at least as
tightly as it does, and those behind it more tightly, it is divided at the same place. -/
theorem Item.split_unique {xs ys xs' ys' : List Item} {o o' : Operator}
    (h : xs ++ .operator o :: ys = xs' ++ .operator o' :: ys')
    (hxs : ∀ p, .operator p ∈ xs → o.rank ≤ p.rank) (hys : ∀ p, .operator p ∈ ys → o.rank < p.rank)
    (hxs' : ∀ p, .operator p ∈ xs' → o'.rank ≤ p.rank)
    (hys' : ∀ p, .operator p ∈ ys' → o'.rank < p.rank) : xs = xs' ∧ o = o' ∧ ys = ys' := by
  induction xs generalizing xs' with
  | nil =>
    cases xs' with
    | nil =>
      rw [List.nil_append, List.nil_append] at h
      obtain ⟨ho, hrest⟩ := List.cons.inj h
      exact ⟨rfl, Item.operator.inj ho, hrest⟩
    | cons x xs' =>
      -- the first operator would bind both more loosely and more tightly than the second
      rw [List.nil_append, List.cons_append] at h
      obtain ⟨rfl, rfl⟩ := List.cons.inj h
      have h₁ : o'.rank ≤ o.rank := hxs' o List.mem_cons_self
      have h₂ : o.rank < o'.rank := hys o' (List.mem_append_right _ List.mem_cons_self)
      omega
  | cons x xs ih =>
    cases xs' with
    | nil =>
      rw [List.nil_append, List.cons_append] at h
      obtain ⟨rfl, rfl⟩ := List.cons.inj h
      have h₁ : o.rank ≤ o'.rank := hxs o' List.mem_cons_self
      have h₂ : o'.rank < o.rank := hys' o (List.mem_append_right _ List.mem_cons_self)
      omega
    | cons x' xs' =>
      rw [List.cons_append, List.cons_append] at h
      obtain ⟨rfl, hrest⟩ := List.cons.inj h
      obtain ⟨rfl, ho, hys⟩ := ih hrest (fun p hp => hxs p (List.mem_cons_of_mem x hp))
        (fun p hp => hxs' p (List.mem_cons_of_mem x hp))
      exact ⟨rfl, ho, hys⟩

namespace Node

/-- **A sequence has at most one ranked tree**: its root is the last of the operators that bind
loosest, and so on down. -/
theorem Ranked.eq_of_inOrder_eq {m n : Node} (hm : m.Ranked) (hn : n.Ranked)
    (h : m.inOrder = n.inOrder) : m = n := by
  fun_induction inOrder m generalizing n with
  | case1 s op left right ihleft ihright =>
    obtain ⟨rfl, hle, hlt, hleft, hright⟩ := hm
    cases hn? : n.operator? with
    | none =>
      rw [inOrder_of_operator?_eq_none hn?] at h
      have hlen := congrArg List.length h
      have hpos := List.length_pos_iff.mpr left.inOrder_ne_nil
      simp at hlen
      omega
    | some op' =>
      cases n
      case binary s' o left' right' =>
        obtain ⟨rfl, hle', hlt', hleft', hright'⟩ := hn
        obtain ⟨hl, rfl, hr⟩ := Item.split_unique h (hleft.le_of_mem hle) (hright.le_of_mem hlt)
          (hleft'.le_of_mem hle') (hright'.le_of_mem hlt')
        rw [ihleft hleft hleft' hl, ihright hright hright' hr]
      all_goals exact absurd hn? (Option.some_ne_none op').symm
  | case2 m hm' =>
    cases n
    case binary s op left right =>
      have hlen := congrArg List.length h
      have hpos := List.length_pos_iff.mpr left.inOrder_ne_nil
      rw [inOrder, List.length_append, List.length_cons] at hlen
      simp at hlen
      omega
    all_goals exact Item.operand.inj (List.cons.inj h).1

end Node

/-! ### Chains of lexemes -/

namespace Lexeme

/-- Whether a lexeme is a capitalized word that may stand in a proper noun. -/
def isProperWord (l : Lexeme) : Bool :=
  l.isCapitalized && l.word.any (!Vocabulary.isReserved ·)

/-- Whether a lexeme is a word that compares. -/
def isCopula (l : Lexeme) : Bool :=
  l.word.any Vocabulary.isCopula

end Lexeme

namespace Grammar

/-- The lexemes that mean something. -/
def significant (tokens : List Lexeme) : List Lexeme :=
  tokens.filter fun l => !l.isTrivia

/-- Capitalized words, with the name that they make up and its span. -/
inductive ProperNoun : List Lexeme → String → Span → Prop where
  | first {l : Lexeme} (hl : l.isProperWord) : ProperNoun [l] l.literal l.span
  | next {ls : List Lexeme} {name : String} {span : Span} {l : Lexeme}
      (hls : ProperNoun ls name span) (hl : l.isProperWord) :
      ProperNoun (ls ++ [l]) (name ++ " " ++ l.literal) (span.through l.span)

/-- Lexemes that are a literal, a pronoun or a variable. -/
inductive Primary : List Lexeme → Node → Prop where
  | number {l : Lexeme} {x : Number} (hl : l.kind = .number)
      (hx : Number.ofText? l.literal = some x) : Primary [l] (.literal l.span (.number x))
  | string {l : Lexeme} (hl : l.kind = .string) :
      Primary [l] (.literal l.span (.string l.literal))
  | constant {l : Lexeme} {word : String} {value : Literal} (hl : l.word = some word)
      (hv : Vocabulary.constant word = some value) : Primary [l] (.literal l.span value)
  | pronoun {l : Lexeme} {word : String} (hl : l.word = some word)
      (hp : Vocabulary.isPronoun word) : Primary [l] (.pronoun l.span word)
  /-- A variable of one word in lower case. -/
  | simple {l : Lexeme} {word : String} (hl : l.word = some word)
      (hr : Vocabulary.isReserved word = false) (hc : l.isCapitalized = false) :
      Primary [l] (.var l.span word)
  /-- A variable of an article and another word, whichever this is. -/
  | common {a l : Lexeme} {article noun : String} (ha : a.word = some article)
      (hart : Vocabulary.isArticle article) (hl : l.word = some noun) :
      Primary [a, l] (.var (a.span.through l.span) (article ++ " " ++ noun))
  | proper {ls : List Lexeme} {name : String} {span : Span} (hls : ProperNoun ls name span) :
      Primary ls (.var span (Name.normalize name))

/-- A primary and the indices after it. -/
inductive Subject : List Lexeme → Node → Prop where
  | primary {ls : List Lexeme} {n : Node} (h : Primary ls n) : Subject ls n
  | index {ls ks : List Lexeme} {l : Lexeme} {n key : Node} (hn : Subject ls n)
      (hl : l.word = some "at") (hkey : Primary ks key) :
      Subject (ls ++ l :: ks) (.index (n.span.through key.span) n key)

/-- A subject and the negations in front of it. -/
inductive Term : List Lexeme → Node → Prop where
  | subject {ls : List Lexeme} {n : Node} (h : Subject ls n) : Term ls n
  | negation {ls : List Lexeme} {l : Lexeme} {n : Node} (hl : l.word = some "not")
      (hn : Term ls n) : Term (l :: ls) (.negation (l.span.through n.span) n)

/-- The ways to write an operator. -/
inductive Spelling : List Lexeme → Operator → Prop where
  | connective {l : Lexeme} {word : String} {op : Operator} (hl : l.word = some word)
      (hop : Vocabulary.connective word = some op) : Spelling [l] op
  | copula {l : Lexeme} (hl : l.isCopula) : Spelling [l] .equal
  | negatedCopula {l : Lexeme} {word : String} (hl : l.word = some word)
      (hneg : Vocabulary.isNegatedCopula word) : Spelling [l] .notEqual
  | copulaNot {l m : Lexeme} (hl : l.isCopula) (hm : m.word = some "not") :
      Spelling [l, m] .notEqual
  /-- As in `is higher than`. -/
  | strict {l m t : Lexeme} {word : String} {op : Operator} (hl : l.isCopula)
      (hm : m.word = some word) (hop : Vocabulary.strict word = some op)
      (ht : t.word = some "than") : Spelling [l, m, t] op
  /-- As in `is as high as`. -/
  | inclusive {l a m b : Lexeme} {word : String} {op : Operator} (hl : l.isCopula)
      (ha : a.word = some "as") (hm : m.word = some word)
      (hop : Vocabulary.inclusive word = some op) (hb : b.word = some "as") :
      Spelling [l, a, m, b] op

/-- After a lone copula `not` would belong to the operator, so that no term may begin with it. -/
def Apart (os ts : List Lexeme) : Prop :=
  ∀ l m : Lexeme, os = [l] → l.isCopula → ts.head? = some m → m.word ≠ some "not"

/-- Terms with operators between them, and both in sequence. -/
inductive Chain : List Lexeme → List Item → Prop where
  | term {ls : List Lexeme} {n : Node} (hn : Term ls n) : Chain ls [.operand n]
  | next {ls os ts : List Lexeme} {items : List Item} {op : Operator} {n : Node}
      (h : Chain ls items) (hop : Spelling os op) (hn : Term ts n) (hapart : Apart os ts) :
      Chain (ls ++ (os ++ ts)) (items ++ [.operator op, .operand n])

end Grammar

end Ballad
