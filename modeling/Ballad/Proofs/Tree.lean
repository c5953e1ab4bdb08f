import Ballad.Node

/-!
# Properties of whole trees

- `Node.children`: the nodes right below a node.
- `Node.Everywhere`: what holds at a node and at every node below it. `Node.all` decides it.
- `Node.isOperand`, `Node.isAtom`: the nodes that may stand as an operand, and those of them that
  may stand as a key. `Node.isPath`: the atoms and their entries, at any depth.
- `Node.Formed`: the shape of one node, said of the node and its children only. With `Everywhere` it
  is the shape of a whole tree.
- `Node.Spelled`: what holds of the names in one node.
- `Node.Expression`: the trees that have a value, all the way down. `Node.isControl`: the statements
  that have other parts than expressions, or decide what is executed next.
-/

namespace Ballad

namespace Node

/-- The nodes right below a node, in the order of the constructor. -/
def children : Node → List Node
  | literal .. | var .. | pronoun .. | breakLoop _ | continueLoop _ | otherwise _ | blank _ => []
  | index _ target key => [target, key]
  | list _ items => items
  | binary _ _ left right => [left, right]
  | negation _ x | pop _ x | output _ x | giveBack _ x | round _ x _ => [x]
  | call _ callee arguments => callee :: arguments
  | assign _ target value => [target, value]
  | input _ target => target.toList
  | push _ target values => target :: values
  | change _ _ source into argument => source :: (into.toList ++ argument.toList)
  | conditional _ condition body other => condition :: (body ++ other)
  | loop _ condition body _ => condition :: body
  | function _ _ _ body => body

/-- A property holds at a node and at every node below it. -/
inductive Everywhere (P : Node → Prop) : Node → Prop where
  | intro {n : Node} (here : P n) (below : ∀ c ∈ n.children, Everywhere P c) : Everywhere P n

/-- Something holds everywhere in a tree if it does at the top and everywhere below. -/
theorem everywhere_iff {P : Node → Prop} {n : Node} :
    n.Everywhere P ↔ P n ∧ ∀ c ∈ n.children, c.Everywhere P := by
  constructor
  · rintro ⟨here, below⟩
    exact ⟨here, below⟩
  · rintro ⟨here, below⟩
    exact ⟨here, below⟩

theorem Everywhere.here {P : Node → Prop} {n : Node} (h : n.Everywhere P) : P n :=
  (everywhere_iff.mp h).1

theorem Everywhere.imp {P Q : Node → Prop} (hPQ : ∀ n, P n → Q n) {n : Node}
    (h : n.Everywhere P) : n.Everywhere Q := by
  induction h with
  | intro here _ ih => exact ⟨hPQ _ here, ih⟩

theorem Everywhere.and {P Q : Node → Prop} {n : Node} (hP : n.Everywhere P) (hQ : n.Everywhere Q) :
    n.Everywhere fun m => P m ∧ Q m := by
  induction hP with
  | intro here _ ih =>
    obtain ⟨here', below'⟩ := hQ
    exact ⟨⟨here, here'⟩, fun c hc => ih c hc (below' c hc)⟩

/-- What holds everywhere in a tree holds everywhere in each of the trees below. -/
theorem Everywhere.nested {P : Node → Prop} {n : Node} (h : n.Everywhere P) :
    n.Everywhere fun m => m.Everywhere P := by
  induction h with
  | intro here below ih => exact ⟨⟨here, below⟩, ih⟩

/-! ### Testing whole trees -/

mutual

/-- Whether a test succeeds at a node and at every node below it. -/
def all (p : Node → Bool) : Node → Bool
  | n@(literal ..) | n@(var ..) | n@(pronoun ..) | n@(breakLoop _) | n@(continueLoop _)
  | n@(otherwise _) | n@(blank _) => p n
  | n@(index _ x y) | n@(binary _ _ x y) | n@(assign _ x y) => p n && x.all p && y.all p
  | n@(negation _ x) | n@(pop _ x) | n@(output _ x) | n@(giveBack _ x) | n@(round _ x _) =>
    p n && x.all p
  | n@(list _ xs) | n@(function _ _ _ xs) => p n && allIn p xs
  | n@(call _ x xs) | n@(push _ x xs) | n@(loop _ x xs _) => p n && x.all p && allIn p xs
  | n@(input _ x) => p n && allIf p x
  | n@(change _ _ x y z) => p n && x.all p && allIf p y && allIf p z
  | n@(conditional _ x xs ys) => p n && x.all p && allIn p xs && allIn p ys

/-- Whether a test succeeds everywhere in some trees. -/
def allIn (p : Node → Bool) : List Node → Bool
  | [] => true
  | n :: ns => n.all p && allIn p ns

/-- Whether a test succeeds everywhere in a tree, if there is one. -/
def allIf (p : Node → Bool) : Option Node → Bool
  | none => true
  | some n => n.all p

end

theorem allIn_eq (p : Node → Bool) (nodes : List Node) : allIn p nodes = nodes.all (all p) := by
  induction nodes with
  | nil => rfl
  | cons n ns ih => rw [allIn, ih, List.all_cons]

theorem allIf_eq (p : Node → Bool) (node : Option Node) :
    allIf p node = node.toList.all (all p) := by
  cases node with
  | none => rfl
  | some n => simp [allIf]

/-- A check of a whole tree looks at the top and then below. -/
theorem all_eq (p : Node → Bool) (n : Node) : n.all p = (p n && n.children.all (all p)) := by
  cases n <;> simp [all, children, allIn_eq, allIf_eq, Bool.and_assoc]

/-- What stands right below a node is smaller. -/
theorem sizeOf_lt_of_mem_children {n c : Node} (h : c ∈ n.children) : sizeOf c < sizeOf n := by
  have hlist : ∀ {nodes : List Node}, c ∈ nodes → sizeOf c < sizeOf nodes := List.sizeOf_lt_of_mem
  have hoption : ∀ {node : Option Node}, c ∈ node → sizeOf c < sizeOf node := by
    rintro _ rfl
    simp
  cases n <;> simp [children] at h <;> grind

/-- **What is checked of a whole tree holds everywhere in it.** -/
theorem all_iff {p : Node → Bool} (n : Node) : n.all p ↔ n.Everywhere fun m => p m := by
  rw [everywhere_iff, all_eq, Bool.and_eq_true, List.all_eq_true]
  exact and_congr_right' (forall_congr' fun c => forall_congr' fun hc => all_iff c)
termination_by sizeOf n
decreasing_by exact sizeOf_lt_of_mem_children hc

instance {P : Node → Prop} [DecidablePred P] (n : Node) : Decidable (n.Everywhere P) :=
  decidable_of_iff (n.all fun m => decide (P m)) (by simp [all_iff])

/-! ### Shapes -/

/-- Whether a node stands for itself: a literal, a variable or a pronoun. -/
def isAtom : Node → Bool
  | literal .. | var .. | pronoun .. => true
  | _ => false

/-- Whether a node is a variable or a pronoun. -/
def isName : Node → Bool
  | var .. | pronoun .. => true
  | _ => false

/-- Whether a node is a value that is not a list. -/
def isOperand : Node → Bool
  | list .. => false
  | n => n.isValue

/-- Whether a node is a variable. -/
def isVariable : Node → Bool
  | var .. => true
  | _ => false

/-- Whether a node is an atom, or the entry of such a node under a key that is one. -/
def isPath : Node → Bool
  | index _ target key => target.isPath && key.isAtom
  | n => n.isAtom

theorem isOperand_of_isLocation {n : Node} (h : n.isLocation) : n.isOperand := by
  cases n <;> first | rfl | exact absurd h (by simp [isLocation])

theorem isOperand_of_isAtom {n : Node} (h : n.isAtom) : n.isOperand := by
  cases n <;> first | rfl | exact absurd h (by simp [isAtom])

theorem isOperand_of_isPath {n : Node} (h : n.isPath) : n.isOperand := by
  cases n <;> first | rfl | exact absurd h (by simp [isPath, isAtom])

theorem isPath_of_isAtom {n : Node} (h : n.isAtom) : n.isPath := by
  cases n <;> first | rfl | exact absurd h (by simp [isAtom])

/-- The shape of a node. Lists, lone `else` lines and empty lines have none. -/
def Formed : Node → Prop
  | literal .. | var .. | pronoun .. | breakLoop _ | continueLoop _ => True
  | list .. | otherwise _ | blank _ => False
  | index _ target key => target.isOperand ∧ key.isAtom
  | binary _ _ left right => left.isOperand ∧ right.isOperand
  | negation _ x | output _ x | giveBack _ x => x.isOperand
  | call _ callee arguments =>
    callee.isVariable ∧ arguments ≠ [] ∧ ∀ x ∈ arguments, x.isOperand
  | pop _ target | round _ target _ => target.isLocation
  | assign _ target value => target.isLocation ∧ value.isOperand
  | input _ target => ∀ x ∈ target, x.isLocation
  | push _ target values => target.isLocation ∧ ∀ x ∈ values, x.isOperand
  | change _ _ source into argument =>
    source.isOperand ∧ (into = none → source.isLocation) ∧ (∀ x ∈ into, x.isLocation) ∧
      ∀ x ∈ argument, x.isOperand
  | conditional _ condition _ _ | loop _ condition _ _ => condition.isOperand
  | function _ _ parameters _ => parameters ≠ []

/-- The names in a node are not empty. -/
def Named : Node → Prop
  | var _ name | function _ name _ _ => name ≠ ""
  | _ => True

/-- Every name in a node, of a variable, a function or a parameter, has a property. -/
def Spelled (P : String → Prop) : Node → Prop
  | var _ name => P name
  | function _ name parameters _ => P name ∧ ∀ p ∈ parameters, P p
  | _ => True

theorem Spelled.imp {P Q : String → Prop} (hPQ : ∀ name, P name → Q name) {n : Node}
    (h : n.Spelled P) : n.Spelled Q := by
  cases n with
  | var span name => exact hPQ name h
  | function span name parameters body => exact ⟨hPQ name h.1, fun p hp => hPQ p (h.2 p hp)⟩
  | _ => trivial

theorem Spelled.named {n : Node} (h : n.Spelled (· ≠ "")) : n.Named := by
  cases n with
  | var span name => exact h
  | function span name parameters body => exact h.1
  | _ => trivial

/-- The source of a change is read off the store as it is. -/
def Direct : Node → Prop
  | change _ _ source _ _ => source.isPath
  | _ => True

/-! ### Expressions -/

/-- A well-formed tree that has a value. -/
structure Expression (n : Node) : Prop where
  isOperand : n.isOperand
  formed : n.Everywhere Formed

theorem isOperand_of_isVariable {n : Node} (h : n.isVariable) : n.isOperand := by
  cases n <;> first | rfl | exact absurd h (by simp [isVariable])

theorem isValue_of_isOperand {n : Node} (h : n.isOperand) : n.isValue := by
  cases n <;> first | exact h | rfl

/-- A well-formed tree that has a value is not a list. -/
theorem expression_of_isValue {n : Node} (h : n.Everywhere Formed) (hvalue : n.isValue) :
    n.Expression := by
  refine ⟨?_, h⟩
  cases n with
  | list span items => exact h.here.elim
  | _ => exact hvalue

/-- What stands below an expression is an expression. -/
theorem Expression.below {n : Node} (h : n.Expression) : ∀ c ∈ n.children, c.Expression := by
  intro c hc
  refine ⟨?_, (everywhere_iff.mp h.formed).2 c hc⟩
  have hhere := h.formed.here
  have hoperand := h.isOperand
  cases n with
  | literal | var | pronoun => exact absurd hc List.not_mem_nil
  | index span target key =>
    rcases List.mem_cons.mp hc with rfl | hc
    · exact hhere.1
    · cases List.mem_singleton.mp hc
      exact isOperand_of_isAtom hhere.2
  | binary span op left right =>
    rcases List.mem_cons.mp hc with rfl | hc
    · exact hhere.1
    · cases List.mem_singleton.mp hc
      exact hhere.2
  | negation span operand =>
    cases List.mem_singleton.mp hc
    exact hhere
  | call span callee arguments =>
    rcases List.mem_cons.mp hc with rfl | hc
    · exact isOperand_of_isVariable hhere.1
    · exact hhere.2.2 c hc
  | pop span target =>
    cases List.mem_singleton.mp hc
    exact isOperand_of_isLocation hhere
  | _ => exact absurd hoperand Bool.false_ne_true

/-- There are no statements in an expression. -/
theorem Expression.everywhere_isValue {n : Node} (h : n.Expression) :
    n.Everywhere fun m => m.isValue := by
  obtain ⟨hoperand, hformed⟩ := h
  induction hformed with
  | @intro n here below ih =>
    refine ⟨isValue_of_isOperand hoperand, fun c hc => ih c hc ?_⟩
    exact (Expression.below ⟨hoperand, here, below⟩ c hc).isOperand

/-- What holds of the two places that a change may store its value in. -/
theorem getD_of_forall {P : Node → Prop} {source : Node} {into : Option Node} (hsource : P source)
    (hinto : ∀ x ∈ into, P x) : P (into.getD source) := by
  cases into with
  | none => exact hsource
  | some x => exact hinto x rfl

/-- Whether a statement decides what is executed next, or declares a function. -/
def isControl : Node → Bool
  | conditional .. | loop .. | function .. | giveBack .. | breakLoop _ | continueLoop _ => true
  | _ => false

/-- The parts of a statement that is not for control are expressions. -/
theorem expression_of_mem_children {n : Node} (h : n.Everywhere Formed)
    (hcontrol : n.isControl = false) : ∀ c ∈ n.children, c.Expression := by
  intro c hc
  have hformed : c.Everywhere Formed := (everywhere_iff.mp h).2 c hc
  have hhere := h.here
  cases n with
  | assign span target value =>
    rcases List.mem_cons.mp hc with rfl | hc
    · exact ⟨isOperand_of_isLocation hhere.1, hformed⟩
    · cases List.mem_singleton.mp hc
      exact ⟨hhere.2, hformed⟩
  | input span target =>
    exact ⟨isOperand_of_isLocation (hhere c (Option.mem_toList.mp hc)), hformed⟩
  | output span value =>
    cases List.mem_singleton.mp hc
    exact ⟨hhere, hformed⟩
  | push span target values =>
    rcases List.mem_cons.mp hc with rfl | hc
    · exact ⟨isOperand_of_isLocation hhere.1, hformed⟩
    · exact ⟨hhere.2 c hc, hformed⟩
  | change span kind source into argument =>
    obtain ⟨hsource, -, hinto, hargument⟩ := hhere
    rcases List.mem_cons.mp hc with rfl | hc
    · exact ⟨hsource, hformed⟩
    · rcases List.mem_append.mp hc with hc | hc
      · exact ⟨isOperand_of_isLocation (hinto c (Option.mem_toList.mp hc)), hformed⟩
      · exact ⟨hargument c (Option.mem_toList.mp hc), hformed⟩
  | round span target mode =>
    cases List.mem_singleton.mp hc
    exact ⟨isOperand_of_isLocation hhere, hformed⟩
  | conditional | loop | function | giveBack | breakLoop | continueLoop => cases hcontrol
  | list | otherwise | blank => exact hhere.elim
  | _ => exact Expression.below ⟨rfl, h⟩ c hc

end Node

end Ballad
