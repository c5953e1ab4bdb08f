import Ballad.Lexeme.Contraction
import Ballad.Proofs.Precedence.Terms
import Ballad.Proofs.Reading.Endings

/-!
# Chains are read as the grammar has them

While a chain is read, the operators whose right operand is not known yet stand inside one another,
the loosest outermost. This is the invariant of the reading (`Climbs`): along the open operators the
ranks rise, and no left operand has a looser operator at its root than the one that it belongs to. A
new operator closes all open ones that bind at least as tightly as it does and takes what they
become as its left operand.

- `Frame`: an operator and its left operand.
- `plug`, `closeAll`: a phrase inside open operators, and the tree that they become.
- `Chain.reads`: every chain is read, and the invariant holds after it.
- `Chain.read_as_ranked`: a chain and the end of the line give the one ranked tree of the chain.
-/

namespace Ballad

open Reading Reading.Phrase

namespace Grammar

/-- An operator and its left operand. -/
structure Frame where
  op : Operator
  left : Node

/-- The operator as an open construct. -/
def Frame.shell (f : Frame) : Shell :=
  .binary f.op .settled f.left

/-- A phrase inside open operators. -/
def plug (fs : List Frame) (p : Phrase) : Phrase :=
  fs.foldr (fun f q => within .value f.shell q) p

/-- What open operators become, if a node is the right operand of the last of them. -/
def closeAll (fs : List Frame) (n : Node) : Node :=
  fs.foldr (fun f m => f.shell.close m) n

/-- What stands to the left of the last right operand. -/
def leftItems (fs : List Frame) : List Item :=
  fs.flatMap fun f => f.left.inOrder ++ [.operator f.op]

/-- The open operators bind tighter from one to the next, and none binds tighter than the root of
its left operand. -/
structure Climbs (fs : List Frame) : Prop where
  rising : fs.Pairwise fun f g => f.op.rank < g.op.rank
  ranked : ∀ f ∈ fs, f.left.Ranked
  tighter : ∀ f ∈ fs, ∀ o ∈ f.left.operator?, f.op.rank ≤ o.rank

variable {b c : Nat} {fs gs : List Frame} {p q : Phrase} {ls os ts : List Lexeme} {l : Lexeme}
  {n left : Node} {op : Operator}

theorem plug_concat (fs : List Frame) (f : Frame) (p : Phrase) :
    plug (fs ++ [f]) p = plug fs (within .value f.shell p) := by
  rw [plug, List.foldr_append]
  rfl

theorem plug_append (fs gs : List Frame) (p : Phrase) : plug (fs ++ gs) p = plug fs (plug gs p) :=
  List.foldr_append

theorem rank_pos (op : Operator) : 0 < op.rank := by
  cases op <;> decide

theorem rank_le (op : Operator) : op.rank ≤ negationRank := by
  cases op <;> decide

/-! ### Open operators -/

/-- Open operators pass on what the phrase inside of them may take. -/
theorem reads_plug (h : Reads b p ls q) (hrank : ∀ f ∈ fs, f.op.rank ≤ b) :
    Reads b (plug fs p) ls (plug fs q) := by
  induction fs with
  | nil => exact h
  | cons f fs ih =>
    have hinside := ih fun g hg => hrank g (List.mem_cons_of_mem f hg)
    have hset : f.shell.isSettled := rfl
    exact hinside.within hset (hrank f List.mem_cons_self)

/-- A term is read inside of any constructs. -/
theorem reads_plug_term (h : Reads negationRank p ls q) :
    Reads negationRank (plug fs p) ls (plug fs q) :=
  reads_plug h fun f _ => rank_le f.op

/-- If the first of them binds tightly enough, what follows takes all open operators together. -/
theorem whole_plug (h : Whole .value b p n) (hcb : c ≤ b) (hc : ∀ f ∈ fs.head?, c ≤ f.op.rank) :
    Whole .value c (plug fs p) (closeAll fs n) := by
  induction fs generalizing c with
  | nil => exact h.mono hcb
  | cons f fs ih =>
    have hinside : Whole .value 0 (plug fs p) (closeAll fs n) :=
      ih (Nat.zero_le b) fun _ _ => Nat.zero_le _
    have hset : f.shell.isSettled := rfl
    exact (hinside.within hset).mono (hc f rfl)

/-- The operator of a closed expression is that of its outermost construct. -/
theorem operator?_closeAll (hn : n.operator? = none) :
    (closeAll fs n).operator? = fs.head?.map Frame.op := by
  cases fs with
  | nil => exact hn
  | cons f fs => rfl

/-- Closing keeps operands and operators in the order in which they were read. -/
theorem inOrder_closeAll (fs : List Frame) (n : Node) :
    (closeAll fs n).inOrder = leftItems fs ++ n.inOrder := by
  induction fs with
  | nil => rfl
  | cons f fs ih =>
    have hstep : (closeAll (f :: fs) n).inOrder =
        f.left.inOrder ++ .operator f.op :: (closeAll fs n).inOrder := rfl
    rw [hstep, ih]
    simp [leftItems]

/-- What open operators become is ranked: each has a tighter one to its right. -/
theorem ranked_closeAll (h : Climbs fs) (hn : n.operator? = none) : (closeAll fs n).Ranked := by
  induction fs with
  | nil => exact Node.ranked_of_operator?_eq_none hn
  | cons f fs ih =>
    obtain ⟨hfirst, hrising⟩ := List.pairwise_cons.mp h.rising
    have htail : Climbs fs := ⟨hrising, fun g hg => h.ranked g (List.mem_cons_of_mem f hg),
      fun g hg => h.tighter g (List.mem_cons_of_mem f hg)⟩
    have hright : ∀ o ∈ (closeAll fs n).operator?, f.op.rank < o.rank := by
      rw [operator?_closeAll hn]
      intro o ho
      obtain ⟨g, hg, rfl⟩ := Option.map_eq_some_iff.mp ho
      exact hfirst g (List.mem_of_head? hg)
    exact ⟨rfl, h.tighter f List.mem_cons_self, hright, h.ranked f List.mem_cons_self, ih htail⟩

/-- The parts of constructs that climb do so themselves. -/
theorem Climbs.of_append (h : Climbs (fs ++ gs)) : Climbs fs ∧ Climbs gs := by
  obtain ⟨hfs, hgs, -⟩ := List.pairwise_append.mp h.rising
  refine ⟨⟨hfs, ?_, ?_⟩, ⟨hgs, ?_, ?_⟩⟩
  · exact fun f hf => h.ranked f (List.mem_append_left gs hf)
  · exact fun f hf => h.tighter f (List.mem_append_left gs hf)
  · exact fun g hg => h.ranked g (List.mem_append_right fs hg)
  · exact fun g hg => h.tighter g (List.mem_append_right fs hg)

/-- An operator that binds stronger than all around it goes on with them. -/
theorem Climbs.concat (h : Climbs fs) (hrank : ∀ f ∈ fs, f.op.rank < op.rank)
    (hleft : left.Ranked) (htight : ∀ o ∈ left.operator?, op.rank ≤ o.rank) :
    Climbs (fs ++ [⟨op, left⟩]) := by
  refine ⟨List.pairwise_append.mpr ⟨h.rising, List.pairwise_singleton _ _, ?_⟩, ?_, ?_⟩
  · intro f hf g hg
    obtain rfl := List.mem_singleton.mp hg
    exact hrank f hf
  · intro f hf
    rcases List.mem_append.mp hf with hf | hf
    · exact h.ranked f hf
    · obtain rfl := List.mem_singleton.mp hf
      exact hleft
  · intro f hf
    rcases List.mem_append.mp hf with hf | hf
    · exact h.tighter f hf
    · obtain rfl := List.mem_singleton.mp hf
      exact htight

/-! ### Operators -/

/-- Open operators divide into those that bind looser than a rank and the rest, which begins with
one that does not. -/
theorem exists_split (fs : List Frame) (r : Nat) :
    ∃ gs hs, fs = gs ++ hs ∧ (∀ g ∈ gs, g.op.rank < r) ∧ ∀ h ∈ hs.head?, r ≤ h.op.rank := by
  refine ⟨fs.takeWhile (·.op.rank < r), fs.dropWhile (·.op.rank < r), ?_, ?_, ?_⟩
  · rw [List.takeWhile_append_dropWhile]
  · intro g hg
    have hall := List.all_eq_true.mp (List.all_takeWhile (p := (·.op.rank < r)) (l := fs)) g hg
    simpa using hall
  · intro h hh
    have hhead := List.head?_dropWhile_not (·.op.rank < r) fs
    rw [Option.mem_def.mp hh] at hhead
    simpa using hhead

/-- The lexemes of an operator are read after any whole chain. They leave it open as the last of the
open operators, with `tail` saying whether more words may belong to it, and the in-order sequence
goes on with it. -/
def Opens (os : List Lexeme) (op : Operator) (tail : Tail) : Prop :=
  ∀ (fs : List Frame) (p : Phrase) (n : Node), Climbs fs → Whole .value negationRank p n →
    n.operator? = none →
      ∃ gs left,
        Reads 0 (plug fs p) os (plug gs (within .value (.binary op tail left) (empty .value))) ∧
        Climbs (gs ++ [⟨op, left⟩]) ∧
        leftItems (gs ++ [⟨op, left⟩]) = leftItems fs ++ n.inOrder ++ [.operator op]

/-- **A new operator takes the tighter open ones as its left operand**, and the looser ones stay
around it. Its first word may begin another operator of the same rank, which the words after it
change. -/
theorem opens_of_suffix {first : Operator} {tail last : Tail}
    (hof : Suffix.of? .value l = some (.binary first tail)) (hproper : l.isProperWord = false)
    (hrank : first.rank = op.rank)
    (hrest : ∀ left, Reads negationRank (within .value (.binary first tail left) (empty .value)) ls
      (within .value (.binary op last left) (empty .value))) :
    Opens (l :: ls) op last := by
  intro fs p n hfs hwhole hn
  obtain ⟨gs, hs, rfl, hgs, hhs⟩ := exists_split fs op.rank
  obtain ⟨hcgs, hchs⟩ := hfs.of_append
  have hsuffix : ∀ s, Suffix.of? .value l = some s → s.rank = op.rank := by
    intro s hs
    obtain rfl := Option.some.inj (hof.symm.trans hs)
    exact hrank
  refine ⟨gs, closeAll hs n, ?_, ?_, ?_⟩
  · have hinner : Whole .value op.rank (plug hs p) (closeAll hs n) :=
      whole_plug hwhole (rank_le op) hhs
    have htake : (plug hs p).take l =
        .ok (.next (within .value (.binary first tail (closeAll hs n)) (empty .value))) := by
      rw [hinner.take l hproper fun s hs => Nat.le_of_eq (hsuffix s hs)]
      exact afterOperand_binary hof _
    -- one less than the rank of the operator is what all open operators around it stay below
    have hfree : Free (op.rank - 1) (plug hs p) l := by
      intro _ s hs
      have hpos := rank_pos op
      rw [hsuffix s hs]
      omega
    have hlow : ∀ g ∈ gs, g.op.rank ≤ op.rank - 1 := by
      intro g hg
      have hlt := hgs g hg
      omega
    have hfirst := (reads_plug (.single htake hfree) hlow).mono (Nat.zero_le _)
    rw [plug_append]
    exact hfirst.append ((reads_plug_term (hrest _)).mono (Nat.zero_le _))
  · refine hcgs.concat hgs (ranked_closeAll hchs hn) ?_
    rw [operator?_closeAll hn]
    intro o ho
    obtain ⟨h, hh, rfl⟩ := Option.map_eq_some_iff.mp ho
    exact hhs h hh
  · simp [leftItems, inOrder_closeAll]

/-- A word of a comparison is read as such. -/
theorem reads_refine {first : Operator} {tail tail' : Tail}
    (h : (Shell.binary first tail left).refine l = .ok (some (.binary op tail' left))) :
    Reads negationRank (within .value (.binary first tail left) (empty .value)) [l]
      (within .value (.binary op tail' left) (empty .value)) := by
  refine .single ?_ (free_of_isComplete_eq_false (Bool.and_false _))
  rw [take, h]

/-- What a word after a copula makes of it. -/
theorem refine_copula {word : String} (hl : l.word = some word) :
    (Shell.binary op .copula left).refine l =
      .ok (if word = "not" then some (.binary .notEqual .settled left)
        else if word = "as" then some (.binary op .as left)
        else (Vocabulary.strict word).map fun op => .binary op .than left) := by
  rw [Shell.refine, hl]
  split <;> simp_all

/-- Copulas begin a comparison, and are no part of a proper noun. -/
theorem of?_copula (h : l.isCopula) :
    Suffix.of? .value l = some (.binary .equal .copula) ∧ l.isProperWord = false := by
  obtain ⟨word, hword, hcop⟩ := (Option.any_eq_true _ _).mp h
  constructor
  · rw [Suffix.of?, hword]
    exact Vocabulary.ofWord?_copula hcop
  · refine not_isProperWord hword ?_
    simp [Vocabulary.isReserved, hcop]

/-- Every spelling of an operator is read as the operator. Only a lone copula leaves open whether
more words belong to it. -/
theorem Spelling.opens (h : Spelling os op) :
    Opens os op .settled ∨ Opens os op .copula ∧ ∃ l, os = [l] ∧ l.isCopula := by
  cases h with
  | @connective l word op hl hop =>
    have hof : Suffix.of? .value l = some (.binary op .settled) := by
      rw [Suffix.of?, hl]
      exact Vocabulary.ofWord?_connective hop
    have hres : Vocabulary.isReserved word := by simp [Vocabulary.isReserved, hop]
    exact .inl (opens_of_suffix hof (not_isProperWord hl hres) rfl fun _ => .nil)
  | @copula l hl =>
    obtain ⟨hof, hproper⟩ := of?_copula hl
    exact .inr ⟨opens_of_suffix hof hproper rfl fun _ => .nil, l, rfl, hl⟩
  | @negatedCopula l word hl hneg =>
    have hof : Suffix.of? .value l = some (.binary .notEqual .settled) := by
      rw [Suffix.of?, hl]
      exact Vocabulary.ofWord?_negatedCopula hneg
    have hres : Vocabulary.isReserved word := by simp [Vocabulary.isReserved, hneg]
    exact .inl (opens_of_suffix hof (not_isProperWord hl hres) rfl fun _ => .nil)
  | @copulaNot l m hl hm =>
    obtain ⟨hof, hproper⟩ := of?_copula hl
    have hrank : Operator.equal.rank = Operator.notEqual.rank := rfl
    refine .inl (opens_of_suffix hof hproper hrank fun left => reads_refine ?_)
    rw [refine_copula hm, if_pos rfl]
  | @strict l m t word op hl hm hop ht =>
    obtain ⟨hof, hproper⟩ := of?_copula hl
    refine .inl (opens_of_suffix hof hproper (Vocabulary.rank_strict hop).symm fun left => ?_)
    have hm' : (Shell.binary .equal .copula left).refine m =
        .ok (some (.binary op .than left)) := by
      obtain ⟨hnot, has⟩ := Vocabulary.ne_of_strict hop
      rw [refine_copula hm, if_neg hnot, if_neg has, hop]
      rfl
    have ht' : (Shell.binary op .than left).refine t = .ok (some (.binary op .settled left)) := by
      rw [Shell.refine, Lexeme.isWord, ht]
      rfl
    exact (reads_refine hm').append (reads_refine ht')
  | @inclusive l a m b word op hl ha hm hop hb =>
    obtain ⟨hof, hproper⟩ := of?_copula hl
    refine .inl (opens_of_suffix hof hproper (Vocabulary.rank_inclusive hop).symm fun left => ?_)
    have ha' : (Shell.binary .equal .copula left).refine a =
        .ok (some (.binary .equal .as left)) := by
      rw [refine_copula ha, if_neg (by decide), if_pos rfl]
    have hm' : (Shell.binary .equal .as left).refine m =
        .ok (some (.binary op .secondAs left)) := by
      have hword : m.word.bind Vocabulary.inclusive = some op := by rw [hm]; exact hop
      rw [Shell.refine, hword]
    have hb' : (Shell.binary op .secondAs left).refine b =
        .ok (some (.binary op .settled left)) := by
      rw [Shell.refine, Lexeme.isWord, hb]
      rfl
    exact (reads_refine ha').append ((reads_refine hm').append (reads_refine hb'))

/-- After a copula, what does not go on with the comparison settles it. -/
theorem take_copula (h : Begins l) :
    (within .value (.binary op .copula left) p).take l =
      (within .value (.binary op .settled left) p).take l := by
  have hrefine : (Shell.binary op .copula left).refine l = .ok none := by
    cases hl : l.word with
    | none => rw [Shell.refine, hl]
    | some word =>
      have hword : Vocabulary.refines word = false := h word hl
      simp only [Vocabulary.refines, Bool.or_eq_false_iff, beq_eq_false_iff_ne,
        Option.isSome_eq_false_iff, Option.isNone_iff_eq_none] at hword
      obtain ⟨⟨hnot, has⟩, hstrict⟩ := hword
      rw [refine_copula hl, if_neg hnot, if_neg has, hstrict]
      rfl
  rw [take, hrefine, take, refine_of_isSettled rfl]
  rfl

/-- A term is read as the right operand of an operator. -/
theorem Term.reads_after {tail : Tail} (h : Term ts n)
    (htail : tail = .settled ∨ tail = .copula ∧ ∀ m ∈ ts.head?, m.word ≠ some "not") :
    ∃ q, Reads negationRank (within .value (.binary op tail left) (empty .value)) ts
        (within .value (.binary op .settled left) q) ∧ Whole .value negationRank q n := by
  obtain ⟨q, hreads, hwhole⟩ := h.reads
  have hset : (Shell.binary op .settled left).isSettled := rfl
  have hsettled := hreads.within hset (rank_le op)
  refine ⟨q, ?_, hwhole⟩
  rcases htail with rfl | ⟨rfl, hnot⟩
  · exact hsettled
  · obtain ⟨l, rest, rfl, hl⟩ := h.begins
    have hbegins : Begins l := hl.resolve_left (hnot l rfl)
    cases hsettled with
    | cons htake hfree hrest =>
      refine .cons ?_ (free_of_isComplete_eq_false (Bool.and_false _)) hrest
      rw [take_copula hbegins, htake]

/-! ### Chains -/

theorem Apart.tail {l : Lexeme} (h : Apart os ts) (hos : os = [l]) (hl : l.isCopula) :
    ∀ m ∈ ts.head?, m.word ≠ some "not" :=
  fun m hm => h l m hos hl hm

/-- **Every chain is read**, and what has been read of it is its last term inside the open
operators. The induction follows the reading: an operator and a term at a time. -/
theorem Chain.reads {items : List Item} (h : Chain ls items) :
    ∃ fs p n, Reads 0 (empty .value) ls (plug fs p) ∧ Whole .value negationRank p n ∧
      n.operator? = none ∧ Climbs fs ∧ leftItems fs ++ n.inOrder = items := by
  induction h with
  | @term ls n hn =>
    obtain ⟨q, hreads, hwhole⟩ := hn.reads
    have hclimbs : Climbs [] := ⟨.nil, fun _ hf => absurd hf List.not_mem_nil,
      fun _ hf => absurd hf List.not_mem_nil⟩
    exact ⟨[], q, n, hreads.mono (Nat.zero_le _), hwhole, hn.operator?_eq_none, hclimbs,
      Node.inOrder_of_operator?_eq_none hn.operator?_eq_none⟩
  | @next ls os ts items op n _ hop hn hapart ih =>
    obtain ⟨fs, p, m, hreads, hwhole, hm, hfs, rfl⟩ := ih
    have hnone := hn.operator?_eq_none
    have hopens : ∃ tail, Opens os op tail ∧
        (tail = .settled ∨ tail = .copula ∧ ∀ m ∈ ts.head?, m.word ≠ some "not") := by
      rcases hop.opens with h | ⟨h, l, hos, hl⟩
      · exact ⟨.settled, h, .inl rfl⟩
      · exact ⟨.copula, h, .inr ⟨rfl, hapart.tail hos hl⟩⟩
    obtain ⟨tail, hopens, htail⟩ := hopens
    obtain ⟨gs, left, hos, hgs, hitems⟩ := hopens fs p m hfs hwhole hm
    obtain ⟨q, hts, hq⟩ := hn.reads_after htail
    refine ⟨gs ++ [⟨op, left⟩], q, n, ?_, hq, hnone, hgs, ?_⟩
    · rw [plug_concat]
      exact hreads.append (hos.append ((reads_plug_term hts).mono (Nat.zero_le _)))
    · rw [hitems, Node.inOrder_of_operator?_eq_none hnone]
      simp

end Grammar

namespace Reading.Phrase

/-- Trivia between the lexemes of a phrase is passed over. -/
theorem Reads.readAll {b : Nat} {q : Phrase} {tokens : List Lexeme} (rest : List Lexeme) :
    ∀ {p : Phrase}, Reads b p (tokens.filter fun l => !l.isTrivia) q →
      Reading.readAll push p (tokens ++ rest) = Reading.readAll push q rest := by
  induction tokens with
  | nil =>
    intro p h
    cases h
    rfl
  | cons l tokens ih =>
    intro p h
    rw [List.cons_append, Reading.readAll, push]
    by_cases hl : l.isTrivia
    · rw [List.filter_cons_of_neg (by simp [hl])] at h
      rw [if_pos hl]
      exact ih h
    · rw [List.filter_cons_of_pos (by simp [hl])] at h
      rw [if_neg hl]
      cases h with
      | cons htake _ hrest =>
        rw [htake]
        exact ih hrest

end Reading.Phrase

namespace Grammar

/-- **Precedence climbing follows the grammar.** The lexemes of a chain and the end of the line,
with any trivia between them, make a new phrase end in front of the end of the line. Its node is
ranked and has the chain as its in-order sequence, and is the only such node. -/
theorem chain_read_as_ranked {tokens : List Lexeme} {items : List Item} {stop : Lexeme}
    (h : Chain (tokens.filter fun l => !l.isTrivia) items) (hstop : stop.isNewline) :
    ∃ n : Node, readAll Phrase.push (empty .value) (tokens ++ [stop]) = .ok (.yield (n, []) stop) ∧
      n.Ranked ∧ n.inOrder = items ∧ ∀ m : Node, m.Ranked → m.inOrder = items → m = n := by
  obtain ⟨fs, p, n, hreads, hwhole, hn, hfs, rfl⟩ := h.reads
  have hranked : (closeAll fs n).Ranked := ranked_closeAll hfs hn
  have hitems := inOrder_closeAll fs n
  refine ⟨closeAll fs n, ?_, hranked, hitems, ?_⟩
  · have hkind : stop.kind ≠ .identifier ∧ stop.isTrivia = false := by
      rcases (Bool.or_eq_true _ _).mp hstop with hk | hk
      · simp [Lexeme.isTrivia, beq_iff_eq.mp hk]
      · simp [Lexeme.isTrivia, beq_iff_eq.mp hk]
    have hword : stop.word = none := by rw [Lexeme.word, if_neg hkind.1]
    have hof : Suffix.of? .value stop = none := by rw [Suffix.of?, hword]; rfl
    have hproper : stop.isProperWord = false := by rw [Lexeme.isProperWord, hword]; simp
    have hall : Whole .value 0 (plug fs p) (closeAll fs n) :=
      whole_plug hwhole (Nat.zero_le _) fun _ _ => Nat.zero_le _
    have htake : (plug fs p).take stop = .ok (.yield (closeAll fs n) stop) := by
      rw [hall.take stop hproper (by simp [hof])]
      exact afterOperand_of_none hof .value _
    rw [hreads.readAll]
    refine readAll_cons_yield ?_ []
    rw [push, hkind.2]
    exact htake
  · intro m hm hmitems
    exact hm.eq_of_inOrder_eq hranked (hmitems.trans hitems.symm)

/-- A word in the first line, in lower case. -/
def wordInFirstLine (text : String) (start : Nat) : Lexeme :=
  ⟨.identifier, text, none, ⟨⟨1, start⟩, ⟨1, start + text.length⟩⟩⟩

/-- A connective, a negation and a comparison of three words, with blanks between them. -/
theorem chain_read_as_ranked_line : ∃ (items : List Item) (n : Node) (stop : Lexeme),
    items.length = 5 ∧
      readAll Phrase.push (empty .value) (Lexeme.lex "x or not y is higher than nothing\n") =
        .ok (.yield (n, []) stop) ∧
      n.Ranked ∧ n.inOrder = items ∧ ∀ m : Node, m.Ranked → m.inOrder = items → m = n := by
  have hlex : Lexeme.lex "x or not y is higher than nothing\n" =
      (Lexeme.lex "x or not y is higher than nothing\n").dropLast ++
        [⟨.newline, "\n", none, ⟨⟨1, 33⟩, ⟨2, 0⟩⟩⟩] := by
    decide +kernel
  have hwords : ((Lexeme.lex "x or not y is higher than nothing\n").dropLast.filter
      fun l => !l.isTrivia) =
      [wordInFirstLine "x" 0, wordInFirstLine "or" 2, wordInFirstLine "not" 5,
        wordInFirstLine "y" 9, wordInFirstLine "is" 11, wordInFirstLine "higher" 14,
        wordInFirstLine "than" 21, wordInFirstLine "nothing" 26] := by
    decide +kernel
  have hx : Term [wordInFirstLine "x" 0] _ :=
    .subject (.primary (.simple rfl (by decide) (by decide)))
  have hy : Term [wordInFirstLine "not" 5, wordInFirstLine "y" 9] _ :=
    .negation rfl (.subject (.primary (.simple rfl (by decide) (by decide))))
  have hnothing : Term [wordInFirstLine "nothing" 26] _ :=
    .subject (.primary (.constant rfl rfl))
  have hor : Spelling [wordInFirstLine "or" 2] .or := .connective rfl rfl
  have his : Spelling [wordInFirstLine "is" 11, wordInFirstLine "higher" 14,
      wordInFirstLine "than" 21] .greater :=
    .strict (by decide) rfl rfl rfl
  have hapart : Apart [wordInFirstLine "or" 2]
      [wordInFirstLine "not" 5, wordInFirstLine "y" 9] := by
    rintro l m hl hcopula
    obtain rfl := (List.cons.inj hl).1
    exact absurd hcopula (by decide)
  have hapart' : Apart [wordInFirstLine "is" 11, wordInFirstLine "higher" 14,
      wordInFirstLine "than" 21] [wordInFirstLine "nothing" 26] := by
    rintro l m hl
    exact absurd (List.cons.inj hl).2 (List.cons_ne_nil _ _)
  have hchain := ((Chain.term hx).next hor hy hapart).next his hnothing hapart'
  simp only [List.cons_append, List.nil_append] at hchain
  rw [← hwords] at hchain
  obtain ⟨n, hpush, hranked, hitems, hunique⟩ := chain_read_as_ranked hchain
    (show Lexeme.isNewline ⟨.newline, "\n", none, ⟨⟨1, 33⟩, ⟨2, 0⟩⟩⟩ by decide)
  rw [← hlex] at hpush
  exact ⟨_, n, _, rfl, hpush, hranked, hitems, hunique⟩

end Grammar

end Ballad
