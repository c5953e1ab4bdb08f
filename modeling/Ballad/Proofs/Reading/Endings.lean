import Ballad.Reading.Listing
import Ballad.Reading.Statement

/-!
# How constructs end

Phrases and lists end before a lexeme and hand this lexeme back, never another one. So a construct
around them never finds one that has ended with its lexeme, a call is always closed with a list, and
the arms that readers have for anything else are never taken.

- `Phrase.take_cases`, `Phrase.push_cases`, `Phrase.feed_cases`: what a lexeme can do to a phrase.
- `Phrase.pushItem_cases`, `Listing.push_cases`: a list ends with a list.
- `Phrase.finish_call`, `Phrase.take_call`: what this means for calls, which need no error for
  anything but a list.
- `Phrase.finish_of_isVariable`: what is declared as a function is a variable.
- `readAll`: what several lexemes do to any construct.
-/

namespace Ballad

/-- A mapped result is there exactly if there is a result to map. -/
theorem map_eq_ok {ε α β : Type} {f : α → β} {x : Except ε α} {y : β} :
    x.map f = .ok y ↔ ∃ a, x = .ok a ∧ f a = y := by
  cases x <;> simp [Except.map]

/-- Two steps give a result exactly if each of them does. -/
theorem bind_eq_ok {ε α β : Type} {f : α → Except ε β} {x : Except ε α} {y : β} :
    x.bind f = .ok y ↔ ∃ a, x = .ok a ∧ f a = .ok y := by
  cases x <;> simp [Except.bind]

namespace Reading

/-- What does not hand its lexeme back goes on, or has ended with the lexeme. -/
theorem Absorbs.cases {σ α : Type} {x : Except ParseError (Step σ α)} {s : Step σ α}
    (h : Absorbs x) (hs : x = .ok s) : (∃ state, s = .next state) ∨ ∃ result, s = .done result := by
  cases s with
  | next state => exact .inl ⟨state, rfl⟩
  | done result => exact .inr ⟨result, rfl⟩
  | yield result l => exact absurd hs (h result l)

/-- The node of a call with its arguments. -/
def callNode (callee : Node) (arguments : List Node) : Node :=
  .call (callee.span.through (Node.spanOf arguments)) callee arguments

namespace Phrase

variable {mode : Mode} {p current : Phrase} {l : Lexeme} {callee : Node} {ns : List Node}
  {delimited : Bool} {stop : Span}

/-! ### Lists -/

/-- **A call is finished as a call**: the list of its arguments is a list. -/
theorem finish_call (mode : Mode) (callee : Node) (ns : List Node) (delimited : Bool)
    (current : Phrase) (stop : Span) :
    (call mode callee ns delimited current).finish stop =
      if current.isEmpty && !ns.isEmpty then .error (.unfinished .list stop)
      else (current.finish stop).map fun n => callNode callee (ns ++ [n]) := by
  rw [finish, finishItems]
  split
  · rfl
  · cases current.finish stop with
    | error e => rfl
    | ok n => rfl

/-- What a lexeme does to the items of a list whose current item ends before lexemes only: a list that
goes on, or one that ends before the lexeme with the current item as its last one. -/
theorem pushItem_cases {inner : Except ParseError (Step Phrase Node)}
    {s : Step (List Node × Bool × Phrase) Node}
    (hinner : ∀ t, inner = .ok t → (∃ q, t = .next q) ∨ ∃ n, t = .yield n l)
    (h : pushItem l ns delimited current inner = .ok s) :
    (∃ state, s = .next state) ∨
      ∃ n, separates delimited current l = false ∧ inner = .ok (.yield n l) ∧
        s = .yield (listNode (ns ++ [n])) l := by
  unfold pushItem at h
  split at h
  · refine .inl ?_
    split at h
    · obtain ⟨item, -, rfl⟩ := map_eq_ok.mp h
      exact ⟨_, rfl⟩
    · split at h
      · exact ⟨_, (Except.ok.inj h).symm⟩
      · cases h
  · rename_i hseparates
    obtain ⟨t, ht, rfl⟩ := map_eq_ok.mp h
    rcases hinner t ht with ⟨q, rfl⟩ | ⟨n, rfl⟩
    · exact .inl ⟨_, rfl⟩
    · exact .inr ⟨n, Bool.eq_false_iff.mpr hseparates, ht, rfl⟩

/-! ### Phrases -/

theorem afterOperand_cases {n : Node} {s : Step Phrase Node} (h : afterOperand mode n l = .ok s) :
    (∃ q, s = .next q) ∨ s = .yield n l := by
  unfold afterOperand at h
  split at h
  · exact .inr (Except.ok.inj h).symm
  · exact .inl ⟨_, (Except.ok.inj h).symm⟩
  · exact .inl ⟨_, (Except.ok.inj h).symm⟩
  · split at h
    · exact .inl ⟨_, (Except.ok.inj h).symm⟩
    · cases h

/-- **A phrase ends before a lexeme**, which it hands back. The induction is on the chain of open
constructs: what the last part of a construct hands back is read by the construct around it, as what
follows an operand. -/
theorem take_cases {s : Step Phrase Node} (h : p.take l = .ok s) :
    (∃ q, s = .next q) ∨ ∃ n, s = .yield n l := by
  have hafter : ∀ {mode : Mode} {n : Node} {s : Step Phrase Node}, afterOperand mode n l = .ok s →
      (∃ q, s = .next q) ∨ ∃ n, s = .yield n l :=
    fun h => (afterOperand_cases h).imp_right fun hs => ⟨_, hs⟩
  induction p generalizing s with
  | empty mode =>
    obtain ⟨q, -, rfl⟩ := map_eq_ok.mp h
    exact .inl ⟨q, rfl⟩
  | article mode word =>
    rw [take] at h
    split at h
    · exact .inl ⟨_, (Except.ok.inj h).symm⟩
    · cases h
  | proper mode name span =>
    rw [take] at h
    split at h
    · exact .inl ⟨_, (Except.ok.inj h).symm⟩
    · exact hafter h
  | operand mode node => exact hafter h
  | within mode shell child ih =>
    rw [take] at h
    split at h
    · cases h
    · exact .inl ⟨_, (Except.ok.inj h).symm⟩
    · dsimp only at h
      split at h
      · obtain ⟨n, -, hnext⟩ := bind_eq_ok.mp h
        exact hafter hnext
      · obtain ⟨t, ht, hnext⟩ := bind_eq_ok.mp h
        rcases ih ht with ⟨q, rfl⟩ | ⟨n, rfl⟩
        · exact .inl ⟨_, (Except.ok.inj hnext).symm⟩
        · exact hafter hnext
  | call mode callee ns delimited current ih =>
    rw [take] at h
    split at h
    · obtain ⟨list, -, hnext⟩ := bind_eq_ok.mp h
      obtain ⟨n, -, hnext⟩ := bind_eq_ok.mp hnext
      exact hafter hnext
    · obtain ⟨t, ht, hnext⟩ := bind_eq_ok.mp h
      rcases pushItem_cases (fun t => ih) ht with ⟨state, rfl⟩ | ⟨n, -, -, rfl⟩
      · exact .inl ⟨_, (Except.ok.inj hnext).symm⟩
      · obtain ⟨n, -, hnext⟩ := bind_eq_ok.mp hnext
        exact hafter hnext

/-- Only blanks and comments are passed over. -/
theorem push_eq_take (h : l.isTrivia = false) : p.push l = p.take l :=
  if_neg (by simp [h])

theorem push_cases {s : Step Phrase Node} (h : p.push l = .ok s) :
    (∃ q, s = .next q) ∨ ∃ n, s = .yield n l := by
  unfold push at h
  split at h
  · exact .inl ⟨p, (Except.ok.inj h).symm⟩
  · exact take_cases h

/-- What a construct learns of a phrase in it is what the lexeme does to the phrase. -/
theorem feed_cases {fed : Fed} (h : p.feed l = .ok fed) :
    (∃ q, p.push l = .ok (.next q) ∧ fed = .pending q) ∨
      ∃ n, p.push l = .ok (.yield n l) ∧ fed = .finished n l := by
  obtain ⟨s, hs, rfl⟩ := map_eq_ok.mp h
  rcases push_cases hs with ⟨q, rfl⟩ | ⟨n, rfl⟩
  · exact .inl ⟨q, hs, rfl⟩
  · exact .inr ⟨n, hs, rfl⟩

theorem feed_of_next {q : Phrase} (h : p.push l = .ok (.next q)) : p.feed l = .ok (.pending q) := by
  rw [feed, h]
  rfl

theorem feed_of_yield {n : Node} {l' : Lexeme} (h : p.push l = .ok (.yield n l')) :
    p.feed l = .ok (.finished n l') := by
  rw [feed, h]
  rfl

theorem feed_of_error {e : ParseError} (h : p.push l = .error e) : p.feed l = .error e := by
  rw [feed, h]
  rfl

/-- **A call reads on as a call**: what a lexeme does to its list of arguments, without anything that is
done with what is no list. -/
theorem take_call (mode : Mode) (callee : Node) (ns : List Node) (delimited : Bool)
    (current : Phrase) (l : Lexeme) :
    (call mode callee ns delimited current).take l =
      if folds mode suffixRank current l && !separates delimited current l then
        ((call mode callee ns delimited current).finish l.span).bind (afterOperand mode · l)
      else if separates delimited current l then
        (pushItem l ns delimited current (current.take l)).map fun
          | .next (ns, delimited, current) => .next (call mode callee ns delimited current)
          | .done n => .done n
          | .yield n l => .yield n l
      else (current.take l).bind fun
        | .next current => .ok (.next (call mode callee ns delimited current))
        | .done n => .ok (.done n)
        | .yield n l => afterOperand mode (callNode callee (ns ++ [n])) l := by
  rw [take, finish]
  split
  · cases finishItems l.span ns current (current.finish l.span) with
    | error e => rfl
    | ok list => rfl
  · split
    · rename_i hseparates
      cases hitem : pushItem l ns delimited current (current.take l) with
      | error e => rfl
      | ok step =>
        rcases pushItem_cases (fun t => take_cases) hitem with ⟨state, rfl⟩ | ⟨n, hnot, -⟩
        · rfl
        · rw [hseparates] at hnot
          cases hnot
    · rename_i hseparates
      rw [pushItem, if_neg hseparates]
      cases hstep : current.take l with
      | error e => rfl
      | ok step =>
        rcases take_cases hstep with ⟨q, rfl⟩ | ⟨n, rfl⟩
        · rfl
        · rfl

/-! ### Functions -/

/-- What is declared as a function is a variable, so that the function has its name. -/
theorem finish_of_isVariable (h : p.isVariable) (stop : Span) :
    ∃ span name, p.finish stop = .ok (.var span name) := by
  cases p with
  | proper mode name span => exact ⟨_, _, rfl⟩
  | operand mode node =>
    cases node with
    | var span name => exact ⟨_, _, rfl⟩
    | _ => cases h
  | _ => cases h

theorem functionNode_var (span : Span) (name : String) (parameters : List String) (stop : Span) :
    functionNode (.var span name) parameters stop =
      .function (span.through stop) name parameters [] :=
  rfl

end Phrase

namespace Statement

variable {p q : Phrase} {l : Lexeme}

/-- A statement goes on with the phrase of its slot. -/
theorem push_slot_of_next (htrivia : l.isTrivia = false) (h : p.push l = .ok (.next q))
    (first : Span) (s : Slot) : (slot first s p).push l = .ok (.next (slot first s q)) := by
  show (if l.isTrivia then _ else pushSlot first s p l) = _
  rw [if_neg (by simp [htrivia]), pushSlot, Phrase.feed_of_next h]
  rfl

/-- A statement reads the lexeme that the phrase of its slot hands back. -/
theorem push_slot_of_yield {n : Node} (htrivia : l.isTrivia = false)
    (h : p.push l = .ok (.yield n l)) (first : Span) (s : Slot) :
    (slot first s p).push l = s.close first n l := by
  show (if l.isTrivia then _ else pushSlot first s p l) = _
  rw [if_neg (by simp [htrivia]), pushSlot, Phrase.feed_of_yield h]
  rfl

end Statement

/-- **A list ends before a lexeme**, and what it ends with is a list with at least one item. -/
theorem Listing.push_cases {list : Listing} {l : Lexeme} {s : Step Listing Node}
    (h : list.push l = .ok s) :
    (∃ list', s = .next list') ∨
      ∃ n, list.current.take l = .ok (.yield n l) ∧ s = .yield (listNode (list.items ++ [n])) l := by
  unfold push at h
  split at h
  · exact .inl ⟨list, (Except.ok.inj h).symm⟩
  · obtain ⟨t, ht, rfl⟩ := map_eq_ok.mp h
    rcases Phrase.pushItem_cases (fun t => Phrase.take_cases) ht with ⟨state, rfl⟩ | ⟨n, -, hn, rfl⟩
    · exact .inl ⟨_, rfl⟩
    · exact .inr ⟨n, hn, rfl⟩

/-! ### Runs of any construct -/

section

variable {σ α : Type} {push : σ → Lexeme → Except ParseError (Step σ α)} {s t : σ} {r : α}
  {l m : Lexeme} {ls ms : List Lexeme}

/-- Reads lexemes with `push` until the construct ends, and returns what comes after the lexeme that
has ended it, or before which it has ended. -/
def readAll (push : σ → Lexeme → Except ParseError (Step σ α)) (s : σ) :
    List Lexeme → Except ParseError (Step σ (α × List Lexeme))
  | [] => .ok (.next s)
  | l :: ls =>
    (push s l).bind fun
      | .next t => readAll push t ls
      | .done r => .ok (.done (r, ls))
      | .yield r l => .ok (.yield (r, ls) l)

theorem readAll_cons_next (h : push s l = .ok (.next t)) (ls : List Lexeme) :
    readAll push s (l :: ls) = readAll push t ls := by
  rw [readAll, h]
  rfl

theorem readAll_cons_done (h : push s l = .ok (.done r)) (ls : List Lexeme) :
    readAll push s (l :: ls) = .ok (.done (r, ls)) := by
  rw [readAll, h]
  rfl

theorem readAll_cons_yield (h : push s l = .ok (.yield r m)) (ls : List Lexeme) :
    readAll push s (l :: ls) = .ok (.yield (r, ls) m) := by
  rw [readAll, h]
  rfl

/-- The lexemes that end a construct are those before the ones that are returned. -/
theorem readAll_done (h : readAll push s ls = .ok (.done (r, ms))) :
    ∃ ks, ls = ks ++ ms ∧ ks ≠ [] ∧ readAll push s ks = .ok (.done (r, [])) := by
  induction ls generalizing s with
  | nil => cases h
  | cons l ls ih =>
    obtain ⟨step, hpush, h⟩ := bind_eq_ok.mp h
    cases step with
    | next t =>
      obtain ⟨ks, rfl, -, hks⟩ := ih h
      exact ⟨l :: ks, rfl, List.cons_ne_nil l ks, (readAll_cons_next hpush ks).trans hks⟩
    | done r =>
      cases h
      exact ⟨[l], rfl, List.cons_ne_nil l [], readAll_cons_done hpush []⟩
    | yield r l' => cases h

/-- What comes after the end of a construct makes no difference to it. -/
theorem readAll_append (h : readAll push s ls = .ok (.done (r, ms))) (ks : List Lexeme) :
    readAll push s (ls ++ ks) = .ok (.done (r, ms ++ ks)) := by
  induction ls generalizing s with
  | nil => cases h
  | cons l ls ih =>
    obtain ⟨step, hpush, h⟩ := bind_eq_ok.mp h
    cases step with
    | next t => exact (readAll_cons_next hpush _).trans (ih h)
    | done r =>
      cases h
      exact readAll_cons_done hpush _
    | yield r l' => cases h

/-- What a construct may become with one more lexeme holds of all that is reached, together with the
lexemes that have been read. -/
theorem readAll_history {P : List Lexeme → σ → Prop}
    (hstep : ∀ {ls s l t}, P ls s → push s l = .ok (.next t) → P (ls ++ [l]) t)
    (h : readAll push s ls = .ok (.next t)) (before : List Lexeme) (hs : P before s) :
    P (before ++ ls) t := by
  induction ls generalizing s before with
  | nil =>
    cases h
    rwa [List.append_nil]
  | cons l ls ih =>
    obtain ⟨step, hpush, h⟩ := bind_eq_ok.mp h
    cases step with
    | next u =>
      have hread := ih h (before ++ [l]) (hstep hs hpush)
      rwa [List.append_assoc, List.singleton_append] at hread
    | done r | yield r l' => cases h

/-- What every lexeme preserves holds of all that is reached. -/
theorem readAll_invariant {P : σ → Prop}
    (hstep : ∀ {s l t}, push s l = .ok (.next t) → P s → P t)
    (h : readAll push s ls = .ok (.next t)) (hs : P s) : P t :=
  readAll_history (P := fun _ => P) (fun hs hpush => hstep hpush hs) h [] hs

end

end Reading

end Ballad
