import Ballad.Proofs.Placement
import Ballad.Proofs.Reading.Endings
import Ballad.Proofs.Reading.Words

/-!
# What phrases become

A phrase keeps, over an order of positions, what its parts have to satisfy so that the node it
becomes fits its mode and its place.

- `Phrase.Sound`: the invariant, for a phrase of some mode that begins after one position and has
  been read up to another.
- `Phrase.finish_fits`: a sound phrase becomes a node that fits.
- `Phrase.take_sound`: a lexeme keeps the phrase sound, or ends it with a node that fits.
- `Listing.push_sound`: the same for lists.

The chain of open constructs is followed from the outside in: the part that a construct already has
ends before its last part begins, so the invariant of the child starts where the shell stops.
-/

namespace Ballad

open Reading

namespace Reading

variable {R : Order} {mode : Mode} {a b c : Position} {n : Node}

/-! ### Shells -/

namespace Shell

/-- The mode of the last part of a construct. -/
def childMode : Shell → Mode
  | negation _ | binary .. => .value
  | pop _ => .location
  | index _ => .key

/-- Where the known part of a construct ends. -/
def stop : Shell → Position
  | negation s | pop s => s.stop
  | binary _ _ left => left.span.stop
  | index target => target.span.stop

/-- Whether the last part of a construct is a key. -/
def isIndex : Shell → Bool
  | index _ => true
  | _ => false

/-- What is asked of the known part of a construct. -/
def Sound (R : Order) (mode : Mode) (a b : Position) : Shell → Prop
  | negation s | pop s => mode = .value ∧ R.Inside a b s
  | binary _ _ left => mode = .value ∧ left.Fits R .value a b
  | index target => target.Fits R mode a b

/-- A construct lies in longer stretches, too. -/
theorem Sound.of_stop_le {shell : Shell} (h : shell.Sound R mode a b) (hbc : R.le b c) :
    shell.Sound R mode a c := by
  cases shell with
  | negation s => exact ⟨h.1, h.2.of_stop_le hbc⟩
  | pop s => exact ⟨h.1, h.2.of_stop_le hbc⟩
  | binary op tail left => exact ⟨h.1, h.2.of_stop_le hbc⟩
  | index target => exact Node.Fits.of_stop_le h hbc

/-- It ends inside of its stretch. -/
theorem Sound.stop_le {shell : Shell} (h : shell.Sound R mode a b) : R.le shell.stop b := by
  cases shell with
  | negation s => exact h.2.stop
  | pop s => exact h.2.stop
  | binary op tail left => exact h.2.inside.stop
  | index target => exact Node.Fits.inside h |>.stop

/-- Words that refine a comparison leave its left operand alone. -/
theorem refine_eq_some {shell shell' : Shell} {l : Lexeme}
    (h : shell.refine l = .ok (some shell')) :
    ∃ op op' tail tail' left, shell = binary op tail left ∧ shell' = binary op' tail' left := by
  cases shell with
  | binary op tail left =>
    refine ⟨op, ?_⟩
    cases tail with
    | settled => simp [refine] at h
    | copula =>
      simp only [refine] at h
      split at h
      · obtain rfl := Option.some.inj (Except.ok.inj h)
        exact ⟨_, _, _, _, rfl, rfl⟩
      · obtain rfl := Option.some.inj (Except.ok.inj h)
        exact ⟨_, _, _, _, rfl, rfl⟩
      · obtain ⟨op', -, rfl⟩ := Option.map_eq_some_iff.mp (Except.ok.inj h)
        exact ⟨_, _, _, _, rfl, rfl⟩
      · exact absurd (Except.ok.inj h) (by simp)
    | than =>
      simp only [refine] at h
      split at h
      · obtain rfl := Option.some.inj (Except.ok.inj h)
        exact ⟨_, _, _, _, rfl, rfl⟩
      · exact absurd h (by simp)
    | as =>
      simp only [refine] at h
      split at h
      · obtain rfl := Option.some.inj (Except.ok.inj h)
        exact ⟨_, _, _, _, rfl, rfl⟩
      · exact absurd h (by simp)
    | secondAs =>
      simp only [refine] at h
      split at h
      · obtain rfl := Option.some.inj (Except.ok.inj h)
        exact ⟨_, _, _, _, rfl, rfl⟩
      · exact absurd h (by simp)
  | negation s => simp [refine] at h
  | pop s => simp [refine] at h
  | index target => simp [refine] at h

/-- A construct and its last part make a node of the construct's mode. -/
theorem close_fits {shell : Shell} (hs : shell.Sound R mode a b)
    (hn : n.Fits R shell.childMode shell.stop b) (hkey : shell.isIndex → n.isAtom) :
    (shell.close n).Fits R mode a b := by
  cases shell with
  | negation s =>
    obtain ⟨rfl, hs⟩ := hs
    show (Node.negation (s.through n.span) n).Fits R .value a b
    refine ⟨hs.through hn.inside, ?_, rfl⟩
    refine Node.sound_of_parts (by simp [Node.Ordinary]) hn.accepts trivial ?_
    simpa [Node.children, Node.span] using hn.part_right hs
  | pop s =>
    obtain ⟨rfl, hs⟩ := hs
    show (Node.pop (s.through n.span) n).Fits R .value a b
    refine ⟨hs.through hn.inside, ?_, rfl⟩
    refine Node.sound_of_parts (by simp [Node.Ordinary]) hn.accepts trivial ?_
    simpa [Node.children, Node.span] using hn.part_right hs
  | binary op tail left =>
    obtain ⟨rfl, hs⟩ := hs
    show (Node.binary (left.span.through n.span) op left n).Fits R .value a b
    refine ⟨hs.inside.through hn.inside,
      Node.sound_of_parts (by simp [Node.Ordinary]) ⟨hs.accepts, hn.accepts⟩ trivial ?_, rfl⟩
    simpa [Node.children, Node.span] using ⟨hs.part_left hn.inside, hn.part_right hs.inside⟩
  | index target =>
    have hs : target.Fits R mode a b := hs
    show (Node.index (target.span.through n.span) target n).Fits R mode a b
    refine ⟨hs.inside.through hn.inside,
      Node.sound_of_parts (by simp [Node.Ordinary]) ⟨hs.accepts.isOperand, hkey rfl⟩ trivial ?_,
      hs.accepts.index (hkey rfl) _⟩
    simpa [Node.children, Node.span] using ⟨hs.part_left hn.inside, hn.part_right hs.inside⟩

@[simp] theorem settle_childMode (shell : Shell) : shell.settle.childMode = shell.childMode := by
  cases shell <;> rfl

@[simp] theorem settle_stop (shell : Shell) : shell.settle.stop = shell.stop := by
  cases shell <;> rfl

@[simp] theorem settle_isIndex (shell : Shell) : shell.settle.isIndex = shell.isIndex := by
  cases shell <;> rfl

/-- A comparison that settles stays where it is. -/
theorem settle_sound {shell : Shell} (h : shell.Sound R mode a b) :
    shell.settle.Sound R mode a b := by
  cases shell <;> exact h

end Shell

/-! ### The invariant of phrases -/

/-- Arguments from one position to another: at least one, and each of them ends before the last one
does. -/
structure Items (R : Order) (a b : Position) (ns : List Node) : Prop where
  ne_nil : ns ≠ []
  fits : ∀ n ∈ ns, n.Fits R .value a (Node.spanOf ns).stop
  stop_le : R.le (Node.spanOf ns).stop b

/-- Some items end behind the place where they begin. -/
theorem Items.le_stop {ns : List Node} (h : Items R a b ns) : R.le a (Node.spanOf ns).stop := by
  obtain ⟨m, hm⟩ := List.exists_mem_of_ne_nil _ h.ne_nil
  exact R.le_trans (h.fits m hm).inside.le_stop (h.fits m hm).inside.stop

namespace Phrase

/-- Whether what has been read can only become a literal, a variable or a pronoun. -/
def isAtomic : Phrase → Bool
  | empty _ | article .. | proper .. => true
  | operand _ node => node.isAtom
  | within .. | call .. => false

/-- What is asked of a phrase of the given mode that begins after `a` and has been read up to `b`.
-/
def Sound (R : Order) : Phrase → Mode → Position → Position → Prop
  | empty m, mode, _, _ => m = mode
  | article m word, mode, a, b => m = mode ∧ R.Inside a b word.span ∧ R.word word.literal
  | proper m name span, mode, a, b =>
    m = mode ∧ R.Inside a b span ∧ ∃ c ∈ name.toList, Text.isBlank c = false
  | operand m node, mode, a, b => m = mode ∧ node.Fits R mode a b
  | within m shell child, mode, a, b =>
    m = mode ∧ shell.Sound R mode a b ∧ child.Sound R shell.childMode shell.stop b ∧
      (shell.isIndex → child.isAtomic)
  | call m callee items _ current, mode, a, b =>
    m = mode ∧ mode = .value ∧ callee.isVariable ∧ callee.Fits R .value a b ∧
      ∃ c, R.le callee.span.stop c ∧ R.le c b ∧
        (∀ n ∈ items, n.Fits R .value callee.span.stop c) ∧ current.Sound R .value c b

/-- What a step of a phrase has to give: a sound phrase that reaches up to the end of the lexeme, or
a node that ends before it. -/
def StepSound (R : Order) (mode : Mode) (a b : Position) (l : Lexeme) : Step Phrase Node → Prop
  | .next p => p.Sound R mode a l.span.stop
  | .done n | .yield n _ => n.Fits R mode a b

/-- A phrase lies in longer stretches, too. -/
theorem Sound.of_stop_le {p : Phrase} :
    ∀ {mode : Mode} {a b c : Position}, p.Sound R mode a b → R.le b c → p.Sound R mode a c := by
  induction p with
  | empty m =>
    intro mode a b c h _
    exact h
  | article m word =>
    intro mode a b c h hbc
    exact ⟨h.1, h.2.1.of_stop_le hbc, h.2.2⟩
  | proper m name span =>
    intro mode a b c h hbc
    exact ⟨h.1, h.2.1.of_stop_le hbc, h.2.2⟩
  | operand m node =>
    intro mode a b c h hbc
    exact ⟨h.1, h.2.of_stop_le hbc⟩
  | within m shell child ih =>
    intro mode a b c h hbc
    exact ⟨h.1, h.2.1.of_stop_le hbc, ih h.2.2.1 hbc, h.2.2.2⟩
  | call m callee items delimited current ih =>
    intro mode a b c h hbc
    obtain ⟨hm, hmode, hvar, hcallee, d, hd, hdb, hitems, hcurrent⟩ := h
    exact ⟨hm, hmode, hvar, hcallee.of_stop_le hbc, d, hd, R.le_trans hdb hbc, hitems,
      ih hcurrent hbc⟩

/-- A variable fits every mode. -/
theorem var_fits {s : Span} {name : String} (hs : R.Inside a b s)
    (hname : Name.Made R.word name) (mode : Mode) : (Node.var s name).Fits R mode a b :=
  ⟨hs, Node.sound_of_leaf rfl trivial hname, Mode.accepts_of_isName rfl mode⟩

/-! ### Lists of arguments -/

/-- Items end with the last of them. -/
theorem spanOf_append_singleton (ns : List Node) (n : Node) :
    (Node.spanOf (ns ++ [n])).stop = n.span.stop := by
  cases ns with
  | nil => rfl
  | cons m ms =>
    show ((m :: (ms ++ [n])).getLast _).span.stop = n.span.stop
    rw [List.getLast_cons (by simp), List.getLast_concat]

/-- An item that follows others is one more item. -/
theorem items_append {ns : List Node} (hns : ∀ m ∈ ns, m.Fits R .value a c) (hac : R.le a c)
    (hn : n.Fits R .value c b) : Items R a b (ns ++ [n]) := by
  refine ⟨by simp, ?_, ?_⟩
  · intro m hm
    rw [spanOf_append_singleton]
    rcases List.mem_append.mp hm with hm | hm
    · exact (hns m hm).of_stop_le hn.inside.le_stop
    · rw [List.mem_singleton.mp hm]
      exact hn.upToStop.of_le_start hac
  · rw [spanOf_append_singleton]
    exact hn.inside.stop

/-- A call reaches from its function to its last argument. -/
theorem callNode_fits {callee : Node} {arguments : List Node} (hvar : callee.isVariable)
    (hcallee : callee.Fits R .value a b) (hargs : Items R callee.span.stop b arguments) :
    (callNode callee arguments).Fits R .value a b := by
  have hle : R.le callee.span.stop (Node.spanOf arguments).stop := hargs.le_stop
  show (Node.call (callee.span.through (Node.spanOf arguments)) callee arguments).Fits R .value a b
  refine ⟨⟨hcallee.inside.start, R.le_trans hcallee.inside.le hle, hargs.stop_le⟩,
    Node.sound_of_parts (by simp [Node.Ordinary]) ⟨hvar, hargs.ne_nil, fun m hm => (hargs.fits m hm).accepts⟩
      trivial ?_, rfl⟩
  intro m hm
  rcases List.mem_cons.mp hm with rfl | hm
  · exact ⟨⟨R.le_refl _, hle⟩, hcallee.sound⟩
  · exact (hargs.fits m hm).part hcallee.inside.le (R.le_refl _)

/-- A sound phrase becomes a node that fits. -/
theorem finish_fits {p : Phrase} {stop : Span} :
    ∀ {mode : Mode} {a b : Position} {n : Node}, p.Sound R mode a b → p.finish stop = .ok n →
      n.Fits R mode a b ∧ (p.isAtomic → n.isAtom) := by
  induction p with
  | empty m =>
    intro mode a b n _ h
    exact absurd h (by simp [finish])
  | article m word =>
    intro mode a b n _ h
    exact absurd h (by simp [finish])
  | proper m name span =>
    intro mode a b n hp h
    obtain rfl := Except.ok.inj h
    exact ⟨var_fits hp.2.1 (.proper hp.2.2) mode, fun _ => rfl⟩
  | operand m node =>
    intro mode a b n hp h
    obtain rfl := Except.ok.inj h
    exact ⟨hp.2, id⟩
  | within m shell child ih =>
    intro mode a b n hp h
    obtain ⟨-, hshell, hchild, hkey⟩ := hp
    have hclose : ∃ x, child.finish stop = .ok x ∧ shell.close x = n := by
      unfold finish at h
      split at h
      · exact absurd h (by simp)
      · exact absurd h (by simp)
      · exact absurd h (by simp)
      · exact map_eq_ok.mp h
    obtain ⟨x, hx, rfl⟩ := hclose
    obtain ⟨hfits, hatom⟩ := ih hchild hx
    exact ⟨Shell.close_fits hshell hfits fun hi => hatom (hkey hi), fun hi => Bool.noConfusion hi⟩
  | call m callee items delimited current ih =>
    intro mode a b n hp h
    obtain ⟨-, rfl, hvar, hcallee, c, hc, -, hitems, hcurrent⟩ := hp
    rw [finish_call] at h
    split at h
    · cases h
    · obtain ⟨x, hx, rfl⟩ := map_eq_ok.mp h
      exact ⟨callNode_fits hvar hcallee (items_append hitems hc (ih hcurrent hx).1),
        fun hi => Bool.noConfusion hi⟩

/-- A phrase that is a location becomes a node that is one. -/
theorem finish_location {p : Phrase} {stop : Span} (hloc : p.isLocation)
    (hp : p.Sound R mode a b) (h : p.finish stop = .ok n) : n.Fits R .location a b := by
  have hfits := (finish_fits hp h).1
  refine ⟨hfits.inside, hfits.sound, ?_⟩
  cases p with
  | proper m name span =>
    obtain rfl := Except.ok.inj h
    rfl
  | operand m node =>
    obtain rfl := Except.ok.inj h
    exact hloc
  | within m shell child =>
    cases shell with
    | index target =>
      obtain ⟨x, -, rfl⟩ := map_eq_ok.mp h
      rfl
    | _ => exact absurd hloc (by simp [isLocation])
  | _ => exact absurd hloc (by simp [isLocation])

/-! ### The first lexeme -/

/-- A literal is a phrase of its own, wherever literals may be. -/
theorem ofLiteral_sound {s : Span} {value : Literal} {p : Phrase} (hs : R.Inside a b s)
    (h : ofLiteral mode s value = .ok p) : p.Sound R mode a b ∧ p.isAtomic := by
  unfold ofLiteral at h
  dsimp only at h
  split at h
  · exact absurd h (by simp)
  · rename_i hmode
    obtain rfl := Except.ok.inj h
    refine ⟨⟨rfl, hs, Node.sound_of_leaf rfl trivial trivial, ?_⟩, rfl⟩
    cases mode with
    | value => rfl
    | location => exact absurd rfl hmode
    | key => rfl

/-- A capitalized word has a letter. -/
theorem isCapitalized_nonblank {l : Lexeme} (h : l.isCapitalized) :
    ∃ c ∈ l.literal.toList, Text.isBlank c = false := by
  rw [Lexeme.isCapitalized, Bool.and_eq_true] at h
  obtain ⟨c, hc, hupper⟩ := (Option.any_eq_true _ _).mp h.2
  exact ⟨c, List.mem_of_head? hc, Text.not_isBlank_of_isUpper hupper⟩

/-- A phrase that begins with a lexeme is sound. Only in the mode of values can it be the beginning
of a construct. -/
theorem start_sound {l : Lexeme} {p : Phrase} (hl : R.Follows a l) (h : start mode l = .ok p) :
    p.Sound R mode a l.span.stop ∧ (mode ≠ .value → p.isAtomic) := by
  have hinside : R.Inside a l.span.stop l.span := hl.inside
  unfold start at h
  split at h
  · obtain ⟨x, -, hx⟩ := bind_eq_ok.mp h
    exact ⟨(ofLiteral_sound hinside hx).1, fun _ => (ofLiteral_sound hinside hx).2⟩
  · exact ⟨(ofLiteral_sound hinside h).1, fun _ => (ofLiteral_sound hinside h).2⟩
  · rename_i hkind
    unfold ofWord at h
    split at h
    · obtain rfl := Except.ok.inj h
      exact ⟨⟨rfl, hinside, hl.spelled hkind⟩, fun _ => rfl⟩
    split at h
    · obtain rfl := Except.ok.inj h
      exact ⟨⟨rfl, hinside, Node.sound_of_leaf rfl trivial trivial,
        Mode.accepts_of_isName rfl mode⟩, fun _ => rfl⟩
    split at h
    · exact ⟨(ofLiteral_sound hinside h).1, fun _ => (ofLiteral_sound hinside h).2⟩
    split at h
    · rename_i hnot
      obtain rfl := Except.ok.inj h
      exact ⟨⟨rfl, ⟨hnot.1, hinside⟩, rfl, fun hi => Bool.noConfusion hi⟩,
        fun hmode => absurd hnot.1 hmode⟩
    split at h
    · rename_i hpop
      obtain rfl := Except.ok.inj h
      exact ⟨⟨rfl, ⟨hpop.1, hinside⟩, rfl, fun hi => Bool.noConfusion hi⟩,
        fun hmode => absurd hpop.1 hmode⟩
    split at h
    · exact absurd h (by simp)
    split at h
    · rename_i hcap
      obtain rfl := Except.ok.inj h
      exact ⟨⟨rfl, hinside, isCapitalized_nonblank hcap⟩, fun _ => rfl⟩
    · obtain rfl := Except.ok.inj h
      exact ⟨⟨rfl, var_fits hinside (.simple (hl.spelled hkind)) mode⟩, fun _ => rfl⟩
  · exact absurd h (by simp)

/-! ### The other lexemes -/

/-- A lexeme after a whole operand begins a construct around it, or ends the phrase. -/
theorem afterOperand_sound {l : Lexeme} {s : Step Phrase Node} (hn : n.Fits R mode a b)
    (hl : R.Follows b l) (h : afterOperand mode n l = .ok s) : StepSound R mode a b l s := by
  have hn' : n.Fits R mode a l.span.stop := hn.of_stop_le hl.le_stop
  unfold afterOperand at h
  split at h
  · obtain rfl := Except.ok.inj h
    exact hn
  · rename_i op tail hsuffix
    obtain rfl := Except.ok.inj h
    have hmode : mode = .value := (Suffix.of?_cases hsuffix).resolve_left (by simp)
    exact ⟨rfl, ⟨hmode, hn'.value⟩, rfl, fun hi => Bool.noConfusion hi⟩
  · obtain rfl := Except.ok.inj h
    exact ⟨rfl, hn', rfl, fun _ => rfl⟩
  · rename_i hsuffix
    obtain rfl : mode = .value := (Suffix.of?_cases hsuffix).resolve_left (by simp)
    split at h
    · rename_i span name
      obtain rfl := Except.ok.inj h
      have hle : R.le span.stop l.span.stop := R.le_trans hn.inside.stop hl.le_stop
      exact ⟨rfl, rfl, rfl, hn', l.span.stop, hle, R.le_refl _, by simp, rfl⟩
    · exact absurd h (by simp)

/-- Whether a step leaves a phrase, or gives a node, that stands for itself. -/
def StepAtomic : Step Phrase Node → Prop
  | .next p => p.isAtomic
  | .done n | .yield n _ => n.isAtom

/-- A key that a lexeme does not close only grows, or ends. -/
theorem take_atomic {p : Phrase} {l : Lexeme} {s : Step Phrase Node} (hp : p.Sound R .key a b)
    (hatom : p.isAtomic) (hab : R.le a b) (hl : R.Follows b l)
    (hfold : folds mode suffixRank p l = false) (h : p.take l = .ok s) : StepAtomic s := by
  -- after a whole operand the word `at` would have closed the construct around it
  have hafter : ∀ x : Node, p.isComplete → afterOperand .key x l = .ok s → s = .yield x l := by
    intro x hcomplete hx
    unfold afterOperand at hx
    split at hx
    · exact (Except.ok.inj hx).symm
    all_goals
      rename_i hsuffix
      have hat := ((Suffix.of?_cases hsuffix).resolve_right (by simp)).2
      rw [folds, Suffix.of?_at hat mode, hcomplete] at hfold
      exact absurd hfold (by decide)
  cases p with
  | empty m =>
    obtain rfl : m = .key := hp
    obtain ⟨q, hq, rfl⟩ := map_eq_ok.mp h
    exact (start_sound (hl.of_le hab) hq).2 (by decide)
  | article m word =>
    rw [take] at h
    split at h
    · obtain rfl := Except.ok.inj h
      rfl
    · exact absurd h (by simp)
  | proper m name span =>
    obtain ⟨rfl, -⟩ := hp
    rw [take] at h
    split at h
    · obtain rfl := Except.ok.inj h
      rfl
    · obtain rfl := hafter _ rfl h
      rfl
  | operand m node =>
    obtain ⟨rfl, -⟩ := hp
    obtain rfl := hafter _ rfl h
    exact hatom
  | within m shell child => exact absurd hatom (by simp [isAtomic])
  | call m callee items delimited current => exact absurd hatom (by simp [isAtomic])

/-- What a lexeme does to the items of a list keeps them in order. -/
theorem pushItem_sound {l : Lexeme} {items : List Node} {delimited : Bool} {current : Phrase}
    {inner : Except ParseError (Step Phrase Node)}
    {s : Step (List Node × Bool × Phrase) Node}
    (hac : R.le a c) (hcb : R.le c b) (hl : R.Follows b l)
    (hitems : ∀ m ∈ items, m.Fits R .value a c) (hcurrent : current.Sound R .value c b)
    (hinner : ∀ t, inner = .ok t → StepSound R .value c b l t)
    (h : pushItem l items delimited current inner = .ok s) :
    match s with
    | .next (items, _, current) => ∃ d, R.le a d ∧ R.le d l.span.stop ∧
        (∀ m ∈ items, m.Fits R .value a d) ∧ current.Sound R .value d l.span.stop
    | .done list | .yield list _ => ∃ arguments, list = listNode arguments ∧ Items R a b arguments := by
  unfold pushItem at h
  split at h
  · split at h
    · -- a separator closes the current item
      obtain ⟨n, hn, rfl⟩ := map_eq_ok.mp h
      have hfits := (finish_fits hcurrent hn).1
      refine ⟨b, R.le_trans hac hcb, hl.le_stop, ?_, rfl⟩
      intro m hm
      rcases List.mem_append.mp hm with hm | hm
      · exact (hitems m hm).of_stop_le hcb
      · rw [List.mem_singleton.mp hm]
        exact hfits.of_le_start hac
    · split at h
      · obtain rfl := Except.ok.inj h
        exact ⟨c, hac, R.le_trans hcb hl.le_stop, hitems, hcurrent.of_stop_le hl.le_stop⟩
      · exact absurd h (by simp)
  · obtain ⟨t, ht, rfl⟩ := map_eq_ok.mp h
    have hsound := hinner t ht
    cases t with
    | next p => exact ⟨c, hac, R.le_trans hcb hl.le_stop, hitems, hsound⟩
    | done n | yield n l' => exact ⟨_, rfl, items_append hitems hac hsound⟩

/-- **A lexeme keeps a phrase sound**, or ends it with a node that fits. The induction is on the
chain of open constructs, and the child of a construct begins where its known part stops. -/
theorem take_sound {p : Phrase} {l : Lexeme} :
    ∀ {mode : Mode} {a b : Position} {s : Step Phrase Node}, p.Sound R mode a b → R.le a b →
      R.Follows b l → p.take l = .ok s → StepSound R mode a b l s := by
  induction p with
  | empty m =>
    intro mode a b s hp hab hl h
    obtain rfl : m = mode := hp
    obtain ⟨q, hq, rfl⟩ := map_eq_ok.mp h
    exact (start_sound (hl.of_le hab) hq).1
  | article m word =>
    intro mode a b s hp hab hl h
    obtain ⟨rfl, hword, harticle⟩ := hp
    rw [take] at h
    split at h
    · rename_i noun hnoun
      obtain rfl := Except.ok.inj h
      obtain ⟨hkind, rfl⟩ := Lexeme.kind_of_word hnoun
      have hspan : R.Inside a l.span.stop (word.span.through l.span) :=
        hword.through (hl.of_le hword.stop).inside
      exact ⟨rfl, var_fits hspan (.common harticle (hl.spelled hkind)) m⟩
    · exact absurd h (by simp)
  | proper m name span =>
    intro mode a b s hp hab hl h
    obtain ⟨rfl, hspan, c, hc, hblank⟩ := hp
    rw [take] at h
    split at h
    · obtain rfl := Except.ok.inj h
      refine ⟨rfl, hspan.through (hl.of_le hspan.stop).inside, c, ?_, hblank⟩
      simp [hc]
    · exact afterOperand_sound (var_fits hspan (.proper ⟨c, hc, hblank⟩) m) hl h
  | operand m node =>
    intro mode a b s hp hab hl h
    obtain ⟨rfl, hnode⟩ := hp
    exact afterOperand_sound hnode hl h
  | within m shell child ih =>
    intro mode a b s hp hab hl h
    obtain ⟨rfl, hshell, hchild, hkey⟩ := hp
    rw [take] at h
    split at h
    · exact absurd h (by simp)
    · -- one more word of a comparison
      rename_i shell' hrefine
      obtain rfl := Except.ok.inj h
      obtain ⟨op, op', tail, tail', left, rfl, rfl⟩ := Shell.refine_eq_some hrefine
      exact ⟨rfl, ⟨hshell.1, hshell.2.of_stop_le hl.le_stop⟩, hchild.of_stop_le hl.le_stop,
        fun hi => Bool.noConfusion hi⟩
    · have hsettled : shell.settle.Sound R m a b := Shell.settle_sound hshell
      dsimp only at h
      split at h
      · -- the lexeme takes the whole construct as its left operand
        obtain ⟨x, hx, hafter⟩ := bind_eq_ok.mp h
        obtain ⟨hfits, hatom⟩ := finish_fits hchild hx
        refine afterOperand_sound (Shell.close_fits hsettled ?_ ?_) hl hafter
        · rw [Shell.settle_childMode, Shell.settle_stop]
          exact hfits
        · rw [Shell.settle_isIndex]
          exact fun hi => hatom (hkey hi)
      · -- the lexeme goes on to the last part
        rename_i hfold
        obtain ⟨t, ht, hnext⟩ := bind_eq_ok.mp h
        have hsound := ih hchild hshell.stop_le hl ht
        have hatomic : shell.isIndex → StepAtomic t := by
          intro hi
          cases shell with
          | index target =>
            exact take_atomic hchild (hkey hi) hshell.stop_le hl (Bool.eq_false_iff.mpr hfold) ht
          | _ => exact Bool.noConfusion hi
        rcases take_cases ht with ⟨child', rfl⟩ | ⟨x, rfl⟩
        · obtain rfl := Except.ok.inj hnext
          refine ⟨rfl, hsettled.of_stop_le hl.le_stop, ?_, ?_⟩
          · rw [Shell.settle_childMode, Shell.settle_stop]
            exact hsound
          · rw [Shell.settle_isIndex]
            exact hatomic
        · refine afterOperand_sound (Shell.close_fits hsettled ?_ ?_) hl hnext
          · rw [Shell.settle_childMode, Shell.settle_stop]
            exact hsound
          · rw [Shell.settle_isIndex]
            exact hatomic
  | call m callee items delimited current ih =>
    intro mode a b s hp hab hl h
    obtain ⟨rfl, rfl, hvar, hcallee, c, hc, hcb, hitems, hcurrent⟩ := hp
    have hcall : (call .value callee items delimited current).Sound R .value a b :=
      ⟨rfl, rfl, hvar, hcallee, c, hc, hcb, hitems, hcurrent⟩
    by_cases hfold : (folds .value suffixRank current l && !separates delimited current l) = true
    · rw [take_call, if_pos hfold] at h
      obtain ⟨x, hx, hafter⟩ := bind_eq_ok.mp h
      exact afterOperand_sound (finish_fits hcall hx).1 hl hafter
    · rw [take, if_neg hfold] at h
      obtain ⟨t, ht, hnext⟩ := bind_eq_ok.mp h
      have hsound := pushItem_sound hc hcb hl hitems hcurrent
        (fun t ht => ih hcurrent hcb hl ht) ht
      rcases pushItem_cases (fun t => take_cases) ht with ⟨state, rfl⟩ | ⟨n, -, -, rfl⟩
      · obtain rfl := Except.ok.inj hnext
        exact ⟨rfl, rfl, hvar, hcallee.of_stop_le hl.le_stop, hsound⟩
      · obtain ⟨arguments, hlist, hargs⟩ := hsound
        rw [hlist] at hnext
        exact afterOperand_sound (callNode_fits hvar hcallee hargs) hl hnext

/-- **Every lexeme takes a sound phrase to a sound phrase, or to a node that fits.** -/
theorem push_sound {p : Phrase} {l : Lexeme} {s : Step Phrase Node} (hp : p.Sound R mode a b)
    (hab : R.le a b) (hl : R.Follows b l) (h : p.push l = .ok s) : StepSound R mode a b l s := by
  unfold push at h
  split at h
  · obtain rfl := Except.ok.inj h
    exact hp.of_stop_le hl.le_stop
  · exact take_sound hp hab hl h

end Phrase

/-! ### Lists of values -/

namespace Listing

/-- What is asked of a list that begins after `a` and has been read up to `b`. -/
def Sound (R : Order) (a b : Position) (list : Listing) : Prop :=
  ∃ c, R.le a c ∧ R.le c b ∧ (∀ m ∈ list.items, m.Fits R .value a c) ∧
    list.current.Sound R .value c b

/-- A list without items is sound. -/
theorem empty_sound (hab : R.le a b) : empty.Sound R a b :=
  ⟨b, hab, R.le_refl b, fun _ hm => absurd hm List.not_mem_nil, rfl⟩

/-- A list lies in longer stretches, too. -/
theorem Sound.of_stop_le {list : Listing} (h : list.Sound R a b) (hbc : R.le b c) :
    list.Sound R a c := by
  obtain ⟨d, had, hdb, hitems, hcurrent⟩ := h
  exact ⟨d, had, R.le_trans hdb hbc, hitems, hcurrent.of_stop_le hbc⟩

/-- **Every lexeme takes a sound list to a sound list, or to the node of its items.** -/
theorem push_sound {list : Listing} {l : Lexeme} {s : Step Listing Node}
    (hlist : list.Sound R a b) (hl : R.Follows b l) (h : list.push l = .ok s) :
    match s with
    | .next list => list.Sound R a l.span.stop
    | .done node | .yield node _ => ∃ items, node = listNode items ∧ Items R a b items := by
  unfold push at h
  split at h
  · obtain rfl := Except.ok.inj h
    exact hlist.of_stop_le hl.le_stop
  · obtain ⟨c, hac, hcb, hitems, hcurrent⟩ := hlist
    obtain ⟨t, ht, rfl⟩ := map_eq_ok.mp h
    have hsound := Phrase.pushItem_sound hac hcb hl hitems hcurrent
      (fun t ht => Phrase.take_sound hcurrent hcb hl ht) ht
    cases t with
    | next items => exact hsound
    | done node | yield node l' => exact hsound

end Listing

end Reading

end Ballad
