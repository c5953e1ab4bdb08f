import Ballad.Proofs.Reading.Phrase
import Ballad.Reading.Statement

/-!
# What statements become

- `Node.Built`: a node that a line may end with, between two positions.
- `Statement.Sound`: the invariant of a statement that begins after one position and has been read
  up to another.
- `Statement.push_sound`: a lexeme keeps a statement sound, or ends it with a node that is built.

Each form of statement knows its parts in the order they are read. Where the target of an assignment
is read last, or first, the span is put together accordingly; only where an entry is taken off an
array and assigned does the span end before the target.
-/

namespace Ballad

open Reading

variable {R : Order} {a b c : Position} {n : Node}

namespace Node

/-- Whether a node marks an `else` or the end of a block, and stands in no tree. -/
def isMark : Node → Bool
  | otherwise _ | blank _ => true
  | _ => false

/-- All statements but empty lines and `else` are no marks. -/
theorem isMark_eq_false (hblank : ∀ s, n = .blank s → False)
    (helse : ∀ s, n = .otherwise s → False) : n.isMark = false := by
  cases n with
  | blank s => exact absurd rfl (hblank s)
  | otherwise s => exact absurd rfl (helse s)
  | _ => rfl

/-- A node that a line may end with. -/
structure Built (R : Order) (a b : Position) (n : Node) : Prop where
  inside : R.Inside a b n.span
  sound : n.isMark = false → n.Everywhere (Sound R)

/-- A node that is built in a stretch is built in a longer one. -/
theorem Built.of_stop_le (h : n.Built R a b) (hbc : R.le b c) : n.Built R a c :=
  ⟨h.inside.of_stop_le hbc, h.sound⟩

/-- A phrase is a node that is built. -/
theorem Fits.built {mode : Mode} (h : n.Fits R mode a b) : n.Built R a b :=
  ⟨h.inside, fun _ => h.sound⟩

end Node

namespace Reading

/-! ### Poetic literals -/

namespace Poetic

/-- What is asked of a poetic literal that begins after `a` and has been read up to `b`. -/
def Sound (R : Order) (a b : Position) : Poetic → Prop
  | leading => True
  | literal node | constant node => ∃ s v, node = .literal s v ∧ R.Inside a b s
  | digits read => ∀ s, read.span = some s → R.Inside a b s

/-- A poetic number lies in longer stretches, too. -/
theorem Sound.of_stop_le {p : Poetic} (h : p.Sound R a b) (hbc : R.le b c) : p.Sound R a c := by
  cases p with
  | leading => trivial
  | literal node =>
    obtain ⟨s, v, hnode, hs⟩ := h
    exact ⟨s, v, hnode, hs.of_stop_le hbc⟩
  | constant node =>
    obtain ⟨s, v, hnode, hs⟩ := h
    exact ⟨s, v, hnode, hs.of_stop_le hbc⟩
  | digits read => exact fun s hs => (h s hs).of_stop_le hbc

/-- Digits that are flushed still come from the same place. -/
theorem flush_span (d : Digits) : d.flush.span = d.span := by
  unfold Digits.flush
  split
  · rfl
  · split <;> rfl

/-- Further digits reach to the lexeme that they come from. -/
theorem digits_push_span {d : Digits} {l : Lexeme} (hd : ∀ s, d.span = some s → R.Inside a b s)
    (hab : R.le a b) (hl : R.Follows b l) :
    ∀ s, (d.push l).span = some s → R.Inside a l.span.stop s := by
  have hkeep : ∀ s, d.flush.span = some s → R.Inside a l.span.stop s := by
    intro s hs
    rw [flush_span] at hs
    exact (hd s hs).of_stop_le hl.le_stop
  intro s hs
  unfold Digits.push at hs
  split at hs
  · -- a word extends the span, or begins it
    obtain rfl := Option.some.inj hs
    split
    · rename_i t ht
      exact (hd t ht).through (hl.of_le (hd t ht).stop).inside
    · exact (hl.of_le hab).inside
  · split at hs
    · exact hkeep s hs
    · exact hkeep s hs
  · exact hkeep s hs

/-- Poetic numbers lie between their first and last digits. -/
theorem push_sound {p : Poetic} {l : Lexeme} {s : Step Poetic Node} (hp : p.Sound R a b)
    (hab : R.le a b) (hl : R.Follows b l) (h : p.push l = .ok s) :
    match s with
    | .next p => p.Sound R a l.span.stop
    | .done n | .yield n _ => ∃ s v, n = .literal s v ∧ R.Inside a l.span.stop s := by
  have hnew : R.Inside a l.span.stop l.span := (hl.of_le hab).inside
  cases p with
  | leading =>
    rw [push] at h
    split at h
    · obtain rfl := Except.ok.inj h
      trivial
    split at h
    · exact absurd h (by simp)
    obtain ⟨q, hq, rfl⟩ := map_eq_ok.mp h
    unfold start at hq
    split at hq
    · obtain ⟨x, -, rfl⟩ := map_eq_ok.mp hq
      exact ⟨_, _, rfl, hnew⟩
    · obtain rfl := Except.ok.inj hq
      exact ⟨_, _, rfl, hnew⟩
    · split at hq
      · obtain rfl := Except.ok.inj hq
        exact ⟨_, _, rfl, hnew⟩
      · obtain rfl := Except.ok.inj hq
        exact digits_push_span (fun s hs => absurd hs (by simp)) hab hl
  | literal node =>
    obtain ⟨s, v, rfl, hs⟩ := hp
    rw [push] at h
    split at h
    · obtain rfl := Except.ok.inj h
      exact ⟨s, v, rfl, hs.of_stop_le hl.le_stop⟩
    split at h
    · obtain rfl := Except.ok.inj h
      exact ⟨s, v, rfl, hs.of_stop_le hl.le_stop⟩
    · exact absurd h (by simp)
  | constant node =>
    obtain ⟨s, v, rfl, hs⟩ := hp
    have hs' := hs.of_stop_le hl.le_stop
    rw [push] at h
    cases hnl : l.isNewline with
    | true =>
      rw [hnl, if_pos rfl] at h
      obtain rfl := Except.ok.inj h
      exact ⟨s, v, rfl, hs'⟩
    | false =>
      rw [hnl, if_neg Bool.false_ne_true] at h
      obtain rfl := Except.ok.inj h
      exact ⟨s, v, rfl, hs'⟩
  | digits d =>
    rw [push] at h
    split at h
    · obtain ⟨n, hn, rfl⟩ := map_eq_ok.mp h
      unfold Digits.finish at hn
      dsimp only at hn
      split at hn
      · exact absurd hn (by simp)
      · obtain rfl := Except.ok.inj hn
        refine ⟨_, _, rfl, ?_⟩
        rw [flush_span]
        cases hspan : d.span with
        | none => exact hnew
        | some s => exact (hp s hspan).of_stop_le hl.le_stop
    · obtain rfl := Except.ok.inj h
      exact digits_push_span hp hab hl

end Poetic

/-! ### Nodes of statements -/

/-- A literal between two positions fits. -/
theorem literal_fits {s : Span} {v : Literal} (hs : R.Inside a b s) :
    (Node.literal s v).Fits R .value a b :=
  ⟨hs, Node.sound_of_leaf rfl trivial trivial, rfl⟩

/-- A node with one child after its first word, which makes a statement of the right shape. -/
theorem built_of_child {mode : Mode} {first : Span} {n child : Node}
    (hordinary : n.Ordinary) (hformed : n.Formed) (hspelled : n.Spelled (Name.Made R.word))
    (hchildren : n.children = [child]) (hspan : n.span = first.through child.span)
    (hfirst : R.Inside a b first) (hchild : child.Fits R mode first.stop b) : n.Built R a b := by
  refine ⟨hspan ▸ hfirst.through hchild.inside, fun _ => ?_⟩
  refine Node.sound_of_parts hordinary hformed hspelled ?_
  rw [hchildren, hspan]
  simpa using hchild.part_right hfirst

/-- The same with one more word at the end. -/
theorem finished_built {mode : Mode} {first : Span} {l : Lexeme} {n child : Node}
    (hfirst : R.Inside a l.span.stop first) (hl : R.Follows first.stop l)
    (hchild : child.Fits R mode first.stop l.span.stop)
    (hsound : (∀ c ∈ n.children, c.Part R n.span) → n.Everywhere (Node.Sound R))
    (hchildren : n.children = [child]) (hspan : n.span = first.through l.span) :
    n.Built R a l.span.stop := by
  refine ⟨hspan ▸ hfirst.through hl.inside, fun _ => hsound ?_⟩
  rw [hchildren, hspan]
  simpa using hchild.part (s := first.through l.span) hfirst.le (R.le_refl _)

/-- An assignment reaches from its target to its value. -/
theorem assignment_built {s : Span} {target : Node} {v : Literal}
    (ht : target.Fits R .location a c) (hs : R.Inside c b s) :
    (assignment target (.literal s v)).Built R a b := by
  have hs' : R.Inside target.span.stop b s := hs.of_le_start ht.inside.stop
  refine ⟨ht.inside.through hs', fun _ => Node.sound_assign ?_ ?_ ht.accepts rfl ?_⟩
  · exact ht.part_left hs'
  · exact (literal_fits hs').part_right ht.inside
  · exact fun hpop => Bool.noConfusion hpop

/-- `Build` and `knock` reach from their first word to their last. -/
theorem adjustment_built {first last : Span} {up : Bool} {target : Node} {count : Nat}
    (hfirst : R.Inside a b first) (ht : target.Fits R .location first.stop b)
    (hlast : R.Inside target.span.stop b last) :
    (adjustment first up target count last).Built R a b := by
  have hsum : (Node.binary (target.span.through last) (if up then .add else .sub) target
      (.literal last (.number (.ofNat count)))).Fits R .value first.stop b := by
    refine ⟨ht.inside.through hlast,
      Node.sound_of_parts (by simp [Node.Ordinary]) ⟨ht.accepts.isOperand, rfl⟩ trivial ?_, rfl⟩
    simpa [Node.children, Node.span] using
      ⟨ht.part_left hlast, (literal_fits hlast).part_right ht.inside⟩
  have hwhole : R.Inside first.stop b last := hlast.of_le_start ht.inside.le_stop
  refine ⟨hfirst.through hwhole, fun _ => Node.sound_assign ?_ ?_ ht.accepts rfl ?_⟩
  · exact ht.upToStop.part hfirst.le hlast.le_stop
  · exact hsum.part_right hfirst
  · exact fun hpop => Bool.noConfusion hpop

/-- Pushing values reaches from its first word to the last of the values. -/
theorem push_built {first : Span} {target : Node} {items : List Node} (hfirst : R.Inside a b first)
    (ht : target.Fits R .location first.stop b) (hitems : Items R target.span.stop b items) :
    (Node.push (first.through (Node.spanOf items)) target items).Built R a b := by
  have hle : R.le target.span.stop (Node.spanOf items).stop := hitems.le_stop
  refine ⟨⟨hfirst.start, R.le_trans hfirst.le (R.le_trans ht.inside.le_stop hle), hitems.stop_le⟩,
    fun _ => ?_⟩
  refine Node.sound_of_parts (by simp [Node.Ordinary]) ⟨ht.accepts, fun m hm => (hitems.fits m hm).accepts⟩
    trivial ?_
  intro m hm
  rcases List.mem_cons.mp hm with rfl | hm
  · exact ht.upToStop.part hfirst.le hle
  · exact (hitems.fits m hm).part (R.le_trans hfirst.le ht.inside.le_stop) (R.le_refl _)

/-- A change reaches from its first word to the last of its parts: the argument, or else the place
it is stored in, or else the source. -/
theorem changeNode_built {first : Span} {kind : Change} {source : Node}
    {into argument : Option Node}
    (hfirst : R.Inside a b first) (hsource : source.Fits R .key first.stop c)
    (hinto : ∀ d ∈ into, d.Fits R .location source.span.stop c)
    (hargument : ∀ x ∈ argument, x.Fits R .value c b) (hcb : R.le c b)
    (h : changeNode first kind source into argument = .ok n) : n.Built R a b := by
  unfold changeNode at h
  dsimp only at h
  split at h
  · exact absurd h (by simp)
  rename_i hplace
  obtain rfl := Except.ok.inj h
  have hloc : into = none → source.isLocation := by
    rintro rfl
    simpa using hplace
  have hformed : (Node.change (first.through ((argument.or into).getD source).span) kind source into
      argument).Formed :=
    ⟨hsource.accepts.isOperand, hloc, fun d hd => (hinto d hd).accepts,
      fun x hx => (hargument x hx).accepts⟩
  have hfirst_c : R.le first.stop c := R.le_trans hsource.inside.le_stop hsource.inside.stop
  -- the last part ends the change, and the parts before it end before it begins
  obtain ⟨hlast, hparts⟩ : R.Inside first.stop b ((argument.or into).getD source).span ∧
      ∀ x ∈ source :: (into.toList ++ argument.toList),
        x.Part R (first.through ((argument.or into).getD source).span) := by
    cases argument with
    | some x =>
      have hx : x.Fits R .value c b := hargument x rfl
      refine ⟨hx.inside.of_le_start hfirst_c, ?_⟩
      have hbefore : ∀ {mode : Mode} {y : Node}, y.Fits R mode first.stop c →
          y.Part R (first.through x.span) :=
        fun hy => hy.part hfirst.le hx.inside.le_stop
      cases into with
      | none => simpa using ⟨hbefore hsource, (hx.of_le_start hfirst_c).part_right hfirst⟩
      | some d =>
        have hd := (hinto d rfl).of_le_start hsource.inside.le_stop
        simpa using ⟨hbefore hsource, hbefore hd, (hx.of_le_start hfirst_c).part_right hfirst⟩
    | none =>
      cases into with
      | none =>
        refine ⟨hsource.inside.of_stop_le hcb, ?_⟩
        simpa using hsource.part_right hfirst
      | some d =>
        have hd := hinto d rfl
        have hd' := (hd.of_le_start hsource.inside.le_stop).of_stop_le hcb
        refine ⟨hd'.inside, ?_⟩
        simpa using
          ⟨hsource.upToStop.part (s := first.through d.span) hfirst.le hd.inside.le_stop,
            hd'.part_right hfirst⟩
  exact ⟨hfirst.through hlast, fun _ =>
    Node.sound_change hformed hsource.accepts hparts⟩

/-- A loop or a branch reaches from its first word to its condition. -/
theorem headNode_built {first : Span} {head : Head} {condition : Node} (hfirst : R.Inside a b first)
    (hcondition : condition.Fits R .value first.stop b) :
    (headNode first head condition).Built R a b := by
  cases head with
  | ifTrue =>
    exact built_of_child (by simp [Node.Ordinary, headNode]) hcondition.accepts trivial rfl rfl hfirst hcondition
  | whileTrue =>
    exact built_of_child (by simp [Node.Ordinary, headNode]) hcondition.accepts trivial rfl rfl hfirst hcondition
  | untilTrue =>
    exact built_of_child (by simp [Node.Ordinary, headNode]) hcondition.accepts trivial rfl rfl hfirst hcondition

/-! ### The invariant of statements -/

/-- The parts of a slot that have been read, from the first word of the statement up to `c`. -/
def Slot.Before (R : Order) (first : Span) (c : Position) : Slot → Prop
  | letValue target => target.Fits R .location first.stop c
  | putTarget value => value.Fits R .value first.stop c
  | popTarget source => source.Fits R .location first.stop c ∧ R.lt source.span.stop c
  | change _ (.into source) => source.Fits R .key first.stop c
  | change _ (.argument source into) =>
    source.Fits R .key first.stop c ∧ ∀ d ∈ into, d.Fits R .location source.span.stop c
  | letTarget | putValue | output | inputTarget | adjustTarget _ | turnTarget _ | pushTarget
  | popSource | change _ .source | condition _ | giveBack => R.le first.stop c

namespace Statement

/-- What is asked of a statement that begins after `a` and has been read up to `b`. -/
def Sound (R : Order) (a b : Position) : Statement → Prop
  | start _ => True
  | bare phrase => phrase.Sound R .value a b
  | poetic target literal =>
    ∃ c, target.Fits R .location a c ∧ R.le c b ∧ literal.Sound R c b
  | verbatim target _ _ last => target.Fits R .location a b ∧ R.Inside target.span.stop b last
  | parameters name names current =>
    name.isVariable ∧ name.Fits R .value a b ∧ (∀ p ∈ names, Name.Made R.word p) ∧
      ∃ c, R.le name.span.stop c ∧ R.le c b ∧ current.Sound R .location c b
  | slot first s phrase =>
    R.Inside a b first ∧ R.lt first.start first.stop ∧
      ∃ c, s.Before R first c ∧ R.le c b ∧ phrase.Sound R s.mode c b
  | listen first | turn first | give first => R.Inside a b first ∧ R.lt first.start first.stop
  | adjust first _ target _ last =>
    R.Inside a b first ∧ target.Fits R .location first.stop b ∧ R.Inside target.span.stop b last
  | rock first target values =>
    R.Inside a b first ∧ target.Fits R .location first.stop b ∧ values.Sound R target.span.stop b
  | fixed node _ _ =>
    R.Inside a b node.span ∧ ((∃ s, node = .breakLoop s) ∨ ∃ s, node = .continueLoop s)
  | finished node => node.Built R a b

/-- What a step of a statement has to give. -/
def StepSound (R : Order) (a : Position) (l : Lexeme) : Step Statement Node → Prop
  | .next s => s.Sound R a l.span.stop
  | .done n | .yield n _ => n.Built R a l.span.stop

/-- A statement lies in longer stretches, too. -/
theorem Sound.of_stop_le {s : Statement} (h : s.Sound R a b) (hbc : R.le b c) : s.Sound R a c := by
  cases s with
  | start blank => trivial
  | bare phrase => exact Phrase.Sound.of_stop_le h hbc
  | poetic target literal =>
    obtain ⟨d, ht, hdb, hlit⟩ := h
    exact ⟨d, ht, R.le_trans hdb hbc, hlit.of_stop_le hbc⟩
  | verbatim target text started last => exact ⟨h.1.of_stop_le hbc, h.2.of_stop_le hbc⟩
  | parameters name names current =>
    obtain ⟨hvar, hname, hnames, d, hd, hdb, hcurrent⟩ := h
    exact ⟨hvar, hname.of_stop_le hbc, hnames, d, hd, R.le_trans hdb hbc, hcurrent.of_stop_le hbc⟩
  | slot first s phrase =>
    obtain ⟨hfirst, hlt, d, hbefore, hdb, hphrase⟩ := h
    exact ⟨hfirst.of_stop_le hbc, hlt, d, hbefore, R.le_trans hdb hbc, hphrase.of_stop_le hbc⟩
  | listen first => exact ⟨h.1.of_stop_le hbc, h.2⟩
  | turn first => exact ⟨h.1.of_stop_le hbc, h.2⟩
  | give first => exact ⟨h.1.of_stop_le hbc, h.2⟩
  | adjust first up target count last =>
    exact ⟨h.1.of_stop_le hbc, h.2.1.of_stop_le hbc, h.2.2.of_stop_le hbc⟩
  | rock first target values =>
    exact ⟨h.1.of_stop_le hbc, h.2.1.of_stop_le hbc, h.2.2.of_stop_le hbc⟩
  | fixed node remaining optional => exact ⟨h.1.of_stop_le hbc, h.2⟩
  | finished node => exact Node.Built.of_stop_le h hbc

/-! ### Slots -/

/-- A statement that ends with its line is built. -/
theorem endWith_sound {l : Lexeme} {within : Construct} {s : Step Statement Node}
    (hn : n.Built R a l.span.stop) (h : endWith n l within = .ok s) : StepSound R a l s := by
  unfold endWith at h
  split at h
  · obtain rfl := Except.ok.inj h
    exact hn
  · exact absurd h (by simp)

/-- Words are not empty, so that the lexeme ends after it begins. -/
theorem lt_of_isWord {word : String} {l : Lexeme} (hl : R.Follows b l) (h : l.isWord word) :
    R.lt l.span.start l.span.stop := by
  have hword : l.word = some word := by simpa [Lexeme.isWord] using h
  exact hl.word (Lexeme.kind_of_word hword).1

/-- A fixed word takes a statement further. -/
theorem expect_sound {word : String} {l : Lexeme} {t : Statement} {s : Step Statement Node}
    (hl : R.Follows b l) (ht : R.lt l.span.start l.span.stop → t.Sound R a l.span.stop)
    (h : expect word l t = .ok s) : StepSound R a l s := by
  unfold expect at h
  split at h
  · rename_i hword
    obtain rfl := Except.ok.inj h
    exact ht (lt_of_isWord hl hword)
  · exact absurd h (by simp)

/-- Waiting for the next phrase, with the parts before it up to the lexeme. -/
theorem await_sound {l : Lexeme} {first : Span} {slot : Slot} (hfirst : R.Inside a b first)
    (hlt : R.lt first.start first.stop) (hl : R.Follows b l)
    (hbefore : slot.Before R first l.span.stop) : (await first slot).Sound R a l.span.stop :=
  ⟨hfirst.of_stop_le hl.le_stop, hlt, l.span.stop, hbefore, R.le_refl _, rfl⟩

/-- What becomes of a change after one of its parts. -/
theorem part_close_sound {first : Span} {kind : Change} {part : Part} {l : Lexeme}
    {s : Step Statement Node} (hfirst : R.Inside a b first) (hlt : R.lt first.start first.stop)
    (hbefore : (Slot.change kind part).Before R first c) (hcb : R.le c b)
    (hn : n.Fits R (Slot.change kind part).mode c b) (hl : R.Follows b l)
    (h : part.close first kind n l = .ok s) : StepSound R a l s := by
  have hb : R.le b l.span.stop := hl.le_stop
  have hfirst' : R.Inside a l.span.stop first := hfirst.of_stop_le hb
  cases part with
  | source =>
    have hbefore : R.le first.stop c := hbefore
    have hn' : n.Fits R .key first.stop b := Node.Fits.of_le_start hn hbefore
    rw [Part.close] at h
    split at h
    · obtain ⟨x, hx, rfl⟩ := map_eq_ok.mp h
      exact changeNode_built hfirst' hn' (by simp) (by simp) hb hx
    split at h
    · obtain rfl := Except.ok.inj h
      exact await_sound hfirst hlt hl (hn'.of_stop_le hb)
    split at h
    · obtain rfl := Except.ok.inj h
      exact await_sound hfirst hlt hl ⟨hn'.of_stop_le hb, by simp⟩
    · exact absurd h (by simp)
  | into source =>
    have hsource : source.Fits R .key first.stop c := hbefore
    have hn' : n.Fits R .location source.span.stop b :=
      Node.Fits.of_le_start hn hsource.inside.stop
    have hsource' : source.Fits R .key first.stop b := hsource.of_stop_le hcb
    rw [Part.close] at h
    split at h
    · obtain ⟨x, hx, rfl⟩ := map_eq_ok.mp h
      exact changeNode_built hfirst' hsource' (by simpa using hn') (by simp) hb hx
    split at h
    · obtain rfl := Except.ok.inj h
      exact await_sound hfirst hlt hl
        ⟨hsource'.of_stop_le hb, by simpa using hn'.of_stop_le hb⟩
    · exact absurd h (by simp)
  | argument source into =>
    obtain ⟨hsource, hinto⟩ := hbefore
    have hn' : n.Fits R .value c l.span.stop := Node.Fits.of_stop_le hn hb
    rw [Part.close] at h
    split at h
    · obtain ⟨x, hx, rfl⟩ := map_eq_ok.mp h
      exact changeNode_built hfirst' hsource hinto (by simpa using hn') (R.le_trans hcb hb) hx
    · exact absurd h (by simp)

/-- When the phrase of a slot ends, the statement goes on with it among its parts, or is built from
all of them. -/
theorem slot_close_sound {first : Span} {slot : Slot} {l : Lexeme} {s : Step Statement Node}
    (hfirst : R.Inside a b first) (hlt : R.lt first.start first.stop)
    (hbefore : slot.Before R first c) (hcb : R.le c b) (hn : n.Fits R slot.mode c b)
    (hl : R.Follows b l) (h : slot.close first n l = .ok s) : StepSound R a l s := by
  have hb : R.le b l.span.stop := hl.le_stop
  have hfirst' : R.Inside a l.span.stop first := hfirst.of_stop_le hb
  have hn' : n.Fits R slot.mode c l.span.stop := hn.of_stop_le hb
  cases slot with
  | letTarget =>
    have ht : n.Fits R .location first.stop l.span.stop := hn'.of_le_start hbefore
    rw [Slot.close] at h
    refine expect_sound hl (fun _ => ?_) h
    exact await_sound hfirst hlt hl ht
  | letValue target =>
    have ht : target.Fits R .location first.stop c := hbefore
    have hv : n.Fits R .value first.stop l.span.stop :=
      hn'.of_le_start (R.le_trans ht.inside.le_stop ht.inside.stop)
    rw [Slot.close] at h
    refine endWith_sound ?_ h
    refine ⟨hfirst'.through hv.inside, fun _ => ?_⟩
    refine Node.sound_assign ?_ (hv.part_right hfirst') ht.accepts hv.accepts ?_
    · exact ht.part hfirst.le hn.inside.le_stop
    · -- the first word stands in front of the value, whatever this is
      exact fun _ => R.lt_of_lt_of_le hlt hv.inside.start
  | putValue =>
    have hv : n.Fits R .value first.stop l.span.stop := hn'.of_le_start hbefore
    rw [Slot.close] at h
    refine expect_sound hl (fun _ => ?_) h
    exact await_sound hfirst hlt hl hv
  | putTarget value =>
    have hv : value.Fits R .value first.stop c := hbefore
    have ht : n.Fits R .location first.stop l.span.stop :=
      hn'.of_le_start (R.le_trans hv.inside.le_stop hv.inside.stop)
    rw [Slot.close] at h
    refine endWith_sound ?_ h
    refine ⟨hfirst'.through ht.inside, fun _ => ?_⟩
    refine Node.sound_assign (ht.part_right hfirst') ?_ ht.accepts hv.accepts ?_
    · exact hv.part hfirst.le hn.inside.le_stop
    · exact fun _ => R.lt_of_lt_of_le hlt hv.inside.start
  | output =>
    have hv : n.Fits R .value first.stop l.span.stop := hn'.of_le_start hbefore
    rw [Slot.close] at h
    refine endWith_sound ?_ h
    exact built_of_child (by simp [Node.Ordinary]) hv.accepts trivial rfl rfl hfirst' hv
  | inputTarget =>
    have ht : n.Fits R .location first.stop l.span.stop := hn'.of_le_start hbefore
    have hformed : ∀ x ∈ some n, x.isLocation := by
      rintro x ⟨⟩
      exact ht.accepts
    rw [Slot.close] at h
    refine endWith_sound ?_ h
    exact built_of_child (by simp [Node.Ordinary]) hformed trivial rfl rfl hfirst' ht
  | adjustTarget up =>
    have ht : n.Fits R .location first.stop l.span.stop := hn'.of_le_start hbefore
    rw [Slot.close] at h
    refine expect_sound hl ?_ h
    exact fun _ => ⟨hfirst', ht, (hl.of_le hn.inside.stop).inside⟩
  | turnTarget mode =>
    have ht : n.Fits R .location first.stop b := hn.of_le_start hbefore
    have ht' := ht.of_stop_le hb
    cases mode with
    | some mode =>
      rw [Slot.close] at h
      refine endWith_sound ?_ h
      exact built_of_child (by simp [Node.Ordinary]) ht.accepts trivial rfl rfl hfirst' ht'
    | none =>
      rw [Slot.close] at h
      split at h
      · obtain rfl := Except.ok.inj h
        refine finished_built hfirst' (hl.of_le (R.le_trans hbefore hcb)) ht' ?_ rfl rfl
        exact Node.sound_of_parts (by simp [Node.Ordinary]) ht.accepts trivial
      · exact absurd h (by simp)
  | pushTarget =>
    have ht : n.Fits R .location first.stop l.span.stop := hn'.of_le_start hbefore
    rw [Slot.close] at h
    split at h
    · obtain rfl := Except.ok.inj h
      exact ⟨hfirst', ht, Listing.empty_sound ht.inside.stop⟩
    · refine endWith_sound ?_ h
      exact built_of_child (by simp [Node.Ordinary, pushNode]) ⟨ht.accepts, by simp⟩ trivial rfl rfl
        hfirst' ht
  | popSource =>
    have ht : n.Fits R .location first.stop l.span.stop := hn'.of_le_start hbefore
    rw [Slot.close] at h
    split at h
    · rename_i hinto
      obtain rfl := Except.ok.inj h
      refine await_sound hfirst hlt hl ⟨ht, ?_⟩
      -- the word `into` stands between the array and the target
      exact R.lt_of_le_of_lt (R.le_trans hn.inside.stop hl.start) (lt_of_isWord hl hinto)
    · refine endWith_sound ?_ h
      exact built_of_child (by simp [Node.Ordinary]) ht.accepts trivial rfl rfl hfirst' ht
  | popTarget source =>
    obtain ⟨hsource, hafter⟩ := hbefore
    have ht : n.Fits R .location c b := hn
    have hsource' : source.Fits R .location first.stop l.span.stop :=
      hsource.of_stop_le (R.le_trans hcb hb)
    have hpop : (Node.pop (first.through source.span) source).Built R a l.span.stop :=
      built_of_child (by simp [Node.Ordinary]) hsource'.accepts trivial rfl rfl hfirst' hsource'
    rw [Slot.close] at h
    refine endWith_sound ?_ h
    refine ⟨hpop.inside, fun _ => ?_⟩
    -- the span ends with the array, before the target begins
    refine ⟨⟨⟨ht.accepts, rfl⟩, ⟨?_, .inr ⟨rfl, rfl, ?_⟩⟩, trivial, trivial⟩, ?_⟩
    · exact ⟨R.le_refl _, R.le_refl _⟩
    · exact R.lt_of_lt_of_le hafter ht.inside.le_stop
    · simpa [Node.children] using ⟨ht.sound, hpop.sound rfl⟩
  | change kind part => exact part_close_sound hfirst hlt hbefore hcb hn hl h
  | condition head =>
    have hv : n.Fits R .value first.stop l.span.stop := hn'.of_le_start hbefore
    rw [Slot.close] at h
    exact endWith_sound (headNode_built hfirst' hv) h
  | giveBack =>
    have hv : n.Fits R .value first.stop b := hn.of_le_start hbefore
    have hv' := hv.of_stop_le hb
    rw [Slot.close] at h
    split at h
    · obtain rfl := Except.ok.inj h
      refine finished_built hfirst' (hl.of_le (R.le_trans hbefore hcb)) hv' ?_ rfl rfl
      exact Node.sound_of_parts (by simp [Node.Ordinary]) hv.accepts trivial
    · refine endWith_sound ?_ h
      exact built_of_child (by simp [Node.Ordinary]) hv.accepts trivial rfl rfl hfirst' hv'

/-! ### The first lexeme -/

/-- Every form of statement begins with its first word. -/
theorem ofWord?_sound {l : Lexeme} {word : String} {s : Statement} (hl : R.Follows a l)
    (hlt : R.lt l.span.start l.span.stop) (h : ofWord? l.span word = some s) :
    s.Sound R a l.span.stop := by
  have hfirst : R.Inside a l.span.stop l.span := hl.inside
  have hawait : ∀ slot : Slot, slot.Before R l.span l.span.stop →
      (await l.span slot).Sound R a l.span.stop :=
    fun slot hbefore => ⟨hfirst, hlt, l.span.stop, hbefore, R.le_refl _, rfl⟩
  unfold ofWord? at h
  split at h
  -- a first word opens a slot, needs more words after it, or is a statement of its own
  all_goals cases h
  all_goals first
    | exact hawait _ (R.le_refl _)
    | exact ⟨hfirst, hlt⟩
    | exact ⟨hfirst, .inl ⟨_, rfl⟩⟩
    | exact ⟨hfirst, .inr ⟨_, rfl⟩⟩
    | exact ⟨hfirst, fun hmark => Bool.noConfusion hmark⟩
    | exact ⟨hfirst, fun _ => Node.sound_of_leaf rfl trivial trivial⟩

/-- A statement that begins with an operand. -/
theorem pushBare_sound {phrase : Phrase} {l : Lexeme} {s : Step Statement Node}
    (hp : phrase.Sound R .value a b) (hab : R.le a b) (hl : R.Follows b l)
    (h : pushBare phrase l = .ok s) : StepSound R a l s := by
  unfold pushBare at h
  split at h
  · -- a copula or a quotative makes a target of what has been read
    rename_i hcopula
    rw [Bool.and_eq_true] at hcopula
    obtain ⟨target, htarget, rfl⟩ := map_eq_ok.mp h
    exact ⟨b, Phrase.finish_location hcopula.2 hp htarget, hl.le_stop, trivial⟩
  split at h
  · rename_i hsays
    rw [Bool.and_eq_true] at hsays
    obtain ⟨target, htarget, rfl⟩ := map_eq_ok.mp h
    have ht := Phrase.finish_location hsays.2 hp htarget
    exact ⟨ht.of_stop_le hl.le_stop, (hl.of_le ht.inside.stop).inside⟩
  split at h
  · -- the head of a function
    rename_i hdeclares
    obtain ⟨name, hname, rfl⟩ := map_eq_ok.mp h
    have hfits := (Phrase.finish_fits hp hname).1
    obtain ⟨span, text, hvar⟩ :=
      Phrase.finish_of_isVariable (Bool.and_eq_true_iff.mp hdeclares).2 l.span
    obtain rfl := Except.ok.inj (hname.symm.trans hvar)
    exact ⟨rfl, hfits.of_stop_le hl.le_stop, by simp, l.span.stop,
      R.le_trans hfits.inside.stop hl.le_stop, R.le_refl _, rfl⟩
  · obtain ⟨t, ht, hnext⟩ := bind_eq_ok.mp h
    rcases Phrase.feed_cases ht with ⟨q, hq, rfl⟩ | ⟨n, hn, rfl⟩
    · obtain rfl := Except.ok.inj hnext
      exact Phrase.push_sound hp hab hl hq
    · have hsound := Phrase.push_sound hp hab hl hn
      exact endWith_sound (Node.Fits.built hsound |>.of_stop_le hl.le_stop) hnext

/-- A statement that has not begun. -/
theorem pushStart_sound {blank : Bool} {l : Lexeme} {s : Step Statement Node} (hab : R.le a b)
    (hl : R.Follows b l) (h : pushStart blank l = .ok s) : StepSound R a l s := by
  have hblank : (Node.blank l.span).Built R a l.span.stop :=
    ⟨(hl.of_le hab).inside, fun hmark => Bool.noConfusion hmark⟩
  have hline : (Except.ok (if blank then Step.done (.blank l.span) else .next fresh) :
      Except ParseError (Step Statement Node)) = .ok s → StepSound R a l s := by
    intro hs
    cases blank with
    | true =>
      obtain rfl := Except.ok.inj hs
      exact hblank
    | false =>
      obtain rfl := Except.ok.inj hs
      trivial
  unfold pushStart at h
  split at h
  · obtain rfl := Except.ok.inj h
    trivial
  · obtain rfl := Except.ok.inj h
    trivial
  · exact hline h
  · exact hline h
  · split at h
    · rename_i statement hword
      obtain rfl := Except.ok.inj h
      obtain ⟨word, hword, hstatement⟩ := Option.bind_eq_some_iff.mp hword
      have hisWord : l.isWord word := by simp [Lexeme.isWord, hword]
      exact ofWord?_sound (hl.of_le hab) (lt_of_isWord hl hisWord) hstatement
    · have hempty : (Phrase.empty .value).Sound R .value a b := rfl
      exact pushBare_sound hempty hab hl h

/-! ### The other lexemes -/

/-- Poetic strings. -/
theorem pushVerbatim_sound {target : Node} {text : String} {started : Bool} {last : Span}
    {l : Lexeme} (ht : target.Fits R .location a b) (hlast : R.Inside target.span.stop b last)
    (hl : R.Follows b l) : StepSound R a l (pushVerbatim target text started last l) := by
  unfold pushVerbatim
  split
  · exact (assignment_built ht.upToStop hlast).of_stop_le hl.le_stop
  · exact ⟨ht.of_stop_le hl.le_stop, (hl.of_le ht.inside.stop).inside⟩

/-- The head of a function. -/
theorem pushParameter_sound {name : Node} {names : List String} {current : Phrase} {l : Lexeme}
    {s : Step Statement Node} (hvar : name.isVariable) (hname : name.Fits R .value a b)
    (hnames : ∀ p ∈ names, Name.Made R.word p) (hc : R.le name.span.stop c) (hcb : R.le c b)
    (hcurrent : current.Sound R .location c b) (hl : R.Follows b l)
    (h : pushParameter name names current l = .ok s) : StepSound R a l s := by
  have hb : R.le b l.span.stop := hl.le_stop
  have hname' := hname.of_stop_le hb
  unfold pushParameter at h
  split at h
  · obtain rfl := Except.ok.inj h
    exact ⟨hvar, hname', hnames, c, hc, R.le_trans hcb hb, hcurrent.of_stop_le hb⟩
  obtain ⟨t, ht, hnext⟩ := bind_eq_ok.mp h
  rcases Phrase.feed_cases ht with ⟨q, hq, rfl⟩ | ⟨n, hn, rfl⟩
  · obtain rfl := Except.ok.inj hnext
    have hsound := Phrase.push_sound hcurrent hcb hl hq
    exact ⟨hvar, hname', hnames, c, hc, R.le_trans hcb hb, hsound⟩
  · have hsound : n.Fits R .location c b := Phrase.push_sound hcurrent hcb hl hn
    cases n with
    | var last parameter =>
      have hlast : R.Inside name.span.stop l.span.stop last :=
        (hsound.inside.of_le_start hc).of_stop_le hb
      have hall : ∀ p ∈ names ++ [parameter], Name.Made R.word p := by
        intro p hp
        rcases List.mem_append.mp hp with hp | hp
        · exact hnames p hp
        · rw [List.mem_singleton.mp hp]
          exact hsound.sound.here.spelled
      dsimp only at hnext
      split at hnext
      · obtain rfl := Except.ok.inj hnext
        cases name with
        | var span text =>
          rw [Phrase.functionNode_var]
          refine ⟨hname'.inside.through hlast,
            fun _ => Node.sound_of_leaf rfl ?_ ⟨hname.sound.here.spelled, hall⟩⟩
          simp [Node.Formed]
        | _ => cases hvar
      split at hnext
      · obtain rfl := Except.ok.inj hnext
        exact ⟨hvar, hname', hall, l.span.stop, R.le_trans hc (R.le_trans hcb hb), R.le_refl _, rfl⟩
      · exact absurd hnext (by simp)
    | _ => exact absurd hnext (by simp)

/-- A statement with a phrase in a slot. -/
theorem pushSlot_sound {first : Span} {slot : Slot} {phrase : Phrase} {l : Lexeme}
    {s : Step Statement Node} (hfirst : R.Inside a b first) (hlt : R.lt first.start first.stop)
    (hbefore : slot.Before R first c) (hcb : R.le c b) (hp : phrase.Sound R slot.mode c b)
    (hl : R.Follows b l) (h : pushSlot first slot phrase l = .ok s) : StepSound R a l s := by
  obtain ⟨t, ht, hnext⟩ := bind_eq_ok.mp h
  rcases Phrase.feed_cases ht with ⟨q, hq, rfl⟩ | ⟨n, hn, rfl⟩
  · obtain rfl := Except.ok.inj hnext
    have hsound := Phrase.push_sound hp hcb hl hq
    exact ⟨hfirst.of_stop_le hl.le_stop, hlt, c, hbefore, R.le_trans hcb hl.le_stop, hsound⟩
  · have hsound := Phrase.push_sound hp hcb hl hn
    exact slot_close_sound hfirst hlt hbefore hcb hsound hl hnext

/-- A statement that is made of fixed words. -/
theorem pushFixed_sound {node : Node} {remaining : List String} {optional : Bool} {l : Lexeme}
    {s : Step Statement Node} (hnode : (fixed node remaining optional).Sound R a b)
    (hl : R.Follows b l) (h : pushFixed node remaining optional l = .ok s) : StepSound R a l s := by
  obtain ⟨hspan, hkind⟩ := hnode
  unfold pushFixed at h
  split at h
  · obtain rfl := Except.ok.inj h
    refine ⟨hspan.of_stop_le hl.le_stop, fun _ => ?_⟩
    rcases hkind with ⟨s, rfl⟩ | ⟨s, rfl⟩
    · exact Node.sound_of_leaf rfl trivial trivial
    · exact Node.sound_of_leaf rfl trivial trivial
  · have hlonger := hspan.through (hl.of_le hspan.stop).inside
    split at h
    · refine expect_sound hl (fun _ => ?_) h
      rcases hkind with ⟨s, rfl⟩ | ⟨s, rfl⟩
      · exact ⟨hlonger, .inl ⟨_, rfl⟩⟩
      · exact ⟨hlonger, .inr ⟨_, rfl⟩⟩
    · exact absurd h (by simp)

/-- **Every lexeme takes a sound statement to a sound statement, or to a node that is built.** -/
theorem take_sound {s : Statement} {l : Lexeme} {t : Step Statement Node} (hs : s.Sound R a b)
    (hab : R.le a b) (hl : R.Follows b l) (h : s.take l = .ok t) : StepSound R a l t := by
  have hb : R.le b l.span.stop := hl.le_stop
  cases s with
  | start blank => exact absurd h (by simp [take])
  | poetic target literal => exact absurd h (by simp [take])
  | verbatim target text started last => exact absurd h (by simp [take])
  | bare phrase => exact pushBare_sound hs hab hl h
  | parameters name names current =>
    obtain ⟨hvar, hname, hnames, c, hc, hcb, hcurrent⟩ := hs
    exact pushParameter_sound hvar hname hnames hc hcb hcurrent hl h
  | slot first slot phrase =>
    obtain ⟨hfirst, hlt, c, hbefore, hcb, hp⟩ := hs
    exact pushSlot_sound hfirst hlt hbefore hcb hp hl h
  | listen first =>
    obtain ⟨hfirst, hlt⟩ := hs
    rw [take] at h
    split at h
    · obtain rfl := Except.ok.inj h
      refine ⟨hfirst.of_stop_le hb, fun _ => Node.sound_of_leaf rfl ?_ trivial⟩
      simp [Node.Formed]
    · refine expect_sound hl (fun _ => ?_) h
      exact await_sound hfirst hlt hl (hfirst.of_stop_le hb).stop
  | adjust first up target count last =>
    obtain ⟨hfirst, ht, hlast⟩ := hs
    rw [take] at h
    split at h
    · obtain rfl := Except.ok.inj h
      exact (adjustment_built hfirst ht hlast).of_stop_le hb
    split at h
    · obtain rfl := Except.ok.inj h
      exact ⟨hfirst.of_stop_le hb, ht.of_stop_le hb, hlast.of_stop_le hb⟩
    · refine expect_sound hl (fun _ => ?_) h
      exact ⟨hfirst.of_stop_le hb, ht.of_stop_le hb, (hl.of_le ht.inside.stop).inside⟩
  | turn first =>
    obtain ⟨hfirst, hlt⟩ := hs
    rw [take] at h
    split at h
    · obtain rfl := Except.ok.inj h
      exact await_sound hfirst hlt hl (hfirst.of_stop_le hb).stop
    · have hbefore : (Slot.turnTarget none).Before R first b := hfirst.stop
      have hempty : (Phrase.empty .location).Sound R (Slot.turnTarget none).mode b b := rfl
      exact pushSlot_sound hfirst hlt hbefore (R.le_refl b) hempty hl h
  | rock first target values =>
    obtain ⟨hfirst, ht, hvalues⟩ := hs
    obtain ⟨u, hu, hnext⟩ := bind_eq_ok.mp h
    have hsound := Listing.push_sound hvalues hl hu
    rcases Listing.push_cases hu with ⟨list, rfl⟩ | ⟨n, -, rfl⟩
    · obtain rfl := Except.ok.inj hnext
      exact ⟨hfirst.of_stop_le hb, ht.of_stop_le hb, hsound⟩
    · obtain ⟨items, hlist, hitems⟩ := hsound
      rw [hlist] at hnext
      exact endWith_sound ((push_built hfirst ht hitems).of_stop_le hb) hnext
  | give first =>
    obtain ⟨hfirst, hlt⟩ := hs
    rw [take] at h
    split at h
    · obtain rfl := Except.ok.inj h
      exact await_sound hfirst hlt hl (hfirst.of_stop_le hb).stop
    · have hbefore : Slot.giveBack.Before R first b := hfirst.stop
      have hempty : (Phrase.empty .value).Sound R Slot.giveBack.mode b b := rfl
      exact pushSlot_sound hfirst hlt hbefore (R.le_refl b) hempty hl h
  | fixed node remaining optional => exact pushFixed_sound hs hl h
  | finished node => exact endWith_sound (Node.Built.of_stop_le hs hb) h

/-- **A lexeme keeps a statement sound**, or ends it with a node that is built. -/
theorem push_sound {s : Statement} {l : Lexeme} {t : Step Statement Node} (hs : s.Sound R a b)
    (hab : R.le a b) (hl : R.Follows b l) (h : s.push l = .ok t) : StepSound R a l t := by
  unfold push at h
  split at h
  · exact pushStart_sound hab hl h
  · obtain rfl := Except.ok.inj h
    exact pushVerbatim_sound hs.1 hs.2 hl
  · obtain ⟨c, ht, hcb, hliteral⟩ := hs
    obtain ⟨u, hu, rfl⟩ := map_eq_ok.mp h
    have hsound := Poetic.push_sound hliteral hcb hl hu
    cases u with
    | next literal => exact ⟨c, ht, R.le_trans hcb hl.le_stop, hsound⟩
    | done value | yield value l' =>
      obtain ⟨s, v, rfl, hs⟩ := hsound
      exact assignment_built ht hs
  · split at h
    · obtain rfl := Except.ok.inj h
      exact hs.of_stop_le hl.le_stop
    · exact take_sound hs hab hl h

end Statement

end Reading

end Ballad
