import Ballad.Proofs.Reading.Runs
import Ballad.Proofs.Relocation.Lines
import Ballad.Proofs.Tree

/-!
# Pops as statements and as values

`roll` takes the last entry off an array. A statement that begins with it reads a whole location, and
then takes the last entry off what is stored there. As a value, `roll` binds as tightly as an index does;
and as constructs that bind alike lean to the left, each index after it takes the entry that has been
taken off. So the two mean the same exactly where there is no index.

- `Grammar.Location`: a variable or a pronoun and the keys after it, as lexemes.
- `Node.indexed`: the entry under some keys.
- `Location.reads`, `Location.reads_pop`: what a location is read to, and what it is read to after a
  `roll`.
- `Program.read_two_slots`: statements of two phrases with a word between them.
- `roll_statement_and_value`: what both forms are read to.
-/

namespace Ballad

open Reading Reading.Phrase Placed

namespace Node

/-- The entry under some keys, one after the other. -/
def indexed (n : Node) (keys : List Node) : Node :=
  keys.foldl (fun target key => .index (target.span.through key.span) target key) n

theorem indexed_concat (n : Node) (keys : List Node) (key : Node) :
    n.indexed (keys ++ [key]) =
      .index ((n.indexed keys).span.through key.span) (n.indexed keys) key := by
  rw [indexed, List.foldl_append]
  rfl

theorem move_indexed (g : Position → Position) (n : Node) (keys : List Node) :
    move g (n.indexed keys) = (move g n).indexed (move g keys) := by
  induction keys generalizing n with
  | nil => rfl
  | cons key keys ih =>
    have hindex : move g (index (n.span.through key.span) n key) =
        .index ((move g n).span.through (move g key).span) (move g n) (move g key) := by
      rw [span_move, span_move]
      rfl
    show move g ((index _ n key).indexed keys) = _
    rw [ih, hindex]
    rfl

end Node

/-! ### Locations -/

namespace Grammar

/-- Indices with their keys. -/
inductive Keys : List Lexeme → List Node → Prop where
  | nil : Keys [] []
  | cons {l : Lexeme} {ks ls : List Lexeme} {key : Node} {keys : List Node}
      (hl : l.word = some "at") (hkey : Primary ks key) (hrest : Keys ls keys) :
      Keys (l :: (ks ++ ls)) (key :: keys)

/-- A variable or a pronoun, and the indices after it. -/
inductive Location : List Lexeme → Node → List Node → Prop where
  | intro {rs ks : List Lexeme} {root : Node} {keys : List Node} (hroot : Primary rs root)
      (hloc : root.isLocation) (hkeys : Keys ks keys) : Location (rs ++ ks) root keys

variable {mode : Mode} {ls : List Lexeme} {n root : Node} {keys : List Node}

/-- Each key takes all that stands before it, in every mode. -/
theorem Keys.reads (h : Keys ls keys) {p : Phrase} (hp : Whole mode suffixRank p n) :
    ∃ q, Reads negationRank p ls q ∧ Whole mode suffixRank q (n.indexed keys) := by
  induction h generalizing p n with
  | nil => exact ⟨p, .nil, hp⟩
  | cons hl hkey _ ih =>
    obtain ⟨q, hindex, hq⟩ := reads_index hp hl hkey
    obtain ⟨r, hrest, hr⟩ := ih hq
    exact ⟨r, hindex.append hrest, hr⟩

/-- Where a location is expected, all of it is read as one. -/
theorem Location.reads (h : Location ls root keys) :
    ∃ q, Reads negationRank (empty .location) ls q ∧
      Whole .location suffixRank q (root.indexed keys) := by
  obtain ⟨hroot, hloc, hkeys⟩ := h
  obtain ⟨p, hreads, hp⟩ := hroot.reads_mode fun _ => hloc
  obtain ⟨q, hrest, hq⟩ := hkeys.reads hp
  exact ⟨q, (hreads.mono (by decide)).append hrest, hq⟩

/-- Where a value is expected, a `roll` ends before the first index, which takes what has been taken
off. -/
theorem Location.reads_pop (h : Location ls root keys) {roll : Lexeme}
    (hroll : roll.word = some "roll" ∨ roll.word = some "pop") :
    ∃ q, Reads negationRank (empty .value) (roll :: ls) q ∧
      Whole .value suffixRank q
        ((Node.pop (roll.span.through root.span) root).indexed keys) := by
  obtain ⟨hroot, hloc, hkeys⟩ := h
  have hstart : (empty .value).take roll =
      .ok (.next (within .value (.pop roll.span) (empty .location))) := by
    rcases hroll with hl | hl
    · rw [take_empty hl]
      rfl
    · rw [take_empty hl]
      rfl
  obtain ⟨p, hreads, hp⟩ := hroot.reads_mode fun _ => hloc
  have hset : (Shell.pop roll.span).isSettled := rfl
  have hinside := hreads.within hset (Nat.le_refl _)
  obtain ⟨q, hrest, hq⟩ := hkeys.reads (hp.within hset)
  exact ⟨q, .cons hstart free_empty ((hinside.mono (by decide)).append hrest), hq⟩

/-! ### Locations without positions -/

variable (g : Position → Position)

/-- A proper noun is one wherever it stands. -/
theorem ProperNoun.move {name : String} {span : Span} (h : ProperNoun ls name span) :
    ProperNoun (move g ls) name (move g span) := by
  induction h with
  | first hl => exact .first hl
  | next _ hl ih =>
    rw [move_append]
    exact .next ih hl

/-- So is a primary. -/
theorem Primary.move (h : Primary ls n) : Primary (move g ls) (move g n) := by
  cases h with
  | number hl hx => exact .number hl hx
  | string hl => exact .string hl
  | constant hl hv => exact .constant hl hv
  | pronoun hl hp => exact .pronoun hl hp
  | simple hl hr hc => exact .simple hl hr hc
  | common ha hart hl => exact .common ha hart hl
  | proper hls => exact .proper (hls.move g)

/-- So are keys. -/
theorem Keys.move (h : Keys ls keys) : Keys (move g ls) (move g keys) := by
  induction h with
  | nil => exact .nil
  | cons hl hkey _ ih =>
    rw [move_cons, move_append]
    exact .cons hl (hkey.move g) ih

/-- So is a location. -/
theorem Location.move (h : Location ls root keys) :
    Location (move g ls) (move g root) (move g keys) := by
  obtain ⟨hroot, hloc, hkeys⟩ := h
  rw [move_append]
  exact .intro (hroot.move g) (by rwa [Node.isLocation_move]) (hkeys.move g)

theorem significant_move (ts : List Lexeme) :
    significant (move g ts) = move g (significant ts) :=
  List.filter_map

end Grammar

/-! ### Statements of two phrases -/

namespace Reading.Statement

open Grammar (significant)

variable {b : Nat} {first : Span} {s : Slot} {p q : Phrase} {n : Node} {l : Lexeme}
  {ls ts : List Lexeme}

/-- A lexeme that neither goes on with an operand nor takes it as its own. -/
structure Closes (l : Lexeme) : Prop where
  trivia : l.isTrivia = false
  proper : l.isProperWord = false
  suffix : Suffix.of? .value l = none

theorem closes_into (hl : l.word = some "into") : Closes l where
  trivia := by simp [Lexeme.isTrivia, (Lexeme.kind_of_word hl).1]
  proper := Grammar.not_isProperWord hl (by decide)
  suffix := by
    rw [Suffix.of?, hl]
    rfl

theorem closes_newline (hl : l.isNewline) : Closes l where
  trivia := Lexeme.isTrivia_of_isNewline hl
  proper := Lexeme.isProperWord_of_isNewline hl
  suffix := of?_of_isNewline hl .value

/-- The phrase of a slot takes its lexemes, with blanks and comments anywhere among them. -/
theorem goes_slot (h : Reads b p (significant ts) q) :
    Line.Goes (.statement (.slot first s p)) ts (.statement (.slot first s q)) := by
  induction ts generalizing p with
  | nil =>
    cases h
    exact .nil
  | cons l ts ih =>
    by_cases hl : l.isTrivia
    · rw [significant, List.filter_cons_of_neg (by simp [hl])] at h
      have hpush : (slot first s p).push l = .ok (.next (slot first s p)) := if_pos hl
      exact .cons (Line.push_statement_next hpush) (ih h)
    · rw [significant, List.filter_cons_of_pos (by simp [hl])] at h
      cases h with
      | @cons _ r _ _ _ htake _ hrest =>
        have htrivia : l.isTrivia = false := by simpa using hl
        have hpush : (slot first s p).push l = .ok (.next (slot first s r)) :=
          push_slot_of_next htrivia ((push_eq_take htrivia).trans htake) first s
        exact .cons (Line.push_statement_next hpush) (ih hrest)

/-- A lexeme that closes a phrase hands its node to the slot. -/
theorem push_closes {mode : Mode} (hq : Whole mode b q n) (hl : Closes l) :
    (slot first s q).push l = s.close first n l :=
  push_slot_of_yield hl.trivia
    ((push_eq_take hl.trivia).trans (hq.take_yield hl.proper hl.suffix)) first s

/-- A slot takes its phrase, and the lexeme after it closes the slot. -/
theorem goes_to_close {c : Nat} {ms : List Lexeme} {mode : Mode} (first : Span)
    (hreads : Reads b (empty s.mode) ls q) (hq : Whole mode c q n) (hl : Closes l)
    (hts : significant ts = ls ++ l :: ms) :
    ∃ before after, ts = before ++ l :: after ∧ significant after = ms ∧
      Line.Goes (.statement (await first s)) before (.statement (.slot first s q)) ∧
      (slot first s q).push l = s.close first n l := by
  obtain ⟨ts₁, ts₂, rfl, h₁, h₂⟩ := List.filter_eq_append_iff.mp hts
  obtain ⟨gap, after, rfl, hgap, -, hafter⟩ := List.filter_eq_cons_iff.mp h₂
  have hwords : significant (ts₁ ++ gap) = ls := by
    have hnone : significant gap = [] := List.filter_eq_nil_iff.mpr hgap
    rw [significant, List.filter_append, h₁]
    exact (congrArg (ls ++ ·) hnone).trans (List.append_nil ls)
  refine ⟨ts₁ ++ gap, after, (List.append_assoc _ _ _).symm, hafter, ?_, push_closes hq hl⟩
  exact goes_slot (hwords ▸ hreads)

/-- Blanks and comments do not begin a line. -/
theorem goes_start (h : ∀ l ∈ ts, l.isTrivia) (blank : Bool) :
    ∃ blank', Line.Goes (.statement (.start blank)) ts (.statement (.start blank')) := by
  induction ts generalizing blank with
  | nil => exact ⟨blank, .nil⟩
  | cons l ts ih =>
    obtain ⟨hl, hts⟩ := List.forall_mem_cons.mp h
    have hkind : l.kind = .whitespace ∨ l.kind = .comment := by simpa [Lexeme.isTrivia] using hl
    obtain ⟨mid, hpush⟩ : ∃ mid, (start blank).push l = .ok (.next (.start mid)) := by
      rcases hkind with hk | hk
      · exact ⟨blank, by rw [push, pushStart, hk]⟩
      · exact ⟨false, by rw [push, pushStart, hk]⟩
    obtain ⟨blank', hgoes⟩ := ih hts mid
    exact ⟨blank', .cons (Line.push_statement_next hpush) hgoes⟩

/-- The first word of a statement says what it is. -/
theorem push_first {word : String} {statement : Statement} (hl : l.word = some word)
    (h : ofWord? l.span word = some statement) (blank : Bool) :
    (start blank).push l = .ok (.next statement) := by
  have hword : l.word.bind (ofWord? l.span) = some statement := by
    rw [hl]
    exact h
  rw [push, pushStart, (Lexeme.kind_of_word hl).1]
  dsimp only
  rw [hword]

end Reading.Statement

namespace Program

open Grammar (significant)
open Statement (Closes)

/-- There is nothing to read in blanks and comments. -/
theorem read_trivia {ts : List Lexeme} (h : significant ts = []) (last : Span) :
    read .fresh last ts = ⟨[], none⟩ := by
  have htrivia : ∀ l ∈ ts, l.isTrivia := by simpa [significant] using h
  obtain ⟨blank, hgoes⟩ := Statement.goes_start htrivia true
  obtain ⟨last', hread⟩ := read_goes hgoes [] last
  rw [List.append_nil] at hread
  exact hread

/-- **A word, a phrase, a word and another phrase make one statement.** -/
theorem read_two_slots {first mid stop : Lexeme} {word : String} {s₁ s₂ : Slot} {b : Nat}
    {c : Nat} {ls ms ts : List Lexeme} {p q : Phrase} {n m node : Node} {mode₁ mode₂ : Mode}
    (hfirst : first.word = some word)
    (hword : Statement.ofWord? first.span word = some (.await first.span s₁))
    (hls : Reads b (empty s₁.mode) ls p) (hp : Whole mode₁ c p n) (hmid : Closes mid)
    (hclose : s₁.close first.span n mid = .ok (.next (.await first.span s₂)))
    (hms : Reads b (empty s₂.mode) ms q) (hq : Whole mode₂ c q m) (hstop : Closes stop)
    (hend : s₂.close first.span m stop = .ok (.done node)) (hmark : node.isMark = false)
    (hblock : node.opensBlock = false)
    (hts : significant ts = first :: (ls ++ mid :: (ms ++ [stop]))) (last : Span) :
    read .fresh last ts = ⟨[node], none⟩ := by
  obtain ⟨gap, rest, rfl, hgap, -, hrest⟩ := List.filter_eq_cons_iff.mp hts
  obtain ⟨blank, hstart⟩ := Statement.goes_start (by simpa using hgap) true
  obtain ⟨ts₁, rest₁, rfl, hrest₁, hgoes₁, hpush₁⟩ :=
    Statement.goes_to_close first.span hls hp hmid hrest
  obtain ⟨ts₂, rest₂, rfl, hrest₂, hgoes₂, hpush₂⟩ :=
    Statement.goes_to_close first.span hms hq hstop hrest₁
  have hdone : Line.push stop (.statement (.slot first.span s₂ q)) = .ok (.done node) := by
    rw [Line.push_statement_done (hpush₂.trans hend), hblock]
    rfl
  have hends : Line.Ends .fresh (gap ++ first :: (ts₁ ++ mid :: (ts₂ ++ [stop]))) node :=
    hstart.ends (.cons (Line.push_statement_next (Statement.push_first hfirst hword blank))
      (hgoes₁.ends (.cons (Line.push_statement_next (hpush₁.trans hclose))
        (hgoes₂.ends (.last hdone)))))
  obtain ⟨last', hread⟩ : ∃ last', read .fresh last _ = emit node (read .fresh last' rest₂) :=
    read_ends hends last
  have hlexemes : gap ++ first :: (ts₁ ++ mid :: (ts₂ ++ [stop])) ++ rest₂ =
      gap ++ first :: (ts₁ ++ mid :: (ts₂ ++ stop :: rest₂)) := by simp
  rw [hlexemes, read_trivia hrest₂, emit_of_not_isMark hmark] at hread
  exact hread

/-! ### Sources -/

/-- The lexemes of a source that mean something, without their positions. -/
def words (source : String) : List Lexeme :=
  bare (significant ((Lexeme.lex source).flatMap Lexeme.splitCopula))

/-- But for positions, a source is read as one assignment. -/
def Assigns (source : String) (target value : Node) : Prop :=
  bare (parse source) = bare ⟨[.assign .origin target value], none⟩

variable {source source' : String} {roll put into stop stop' : Lexeme} {ls ys : List Lexeme}
  {root y : Node} {keys : List Node}

/-- A statement that assigns to the second of its two phrases. -/
theorem assigns_of_slots {first : Lexeme} {word : String} {s₁ s₂ : Slot} {p : Phrase} {n v : Node}
    {mode : Mode} (hfirst : first.word = some word)
    (hword : Statement.ofWord? (bare first).span word = some (.await (bare first).span s₁))
    (hls : Reads negationRank (empty s₁.mode) (bare ls) p) (hp : Whole mode suffixRank p n)
    (hclose : s₁.close (bare first).span n (bare into) = .ok (.next (.await (bare first).span s₂)))
    (hend : s₂.close (bare first).span (bare y) (bare stop) =
      .ok (.done (bare (.assign .origin y v))))
    (hy : Grammar.Primary ys y) (htarget : y.isLocation) (hinto : into.word = some "into")
    (hstop : stop.isNewline)
    (hsource : words source = bare (first :: (ls ++ into :: (ys ++ [stop])))) :
    Assigns source y v := by
  have htarget' : (bare y).isLocation := (Node.isLocation_move _ y).trans htarget
  obtain ⟨q, hys, hq⟩ : ∃ q, Reads suffixRank (empty s₂.mode) (bare ys) q ∧
      Whole s₂.mode suffixRank q (bare y) := (hy.move _).reads_mode fun _ => htarget'
  have hwords : significant (bare ((Lexeme.lex source).flatMap Lexeme.splitCopula)) =
      bare first :: (bare ls ++ bare into :: (bare ys ++ [bare stop])) := by
    refine (Grammar.significant_move _ _).trans (hsource.trans ?_)
    show bare first :: bare (ls ++ into :: (ys ++ [stop])) = _
    rw [bare_append]
    show bare first :: (bare ls ++ bare into :: bare (ys ++ [stop])) = _
    rw [bare_append]
    rfl
  have hmid : Statement.Closes (bare into) := Statement.closes_into hinto
  have hlast : Statement.Closes (bare stop) := Statement.closes_newline hstop
  have hread := read_two_slots (show (bare first).word = some word from hfirst) hword hls hp hmid
    hclose (hys.mono (by decide)) hq hlast hend rfl rfl hwords .origin
  have hparse : bare (parse source) =
      read .fresh .origin (bare ((Lexeme.lex source).flatMap Lexeme.splitCopula)) :=
    move_read _ _ _ _
  rw [Assigns, hparse, hread]
  rfl

/-- The statement takes the last entry off what is stored at the whole location. -/
theorem assigns_roll (hlocation : Grammar.Location ls root keys) (hy : Grammar.Primary ys y)
    (htarget : y.isLocation) (hroll : roll.word = some "roll" ∨ roll.word = some "pop")
    (hinto : into.word = some "into") (hstop : stop.isNewline)
    (hsource : words source = bare (roll :: (ls ++ into :: (ys ++ [stop])))) :
    Assigns source y (.pop .origin (root.indexed keys)) := by
  obtain ⟨p, hls, hp⟩ := (hlocation.move fun _ => .origin).reads
  have hclose : Slot.popSource.close (bare roll).span ((bare root).indexed (bare keys)) (bare into) =
      .ok (.next (.await (bare roll).span (.popTarget ((bare root).indexed (bare keys))))) :=
    if_pos (beq_iff_eq.mpr hinto)
  have hend : (Slot.popTarget ((bare root).indexed (bare keys))).close (bare roll).span (bare y)
      (bare stop) = .ok (.done (bare (.assign .origin y (.pop .origin (root.indexed keys))))) := by
    have hnewline : (bare stop).isNewline = true := hstop
    have hindexed : (bare root).indexed (bare keys) = bare (root.indexed keys) :=
      (Node.move_indexed _ root keys).symm
    rw [hindexed, Slot.close, Statement.endWith, if_pos hnewline, Node.span_bare]
    rfl
  rcases hroll with hword | hword
  · exact assigns_of_slots hword rfl hls hp hclose hend hy htarget hinto hstop hsource
  · exact assigns_of_slots hword rfl hls hp hclose hend hy htarget hinto hstop hsource

/-- The value takes the last entry off the variable, and looks the keys up in that. -/
theorem assigns_put_roll (hlocation : Grammar.Location ls root keys) (hy : Grammar.Primary ys y)
    (htarget : y.isLocation) (hput : put.word = some "put")
    (hroll : roll.word = some "roll" ∨ roll.word = some "pop") (hinto : into.word = some "into")
    (hstop : stop.isNewline)
    (hsource : words source = bare (put :: (roll :: ls ++ into :: (ys ++ [stop])))) :
    Assigns source y ((Node.pop .origin root).indexed keys) := by
  obtain ⟨p, hls, hp⟩ :=
    (hlocation.move fun _ => .origin).reads_pop (show (bare roll).word = _ ∨ _ from hroll)
  have hindexed : bare ((Node.pop .origin root).indexed keys) =
      (Node.pop ((bare roll).span.through (bare root).span) (bare root)).indexed (bare keys) := by
    rw [Node.span_bare]
    exact Node.move_indexed _ _ keys
  have hclose : Slot.putValue.close (bare put).span (bare ((Node.pop .origin root).indexed keys))
      (bare into) = .ok (.next (.await (bare put).span
        (.putTarget (bare ((Node.pop .origin root).indexed keys))))) :=
    if_pos (beq_iff_eq.mpr hinto)
  have hend : (Slot.putTarget (bare ((Node.pop .origin root).indexed keys))).close (bare put).span
      (bare y) (bare stop) =
        .ok (.done (bare (.assign .origin y ((Node.pop .origin root).indexed keys)))) := by
    have hnewline : (bare stop).isNewline = true := hstop
    rw [Slot.close, Statement.endWith, if_pos hnewline, Node.span_bare]
    rfl
  have hreads : Reads negationRank (empty .value) (bare (roll :: ls)) p := hls
  exact assigns_of_slots hput rfl hreads (hindexed ▸ hp) hclose hend hy htarget hinto hstop hsource

theorem bare_assign_iff {v v' : Node} :
    bare (⟨[.assign .origin y v], none⟩ : Parsed) = bare ⟨[.assign .origin y v'], none⟩ ↔
      bare v = bare v' := by
  constructor
  · intro h
    have hnode : bare (Node.assign .origin y v) = bare (.assign .origin y v') :=
      (List.cons.inj (congrArg Parsed.nodes h)).1
    exact (Node.assign.inj hnode).2.2
  · intro h
    show (⟨[.assign .origin (bare y) (bare v)], none⟩ : Parsed) =
      ⟨[.assign .origin (bare y) (bare v')], none⟩
    rw [h]

/-- Without an index both are the same, and with one they are not. -/
theorem pop_indexed_iff (root : Node) (keys : List Node) :
    bare (Node.pop .origin (root.indexed keys)) = bare ((Node.pop .origin root).indexed keys) ↔
      keys = [] := by
  constructor
  · intro h
    rcases List.eq_nil_or_concat keys with rfl | ⟨keys, key, rfl⟩
    · rfl
    · rw [List.concat_eq_append, Node.indexed_concat (Node.pop .origin root)] at h
      cases h
  · rintro rfl
    rfl

/-- **A pop is the same as a statement and as a value exactly where there is no index.** With a
location of a variable, or a pronoun, and any keys, the statement assigns the last entry of what is
stored at the location; and the value assigns what stands under the keys in the last entry of the
variable. -/
theorem roll_statement_and_value (hlocation : Grammar.Location ls root keys)
    (hy : Grammar.Primary ys y) (htarget : y.isLocation) (hput : put.word = some "put")
    (hroll : roll.word = some "roll" ∨ roll.word = some "pop") (hinto : into.word = some "into")
    (hstop : stop.isNewline) (hstop' : stop'.isNewline)
    (hsource : words source = bare (roll :: (ls ++ into :: (ys ++ [stop]))))
    (hsource' : words source' = bare (put :: roll :: (ls ++ into :: (ys ++ [stop'])))) :
    Assigns source y (.pop .origin (root.indexed keys)) ∧
      Assigns source' y ((Node.pop .origin root).indexed keys) ∧
      (bare (parse source) = bare (parse source') ↔ keys = []) := by
  have hstatement := assigns_roll hlocation hy htarget hroll hinto hstop hsource
  have hvalue := assigns_put_roll hlocation hy htarget hput hroll hinto hstop' hsource'
  refine ⟨hstatement, hvalue, ?_⟩
  rw [hstatement, hvalue]
  exact bare_assign_iff.trans (pop_indexed_iff root keys)

/-- Two keys after a pronoun, a comment, and a line end in one of the sources only. -/
theorem roll_statement_and_value_twice : ∃ (y : Node) (root : Node) (keys : List Node),
    keys.length = 2 ∧
    Assigns "pop it at the top (soon) at nothing into my heart\n" y
      (.pop .origin (root.indexed keys)) ∧
    Assigns "put pop it at the top at nothing into my heart" y
      ((Node.pop .origin root).indexed keys) ∧
    bare (parse "pop it at the top (soon) at nothing into my heart\n") ≠
      bare (parse "put pop it at the top at nothing into my heart") := by
  let word : String → Lexeme := fun text => ⟨.identifier, text, none, .origin⟩
  let newline : Lexeme := ⟨.newline, "\n", none, .origin⟩
  let close : Lexeme := ⟨.endOfInput, "", none, .origin⟩
  have hroot : Grammar.Primary [word "it"] (.pronoun _ _) := .pronoun rfl (by decide)
  have htop : Grammar.Primary [word "the", word "top"] (.var _ _) := .common rfl (by decide) rfl
  have hnothing : Grammar.Primary [word "nothing"] (.literal _ .null) :=
    .constant rfl (by decide)
  have hheart : Grammar.Primary [word "my", word "heart"] (.var _ _) :=
    .common rfl (by decide) rfl
  have hat : (word "at").word = some "at" := by decide
  have hkeys := Grammar.Keys.cons hat htop (.cons hat hnothing .nil)
  obtain ⟨hstatement, hvalue, hsame⟩ := roll_statement_and_value
    (Grammar.Location.intro hroot rfl hkeys) hheart rfl
    (show (word "put").word = some "put" by decide)
    (show (word "pop").word = some "roll" ∨ (word "pop").word = some "pop" by decide)
    (show (word "into").word = some "into" by decide) (show newline.isNewline by decide)
    (show close.isNewline by decide)
    (show words "pop it at the top (soon) at nothing into my heart\n" = _ by decide +kernel)
    (show words "put pop it at the top at nothing into my heart" = _ by decide +kernel)
  exact ⟨_, _, _, rfl, hstatement, hvalue, fun heq => List.cons_ne_nil _ _ (hsame.mp heq)⟩

/-- The entry that a statement takes the last entry off, and the entry of what a value takes off. -/
theorem roll_entry_not_same :
    ((parse "roll x at 1 into y").nodes.flatMap Node.children).map Node.kind = ["variable", "pop"] ∧
    ((parse "put roll x at 1 into y").nodes.flatMap Node.children).map Node.kind =
      ["variable", "index"] ∧
    bare (parse "roll x at 1 into y") ≠ bare (parse "put roll x at 1 into y") := by
  have hkinds : ((bare (parse "roll x at 1 into y")).nodes.flatMap Node.children).map Node.kind ≠
      ((bare (parse "put roll x at 1 into y")).nodes.flatMap Node.children).map Node.kind := by
    decide +kernel
  refine ⟨by decide +kernel, by decide +kernel, fun heq => hkinds ?_⟩
  rw [heq]

end Program

end Ballad
