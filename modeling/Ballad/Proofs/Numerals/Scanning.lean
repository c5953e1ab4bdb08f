import Ballad.Proofs.Fragments
import Ballad.Proofs.Numerals.Grammar
import Ballad.Proofs.Reading.Exchange

/-!
# Numbers in sources

The lexer cuts numbers out of a source in one pass, with four flags and a look at the two characters
after the mark of an exponent. What it cuts out is the longest numeral that stands there.

- `Phase.state_next`: the flags of the lexer are the phases of a numeral, but an exponent is entered
  only if its digits follow.
- `Phase.accepts_number`, `Phase.prefix_number`: the lexer stops where the longest numeral ends.
- `Piece.Scanned`: what is cut out where a numeral could begin.
- `Lexeme.Numeric`: the only numbers in a source that are none are a sign and a point.
-/

namespace Ballad

namespace Phase

open Piece

variable {p q : Phase} {c : Char} {cs v : List Char}

/-! ### The flags -/

/-- The flags of the lexer in a phase. It does not tell the sign of an exponent from its digits. -/
def state : Phase → NumberState
  | signed => ⟨false, true, true, false⟩
  | whole => ⟨true, true, true, false⟩
  | point => ⟨false, false, true, false⟩
  | fraction => ⟨true, false, true, false⟩
  | mark => ⟨true, false, false, true⟩
  | power | exponent => ⟨true, false, false, false⟩

/-- **The lexer goes on as the automaton does**, but enters an exponent only if its digits follow. -/
theorem state_next (p : Phase) (c : Char) (rest : List Char) :
    p.state.next c rest =
      ((p.next? c).filter fun q => q != mark || exponentFollows rest).map state := by
  unfold next? NumberState.next
  by_cases hd : c.isDigit
  · rw [if_pos hd, if_pos hd]
    cases p <;> rfl
  rw [if_neg hd, if_neg hd]
  by_cases hpoint : c = '.'
  · subst hpoint
    cases p <;> rfl
  rw [if_neg (fun h => hpoint h.1), if_neg hpoint]
  by_cases hmark : c = 'e' ∨ c = 'E'
  · -- only here does what follows matter
    generalize exponentFollows rest = follows
    rcases hmark with rfl | rfl <;> cases p <;> cases follows <;> rfl
  rw [if_neg (fun h => hmark h.1), if_neg hmark]
  by_cases hsign : c = '+' ∨ c = '-'
  · rcases hsign with rfl | rfl <;> cases p <;> rfl
  · rw [if_neg (fun h => hsign h.1), if_neg hsign]
    rfl

theorem state_start {c : Char} {p : Phase} (h : start? c = some p) : NumberState.start c = p.state := by
  unfold start? at h
  split at h
  · rename_i hc
    cases h
    rcases hc with rfl | rfl <;> rfl
  · rcases next?_cases h with ⟨hd, rfl⟩ | ⟨rfl, hpoint⟩ | ⟨-, hnone⟩ | ⟨-, hnone⟩
    · have hne : c ≠ '.' := by
        rintro rfl
        cases hd
      simp [NumberState.start, hd, hne, onDigit, state]
    · cases hpoint
      rfl
    · cases hnone
    · cases hnone

/-! ### The longest numeral -/

/-- Some beginning of a text completes a numeral. -/
def Begins (p : Phase) (cs : List Char) : Prop :=
  ∃ v, v <+: cs ∧ p.accepts v

theorem begins_mark_iff : mark.Begins cs ↔ exponentFollows cs := by
  constructor
  · rintro ⟨v, ⟨rest, rfl⟩, hv⟩
    obtain ⟨sign, ds, hsign, hds, hne, rfl⟩ := accepts_mark_iff.mp hv
    obtain ⟨d, ds, rfl⟩ := List.exists_cons_of_ne_nil hne
    have hd := (allDigits_cons.mp hds).1
    rcases hsign with rfl | ⟨s, hs, rfl⟩
    · cases h : ds ++ rest with
      | nil => simp [h, exponentFollows, hd]
      | cons c cs => simp [h, exponentFollows, hd]
    · rcases hs with rfl | rfl <;> simp [exponentFollows, hd]
  · intro h
    rcases cs with _ | ⟨c, _ | ⟨d, cs⟩⟩
    · cases h
    · exact ⟨[c], List.prefix_rfl, accepts_of_next? (next?_digit h mark) rfl⟩
    · rcases (Bool.or_eq_true _ _).mp h with hc | hc
      · exact ⟨[c], ⟨d :: cs, rfl⟩, accepts_of_next? (next?_digit hc mark) rfl⟩
      · obtain ⟨hs, hd⟩ := Bool.and_eq_true_iff.mp hc
        have hs : c = '+' ∨ c = '-' := by simpa using hs
        refine ⟨[c, d], ⟨cs, rfl⟩, accepts_of_next? (next?_sign hs mark) ?_⟩
        exact accepts_of_next? (next?_digit hd power) rfl

/-- Whether the lexer goes on to a phase. -/
def Enters (p : Phase) (c : Char) (cs : List Char) (q : Phase) : Prop :=
  p.next? c = some q ∧ (q = mark → exponentFollows cs)

theorem number_of_enters (h : p.Enters c cs q) :
    (number p.state (c :: cs)).1 = c :: (number q.state cs).1 := by
  have hfilter : (some q).filter (fun q => q != mark || exponentFollows cs) = some q := by
    refine Option.filter_some_pos ?_
    by_cases hq : q = mark
    · simp [h.2 hq]
    · simp [hq]
  rw [number, state_next, h.1, hfilter]
  rfl

theorem number_of_not_enters (h : ∀ q, ¬ p.Enters c cs q) :
    number p.state (c :: cs) = ([], c :: cs) := by
  have hnone : (p.next? c).filter (fun q => q != mark || exponentFollows cs) = none := by
    rw [Option.filter_eq_none_iff]
    intro q hq hfilter
    refine h q ⟨hq, ?_⟩
    rintro rfl
    simpa using hfilter
  rw [number, state_next, hnone]
  rfl

/-- What completes a numeral is entered, since the digits of its exponent follow. -/
theorem enters_of_accepts {v : List Char} (hq : p.next? c = some q) (hv : q.accepts v)
    (hcs : v <+: cs) : p.Enters c cs q := by
  refine ⟨hq, ?_⟩
  rintro rfl
  exact begins_mark_iff.mp ⟨v, hcs, hv⟩

/-- A numeral that may end goes on only to where one may end again, or to an exponent. -/
theorem begins_of_enters (hp : p.isFinal) (h : p.Enters c cs q) : q.Begins cs := by
  by_cases hq : q = mark
  · subst hq
    exact begins_mark_iff.mpr (h.2 rfl)
  · refine ⟨[], List.nil_prefix, ?_⟩
    show q.isFinal
    rcases next?_cases h.1 with ⟨-, rfl⟩ | ⟨-, hnext⟩ | ⟨-, hnext⟩ | ⟨-, hnext⟩
    · cases p <;> rfl
    · cases p with
      | whole =>
        cases hnext
        rfl
      | signed => cases hp
      | _ => cases hnext
    · cases p <;> cases hnext <;> exact absurd rfl hq
    · cases p with
      | mark => cases hp
      | _ => cases hnext

/-- The lexer reads as far as any numeral goes. -/
theorem prefix_number {v : List Char} (hv : p.accepts v) (hcs : v <+: cs) :
    v <+: (number p.state cs).1 := by
  induction v generalizing p cs with
  | nil => exact List.nil_prefix
  | cons c v ih =>
    obtain ⟨rest, rfl⟩ := hcs
    obtain ⟨q, hq, hv⟩ := accepts_cons.mp hv
    have henters : p.Enters c (v ++ rest) q := enters_of_accepts hq hv (List.prefix_append v rest)
    rw [List.cons_append, number_of_enters henters, List.prefix_cons_inj]
    exact ih hv (List.prefix_append v rest)

/-- **Where a numeral stands, the lexer reads one.** -/
theorem accepts_number (h : p.Begins cs) : p.accepts (number p.state cs).1 := by
  induction cs generalizing p with
  | nil =>
    obtain ⟨v, hstart, hv⟩ := h
    rwa [List.prefix_nil.mp hstart] at hv
  | cons c cs ih =>
    obtain ⟨v, hstart, hv⟩ := h
    by_cases henters : ∃ q, p.Enters c cs q
    · obtain ⟨q, henters⟩ := henters
      rw [number_of_enters henters]
      refine accepts_of_next? henters.1 (ih ?_)
      cases v with
      | nil => exact begins_of_enters hv henters
      | cons d v =>
        obtain ⟨rfl, hrest⟩ := List.cons_prefix_cons.mp hstart
        obtain ⟨r, hr, hv⟩ := accepts_cons.mp hv
        obtain rfl := Option.some.inj (henters.1.symm.trans hr)
        exact ⟨v, hrest, hv⟩
    · rw [number_of_not_enters (not_exists.mp henters)]
      -- the numeral that stands here cannot go on either
      cases v with
      | nil => exact hv
      | cons d v =>
        obtain ⟨rfl, hrest⟩ := List.cons_prefix_cons.mp hstart
        obtain ⟨q, hq, hv⟩ := accepts_cons.mp hv
        exact absurd ⟨q, enters_of_accepts hq hv hrest⟩ henters

/-- After a point that is no part of a numeral the lexer stops, -/
theorem number_point (h : ¬ point.Begins cs) : (number point.state cs).1 = [] := by
  cases cs with
  | nil => rfl
  | cons c cs =>
    rw [number_of_not_enters]
    rintro q ⟨hq, -⟩
    rcases next?_cases hq with ⟨hd, rfl⟩ | ⟨-, hnone⟩ | ⟨-, hnone⟩ | ⟨-, hnone⟩
    · exact h ⟨[c], ⟨cs, rfl⟩, accepts_of_next? hq rfl⟩
    all_goals cases hnone

/-- and after such a sign it may have a point. -/
theorem number_signed (h : ¬ signed.Begins cs) :
    (number signed.state cs).1 = if cs.head? = some '.' then ['.'] else [] := by
  cases cs with
  | nil => rfl
  | cons c cs =>
    by_cases hc : c = '.'
    · subst hc
      have hpoint : ¬ point.Begins cs := by
        rintro ⟨v, hstart, hv⟩
        refine h ⟨'.' :: v, List.cons_prefix_cons.mpr ⟨rfl, hstart⟩, ?_⟩
        exact accepts_of_next? (next?_point signed) hv
      rw [number_of_enters ⟨next?_point signed, Phase.noConfusion⟩, number_point hpoint]
      rfl
    · rw [number_of_not_enters, if_neg (by simpa using hc)]
      rintro q ⟨hq, -⟩
      rcases next?_cases hq with ⟨hd, rfl⟩ | ⟨hpoint, -⟩ | ⟨-, hnone⟩ | ⟨-, hnone⟩
      · exact h ⟨[c], ⟨cs, rfl⟩, accepts_of_next? hq rfl⟩
      · exact hc hpoint
      · cases hnone
      · cases hnone

end Phase

/-! ### Pieces -/

namespace Piece

/-- The longest beginning of a text that is a numeral. -/
structure LongestNumeral (text w : List Char) : Prop where
  isPrefix : w <+: text
  numeral : Numeral w
  longest : ∀ v, v <+: text → Numeral v → v.length ≤ w.length

/-- Whether a character can begin a numeral. -/
def startsNumeral (c : Char) : Bool :=
  c.isDigit || c = '+' || c = '-' || c = '.'

/-- What is cut out of a text whose first character can begin a numeral. -/
inductive Scanned : List Char → Piece → Prop where
  /-- The longest numeral, if there is one. -/
  | numeral {text w : List Char} (h : LongestNumeral text w) : Scanned text ⟨.number, w⟩
  /-- Otherwise a sign and a point, -/
  | signPoint {s : Char} {rest : List Char} (hnone : ∀ v, v <+: s :: '.' :: rest → ¬ Numeral v)
    (hs : s = '+' ∨ s = '-') : Scanned (s :: '.' :: rest) ⟨.number, [s, '.']⟩
  /-- or a single character that counts as blank. -/
  | blank {c : Char} {rest : List Char} (hnone : ∀ v, v <+: c :: rest → ¬ Numeral v)
    (hpoint : (c = '+' ∨ c = '-') → rest.head? ≠ some '.') : Scanned (c :: rest) ⟨.whitespace, [c]⟩

theorem startsNumeral_cases {c : Char} (h : startsNumeral c) :
    c.isDigit ∨ (c = '+' ∨ c = '-') ∨ c = '.' := by
  simpa [startsNumeral, or_assoc] using h

theorem isLetter_of_startsNumeral {c : Char} (h : startsNumeral c) : Text.isLetter c = false := by
  rcases startsNumeral_cases h with hd | (rfl | rfl) | rfl
  · have hdigit : 48 ≤ c.toNat ∧ c.toNat ≤ 57 := by
      simpa [Char.isDigit, UInt32.le_iff_toNat_le] using hd
    rw [Text.isLetter, if_pos (by omega), ← Bool.not_eq_true]
    intro halpha
    have hletter : 65 ≤ c.toNat := by
      rcases (Bool.or_eq_true _ _).mp halpha with hupper | hlower
      · exact UInt32.le_iff_toNat_le.mp (of_decide_eq_true hupper).1
      · have hge : 97 ≤ c.toNat :=
          UInt32.le_iff_toNat_le.mp (of_decide_eq_true (Bool.and_eq_true_iff.mp hlower).1)
        omega
    omega
  all_goals decide

theorem extent_of_startsNumeral {c : Char} (h : startsNumeral c) (cs : List Char) :
    extent c cs = (numberKind c (number (.start c) cs).1, number (.start c) cs) := by
  have hne : ∀ d, startsNumeral d = false → c ≠ d := by
    rintro d hd rfl
    rw [hd] at h
    cases h
  have hletter : ¬ Text.isLetter c := by simp [isLetter_of_startsNumeral h]
  rw [extent.eq_def, if_neg (hne '(' rfl), if_neg (hne '"' rfl), if_neg (hne '\'' rfl),
    if_neg hletter]
  exact if_pos h

theorem exists_start? {c : Char} (h : startsNumeral c) : ∃ p, Phase.start? c = some p := by
  by_cases hs : c = '+' ∨ c = '-'
  · exact ⟨_, if_pos hs⟩
  · rcases startsNumeral_cases h with hd | hs' | rfl
    · exact ⟨_, (if_neg hs).trans (Phase.next?_digit hd .signed)⟩
    · exact absurd hs' hs
    · exact ⟨_, rfl⟩

/-- A beginning of a text is a numeral if the rest of it completes one. -/
theorem numeral_prefix_iff {c : Char} {cs v : List Char} {p : Phase} (hp : Phase.start? c = some p) :
    v <+: c :: cs ∧ Numeral v ↔ ∃ w, v = c :: w ∧ w <+: cs ∧ p.accepts w := by
  constructor
  · rintro ⟨hstart, hv⟩
    cases v with
    | nil => exact absurd hv not_numeral_nil
    | cons d w =>
      obtain ⟨rfl, hw⟩ := List.cons_prefix_cons.mp hstart
      obtain ⟨q, hq, haccepts⟩ := Phase.numeral_cons.mp hv
      obtain rfl := Option.some.inj (hp.symm.trans hq)
      exact ⟨w, rfl, hw, haccepts⟩
  · rintro ⟨w, rfl, hw, haccepts⟩
    exact ⟨List.cons_prefix_cons.mpr ⟨rfl, hw⟩, Phase.numeral_cons.mpr ⟨p, hp, haccepts⟩⟩

/-- Only a digit is a numeral by itself. -/
theorem numberKind_of_accepts {c : Char} {w : List Char} {p : Phase} (hp : Phase.start? c = some p)
    (hw : p.accepts w) : numberKind c w = .number := by
  refine if_neg fun hnone => ?_
  obtain ⟨hempty, hdigit⟩ := Bool.and_eq_true_iff.mp hnone
  rw [List.isEmpty_iff.mp hempty] at hw
  unfold Phase.start? at hp
  split at hp
  · cases hp
    cases hw
  · rcases Phase.next?_cases hp with ⟨hd, -⟩ | ⟨-, hpoint⟩ | ⟨-, hnone⟩ | ⟨-, hnone⟩
    · simp [hd] at hdigit
    · cases hpoint
      cases hw
    · cases hnone
    · cases hnone

/-- **Where a numeral could begin, the longest one is cut out.** -/
theorem scanned_first {c : Char} (h : startsNumeral c) (cs : List Char) :
    Scanned (c :: cs) (first c cs).1 := by
  obtain ⟨p, hp⟩ := exists_start? h
  have hfirst : (first c cs).1 =
      ⟨numberKind c (number p.state cs).1, c :: (number p.state cs).1⟩ := by
    rw [first, extent_of_startsNumeral h, Phase.state_start hp]
  rw [hfirst]
  by_cases hbegins : p.Begins cs
  · have haccepts := Phase.accepts_number hbegins
    have hstart : (number p.state cs).1 <+: cs := ⟨_, number_append p.state cs⟩
    rw [numberKind_of_accepts hp haccepts]
    obtain ⟨htext, hnumeral⟩ := (numeral_prefix_iff hp).mpr ⟨_, rfl, hstart, haccepts⟩
    refine .numeral ⟨htext, hnumeral, ?_⟩
    intro v hv hnumeral
    obtain ⟨w, rfl, hw, haccepts⟩ := (numeral_prefix_iff hp).mp ⟨hv, hnumeral⟩
    exact Nat.succ_le_succ (Phase.prefix_number haccepts hw).length_le
  · have hnone : ∀ v, v <+: c :: cs → ¬ Numeral v := by
      intro v hv hnumeral
      obtain ⟨w, -, hw, haccepts⟩ := (numeral_prefix_iff hp).mp ⟨hv, hnumeral⟩
      exact hbegins ⟨w, hw, haccepts⟩
    rcases startsNumeral_cases h with hd | hs | rfl
    · -- a digit is a numeral
      have hdigit : Mantissa [c] :=
        .whole (allDigits_cons.mpr ⟨hd, allDigits_nil⟩) (List.cons_ne_nil c [])
      exact absurd ⟨[], [c], [], .inl rfl, hdigit, .none, rfl⟩ (hnone [c] ⟨cs, rfl⟩)
    · obtain rfl := Option.some.inj ((if_pos hs).symm.trans hp)
      have hblank : numberKind c [] = .whitespace := by rcases hs with rfl | rfl <;> rfl
      rw [Phase.number_signed hbegins]
      by_cases hpoint : cs.head? = some '.'
      · obtain ⟨rest, rfl⟩ := List.head?_eq_some_iff.mp hpoint
        exact .signPoint hnone hs
      · rw [if_neg hpoint, hblank]
        exact .blank hnone fun _ => hpoint
    · cases hp
      rw [Phase.number_point hbegins]
      refine .blank hnone fun hs => ?_
      rcases hs with hs | hs <;> cases hs

/-- This is so wherever in a source a piece begins. -/
theorem scanned_of_cut {source : List Char} {before after : List Piece} {p : Piece} {c : Char}
    {cs : List Char} (hcut : cut source = before ++ p :: after)
    (htext : (p :: after).flatMap text = c :: cs) (hc : startsNumeral c) : Scanned (c :: cs) p := by
  have hpieces := cut_flatMap_of_append hcut
  rw [htext, cut_cons] at hpieces
  rw [← (List.cons.inj hpieces).1]
  exact scanned_first hc cs

/-- Every number is cut out in this way. -/
theorem startsNumeral_of_kind {c : Char} {cs : List Char} (h : (first c cs).1.kind = .number) :
    startsNumeral c := by
  by_contra hnot
  have hnot : ¬ (c.isDigit || c = '+' || c = '-' || c = '.') := hnot
  simp only [first, extent, if_neg hnot] at h
  repeat' split at h
  all_goals cases h

theorem scanned_of_mem_cut {cs : List Char} {p : Piece} (hp : p ∈ cut cs) (hk : p.kind = .number) :
    Numeral p.text ∨ p.text = ['+', '.'] ∨ p.text = ['-', '.'] := by
  fun_induction cut cs with
  | case1 => cases hp
  | case2 c cs ih =>
    rcases List.mem_cons.mp hp with rfl | hp
    · have hscanned := scanned_first (startsNumeral_of_kind hk) cs
      generalize (first c cs).1 = p at hscanned hk
      cases hscanned with
      | numeral h => exact .inl h.numeral
      | signPoint hnone hs =>
        rcases hs with rfl | rfl
        · exact .inr (.inl rfl)
        · exact .inr (.inr rfl)
      | blank hnone hpoint => cases hk
    · exact ih hp

end Piece

/-! ### Numbers that cannot be read -/

namespace Lexeme

open Piece

/-- A lexeme that is a numeral if it is a number at all, signs with a point apart. -/
def Numeric (l : Lexeme) : Prop :=
  l.kind = .number → Numeral l.literal.toList ∨ l.literal = "+." ∨ l.literal = "-."

theorem numeric_of_mem_scan (source : String) : ∀ l ∈ scan source, l.Numeric := by
  intro l hl hk
  obtain ⟨p, hp, hkind, hliteral⟩ := exists_of_mem_scan hl (by simp [hk])
  rw [hliteral]
  rcases scanned_of_mem_cut hp (hkind.trans hk) with h | h | h
  · exact .inl h
  · exact .inr (.inl (String.toList_inj.mp (hliteral.trans h)))
  · exact .inr (.inr (String.toList_inj.mp (hliteral.trans h)))

/-- **The numbers of a source are numerals**, or a sign and a point. -/
theorem numeric_of_mem_lex (source : String) : ∀ l ∈ lex source, l.Numeric := by
  refine forall_contract (Q := Numeric) ?_ ?_ _ (numeric_of_mem_scan source)
  · intro w c _ _ _ _ hk
    cases hk
  · intro l hl hk
    rcases settle_kind l with ⟨-, hne⟩ | ⟨-, hsettled | hsettled⟩
    · have hself : l.settle = l := if_neg hne
      rw [hself] at hk ⊢
      exact hl hk
    · rw [hsettled] at hk
      cases hk
    · rw [hsettled] at hk
      cases hk

theorem numeric_of_mem_split (source : String) :
    ∀ l ∈ (lex source).flatMap splitCopula, l.Numeric := by
  intro l hl
  obtain ⟨m, hm, hlm⟩ := List.mem_flatMap.mp hl
  rcases splitCopula_cases m with hsplit | ⟨-, stem, copula, -, -, -, hsplit⟩
  · rw [hsplit, List.mem_singleton] at hlm
    exact hlm ▸ numeric_of_mem_lex source m hm
  · intro hk
    rw [hsplit] at hlm
    rcases List.mem_pair.mp hlm with rfl | rfl <;> cases hk

/-- Of the numbers in a source, these are the ones that are none. -/
theorem ofText?_eq_none_iff {l : Lexeme} (h : l.Numeric) (hk : l.kind = .number) :
    Number.ofText? l.literal = none ↔ l.literal = "+." ∨ l.literal = "-." := by
  constructor
  · intro hnone
    rcases h hk with hnumeral | hother
    · have hsome := hnumeral.ofText?_isSome
      rw [String.ofList_toList, hnone] at hsome
      cases hsome
    · exact hother
  · rintro (h | h) <;> rw [h] <;> decide

end Lexeme

namespace Program

open Reading

/-- A mistake that is about no number but a sign and a point. -/
def Blames (e : ParseError) : Prop :=
  ∀ literal, e.cause = .invalidNumber literal → literal = "+." ∨ literal = "-."

theorem exchange_of_numeric {l : Lexeme} (h : l.Numeric) : Exchange (fun e _ => Blames e) l l where
  uniform := ⟨fun _ _ _ => nofun, fun _ _ _ => nofun⟩
  same := .inl rfl
  unexpected := fun _ _ => nofun
  unexpectedWord := fun _ _ => nofun
  unfinished := fun _ _ => nofun
  invalidNumber := by
    intro hk hnone literal hcause
    cases hcause
    exact (Lexeme.ofText?_eq_none_iff h hk).mp hnone

/-- The only numbers that a source is rejected for are a sign and a point. -/
theorem blames_of_failure {source : String} {e : ParseError} (h : (parse source).failure = some e) :
    Blames e := by
  have huniform : Uniform fun e _ => Blames e := ⟨fun _ _ _ => nofun, fun _ _ _ => nofun⟩
  have hread : (parse source).Matches (fun e _ => Blames e) (parse source) := by
    refine read_exchange huniform (List.forall₂_same.mpr fun l hl => ?_) Line.located_fresh
      fun within => huniform.unfinished within _
    exact exchange_of_numeric (Lexeme.numeric_of_mem_split source l hl)
  have hrel := hread.failure
  rw [h] at hrel
  cases hrel
  assumption

/-- **Numbers are cut out of a source as numerals.** Wherever a piece begins with a digit, a sign or a
point, it is the longest numeral that stands there; if there is none, it is a sign with a point, or a
single character that counts as blank. All numerals are numbers, so that `+.` and `-.` are the only
ones that the source can be rejected for. -/
theorem numbers_are_longest_numerals (source : String) :
    (∀ (before after : List Piece) (p : Piece) (c : Char) (cs : List Char),
      Piece.cut source.toList = before ++ p :: after → (p :: after).flatMap Piece.text = c :: cs →
        Piece.startsNumeral c → Piece.Scanned (c :: cs) p) ∧
    (∀ w, Numeral w → (Number.ofText? (String.ofList w)).isSome) ∧
    (∀ l ∈ Lexeme.lex source, l.kind = .number →
      (Number.ofText? l.literal = none ↔ l.literal = "+." ∨ l.literal = "-.")) ∧
    (∀ e literal, (parse source).failure = some e → e.cause = .invalidNumber literal →
      literal = "+." ∨ literal = "-.") := by
  refine ⟨fun before after p c cs hcut htext hc => Piece.scanned_of_cut hcut htext hc,
    fun w hw => hw.ofText?_isSome, fun l hl hk => ?_, fun e literal h hcause => ?_⟩
  · exact Lexeme.ofText?_eq_none_iff (Lexeme.numeric_of_mem_lex source l hl) hk
  · exact blames_of_failure h literal hcause

/-- A number with all of its parts, which the source goes on after, and a sign with a point, which looks
like one with an exponent. -/
theorem numbers_are_longest_numerals_mixed :
    (∃ before after p c cs, Piece.cut "say -.5E+3.2e".toList = before ++ p :: after ∧
      (p :: after).flatMap Piece.text = c :: cs ∧ Piece.startsNumeral c ∧
      p = ⟨.number, "-.5E+3".toList⟩ ∧ Piece.Scanned (c :: cs) p) ∧
    ∃ e, (parse "say +.e5").failure = some e ∧ e.cause = .invalidNumber "+." ∧
      ("+." = "+." ∨ "+." = "-.") := by
  constructor
  · have hcut : Piece.cut "say -.5E+3.2e".toList =
        [⟨.identifier, "say".toList⟩, ⟨.whitespace, [' ']⟩] ++
          ⟨.number, "-.5E+3".toList⟩ :: [⟨.number, ".2".toList⟩, ⟨.identifier, ['e']⟩] := by
      decide +kernel
    have htext : [⟨.number, "-.5E+3".toList⟩, ⟨.number, ".2".toList⟩, ⟨.identifier, ['e']⟩].flatMap
        Piece.text = '-' :: ".5E+3.2e".toList := by
      decide +kernel
    have hstart : Piece.startsNumeral '-' := by decide
    exact ⟨_, _, _, _, _, hcut, htext, hstart, rfl,
      (numbers_are_longest_numerals "say -.5E+3.2e").1 _ _ _ _ _ hcut htext hstart⟩
  · have hfailure : (parse "say +.e5").failure =
        some ⟨.invalidNumber "+.", ⟨⟨1, 4⟩, ⟨1, 6⟩⟩⟩ := by decide +kernel
    exact ⟨_, hfailure, rfl,
      (numbers_are_longest_numerals "say +.e5").2.2.2 _ _ hfailure rfl⟩

end Program

end Ballad
