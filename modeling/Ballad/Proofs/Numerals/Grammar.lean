import Ballad.Number.Decimal
import Mathlib.Data.List.Basic

/-!
# The notation of numbers

- `Numeral`: a number in decimal notation, with its parts `Mantissa` and `Exponent`.
- `Numeral.ofText?_isSome`: every numeral is a number.
- `Phase`: how far a numeral has been read, as the states of an automaton (`Phase.next?`,
  `Phase.accepts`).
- `Phase.accepts_mark_iff`, `Phase.accepts_whole_iff` and so on: what completes a numeral in each phase.
- `Phase.numeral_cons`: the automaton accepts the numerals.
-/

namespace Ballad

/-! ### The notation -/

/-- Digits, or nothing. -/
def AllDigits (ds : List Char) : Prop :=
  ∀ d ∈ ds, d.isDigit

/-- An optional sign. -/
def OptionalSign (cs : List Char) : Prop :=
  cs = [] ∨ ∃ s, (s = '+' ∨ s = '-') ∧ cs = [s]

/-- The digits of a numeral, with at most one point. At least one digit has to be there. -/
inductive Mantissa : List Char → Prop where
  | whole {ds : List Char} (hds : AllDigits ds) (hne : ds ≠ []) : Mantissa ds
  | point {ds fs : List Char} (hds : AllDigits ds) (hne : ds ≠ []) (hfs : AllDigits fs) :
    Mantissa (ds ++ '.' :: fs)
  | fraction {fs : List Char} (hfs : AllDigits fs) (hne : fs ≠ []) : Mantissa ('.' :: fs)

/-- An optional exponent: a mark, an optional sign and digits. -/
inductive Exponent : List Char → Prop where
  | none : Exponent []
  | power {mark : Char} {sign ds : List Char} (hmark : mark = 'e' ∨ mark = 'E')
    (hsign : OptionalSign sign) (hds : AllDigits ds) (hne : ds ≠ []) :
    Exponent (mark :: (sign ++ ds))

/-- A number in decimal notation: an optional sign, digits with an optional point, and an optional
exponent. -/
def Numeral (cs : List Char) : Prop :=
  ∃ sign mantissa exponent, OptionalSign sign ∧ Mantissa mantissa ∧ Exponent exponent ∧
    cs = sign ++ mantissa ++ exponent

/-- A mantissa has a digit. -/
theorem Mantissa.ne_nil {m : List Char} (h : Mantissa m) : m ≠ [] := by
  cases h with
  | whole hds hne => exact hne
  | point hds hne hfs => simp
  | fraction hfs hne => simp

/-- A numeral has a mantissa, so the empty text is none. -/
theorem not_numeral_nil : ¬ Numeral [] := by
  rintro ⟨sign, m, e, -, hm, -, heq⟩
  have hnil : sign ++ m = [] := (List.append_eq_nil_iff.mp heq.symm).1
  exact hm.ne_nil (List.append_eq_nil_iff.mp hnil).2

theorem allDigits_nil : AllDigits [] := by
  intro d hd
  cases hd

theorem allDigits_cons {d : Char} {ds : List Char} :
    AllDigits (d :: ds) ↔ d.isDigit ∧ AllDigits ds :=
  List.forall_mem_cons

/-! ### Numerals are numbers -/

namespace Number

/-- An optional sign in front of what begins with none. -/
theorem splitSign_append {sign cs : List Char} (hsign : OptionalSign sign)
    (hcs : cs.head? ≠ some '+' ∧ cs.head? ≠ some '-') : (splitSign (sign ++ cs)).2 = cs := by
  rcases hsign with rfl | ⟨s, rfl | rfl, rfl⟩
  · rw [List.nil_append]
    unfold splitSign
    split
    · exact absurd rfl hcs.2
    · exact absurd rfl hcs.1
    · rfl
  · rfl
  · rfl

/-- Digits do not begin with a sign. -/
theorem head?_ne_sign_of_allDigits {ds : List Char} (h : AllDigits ds) :
    ds.head? ≠ some '+' ∧ ds.head? ≠ some '-' := by
  constructor
  · intro hhead
    cases h '+' (List.mem_of_mem_head? hhead)
  · intro hhead
    cases h '-' (List.mem_of_mem_head? hhead)

/-- An exponent has a value. -/
theorem exponentOf?_isSome {e : List Char} (h : Exponent e) : (exponentOf? e).isSome := by
  cases h with
  | none => rfl
  | @power mark sign ds hmark hsign hds hne =>
    have hsplit := splitSign_append hsign (head?_ne_sign_of_allDigits hds)
    have hall : ds.all Char.isDigit := List.all_eq_true.mpr hds
    have hdigits : ¬ (ds.isEmpty || !ds.all Char.isDigit) := by simp [hne, hall]
    rw [exponentOf?, if_pos hmark]
    dsimp only
    rw [hsplit, if_neg hdigits]
    rfl

/-- Digits before something else. -/
theorem span_digits {ds cs : List Char} (hds : AllDigits ds) (hcs : ∀ c ∈ cs.head?, c.isDigit = false) :
    (ds ++ cs).takeWhile Char.isDigit = ds ∧ (ds ++ cs).dropWhile Char.isDigit = cs := by
  rw [List.takeWhile_append_of_pos hds, List.dropWhile_append_of_pos hds]
  cases cs with
  | nil => simp
  | cons c cs => simp [hcs c rfl]

/-- An exponent does not go on with the mantissa before it. -/
theorem head?_exponent {e : List Char} (h : Exponent e) :
    e.head? ≠ some '.' ∧ ∀ c ∈ e.head?, c.isDigit = false := by
  cases h with
  | none => exact ⟨nofun, nofun⟩
  | @power mark sign ds hmark hsign hds hne =>
    rcases hmark with rfl | rfl
    · exact ⟨by simp, by simp⟩
    · exact ⟨by simp, by simp⟩

/-- Digits without a point, and what follows them. -/
theorem unsigned?_whole {ds e : List Char} (negative : Bool) (hds : AllDigits ds) (hne : ds ≠ [])
    (he : Exponent e) : (unsigned? negative (ds ++ e)).isSome := by
  obtain ⟨hpoint, hdigit⟩ := head?_exponent he
  obtain ⟨htake, hdrop⟩ := span_digits hds hdigit
  unfold unsigned?
  dsimp only
  rw [htake, hdrop]
  split
  · exact absurd rfl hpoint
  · rw [List.append_nil, if_neg (by simpa using hne), Option.isSome_map]
    exact exponentOf?_isSome he

/-- Digits with a point among them, before it or behind it, and what follows them. -/
theorem unsigned?_point {ds fs e : List Char} (negative : Bool) (hds : AllDigits ds)
    (hfs : AllDigits fs) (hne : ds ++ fs ≠ []) (he : Exponent e) :
    (unsigned? negative (ds ++ '.' :: (fs ++ e))).isSome := by
  have hpoint : ∀ c ∈ ('.' :: (fs ++ e)).head?, c.isDigit = false := by
    rintro c hc
    cases hc
    rfl
  obtain ⟨htake, hdrop⟩ := span_digits hds hpoint
  obtain ⟨htake', hdrop'⟩ := span_digits hfs (head?_exponent he).2
  unfold unsigned?
  dsimp only
  rw [htake, hdrop]
  simp only
  rw [htake', hdrop', if_neg (by simpa using hne), Option.isSome_map]
  exact exponentOf?_isSome he

/-- A numeral without its sign has a value. -/
theorem unsigned?_isSome {m e : List Char} (negative : Bool) (hm : Mantissa m) (he : Exponent e) :
    (unsigned? negative (m ++ e)).isSome := by
  cases hm with
  | whole hds hne => exact unsigned?_whole negative hds hne he
  | point hds hne hfs =>
    rw [List.append_assoc]
    exact unsigned?_point negative hds hfs (List.append_ne_nil_of_left_ne_nil hne _) he
  | fraction hfs hne => exact unsigned?_point negative allDigits_nil hfs hne he

/-- A mantissa does not begin with a sign. -/
theorem head?_mantissa {m : List Char} (h : Mantissa m) (e : List Char) :
    (m ++ e).head? ≠ some '+' ∧ (m ++ e).head? ≠ some '-' := by
  rw [List.head?_append_of_ne_nil _ h.ne_nil]
  cases h with
  | whole hds hne => exact head?_ne_sign_of_allDigits hds
  | point hds hne hfs =>
    rw [List.head?_append_of_ne_nil _ hne]
    exact head?_ne_sign_of_allDigits hds
  | fraction hfs hne => exact ⟨by simp, by simp⟩

end Number

/-- **Every numeral is a number.** -/
theorem Numeral.ofText?_isSome {w : List Char} (h : Numeral w) :
    (Number.ofText? (String.ofList w)).isSome := by
  obtain ⟨sign, m, e, hsign, hm, he, rfl⟩ := h
  have hsplit := Number.splitSign_append hsign (Number.head?_mantissa hm e)
  rw [Number.ofText?, String.toList_ofList, List.append_assoc]
  dsimp only
  rw [hsplit, Option.isSome_or, Number.unsigned?_isSome _ hm he]
  rfl

/-! ### The automaton -/

/-- How far a numeral has been read. -/
inductive Phase where
  /-- After the sign. -/
  | signed
  /-- Among the digits before the point. -/
  | whole
  /-- After a point that no digit stands before. -/
  | point
  /-- After the point, where there has been a digit. -/
  | fraction
  /-- After the mark of the exponent. -/
  | mark
  /-- After the sign of the exponent. -/
  | power
  /-- Among the digits of the exponent. -/
  | exponent
deriving DecidableEq, Repr

namespace Phase

/-- The phase after a digit. -/
def onDigit : Phase → Phase
  | signed | whole => whole
  | point | fraction => fraction
  | mark | power | exponent => exponent

/-- The phase after a point, if there can be one. -/
def onPoint : Phase → Option Phase
  | signed => some point
  | whole => some fraction
  | _ => none

/-- The phase after the mark of the exponent, if there can be one. -/
def onMark : Phase → Option Phase
  | whole | fraction => some mark
  | _ => none

/-- The phase after a sign, if there can be one. -/
def onSign : Phase → Option Phase
  | mark => some power
  | _ => none

/-- The phase after one more character, if it goes on with the numeral. -/
def next? (c : Char) (p : Phase) : Option Phase :=
  if c.isDigit then some p.onDigit
  else if c = '.' then p.onPoint
  else if c = 'e' ∨ c = 'E' then p.onMark
  else if c = '+' ∨ c = '-' then p.onSign
  else none

/-- Whether a numeral may end. -/
def isFinal : Phase → Bool
  | whole | fraction | exponent => true
  | _ => false

/-- Whether a text completes a numeral. -/
def accepts (p : Phase) : List Char → Bool
  | [] => p.isFinal
  | c :: cs => (p.next? c).any (·.accepts cs)

/-- A text is accepted character by character. -/
theorem accepts_cons {p : Phase} {c : Char} {cs : List Char} :
    p.accepts (c :: cs) ↔ ∃ q, p.next? c = some q ∧ q.accepts cs := by
  rw [accepts, Option.any_eq_true]

theorem accepts_of_next? {p q : Phase} {c : Char} {cs : List Char} (h : p.next? c = some q)
    (hq : q.accepts cs) : p.accepts (c :: cs) :=
  accepts_cons.mpr ⟨q, h, hq⟩

theorem next?_digit {d : Char} (hd : d.isDigit) (p : Phase) : p.next? d = some p.onDigit :=
  if_pos hd

theorem next?_point (p : Phase) : p.next? '.' = p.onPoint := rfl

theorem next?_mark {m : Char} (hm : m = 'e' ∨ m = 'E') (p : Phase) : p.next? m = p.onMark := by
  rcases hm with rfl | rfl <;> rfl

theorem next?_sign {s : Char} (hs : s = '+' ∨ s = '-') (p : Phase) : p.next? s = p.onSign := by
  rcases hs with rfl | rfl <;> rfl

/-- There are four ways to go on with a numeral. -/
theorem next?_cases {p q : Phase} {c : Char} (h : p.next? c = some q) :
    c.isDigit ∧ q = p.onDigit ∨ c = '.' ∧ p.onPoint = some q ∨
      (c = 'e' ∨ c = 'E') ∧ p.onMark = some q ∨ (c = '+' ∨ c = '-') ∧ p.onSign = some q := by
  unfold next? at h
  split at h
  · exact .inl ⟨‹_›, (Option.some.inj h).symm⟩
  split at h
  · exact .inr (.inl ⟨‹_›, h⟩)
  split at h
  · exact .inr (.inr (.inl ⟨‹_›, h⟩))
  split at h
  · exact .inr (.inr (.inr ⟨‹_›, h⟩))
  · cases h

/-! ### It accepts the numerals -/

variable {ds fs e m v : List Char}

/-- After the first digit of an exponent, digits are accepted. -/
theorem accepts_exponent_iff : exponent.accepts v ↔ AllDigits v := by
  induction v with
  | nil => exact iff_of_true rfl allDigits_nil
  | cons d v ih =>
    rw [accepts_cons, allDigits_cons, ← ih]
    constructor
    · rintro ⟨q, hq, hv⟩
      rcases next?_cases hq with ⟨hd, rfl⟩ | ⟨-, hnone⟩ | ⟨-, hnone⟩ | ⟨-, hnone⟩
      · exact ⟨hd, hv⟩
      all_goals cases hnone
    · rintro ⟨hd, hv⟩
      exact ⟨exponent, next?_digit hd exponent, hv⟩

/-- After the sign of an exponent a digit has to follow. -/
theorem accepts_power_iff : power.accepts v ↔ AllDigits v ∧ v ≠ [] := by
  cases v with
  | nil => simp [accepts, isFinal]
  | cons d v =>
    have hsame : power.accepts (d :: v) = exponent.accepts (d :: v) := rfl
    rw [hsame, accepts_exponent_iff]
    simp

/-- After the mark of an exponent, a sign and digits are accepted. -/
theorem accepts_mark_iff :
    mark.accepts v ↔ ∃ sign ds, OptionalSign sign ∧ AllDigits ds ∧ ds ≠ [] ∧ v = sign ++ ds := by
  constructor
  · intro h
    cases v with
    | nil => cases h
    | cons c v =>
      obtain ⟨q, hq, hv⟩ := accepts_cons.mp h
      rcases next?_cases hq with ⟨hc, rfl⟩ | ⟨-, hnone⟩ | ⟨-, hnone⟩ | ⟨hc, hsign⟩
      · exact ⟨[], c :: v, .inl rfl, allDigits_cons.mpr ⟨hc, accepts_exponent_iff.mp hv⟩,
          List.cons_ne_nil c v, rfl⟩
      · cases hnone
      · cases hnone
      · cases hsign
        obtain ⟨hds, hne⟩ := accepts_power_iff.mp hv
        exact ⟨[c], v, .inr ⟨c, hc, rfl⟩, hds, hne, rfl⟩
  · rintro ⟨sign, ds, hsign, hds, hne, rfl⟩
    rcases hsign with rfl | ⟨s, hs, rfl⟩
    · obtain ⟨d, ds, rfl⟩ := List.exists_cons_of_ne_nil hne
      obtain ⟨hd, hds⟩ := allDigits_cons.mp hds
      exact accepts_of_next? (next?_digit hd mark) (accepts_exponent_iff.mpr hds)
    · exact accepts_of_next? (next?_sign hs mark) (accepts_power_iff.mpr ⟨hds, hne⟩)

/-- Digits in front, where they do not change the phase. -/
theorem accepts_digits {p : Phase} (hp : p.onDigit = p) (hds : AllDigits ds) (hv : p.accepts v) :
    p.accepts (ds ++ v) := by
  induction ds with
  | nil => exact hv
  | cons d ds ih =>
    obtain ⟨hd, hds⟩ := allDigits_cons.mp hds
    refine accepts_of_next? (next?_digit hd p) ?_
    rw [hp]
    exact ih hds

/-- Where a mantissa may end, an exponent is accepted. -/
theorem accepts_of_exponent {p : Phase} (hfinal : p.isFinal) (hmark : p.onMark = some mark)
    (he : Exponent e) : p.accepts e := by
  cases he with
  | none => exact hfinal
  | @power c sign ds hc hsign hds hne =>
    refine accepts_of_next? ((next?_mark hc p).trans hmark) ?_
    exact accepts_mark_iff.mpr ⟨sign, ds, hsign, hds, hne, rfl⟩

/-- What is accepted after a mark is an exponent with it. -/
theorem exponent_of_accepts {c : Char} (hc : c = 'e' ∨ c = 'E') (hv : mark.accepts v) :
    Exponent (c :: v) := by
  obtain ⟨sign, ds, hsign, hds, hne, rfl⟩ := accepts_mark_iff.mp hv
  exact .power hc hsign hds hne

/-- After the point. -/
theorem accepts_fraction_iff :
    fraction.accepts v ↔ ∃ ds e, AllDigits ds ∧ Exponent e ∧ v = ds ++ e := by
  constructor
  · intro h
    induction v with
    | nil => exact ⟨[], [], allDigits_nil, .none, rfl⟩
    | cons c v ih =>
      obtain ⟨q, hq, hv⟩ := accepts_cons.mp h
      rcases next?_cases hq with ⟨hc, rfl⟩ | ⟨-, hnone⟩ | ⟨hc, hmark⟩ | ⟨-, hnone⟩
      · obtain ⟨ds, e, hds, he, rfl⟩ := ih hv
        exact ⟨c :: ds, e, allDigits_cons.mpr ⟨hc, hds⟩, he, rfl⟩
      · cases hnone
      · cases hmark
        exact ⟨[], c :: v, allDigits_nil, exponent_of_accepts hc hv, rfl⟩
      · cases hnone
  · rintro ⟨ds, e, hds, he, rfl⟩
    exact accepts_digits rfl hds (accepts_of_exponent rfl rfl he)

/-- After a point that no digit stands before, one has to follow. -/
theorem accepts_point_iff :
    point.accepts v ↔ ∃ ds e, AllDigits ds ∧ ds ≠ [] ∧ Exponent e ∧ v = ds ++ e := by
  constructor
  · intro h
    cases v with
    | nil => cases h
    | cons c v =>
      obtain ⟨q, hq, hv⟩ := accepts_cons.mp h
      rcases next?_cases hq with ⟨hc, rfl⟩ | ⟨-, hnone⟩ | ⟨-, hnone⟩ | ⟨-, hnone⟩
      · obtain ⟨ds, e, hds, he, rfl⟩ := accepts_fraction_iff.mp hv
        exact ⟨c :: ds, e, allDigits_cons.mpr ⟨hc, hds⟩, List.cons_ne_nil c ds, he, rfl⟩
      all_goals cases hnone
  · rintro ⟨ds, e, hds, hne, he, rfl⟩
    obtain ⟨d, ds, rfl⟩ := List.exists_cons_of_ne_nil hne
    obtain ⟨hd, hds⟩ := allDigits_cons.mp hds
    exact accepts_of_next? (next?_digit hd point) (accepts_fraction_iff.mpr ⟨ds, e, hds, he, rfl⟩)

/-- Among the digits before the point. -/
theorem accepts_whole_iff :
    whole.accepts v ↔ ∃ ds w, AllDigits ds ∧ v = ds ++ w ∧
      (Exponent w ∨ ∃ u, w = '.' :: u ∧ fraction.accepts u) := by
  constructor
  · intro h
    induction v with
    | nil => exact ⟨[], [], allDigits_nil, rfl, .inl .none⟩
    | cons c v ih =>
      obtain ⟨q, hq, hv⟩ := accepts_cons.mp h
      rcases next?_cases hq with ⟨hc, rfl⟩ | ⟨rfl, hpoint⟩ | ⟨hc, hmark⟩ | ⟨-, hnone⟩
      · obtain ⟨ds, w, hds, rfl, hw⟩ := ih hv
        exact ⟨c :: ds, w, allDigits_cons.mpr ⟨hc, hds⟩, rfl, hw⟩
      · cases hpoint
        exact ⟨[], '.' :: v, allDigits_nil, rfl, .inr ⟨v, rfl, hv⟩⟩
      · cases hmark
        exact ⟨[], c :: v, allDigits_nil, rfl, .inl (exponent_of_accepts hc hv)⟩
      · cases hnone
  · rintro ⟨ds, w, hds, rfl, he | ⟨u, rfl, hu⟩⟩
    · exact accepts_digits rfl hds (accepts_of_exponent rfl rfl he)
    · exact accepts_digits rfl hds (accepts_of_next? (next?_point whole) hu)

/-- After the sign. -/
theorem accepts_signed_iff :
    signed.accepts v ↔ ∃ m e, Mantissa m ∧ Exponent e ∧ v = m ++ e := by
  constructor
  · intro h
    cases v with
    | nil => cases h
    | cons c v =>
      obtain ⟨q, hq, hv⟩ := accepts_cons.mp h
      rcases next?_cases hq with ⟨hc, rfl⟩ | ⟨rfl, hpoint⟩ | ⟨-, hnone⟩ | ⟨-, hnone⟩
      · obtain ⟨ds, w, hds, rfl, hw⟩ := accepts_whole_iff.mp hv
        have hds : AllDigits (c :: ds) := allDigits_cons.mpr ⟨hc, hds⟩
        have hne := List.cons_ne_nil c ds
        rcases hw with he | ⟨u, rfl, hu⟩
        · exact ⟨c :: ds, w, .whole hds hne, he, rfl⟩
        · obtain ⟨fs, e, hfs, he, rfl⟩ := accepts_fraction_iff.mp hu
          exact ⟨(c :: ds) ++ '.' :: fs, e, .point hds hne hfs, he, by simp⟩
      · cases hpoint
        obtain ⟨fs, e, hfs, hne, he, rfl⟩ := accepts_point_iff.mp hv
        exact ⟨'.' :: fs, e, .fraction hfs hne, he, rfl⟩
      · cases hnone
      · cases hnone
  · rintro ⟨m, e, hm, he, rfl⟩
    -- the first digit leads to the digits before the point
    have hwhole : ∀ {d : Char} {ds w : List Char}, AllDigits (d :: ds) →
        (Exponent w ∨ ∃ u, w = '.' :: u ∧ fraction.accepts u) → signed.accepts (d :: ds ++ w) := by
      intro d ds w hds hw
      obtain ⟨hd, hds⟩ := allDigits_cons.mp hds
      exact accepts_of_next? (next?_digit hd signed) (accepts_whole_iff.mpr ⟨ds, w, hds, rfl, hw⟩)
    cases hm with
    | whole hds hne =>
      obtain ⟨d, ds, rfl⟩ := List.exists_cons_of_ne_nil hne
      exact hwhole hds (.inl he)
    | @point ds fs hds hne hfs =>
      obtain ⟨d, ds, rfl⟩ := List.exists_cons_of_ne_nil hne
      rw [List.append_assoc]
      exact hwhole hds (.inr ⟨fs ++ e, rfl, accepts_fraction_iff.mpr ⟨fs, e, hfs, he, rfl⟩⟩)
    | fraction hfs hne =>
      exact accepts_of_next? (next?_point signed)
        (accepts_point_iff.mpr ⟨_, e, hfs, hne, he, rfl⟩)

/-- The phase after the first character of a numeral. -/
def start? (c : Char) : Option Phase :=
  if c = '+' ∨ c = '-' then some signed else signed.next? c

/-- **The automaton accepts the numerals.** -/
theorem numeral_cons {c : Char} :
    Numeral (c :: v) ↔ ∃ p, start? c = some p ∧ p.accepts v := by
  constructor
  · rintro ⟨sign, m, e, hsign, hm, he, heq⟩
    have hsigned := accepts_signed_iff.mpr ⟨m, e, hm, he, rfl⟩
    rw [List.append_assoc] at heq
    rcases hsign with rfl | ⟨s, hs, rfl⟩
    · rw [List.nil_append] at heq
      rw [← heq] at hsigned
      obtain ⟨p, hp, hv⟩ := accepts_cons.mp hsigned
      have hc : ¬ (c = '+' ∨ c = '-') := by
        intro hc
        rw [next?_sign hc] at hp
        cases hp
      exact ⟨p, (if_neg hc).trans hp, hv⟩
    · obtain ⟨rfl, rfl⟩ := List.cons.inj heq
      exact ⟨signed, if_pos hs, hsigned⟩
  · rintro ⟨p, hp, hv⟩
    unfold start? at hp
    split at hp
    · rename_i hc
      cases hp
      obtain ⟨m, e, hm, he, rfl⟩ := accepts_signed_iff.mp hv
      exact ⟨[c], m, e, .inr ⟨c, hc, rfl⟩, hm, he, rfl⟩
    · obtain ⟨m, e, hm, he, heq⟩ := accepts_signed_iff.mp (accepts_of_next? hp hv)
      exact ⟨[], m, e, .inl rfl, hm, he, heq⟩

end Phase

end Ballad
