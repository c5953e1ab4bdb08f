import Ballad.Number.Integer
import Mathlib.Algebra.Group.Nat.Defs

/-!
# Integers are numbers

The integers up to `maxInteger` go into doubles and come back unchanged, and a double that is such an
integer is the one that the integer goes into. Only zero is an exception: it has two doubles.

- `ofRatio_one`: the double of an integer, whose mantissa is the integer shifted to 53 bits.
- `toInt?_ofRatio_one`: the integer is read back.
- `eq_ofRatio_one`: no other double is read as it.
- `position?_ofCount`, `eq_ofCount`: the same for positions.
- `toInt?_eq_none_iff`: a number is read as no integer exactly if it equals none of them.
-/

namespace Ballad.Number

variable {a e m : Nat} {negative : Bool} {n : Number}

/-! ### Sign and magnitude -/

/-- The bits of a number with a given sign and magnitude. -/
theorem toNat_ofMagnitude (h : m < 2 ^ 63) :
    (ofMagnitude negative m).bits.toNat = if negative then 2 ^ 63 + m else m := by
  unfold ofMagnitude
  rw [UInt64.toNat_ofNat']
  cases negative <;> simp only [Nat.pow_eq, if_true, Bool.false_eq_true, if_false] <;> omega

/-- Its sign is read back. -/
theorem negative_ofMagnitude (h : m < 2 ^ 63) : (ofMagnitude negative m).negative = negative := by
  rw [Number.negative, toNat_ofMagnitude h, Nat.pow_eq]
  cases negative <;> simp
  omega

/-- So is its magnitude. -/
theorem magnitude_ofMagnitude (h : m < 2 ^ 63) : (ofMagnitude negative m).magnitude = m := by
  rw [magnitude, toNat_ofMagnitude h, Nat.pow_eq]
  cases negative <;> simp only [if_true, Bool.false_eq_true, if_false] <;> omega

theorem magnitude_lt (n : Number) : n.magnitude < 2 ^ 63 :=
  Nat.mod_lt _ (by decide)

/-- Sign and magnitude are all there is to a number. -/
theorem ofMagnitude_magnitude (n : Number) : ofMagnitude n.negative n.magnitude = n := by
  have hlt : n.bits.toNat < 2 ^ 64 := n.bits.toNat_lt
  have hsame : (ofMagnitude n.negative n.magnitude).bits.toNat = n.bits.toNat := by
    rw [toNat_ofMagnitude n.magnitude_lt, Number.negative, magnitude, Nat.pow_eq]
    by_cases hneg : 2 ^ 63 ≤ n.bits.toNat
    · rw [decide_eq_true hneg, if_pos rfl]
      omega
    · rw [decide_eq_false hneg, if_neg Bool.false_ne_true]
      omega
  have hbits : (ofMagnitude n.negative n.magnitude).bits = n.bits := UInt64.toNat_inj.mp hsame
  cases n
  simpa [ofMagnitude] using hbits

/-! ### Mantissa and scale -/

/-- A mantissa has at most 53 bits. -/
theorem mantissa_lt (n : Number) : n.mantissa < 2 ^ 53 := by
  unfold mantissa
  simp only [Nat.pow_eq]
  split <;> omega

/-- A magnitude with the leading bit of the mantissa gives its two parts back. -/
theorem scale_mantissa (hlow : 2 ^ 52 ≤ m) (hhigh : m < 2 ^ 53)
    (h : n.magnitude = e * 2 ^ 52 + m) : n.scale = e + 1 ∧ n.mantissa = m := by
  unfold scale mantissa
  simp only [Nat.pow_eq]
  constructor
  · omega
  · rw [if_neg (by omega)]
    omega

/-- Above the smallest scale a mantissa has all of its 53 bits, and the magnitude is made of the
two. -/
theorem magnitude_of_scale (h : 2 ≤ n.scale) :
    2 ^ 52 ≤ n.mantissa ∧ n.magnitude = (n.scale - 1) * 2 ^ 52 + n.mantissa := by
  unfold scale at h ⊢
  unfold mantissa
  simp only [Nat.pow_eq] at h ⊢
  rw [if_neg (by omega)]
  omega

/-- Below 2 ^ 52 some bits of the mantissa are a fraction. -/
theorem integerPart_scale_lt (h : n.scale < 1075) :
    n.integerPart.1 = n.mantissa / 2 ^ (1075 - n.scale) ∧
      n.integerPart.2.1 = n.mantissa % 2 ^ (1075 - n.scale) := by
  unfold integerPart
  rw [if_neg (by omega)]
  exact ⟨rfl, rfl⟩

/-- From there on all of them belong to the integer. -/
theorem integerPart_le_scale (h : 1075 ≤ n.scale) :
    n.integerPart.1 = n.mantissa * 2 ^ (n.scale - 1075) := by
  unfold integerPart
  rw [if_pos h]
  rfl

theorem integerPart_zero (hn : n.magnitude = 0) :
    n.integerPart.1 = 0 ∧ n.integerPart.2.1 = 0 := by
  have hmantissa : n.mantissa = 0 := by simp [mantissa, hn]
  have hscale : n.scale = 1 := by simp [scale, hn]
  obtain ⟨hdiv, hmod⟩ := integerPart_scale_lt (n := n) (by omega)
  rw [hdiv, hmod, hmantissa]
  exact ⟨Nat.zero_div _, Nat.zero_mod _⟩

/-! ### The double of an integer -/

theorem maxInteger_eq : maxInteger = 2 ^ 53 - 1 := rfl

/-- Integers that are read exactly have at most 53 bits. -/
theorem log2_le (h0 : a ≠ 0) (h : a ≤ maxInteger) : a.log2 ≤ 52 := by
  have hlt : a < 2 ^ 53 := by
    rw [maxInteger_eq] at h
    omega
  have := (Nat.log2_lt h0).mpr hlt
  omega

/-- The leading bit of an integer that is shifted. -/
theorem two_pow_le_shift (h0 : a ≠ 0) (k : Nat) : Nat.pow 2 (a.log2 + k) ≤ a * Nat.pow 2 k := by
  calc 2 ^ (a.log2 + k) = 2 ^ a.log2 * 2 ^ k := Nat.pow_add 2 _ _
    _ ≤ a * 2 ^ k := Nat.mul_le_mul_right _ (Nat.log2_self_le h0)

/-- An integer, shifted by what its logarithm lacks, has 53 bits. -/
theorem shift_bounds (h0 : a ≠ 0) (h : a.log2 ≤ 52) :
    2 ^ 52 ≤ a * 2 ^ (52 - a.log2) ∧ a * 2 ^ (52 - a.log2) < 2 ^ 53 := by
  constructor
  · calc 2 ^ 52 = 2 ^ (a.log2 + (52 - a.log2)) := by rw [Nat.add_sub_cancel' h]
      _ ≤ a * 2 ^ (52 - a.log2) := two_pow_le_shift h0 _
  · calc a * 2 ^ (52 - a.log2) < 2 ^ (a.log2 + 1) * 2 ^ (52 - a.log2) :=
          Nat.mul_lt_mul_of_pos_right Nat.lt_log2_self (Nat.two_pow_pos _)
      _ = 2 ^ (a.log2 + 1 + (52 - a.log2)) := (Nat.pow_add 2 _ _).symm
      _ = 2 ^ 53 := by rw [show a.log2 + 1 + (52 - a.log2) = 53 by omega]

/-- Only the shift that gives an integer 53 bits belongs to it. -/
theorem log2_of_shift {s : Nat} (hs : s ≤ 52) (hlow : 2 ^ 52 ≤ a * 2 ^ s)
    (hhigh : a * 2 ^ s < 2 ^ 53) : a.log2 = 52 - s := by
  have h0 : a ≠ 0 := by
    rintro rfl
    rw [Nat.zero_mul] at hlow
    omega
  have hsplit : ∀ k, s ≤ k → 2 ^ k = 2 ^ (k - s) * 2 ^ s := by
    intro k hk
    rw [← Nat.pow_add, Nat.sub_add_cancel hk]
  rw [hsplit 52 hs] at hlow
  rw [hsplit 53 (by omega)] at hhigh
  have hle : 2 ^ (52 - s) ≤ a := Nat.le_of_mul_le_mul_right hlow (Nat.two_pow_pos s)
  have hlt : a < 2 ^ (53 - s) := Nat.lt_of_mul_lt_mul_right hhigh
  have := (Nat.le_log2 h0).mpr hle
  have := (Nat.log2_lt h0).mpr hlt
  omega

/-- The scale of the double of an integer. -/
theorem ratioScale_one (h0 : a ≠ 0) : ratioScale a 1 = 1023 + a.log2 := by
  have hguess : 1076 + a.log2 - Nat.log2 1 - 53 = 1023 + a.log2 := by
    rw [show Nat.log2 1 = 0 from rfl]
    omega
  have hexponent : 1023 + a.log2 + 52 = a.log2 + 1075 := by omega
  unfold ratioScale
  dsimp only
  rw [hguess, hexponent, Nat.one_mul]
  generalize 1075 = k
  rw [if_pos (two_pow_le_shift h0 k)]
  omega

theorem roundDiv_one (a : Nat) : roundDiv a 1 = a := by
  simp [roundDiv, Nat.mod_one]

/-- The double of an integer other than zero: no bit of the integer is rounded away. -/
theorem ofRatio_one (h0 : a ≠ 0) (h : a ≤ maxInteger) :
    ofRatio negative a 1 =
      ofMagnitude negative ((1022 + a.log2) * 2 ^ 52 + a * 2 ^ (52 - a.log2)) := by
  have hlog := log2_le h0 h
  obtain ⟨-, hhigh⟩ := shift_bounds h0 hlog
  have hshift : 1075 - (1023 + a.log2) = 52 - a.log2 := by omega
  have hfinite : (1022 + a.log2) * 2 ^ 52 + a * 2 ^ (52 - a.log2) ≤ infiniteMagnitude := by
    show _ ≤ 2047 * 2 ^ 52
    omega
  unfold ofRatio
  rw [if_neg h0]
  simp only [ratioScale_one h0, Nat.pow_eq]
  rw [if_pos (by omega), roundDiv_one, hshift, show 1023 + a.log2 - 1 = 1022 + a.log2 by omega,
    Nat.min_eq_right hfinite]

/-! ### The integer of a double -/

/-- What it means to be read as an integer. -/
theorem toInt?_eq_some_iff {i : Int} :
    n.toInt? = some i ↔
      n.isFinite ∧ n.integerPart.2.1 = 0 ∧ n.integerPart.1 ≤ maxInteger ∧
        i = if n.negative then -(n.integerPart.1 : Int) else n.integerPart.1 := by
  unfold toInt?
  by_cases hfin : n.isFinite
  · rw [if_pos hfin]
    dsimp only
    by_cases hwhole : n.integerPart.2.1 = 0 ∧ n.integerPart.1 ≤ maxInteger
    · rw [if_pos hwhole, Option.some.injEq]
      simp only [hfin, hwhole, true_and, eq_comm]
    · rw [if_neg hwhole]
      simp only [reduceCtorEq, false_iff]
      rintro ⟨-, hrest, hle, -⟩
      exact hwhole ⟨hrest, hle⟩
  · rw [if_neg hfin]
    simp [hfin]

/-- A double that holds a shifted integer is read as that integer. -/
theorem integerPart_of_shift (h0 : a ≠ 0) (h : a.log2 ≤ 52)
    (hn : n.magnitude = (1022 + a.log2) * 2 ^ 52 + a * 2 ^ (52 - a.log2)) :
    n.integerPart.1 = a ∧ n.integerPart.2.1 = 0 := by
  obtain ⟨hlow, hhigh⟩ := shift_bounds h0 h
  obtain ⟨hscale, hmantissa⟩ := scale_mantissa hlow hhigh hn
  unfold integerPart
  rw [hscale, hmantissa]
  by_cases htop : a.log2 = 52
  · rw [if_pos (by omega), htop]
    exact ⟨by simp, rfl⟩
  · have hden : 1075 - (1022 + a.log2 + 1) = 52 - a.log2 := by omega
    rw [if_neg (by omega), hden]
    exact ⟨Nat.mul_div_cancel a (Nat.two_pow_pos _), Nat.mul_mod_left a _⟩

/-- **Integers come back**: every integer up to the largest one is read from its double. -/
theorem toInt?_ofRatio_one (negative : Bool) (h : a ≤ maxInteger) :
    (ofRatio negative a 1).toInt? = some (if negative then -(a : Int) else a) := by
  by_cases h0 : a = 0
  · subst h0
    have hmagnitude : (ofMagnitude negative 0).magnitude = 0 := magnitude_ofMagnitude (by decide)
    obtain ⟨hwhole, hrest⟩ := integerPart_zero hmagnitude
    show (ofMagnitude negative 0).toInt? = _
    rw [toInt?_eq_some_iff, hwhole, negative_ofMagnitude (by decide), isFinite, hmagnitude]
    exact ⟨by decide, hrest, h, rfl⟩
  · have hlog := log2_le h0 h
    obtain ⟨-, hhigh⟩ := shift_bounds h0 hlog
    have hlt : (1022 + a.log2) * 2 ^ 52 + a * 2 ^ (52 - a.log2) < 2047 * 2 ^ 52 := by omega
    have hmagnitude : (ofRatio negative a 1).magnitude =
        (1022 + a.log2) * 2 ^ 52 + a * 2 ^ (52 - a.log2) := by
      rw [ofRatio_one h0 h]
      exact magnitude_ofMagnitude (by omega)
    have hnegative : (ofRatio negative a 1).negative = negative := by
      rw [ofRatio_one h0 h]
      exact negative_ofMagnitude (by omega)
    obtain ⟨hwhole, hrest⟩ := integerPart_of_shift h0 hlog hmagnitude
    rw [toInt?_eq_some_iff, hwhole, hnegative, isFinite, hmagnitude]
    exact ⟨decide_eq_true hlt, hrest, h, rfl⟩

/-- The mantissa of an integer other than zero is the integer, shifted to 53 bits. -/
theorem mantissa_of_integer (hrest : n.integerPart.2.1 = 0) (hle : n.integerPart.1 ≤ maxInteger)
    (h0 : n.integerPart.1 ≠ 0) :
    ∃ s, s ≤ 52 ∧ n.scale = 1075 - s ∧ n.mantissa = n.integerPart.1 * 2 ^ s := by
  have hbound := n.mantissa_lt
  rw [maxInteger_eq] at hle
  by_cases hscale : n.scale < 1075
  · obtain ⟨hdiv, hmod⟩ := integerPart_scale_lt hscale
    have hshift : n.mantissa = n.integerPart.1 * 2 ^ (1075 - n.scale) := by
      rw [hmod] at hrest
      rw [hdiv, Nat.div_mul_cancel (Nat.dvd_of_mod_eq_zero hrest)]
    refine ⟨1075 - n.scale, ?_, by omega, hshift⟩
    rcases Nat.lt_or_ge 52 (1075 - n.scale) with hlarge | hsmall
    · -- with a larger shift no integer but zero fits into the mantissa
      exfalso
      have hpow : 2 ^ 53 ≤ 2 ^ (1075 - n.scale) := Nat.pow_le_pow_right (by decide) (by omega)
      have hone : 2 ^ (1075 - n.scale) ≤ n.integerPart.1 * 2 ^ (1075 - n.scale) :=
        Nat.le_mul_of_pos_left _ (by omega)
      omega
    · exact hsmall
  · have hmul := integerPart_le_scale (Nat.le_of_not_lt hscale)
    obtain ⟨hnormal, -⟩ := magnitude_of_scale (n := n) (by omega)
    have hexact : n.scale - 1075 = 0 := by
      rcases Nat.eq_zero_or_pos (n.scale - 1075) with hzero | hpos
      · exact hzero
      · -- twice a mantissa with its leading bit is beyond the largest integer
        exfalso
        have hpow : 2 ^ 1 ≤ 2 ^ (n.scale - 1075) := Nat.pow_le_pow_right (by decide) hpos
        have hdouble : n.mantissa * 2 ^ 1 ≤ n.integerPart.1 := by
          rw [hmul]
          exact Nat.mul_le_mul_left _ hpow
        omega
    refine ⟨0, by omega, by omega, ?_⟩
    rw [hmul, hexact]
    simp

/-- **Integers have one double each**: a double that is an integer other than zero is the double of
that integer. -/
theorem eq_ofRatio_one {i : Int} (h : n.toInt? = some i) (hi : i ≠ 0) :
    n = ofRatio n.negative i.natAbs 1 := by
  obtain ⟨-, hrest, hle, hval⟩ := toInt?_eq_some_iff.mp h
  have habs : i.natAbs = n.integerPart.1 := by
    rw [hval]
    split <;> omega
  have h0 : n.integerPart.1 ≠ 0 := by omega
  obtain ⟨s, hs, hscale, hmantissa⟩ := mantissa_of_integer hrest hle h0
  obtain ⟨hnormal, hmagnitude⟩ := magnitude_of_scale (n := n) (by omega)
  have hlog : n.integerPart.1.log2 = 52 - s := by
    refine log2_of_shift hs ?_ ?_
    · rw [← hmantissa]
      exact hnormal
    · rw [← hmantissa]
      exact n.mantissa_lt
  have hsame : n.magnitude = (1022 + n.integerPart.1.log2) * 2 ^ 52 +
      n.integerPart.1 * 2 ^ (52 - n.integerPart.1.log2) := by
    rw [hmagnitude, hlog, show 52 - (52 - s) = s by omega, ← hmantissa, hscale]
    omega
  rw [habs, ofRatio_one h0 hle, ← hsame, ofMagnitude_magnitude]

/-! ### Positions -/

/-- A count is read back as the position that it is, or as the last one there is. -/
theorem position?_ofCount (p : Nat) : (ofCount p).position? = some (min p maxInteger) := by
  have hint : (ofCount p).toInt? = some ((min p maxInteger : Nat) : Int) :=
    toInt?_ofRatio_one false (Nat.min_le_right p maxInteger)
  rw [position?, hint]
  generalize min p maxInteger = q
  simp

/-- Both zeros stand for the first position. -/
theorem position?_of_isZero (h : n.isZero) : n.position? = some 0 := by
  have hmagnitude : n.magnitude = 0 := by simpa [isZero] using h
  obtain ⟨hwhole, hrest⟩ := integerPart_zero hmagnitude
  have hint : n.toInt? = some 0 := by
    rw [toInt?_eq_some_iff, hwhole, isFinite, hmagnitude]
    exact ⟨by decide, hrest, Nat.zero_le _, by simp⟩
  rw [position?, hint]
  rfl

/-- Only the two zeros are at position zero. -/
theorem isZero_of_position? (h : n.position? = some 0) : n.isZero := by
  obtain ⟨i, hi, hpos⟩ := Option.bind_eq_some_iff.mp h
  obtain ⟨-, hrest, -, hval⟩ := toInt?_eq_some_iff.mp hi
  have hwhole : n.integerPart.1 = 0 := by
    split at hpos
    · have hzero := Option.some.inj hpos
      split at hval <;> omega
    · exact absurd hpos (by simp)
  have hmantissa : n.mantissa = 0 := by
    by_cases hscale : n.scale < 1075
    · obtain ⟨hdiv, hmod⟩ := integerPart_scale_lt hscale
      rw [hdiv] at hwhole
      rw [hmod] at hrest
      rw [← Nat.div_add_mod n.mantissa (2 ^ (1075 - n.scale)), hwhole, hrest, Nat.mul_zero]
    · rw [integerPart_le_scale (Nat.le_of_not_lt hscale)] at hwhole
      exact (Nat.mul_eq_zero.mp hwhole).resolve_right (Nat.ne_of_gt (Nat.two_pow_pos _))
  have hmagnitude : n.magnitude = 0 := by
    unfold mantissa at hmantissa
    simp only [Nat.pow_eq] at hmantissa
    split at hmantissa <;> omega
  rw [isZero, hmagnitude]
  rfl

/-- What stands for a position is a number. -/
theorem not_isNaN_of_position? {p : Nat} (h : n.position? = some p) : n.isNaN = false := by
  obtain ⟨i, hi, -⟩ := Option.bind_eq_some_iff.mp h
  obtain ⟨hfin, -⟩ := toInt?_eq_some_iff.mp hi
  rw [isFinite, decide_eq_true_eq] at hfin
  rw [isNaN, decide_eq_false_iff_not]
  omega

/-- Positions are integers that are read exactly. -/
theorem position?_le {p : Nat} (h : n.position? = some p) : p ≤ maxInteger := by
  obtain ⟨i, hi, hp⟩ := Option.bind_eq_some_iff.mp h
  obtain ⟨-, -, hle, hval⟩ := toInt?_eq_some_iff.mp hi
  split at hp
  · obtain rfl := Option.some.inj hp
    rw [hval]
    split <;> omega
  · exact absurd hp (by simp)

/-- Only the double of a position other than zero is read as it. -/
theorem eq_ofCount {p : Nat} (h : n.position? = some p) (hp : p ≠ 0) : n = ofCount p := by
  have hle := position?_le h
  obtain ⟨i, hi, hpos⟩ := Option.bind_eq_some_iff.mp h
  split at hpos
  · obtain rfl := Option.some.inj hpos
    have hne : i ≠ 0 := by omega
    have hneg : n.negative = false := by
      obtain ⟨-, -, -, hval⟩ := toInt?_eq_some_iff.mp hi
      cases hsign : n.negative with
      | false => rfl
      | true =>
        rw [hsign, if_pos rfl] at hval
        omega
    have hn := eq_ofRatio_one hi hne
    rw [hneg] at hn
    rw [ofCount, ofNat, Nat.min_eq_left hle, hn]
    congr 1
    omega
  · exact absurd hpos (by simp)

/-! ### Numbers that equal an integer -/

section

variable {x y : Number} {i : Int}

/-- So are all integers that numbers are read as. -/
theorem natAbs_le_of_toInt? (h : n.toInt? = some i) : i.natAbs ≤ maxInteger := by
  obtain ⟨-, -, hle, rfl⟩ := toInt?_eq_some_iff.mp h
  split <;> omega

/-- **Integers are read back from their doubles.** -/
theorem toInt?_ofInt (h : i.natAbs ≤ maxInteger) : (ofInt i).toInt? = some i := by
  rw [ofInt, toInt?_ofRatio_one _ h]
  simp only [decide_eq_true_eq]
  congr 1
  split <;> omega

/-- Both zeros are read as zero. -/
theorem toInt?_of_isZero (h : n.isZero) : n.toInt? = some 0 := by
  obtain ⟨i, hi, hpos⟩ := Option.bind_eq_some_iff.mp (position?_of_isZero h)
  rw [hi]
  split at hpos
  · have hzero := Option.some.inj hpos
    congr 1
    omega
  · cases hpos

/-- Nothing else is read as zero. -/
theorem isZero_of_toInt? (h : n.toInt? = some 0) : n.isZero :=
  isZero_of_position? (by rw [position?, h]; rfl)

theorem toInt?_of_isNaN (h : n.isNaN) : n.toInt? = none := by
  have hinfinite : n.isFinite = false := by
    simp only [isNaN, isFinite, decide_eq_true_eq, decide_eq_false_iff_not] at h ⊢
    omega
  rw [toInt?, hinfinite, if_neg Bool.false_ne_true]

/-- Other than for zero, the double of an integer is the only one that is read as it. -/
theorem eq_ofInt (h : n.toInt? = some i) (hi : i ≠ 0) : n = ofInt i := by
  have hsign : n.negative = decide (i < 0) := by
    obtain ⟨-, -, -, hval⟩ := toInt?_eq_some_iff.mp h
    split at hval <;> rename_i hneg
    · rw [hneg, eq_comm, decide_eq_true_eq]
      omega
    · rw [Bool.eq_false_iff.mpr hneg, eq_comm, decide_eq_false_iff_not]
      omega
  rw [eq_ofRatio_one h hi, hsign]
  rfl

/-- Equal numbers have one place in the order of all numbers. -/
theorem eq_iff : x.eq y = true ↔ ∃ place, x.order? = some place ∧ y.order? = some place := by
  unfold eq related
  split
  · rename_i hx hy
    simp only [hx, hy, Option.some.injEq, beq_iff_eq, exists_eq_left']
    exact eq_comm
  · rename_i hnone
    simp only [Bool.false_eq_true, false_iff, not_exists, not_and]
    exact fun place hx hy => hnone place place hx hy

/-- Two numbers that are equal are the same double, or both of them are zero. -/
theorem same_or_isZero (h : x.eq y = true) : x = y ∨ x.isZero ∧ y.isZero := by
  obtain ⟨place, hx, hy⟩ := eq_iff.mp h
  unfold order? at hx hy
  split at hx <;> split at hy <;> simp only [Option.some.injEq, reduceCtorEq] at hx hy
  by_cases hzero : place = 0
  · right
    simp only [isZero, beq_iff_eq]
    split at hx <;> split at hy <;> omega
  · left
    have hmagnitude : x.magnitude = y.magnitude := by
      split at hx <;> split at hy <;> omega
    have hnegative : x.negative = y.negative := by
      cases hxs : x.negative <;> cases hys : y.negative <;> simp only [hxs, hys] at hx hy ⊢ <;>
        simp at hx hy <;> omega
    rw [← ofMagnitude_magnitude x, ← ofMagnitude_magnitude y, hmagnitude, hnegative]

/-- What is read as an integer equals it. -/
theorem eq_ofInt_of_toInt? (h : n.toInt? = some i) : n.eq (ofInt i) = true := by
  have hnan : n.isNaN = false := by
    rw [Bool.eq_false_iff]
    intro hnan
    rw [toInt?_of_isNaN hnan] at h
    cases h
  by_cases hi : i = 0
  · subst hi
    have hzero : n.magnitude = 0 := by simpa [isZero] using isZero_of_toInt? h
    rw [eq_iff, order?, hnan]
    exact ⟨0, by simp [hzero], by decide +kernel⟩
  · rw [← eq_ofInt h hi, eq_iff, order?, hnan]
    exact ⟨_, rfl, rfl⟩

/-- **A number is read as no integer exactly if it equals none of them.** -/
theorem toInt?_eq_none_iff :
    n.toInt? = none ↔ ∀ i : Int, i.natAbs ≤ maxInteger → n.eq (ofInt i) = false := by
  constructor
  · intro h i hi
    rw [Bool.eq_false_iff]
    intro heq
    rcases same_or_isZero heq with rfl | ⟨hzero, -⟩
    · exact absurd ((toInt?_ofInt hi).symm.trans h) (Option.some_ne_none i)
    · exact absurd ((toInt?_of_isZero hzero).symm.trans h) (Option.some_ne_none 0)
  · intro h
    cases hint : n.toInt? with
    | none => rfl
    | some i =>
      have hne := h i (natAbs_le_of_toInt? hint)
      rw [eq_ofInt_of_toInt? hint] at hne
      cases hne

end

end Ballad.Number
