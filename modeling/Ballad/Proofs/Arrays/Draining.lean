import Ballad.Proofs.Arrays.Histories

/-!
# Draining an array

As many pops as an array has positions give back what stands at the positions, from the last one
down, and leave what stands at none. A position that holds nothing is popped like any other, and gives
`mysterious`.

- `Table.pops`: several pops, with the values that they take off.
- `Table.found`: what stands at a position.
- `Key.isBelow`: a key that names no position from some bound on. A pop keeps the entries of the keys
  that are below the position it gives up (`Table.toList_dropTop_eq_filter`).
- `Table.pops_eq`: what has been taken off after some of the pops, and what is left.
- `Table.Drains`: an array that gives back all of its positions and nothing else.
-/

namespace Ballad

/-- Whether a key names no position from a bound on. -/
def Key.isBelow (bound : Nat) (k : Key) : Bool :=
  k.position?.all (· < bound)

theorem Key.isBelow_iff {bound : Nat} {k : Key} :
    k.isBelow bound ↔ ∀ p, k.position? = some p → p < bound := by
  rw [isBelow]
  cases k.position? with
  | none => simp
  | some p => simp

/-- Before the first position there are only the keys that name none. -/
theorem Key.isBelow_zero (k : Key) : k.isBelow 0 = k.position?.isNone := by
  rw [isBelow]
  cases k.position? with
  | none => rfl
  | some p => rfl

namespace Table

variable {t : Table} {p q n : Nat}

/-- Pops `n` times: the values that are taken off, the first one first, and what is left. -/
def pops (t : Table) : Nat → List Value × Table
  | 0 => ([], t)
  | n + 1 =>
    let (value, rest) := t.pop
    let (values, rest) := rest.pops n
    (value :: values, rest)

/-- What stands at a position, or `mysterious` if nothing does. -/
def found (t : Table) (p : Nat) : Value :=
  (t.get? (Key.ofPosition p)).getD .mysterious

/-! ### One pop -/

/-- Every entry stands below the next position. -/
theorem filter_isBelow_next (h : t.Sound) :
    t.entries.toList.filter (·.1.isBelow t.next) = t.entries.toList := by
  rw [List.filter_eq_self]
  intro e he
  rw [Key.isBelow_iff]
  exact h.position_lt e.1 (mem_keys_of_mem_entries h.toInStep he)

/-- A pop removes the entries from the position on that it gives up, of which there is at most
one. -/
theorem toList_dropTop_eq_filter (h : t.Sound) (hp : t.next = p + 1) :
    t.dropTop.entries.toList = t.entries.toList.filter (·.1.isBelow p) := by
  rw [toList_dropTop h.toInStep hp]
  refine List.filter_congr fun e he => ?_
  have hkey : e.1 ∈ t.keys := mem_keys_of_mem_entries h.toInStep he
  have hle := h.next_le
  rw [Bool.eq_iff_iff, decide_eq_true_iff, Key.isBelow_iff]
  constructor
  · intro hne q hq
    have hlt := h.position_lt e.1 hkey q hq
    have hqp : q ≠ p := by
      rintro rfl
      exact hne (Key.eq_ofPosition (h.normal e.1 hkey) hq)
    omega
  · intro hbelow heq
    have hposition : e.1.position? = some p := by
      rw [heq, Key.position?_ofPosition, Nat.min_eq_left (by omega)]
    exact Nat.lt_irrefl p (hbelow p hposition)

/-- A pop leaves what stands at the positions before the last one. -/
theorem found_dropTop (h : t.Sound) (hp : t.next = p + 1) (hq : q < p) :
    t.dropTop.found q = t.found q := by
  have hle := h.next_le
  have hne : Key.ofPosition p ≠ Key.ofPosition q := by
    intro heq
    have hposition := congrArg Key.position? heq
    rw [Key.position?_ofPosition, Key.position?_ofPosition, Nat.min_eq_left (by omega),
      Nat.min_eq_left (by omega)] at hposition
    cases hposition
    exact Nat.lt_irrefl _ hq
  rw [found, found, get?_dropTop hp, if_neg hne]

theorem pop_eq (hp : t.next = p + 1) : t.pop = (t.found p, t.dropTop) := by
  rw [pop, top_eq hp, found]

/-! ### Several pops -/

/-- After `n` of the pops, what stood at the last `n` positions has been taken off, the last one
first, and the entries below these positions are left as they were. -/
theorem pops_eq (h : t.Sound) (hn : n ≤ t.next) :
    (t.pops n).1 = (List.range' 1 n).map (fun i => t.found (t.next - i)) ∧
    (t.pops n).2.next = t.next - n ∧
    (t.pops n).2.entries.toList = t.entries.toList.filter (·.1.isBelow (t.next - n)) := by
  -- each pop leaves a sound array with one position less, to which the rest of the pops apply
  induction n generalizing t with
  | zero => exact ⟨rfl, rfl, (filter_isBelow_next h).symm⟩
  | succ n ih =>
    obtain ⟨p, hp⟩ : ∃ p, t.next = p + 1 := Nat.exists_eq_add_one_of_ne_zero (by omega)
    have hnext : t.dropTop.next = p := by
      rw [next_dropTop, hp]
      rfl
    obtain ⟨hvalues, hrest, hentries⟩ := ih (sound_dropTop h) (by omega)
    rw [hnext] at hvalues hrest hentries
    have hpops : t.pops (n + 1) = (t.found p :: (t.dropTop.pops n).1, (t.dropTop.pops n).2) := by
      rw [pops, pop_eq hp]
    rw [hpops, hp, Nat.add_sub_add_right]
    refine ⟨?_, hrest, ?_⟩
    · rw [hvalues, List.range'_succ, List.map_cons, Nat.add_sub_cancel, ← List.map_add_range',
        List.map_map]
      refine congrArg _ (List.map_congr_left fun i hi => ?_)
      have hi := List.mem_range'_1.mp hi
      rw [Function.comp_apply, found_dropTop h hp (by omega)]
      congr 1
      omega
    · show (t.dropTop.pops n).2.entries.toList = _
      rw [hentries, toList_dropTop_eq_filter h hp, List.filter_filter]
      refine List.filter_congr fun e _ => ?_
      rw [Bool.eq_iff_iff, Bool.and_eq_true, Key.isBelow_iff, Key.isBelow_iff]
      refine and_iff_left_of_imp fun hbelow q hq => ?_
      exact Nat.lt_of_lt_of_le (hbelow q hq) (Nat.sub_le p n)

/-- As many pops as there are positions give all of them back, and nothing else. -/
structure Drains (t : Table) : Prop where
  /-- The `i`th pop returns what is stored under the integer `t.next - i`, or `mysterious`. -/
  values_eq : (t.pops t.next).1 =
    (List.range' 1 t.next).map fun i =>
      (t.get? (Key.ofPosition (t.next - i))).getD .mysterious
  /-- The keys of these positions are the integers themselves. -/
  position?_eq : ∀ p < t.next, (Key.ofPosition p).position? = some p
  /-- No other keys name a position than the integers from zero on that are exact. -/
  position?_iff : ∀ e ∈ t.entries.toList, ∀ p,
    e.1.position? = some p ↔ p ≤ 2 ^ 53 - 1 ∧ e.1 = Key.ofPosition p
  next_eq : (t.pops t.next).2.next = 0
  /-- What is left are the entries whose keys are no positions, with their values and in their
  order. -/
  entries_eq : (t.pops t.next).2.entries.toList =
    t.entries.toList.filter fun e => e.1.position?.isNone

/-- **Every array can be drained**: whatever values it began with, and whatever has been set, pushed and
popped since. -/
theorem histories_drain (values : List Value) (actions : List Action) :
    (ofHistory values actions).Drains := by
  have hs := sound_ofHistory values actions
  generalize ofHistory values actions = t at hs
  obtain ⟨hvalues, hnext, hentries⟩ := pops_eq hs (Nat.le_refl t.next)
  rw [Nat.sub_self] at hnext hentries
  refine ⟨hvalues, ?_, ?_, hnext, ?_⟩
  · intro p hp
    have hle := hs.next_le
    rw [Key.position?_ofPosition, Nat.min_eq_left (by omega)]
  · intro e he p
    constructor
    · intro hp
      exact ⟨Key.position?_le hp, Key.eq_ofPosition (hs.normal e.1 (mem_keys_of_mem_entries hs.toInStep he)) hp⟩
    · rintro ⟨hle, hkey⟩
      have hmax : p ≤ Number.maxInteger := hle
      rw [hkey, Key.position?_ofPosition, Nat.min_eq_left hmax]
  · rw [hentries]
    exact List.filter_congr fun e _ => Key.isBelow_zero e.1

-- the second position holds nothing, and the word stays where it was set
example :
    (ofHistory [.boolean true]
      [.set (.string "x") ⟨.string "x", rfl⟩ .null, .set (Key.ofPosition 2) (Key.normal_ofPosition 2)
        (.boolean false)]).pops 3 =
      ([.boolean false, .mysterious, .boolean true],
        { Table.empty.set (.string "x") .null with next := 0 }) := by
  decide +kernel

end Table

end Ballad
