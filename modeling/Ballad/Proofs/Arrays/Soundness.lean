import Ballad.Proofs.Arrays.Edits
import Ballad.Proofs.Integers
import Mathlib.Data.List.Perm.Basic

/-!
# The invariant of arrays

An array has a map from keys to values, an order of keys and a count of positions, which are changed
one by one. All of its functions rely on the three being in step: the order has each key of the map
once and no other key, and the count is ahead of every position.

- `Key.Normal`, `Key.eq_ofPosition`: among the keys that values have, a position has one.
- `Table.get?_set`, `Table.get?_dropTop`: what becomes of the map.
- `Table.toList_forget`: what becomes of the order. Both ways to take a key out of it do the same.
- `Table.InStep`: the map and the order are about the same keys. `Table.Sound`: the whole invariant.
- `Table.toList_set`, `Table.toList_dropTop`: on a sound array, setting and popping are edits of the
  list of entries.
- `Table.sound_set`, `Table.sound_dropTop`: they keep the array sound.
-/

namespace Ballad

/-! ### Keys of positions -/

namespace Key

variable {k : Key} {p : Nat}

/-- The key of a position holds the double of the position as it is: the only zero among them is the
positive one. -/
theorem ofPosition_eq (p : Nat) : ofPosition p = number (.ofCount p) := by
  have hposition := Number.position?_ofCount p
  rw [ofPosition, ofNumber, Number.not_isNaN_of_position? hposition, if_neg Bool.false_ne_true]
  split
  · rename_i hzero
    have hp : p = 0 := by
      have hmin := Option.some.inj (hposition.symm.trans (Number.position?_of_isZero hzero))
      have hmax : 0 < Number.maxInteger := by decide
      omega
    subst hp
    rfl
  · rfl

/-- A position up to the largest integer is read back from its key. -/
theorem position?_ofPosition (p : Nat) :
    (ofPosition p).position? = some (min p Number.maxInteger) := by
  rw [ofPosition_eq]
  exact Number.position?_ofCount p

/-- Only numbers are positions. -/
theorem number_of_position? (h : k.position? = some p) :
    ∃ n, k = number n ∧ n.position? = some p := by
  cases k with
  | number n => exact ⟨n, rfl, h⟩
  | string s => exact absurd h (by simp [position?])
  | boolean b => exact absurd h (by simp [position?])
  | null => exact absurd h (by simp [position?])

/-- A key that is a position is an integer that is read exactly. -/
theorem position?_le (h : k.position? = some p) : p ≤ Number.maxInteger := by
  obtain ⟨n, -, hn⟩ := number_of_position? h
  exact Number.position?_le hn

/-- A key that some value has. Of the two zeros, and of all that is no number, there is one. -/
def Normal (k : Key) : Prop :=
  ∃ v : Value, ofValue? v = some k

theorem normal_ofPosition (p : Nat) : (ofPosition p).Normal :=
  ⟨.number (.ofCount p), rfl⟩

/-- Of the two zeros, only the positive one is a key. -/
theorem eq_zero_of_normal {n : Number} (hk : (number n).Normal) (hn : n.isZero) : n = .zero := by
  obtain ⟨v, hv⟩ := hk
  cases v with
  | number m =>
    have hm : (if m.isZero then .zero else if m.isNaN then .nan else m) = n := by
      simpa [ofValue?, ofNumber] using hv
    by_cases hzero : m.isZero
    · rw [if_pos hzero] at hm
      exact hm.symm
    · rw [if_neg hzero] at hm
      split at hm
      · rw [← hm] at hn
        exact absurd hn (by decide)
      · rw [hm] at hzero
        exact absurd hn hzero
  | _ => exact absurd hv (by simp [ofValue?])

/-- **A position has one key.** -/
theorem eq_ofPosition (hk : k.Normal) (h : k.position? = some p) : k = ofPosition p := by
  obtain ⟨n, rfl, hn⟩ := number_of_position? h
  rw [ofPosition_eq]
  by_cases hp : p = 0
  · subst hp
    rw [eq_zero_of_normal hk (Number.isZero_of_position? hn)]
    rfl
  · rw [Number.eq_ofCount hn hp]

end Key

/-! ### The map -/

namespace Table

variable {t : Table} {order : Array Key} {k : Key} {v : Value} {p : Nat}

/-- The order of keys tells any two of them apart. -/
theorem compare_eq_iff (k key : Key) : k.compare key = .eq ↔ k = key :=
  Std.LawfulEqCmp.compare_eq_iff_eq

/-- An array is known by what it finds, its keys in order and its count. -/
theorem eq_of_parts {t t' : Table} (hget : ∀ k, t.get? k = t'.get? k) (hkeys : t.keys = t'.keys)
    (hnext : t.next = t'.next) : t = t' := by
  obtain ⟨map, order, next⟩ := t
  obtain ⟨map', order', next'⟩ := t'
  obtain rfl : map = map' := Std.ExtTreeMap.ext_getElem? hget
  obtain rfl : order = order' := Array.toList_inj.mp hkeys
  obtain rfl : next = next' := hnext
  rfl

/-- The entries are the bindings of the keys in order. -/
theorem toList_entries (t : Table) : t.entries.toList = Edit.listing t.get? t.keys :=
  Array.toList_filterMap

/-- A key that is set has the new value, and all others have what they had. -/
theorem get?_set (t : Table) (k : Key) (v : Value) (key : Key) :
    (t.set k v).get? key = if k = key then some v else t.get? key := by
  show (t.map.containsThenInsert k v).2[key]? = _
  rw [Std.ExtTreeMap.containsThenInsert_snd, Std.ExtTreeMap.getElem?_insert]
  simp only [compare_eq_iff]
  rfl

/-- A new key comes last; an old one stays where it is. -/
theorem keys_set (t : Table) (k : Key) (v : Value) :
    (t.set k v).keys = if (t.get? k).isSome then t.keys else t.keys ++ [k] := by
  show (if (t.map.containsThenInsert k v).1 then t.order else t.order.push k).toList = _
  rw [Std.ExtTreeMap.containsThenInsert_fst, Std.ExtTreeMap.contains_eq_isSome_getElem?]
  show Array.toList (if (t.get? k).isSome then _ else _) = _
  split
  · rfl
  · exact Array.toList_push

/-- Nothing is popped from an array without positions. -/
theorem dropTop_of_next_eq_zero (h : t.next = 0) : t.dropTop = t := by
  obtain ⟨map, order, _ | p⟩ := t
  · rfl
  · cases h

/-- A pop removes the key of the last position, if it is there. -/
theorem dropTop_eq (hp : t.next = p + 1) :
    t.dropTop = if (t.get? (Key.ofPosition p)).isSome
      then ⟨t.map.erase (Key.ofPosition p), forget t.order (Key.ofPosition p), p⟩
      else ⟨t.map, t.order, p⟩ := by
  obtain ⟨map, order, next⟩ := t
  obtain rfl : next = p + 1 := hp
  rw [dropTop, Std.ExtTreeMap.contains_eq_isSome_getElem?]
  rfl

/-- A pop takes away the entry under the last position and no other. -/
theorem get?_dropTop (hp : t.next = p + 1) (key : Key) :
    t.dropTop.get? key = if Key.ofPosition p = key then none else t.get? key := by
  rw [dropTop_eq hp]
  split
  · show (t.map.erase (Key.ofPosition p))[key]? = _
    rw [Std.ExtTreeMap.getElem?_erase]
    simp only [compare_eq_iff]
    rfl
  · rename_i hnone
    show t.get? key = _
    split
    · rename_i heq
      rw [← heq]
      exact Option.not_isSome_iff_eq_none.mp hnone
    · rfl

/-- What is popped is the entry under the last position, or `mysterious` if there is none. -/
theorem top_eq (hp : t.next = p + 1) :
    t.top = (t.get? (Key.ofPosition p)).getD .mysterious := by
  obtain ⟨map, order, next⟩ := t
  obtain rfl : next = p + 1 := hp
  rfl

/-! ### The order -/

/-- The place that is found in the order vector is a place of the key. -/
theorem lastPlace?_eq_some {i : Nat} (h : lastPlace? order k = some i) :
    order.toList[i]? = some k := by
  obtain ⟨j, hj, rfl⟩ := Option.map_eq_some_iff.mp h
  obtain ⟨hlt, hkey, -⟩ := List.findIdx?_eq_some_iff_getElem.mp hj
  have hlength : j < order.toList.length := by rwa [List.length_reverse] at hlt
  have hget : order.toList.reverse[j]? = some k := by
    rw [List.getElem?_eq_getElem hlt]
    exact congrArg some (beq_iff_eq.mp hkey)
  rwa [List.getElem?_reverse hlength] at hget

/-- If no place is found, there is none. -/
theorem lastPlace?_eq_none (h : lastPlace? order k = none) : k ∉ order.toList := by
  intro hmem
  have hne := List.findIdx?_eq_none_iff.mp (Option.map_eq_none_iff.mp h) k (List.mem_reverse.mpr hmem)
  rw [beq_self_eq_true] at hne
  cases hne

/-- A list in which a key stands once, without the place of the key. -/
theorem eraseIdx_eq_filter {keys : List Key} {i : Nat} (hnodup : keys.Nodup)
    (h : keys[i]? = some k) : keys.eraseIdx i = keys.filter (· ≠ k) := by
  induction keys generalizing i with
  | nil => cases h
  | cons key rest ih =>
    obtain ⟨hkey, hrest⟩ := List.nodup_cons.mp hnodup
    cases i with
    | zero =>
      obtain rfl : key = k := Option.some.inj h
      rw [List.filter_cons_of_neg (by simp), List.eraseIdx_cons_zero, eq_comm, List.filter_eq_self]
      intro key' hkey'
      exact decide_eq_true fun heq => hkey (heq ▸ hkey')
    | succ i =>
      rw [List.getElem?_cons_succ] at h
      have hne : key ≠ k := by
        rintro rfl
        exact hkey (List.mem_of_getElem? h)
      rw [List.filter_cons_of_pos (by simpa using hne), List.eraseIdx_cons_succ, ih hrest h]

/-- **Both ways to take a key out of the order do the same**: the key is gone, and all others are where
they were. -/
theorem toList_forget (hnodup : order.toList.Nodup) (k : Key) :
    (forget order k).toList = order.toList.filter (· ≠ k) := by
  unfold forget
  split
  · -- the key is the last one
    rename_i hback
    have hlast : order.toList[order.toList.length - 1]? = some k := by
      rwa [← List.getLast?_eq_getElem?, Array.getLast?_toList]
    rw [← eraseIdx_eq_filter hnodup hlast, Array.toList_pop, List.eraseIdx_length_sub_one]
  · split
    · rename_i i hplace
      rw [← eraseIdx_eq_filter hnodup (lastPlace?_eq_some hplace), Array.toList_eraseIdxIfInBounds]
    · rename_i hplace
      rw [eq_comm, List.filter_eq_self]
      intro key hkey
      exact decide_eq_true fun heq => lastPlace?_eq_none hplace (heq ▸ hkey)

/-! ### The invariant -/

/-- The order has each key of the map once, and no other key. -/
structure InStep (t : Table) : Prop where
  nodup : t.keys.Nodup
  mem_keys_iff : ∀ k, k ∈ t.keys ↔ (t.get? k).isSome

/-- What holds of every array that can come about. -/
structure Sound (t : Table) : Prop extends InStep t where
  normal : ∀ k ∈ t.keys, k.Normal
  /-- No entry has a position from `next` on. -/
  position_lt : ∀ k ∈ t.keys, ∀ p, k.position? = some p → p < t.next
  /-- The next position is at most the one after the largest integer. -/
  next_le : t.next ≤ Number.maxInteger + 1
  /-- It is that only because there is an entry at the largest integer. -/
  full : t.next = Number.maxInteger + 1 → Key.ofPosition Number.maxInteger ∈ t.keys

theorem get?_empty (k : Key) : empty.get? k = none :=
  Std.ExtTreeMap.getElem?_empty

/-- An array without entries is in step. -/
theorem inStep_empty : empty.InStep where
  nodup := List.nodup_nil
  mem_keys_iff k := by
    rw [get?_empty]
    exact iff_of_false List.not_mem_nil Bool.false_ne_true

/-- It is sound. -/
theorem sound_empty : empty.Sound where
  toInStep := inStep_empty
  normal k hk := absurd hk List.not_mem_nil
  position_lt k hk := absurd hk List.not_mem_nil
  next_le := Nat.zero_le _
  full := by simp [empty]

/-- The entries have all keys of the order. -/
theorem map_fst_entries (h : t.InStep) : t.entries.toList.map (·.1) = t.keys := by
  rw [toList_entries, Edit.map_fst_listing fun k hk => (h.mem_keys_iff k).mp hk]

/-- The keys of entries are keys of the array. -/
theorem mem_keys_of_mem_entries (h : t.InStep) {e : Key × Value} (he : e ∈ t.entries.toList) :
    e.1 ∈ t.keys :=
  map_fst_entries h ▸ List.mem_map_of_mem he

/-- The map gives what is found by looking through the entries. -/
theorem get?_eq_lookup (h : t.InStep) (k : Key) : t.get? k = t.entries.toList.lookup k := by
  rw [toList_entries, Edit.lookup_listing]
  by_cases hk : k ∈ t.keys
  · exact .inr hk
  · rw [h.mem_keys_iff, Option.not_isSome_iff_eq_none] at hk
    exact .inl hk

/-- There is an entry for each key of the order. -/
theorem length_entries (h : t.InStep) : t.entries.toList.length = t.size := by
  have hlength := congrArg List.length (map_fst_entries h)
  rwa [List.length_map] at hlength

/-- The order is as long as the map is large. -/
theorem size_map (h : t.InStep) : t.map.size = t.size := by
  have hperm : t.map.keys.Perm t.keys := by
    refine (List.perm_ext_iff_of_nodup Std.ExtTreeMap.nodup_keys h.nodup).mpr fun k => ?_
    rw [Std.ExtTreeMap.mem_keys, h.mem_keys_iff]
    exact Std.ExtTreeMap.mem_iff_isSome_getElem?
  rw [← Std.ExtTreeMap.length_keys, hperm.length_eq]
  rfl

/-! ### Setting -/

/-- The next position after a key has been set. -/
def advance (k : Key) (next : Nat) : Nat :=
  match k.position? with
  | some p => max next (p + 1)
  | none => next

/-- A key that is a position beyond the last one moves the next position behind it. -/
theorem next_set (t : Table) (k : Key) (v : Value) : (t.set k v).next = advance k t.next := by
  show nextAfter k t.next = _
  rw [nextAfter, advance]
  cases hk : k.position? with
  | none => rfl
  | some p =>
    show (if t.next ≤ p then p + 1 else t.next) = max t.next (p + 1)
    split <;> omega

/-- The key that is set is in the order afterwards, and no other key comes in. -/
theorem mem_keys_set (h : t.InStep) {k key : Key} :
    key ∈ (t.set k v).keys ↔ key = k ∨ key ∈ t.keys := by
  rw [keys_set]
  split
  · rename_i hk
    constructor
    · exact Or.inr
    · rintro (rfl | hkey)
      · exact (h.mem_keys_iff key).mpr hk
      · exact hkey
  · rw [List.mem_append, List.mem_singleton, or_comm]

/-- **Setting an entry keeps the map and the order in step.** -/
theorem inStep_set (h : t.InStep) (k : Key) (v : Value) : (t.set k v).InStep where
  nodup := by
    rw [keys_set]
    split
    · exact h.nodup
    · rename_i hk
      refine List.nodup_append.mpr ⟨h.nodup, List.nodup_singleton k, ?_⟩
      rintro a ha b hb rfl
      rw [List.mem_singleton.mp hb] at ha
      exact hk ((h.mem_keys_iff k).mp ha)
  mem_keys_iff key := by
    rw [mem_keys_set h, get?_set]
    by_cases hkey : k = key
    · rw [if_pos hkey]
      exact iff_of_true (.inl hkey.symm) rfl
    · rw [if_neg hkey, or_iff_right (Ne.symm hkey), h.mem_keys_iff]

/-- **Setting is an edit of the entries.** The map and the order are changed apart from each other. -/
theorem toList_set (h : t.InStep) (k : Key) (v : Value) :
    (t.set k v).entries.toList = Association.insert k v t.entries.toList := by
  rw [toList_entries, toList_entries, keys_set]
  split
  · rename_i hk
    exact Edit.listing_store h.nodup ((h.mem_keys_iff k).mpr hk) hk (get?_set t k v)
  · rename_i hk
    exact Edit.listing_append (fun hmem => hk ((h.mem_keys_iff k).mp hmem)) (get?_set t k v)

/-- It keeps an array sound, too. -/
theorem sound_set (h : t.Sound) (hk : k.Normal) (v : Value) : (t.set k v).Sound where
  toInStep := inStep_set h.toInStep k v
  normal := by
    intro key hkey
    rcases (mem_keys_set h.toInStep).mp hkey with rfl | hold
    · exact hk
    · exact h.normal key hold
  position_lt := by
    intro key hkey p hp
    rw [next_set]
    rcases (mem_keys_set h.toInStep).mp hkey with rfl | hold
    · rw [advance, hp]
      show p < max t.next (p + 1)
      omega
    · have hlt := h.position_lt key hold p hp
      rw [advance]
      split <;> omega
  next_le := by
    have hle := h.next_le
    rw [next_set, advance]
    split
    · rename_i p hp
      have := Key.position?_le hp
      omega
    · exact hle
  full := by
    intro hfull
    rw [next_set, advance] at hfull
    rw [mem_keys_set h.toInStep]
    split at hfull
    · rename_i p hp
      rcases Nat.lt_or_ge t.next (p + 1) with hlt | hge
      · left
        have hp' : p = Number.maxInteger := by omega
        rw [← hp', ← Key.eq_ofPosition hk hp]
      · right
        exact h.full (by omega)
    · exact .inr (h.full hfull)

/-! ### Popping -/

/-- After a pop the next position is the one before. -/
theorem next_dropTop (t : Table) : t.dropTop.next = t.next - 1 := by
  cases hnext : t.next with
  | zero => rw [dropTop_of_next_eq_zero hnext, hnext]
  | succ p =>
    rw [dropTop_eq hnext]
    split <;> rfl

/-- A pop takes its key out of the order, wherever that stands. -/
theorem keys_dropTop (h : t.InStep) (hp : t.next = p + 1) :
    t.dropTop.keys = t.keys.filter (· ≠ Key.ofPosition p) := by
  rw [dropTop_eq hp]
  split
  · exact toList_forget h.nodup _
  · rename_i hnone
    show t.keys = _
    rw [eq_comm, List.filter_eq_self]
    intro key hkey
    exact decide_eq_true fun heq => hnone ((h.mem_keys_iff _).mp (heq ▸ hkey))

/-- The keys after a pop are all others. -/
theorem mem_keys_dropTop (h : t.InStep) (hp : t.next = p + 1) {key : Key} :
    key ∈ t.dropTop.keys ↔ key ∈ t.keys ∧ key ≠ Key.ofPosition p := by
  rw [keys_dropTop h hp, List.mem_filter, decide_eq_true_iff]

/-- **A pop keeps the map and the order in step**, on both of its paths. -/
theorem inStep_dropTop (h : t.InStep) : t.dropTop.InStep := by
  cases hnext : t.next with
  | zero => rwa [dropTop_of_next_eq_zero hnext]
  | succ p =>
    constructor
    · rw [keys_dropTop h hnext]
      exact h.nodup.sublist List.filter_sublist
    · intro key
      rw [mem_keys_dropTop h hnext, get?_dropTop hnext]
      by_cases hkey : Key.ofPosition p = key
      · rw [if_pos hkey]
        exact iff_of_false (fun hmem => hmem.2 hkey.symm) Bool.false_ne_true
      · rw [if_neg hkey, ← h.mem_keys_iff]
        exact and_iff_left (Ne.symm hkey)

/-- **Popping is an edit of the entries.** -/
theorem toList_dropTop (h : t.InStep) (hp : t.next = p + 1) :
    t.dropTop.entries.toList = t.entries.toList.filter (·.1 ≠ Key.ofPosition p) := by
  rw [toList_entries, toList_entries, keys_dropTop h hp]
  exact Edit.listing_remove (get?_dropTop hp)

/-- It keeps an array sound, too. -/
theorem sound_dropTop (h : t.Sound) : t.dropTop.Sound := by
  cases hnext : t.next with
  | zero => rwa [dropTop_of_next_eq_zero hnext]
  | succ p =>
    have hnext' : t.dropTop.next = p := by rw [next_dropTop, hnext]; rfl
    refine ⟨inStep_dropTop h.toInStep, ?_, ?_, ?_, ?_⟩
    · exact fun k hk => h.normal k ((mem_keys_dropTop h.toInStep hnext).mp hk).1
    · intro k hk q hq
      obtain ⟨hold, hne⟩ := (mem_keys_dropTop h.toInStep hnext).mp hk
      have hlt := h.position_lt k hold q hq
      -- the entry at the position that is given up is gone
      have hqp : q ≠ p := by
        rintro rfl
        exact hne (Key.eq_ofPosition (h.normal k hold) hq)
      omega
    · have := h.next_le
      omega
    · have := h.next_le
      intro hfull
      omega

end Table

end Ballad
