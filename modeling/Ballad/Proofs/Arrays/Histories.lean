import Ballad.Proofs.Arrays.Soundness

/-!
# Arrays are association lists

Whatever is done to an array, it stays a list of bindings in which no key occurs twice, and each
action changes that list as it would change a plain association list. As long as there is a position
left, a push appends an entry, and a pop takes it off again.

- `Table.Action`, `Table.ofHistory`: what can be done to an array, and what it has become.
- `Ledger`: the edits that actions come to, and the position that is next. It knows nothing of places.
- `Table.Agrees`, `Table.agrees_act`, `Table.agrees_after`: an array and the ledger of its history, and
  how one action and all of them keep them together.
- `Table.Refines`: what an array tells of itself, told from its ledger.
- `Table.Appends`, `Table.Overwrites`: the two things that a push can do.
-/

namespace Ballad

namespace Table

variable {t : Table}

/-! ### Actions -/

/-- What can be done to an array. -/
inductive Action where
  | set (key : Key) (normal : key.Normal) (value : Value)
  | push (value : Value)
  | pop

/-- An array after an action. -/
def act (t : Table) : Action → Table
  | .set key _ value => t.set key value
  | .push value => t.push value
  | .pop => t.pop.2

/-- An array after some actions, one after the other. -/
def after (t : Table) (actions : List Action) : Table :=
  actions.foldl act t

theorem after_append (t : Table) (as bs : List Action) :
    t.after (as ++ bs) = (t.after as).after bs :=
  List.foldl_append

/-- Every action keeps an array sound. -/
theorem sound_act (h : t.Sound) (a : Action) : (t.act a).Sound := by
  cases a with
  | set key normal value => exact sound_set h normal value
  | push value => exact sound_set h (Key.normal_ofPosition t.next) value
  | pop => exact sound_dropTop h

/-- **Whatever is done to an array keeps it sound.** -/
theorem sound_after {actions : List Action} : ∀ {t : Table}, t.Sound → (t.after actions).Sound := by
  induction actions with
  | nil =>
    intro t h
    exact h
  | cons a rest ih =>
    intro t h
    exact ih (sound_act h a)

theorem ofValues_eq_after (values : List Value) :
    ofValues values = empty.after (values.map .push) := by
  rw [ofValues, after, List.foldl_map]
  rfl

/-- The array with some history: what it began with, and what has been done to it since. -/
def ofHistory (values : List Value) (actions : List Action) : Table :=
  (ofValues values).after actions

theorem ofHistory_eq (values : List Value) (actions : List Action) :
    ofHistory values actions = empty.after (values.map .push ++ actions) := by
  rw [ofHistory, ofValues_eq_after, after_append]

/-- **All arrays that come about are sound.** -/
theorem sound_ofHistory (values : List Value) (actions : List Action) :
    (ofHistory values actions).Sound := by
  rw [ofHistory_eq]
  exact sound_after sound_empty

end Table

/-- What a history of actions comes to: the edits in their order, and the position that is next. -/
structure Ledger where
  edits : List Edit
  next : Nat

namespace Ledger

open Table

/-- A ledger with nothing in it. -/
def blank : Ledger := ⟨[], 0⟩

/-- Enters that a value is stored under a key. -/
def store (l : Ledger) (key : Key) (value : Value) : Ledger :=
  ⟨l.edits ++ [.store key value], advance key l.next⟩

/-- Enters an action. A pop gives up the position before the next one, with its entry. -/
def enter (l : Ledger) : Action → Ledger
  | .set key _ value => l.store key value
  | .push value => l.store (Key.ofPosition l.next) value
  | .pop =>
    match l.next with
    | 0 => l
    | p + 1 => ⟨l.edits ++ [.remove (Key.ofPosition p)], p⟩

/-- The ledger of a history. The values that an array begins with are pushed. -/
def ofHistory (values : List Value) (actions : List Action) : Ledger :=
  (values.map Action.push ++ actions).foldl enter blank

end Ledger

namespace Table

variable {t : Table} {l : Ledger}

/-- An array that agrees with a ledger. -/
structure Agrees (t : Table) (l : Ledger) : Prop where
  sound : t.Sound
  next : t.next = l.next
  entries : t.entries.toList = Edit.bindings l.edits

/-- Setting an entry keeps the ledger in agreement. -/
theorem agrees_store (h : t.Agrees l) {k : Key} (hk : k.Normal) (v : Value) :
    (t.set k v).Agrees (l.store k v) where
  sound := sound_set h.sound hk v
  next := by
    rw [next_set, h.next]
    rfl
  entries := by
    rw [toList_set h.sound.toInStep, h.entries, Ledger.store, Edit.bindings_concat]
    rfl

/-- One action changes the array as it changes the ledger. -/
theorem agrees_act (h : t.Agrees l) (a : Action) : (t.act a).Agrees (l.enter a) := by
  cases a with
  | set key normal value => exact agrees_store h normal value
  | push value =>
    rw [Ledger.enter, ← h.next]
    exact agrees_store h (Key.normal_ofPosition t.next) value
  | pop =>
    show t.dropTop.Agrees _
    cases hnext : t.next with
    | zero =>
      rw [dropTop_of_next_eq_zero hnext, Ledger.enter, ← h.next, hnext]
      exact h
    | succ p =>
      rw [Ledger.enter, ← h.next, hnext]
      refine ⟨sound_dropTop h.sound, ?_, ?_⟩
      · rw [next_dropTop, hnext]
        rfl
      · rw [toList_dropTop h.sound.toInStep hnext, h.entries, Edit.bindings_concat]
        rfl

/-- So do actions one after the other. -/
theorem agrees_after {actions : List Action} :
    ∀ {t : Table} {l : Ledger}, t.Agrees l →
      (t.after actions).Agrees (actions.foldl Ledger.enter l) := by
  induction actions with
  | nil =>
    intro t l h
    exact h
  | cons a rest ih =>
    intro t l h
    exact ih (agrees_act h a)

/-- **All arrays that come about agree with their ledgers.** -/
theorem agrees_ofHistory (values : List Value) (actions : List Action) :
    (ofHistory values actions).Agrees (.ofHistory values actions) := by
  have hstart : empty.Agrees .blank := ⟨sound_empty, rfl, rfl⟩
  rw [ofHistory_eq]
  exact agrees_after hstart

/-- The parts of an array are in step, and what it tells of itself is what the ledger of its history
tells. -/
structure Refines (t : Table) (l : Ledger) : Prop where
  /-- No key is in the order twice. -/
  nodup : t.order.toList.Nodup
  /-- The order has exactly the keys of the map, so it is as long as the map is large. -/
  mem_order_iff : ∀ k, k ∈ t.order ↔ k ∈ t.map
  size_eq : t.size = t.map.size
  /-- No key is passed over when the entries are listed. -/
  keys_eq : t.entries.toList.map (·.1) = t.order.toList
  /-- The position of a key is before the next one. -/
  position_lt : ∀ k ∈ t.map, ∀ p, k.position? = some p → p < t.next
  next_le : t.next ≤ 2 ^ 53
  next_eq : t.next = l.next
  /-- The entries in order are the bindings of a plain association list. -/
  entries_eq : t.entries.toList = Edit.bindings l.edits
  /-- A key gives the value that was last stored under it and not popped since. -/
  get?_eq : ∀ k, t.get? k = Edit.valueOf l.edits k
  /-- What a pop takes off is the entry of the integer before the next position. -/
  top_eq : ∀ p, t.next = p + 1 →
    (Key.ofPosition p).position? = some p ∧
      t.top = (Edit.valueOf l.edits (Key.ofPosition p)).getD .mysterious

/-- **Every array is a plain association list with a counter**: whatever values it begins with, and
whatever is then set, pushed and popped, its map, its order and its count stay in step. -/
theorem histories_refine (values : List Value) (actions : List Action) :
    (ofHistory values actions).Refines (.ofHistory values actions) := by
  have h := agrees_ofHistory values actions
  generalize ofHistory values actions = t at h
  generalize Ledger.ofHistory values actions = l at h
  have hstep := h.sound.toInStep
  have hmem : ∀ k, k ∈ t.order ↔ k ∈ t.map := by
    intro k
    rw [← Array.mem_toList_iff, Std.ExtTreeMap.mem_iff_isSome_getElem?]
    exact hstep.mem_keys_iff k
  have hget : ∀ k, t.get? k = Edit.valueOf l.edits k := by
    intro k
    rw [get?_eq_lookup hstep, h.entries, Edit.lookup_bindings]
  constructor
  · exact hstep.nodup
  · exact hmem
  · exact (size_map hstep).symm
  · exact map_fst_entries hstep
  · intro k hk
    exact h.sound.position_lt k (Array.mem_toList_iff.mpr ((hmem k).mpr hk))
  · exact h.sound.next_le
  · exact h.next
  · exact h.entries
  · exact hget
  · intro p hp
    have hle := h.sound.next_le
    constructor
    · rw [Key.position?_ofPosition, Nat.min_eq_left (by omega)]
    · rw [top_eq hp, hget]

/-! ### Pushing and popping -/

/-- A pushed value becomes the last entry, all others stay, and a pop undoes the push. -/
structure Appends (t : Table) (v : Value) : Prop where
  size_eq : (t.push v).size = t.size + 1
  entries_eq : ∃ k, k ∉ t.keys ∧ (t.push v).entries.toList = t.entries.toList ++ [(k, v)]
  pop_eq : (t.push v).pop = (v, t)

/-- As long as there is a position left, the next one has a key of its own. -/
theorem position?_next (h : t.next ≤ Number.maxInteger) :
    (Key.ofPosition t.next).position? = some t.next := by
  rw [Key.position?_ofPosition, Nat.min_eq_left h]

/-- The next position is free. -/
theorem not_mem_keys_of_next (hs : t.Sound) (h : t.next ≤ Number.maxInteger) :
    Key.ofPosition t.next ∉ t.keys := fun hmem =>
  Nat.lt_irrefl _ (hs.position_lt _ hmem _ (position?_next h))

/-- A push moves on to the next position. -/
theorem next_push (h : t.next ≤ Number.maxInteger) (v : Value) : (t.push v).next = t.next + 1 := by
  rw [push, next_set, advance, position?_next h]
  exact Nat.max_eq_right (Nat.le_succ _)

/-- The key of what is pushed comes last. -/
theorem keys_push (hs : t.Sound) (h : t.next ≤ Number.maxInteger) (v : Value) :
    (t.push v).keys = t.keys ++ [Key.ofPosition t.next] := by
  have hfresh := not_mem_keys_of_next hs h
  rw [hs.mem_keys_iff] at hfresh
  rw [push, keys_set, if_neg hfresh]

/-- So does its entry. -/
theorem toList_push (hs : t.Sound) (h : t.next ≤ Number.maxInteger) (v : Value) :
    (t.push v).entries.toList = t.entries.toList ++ [(Key.ofPosition t.next, v)] := by
  rw [push, toList_set hs.toInStep, Association.insert_of_not_mem]
  rw [map_fst_entries hs.toInStep]
  exact not_mem_keys_of_next hs h

/-- A pop takes the value that was pushed off again, and leaves the map, the order and the count as
they were. -/
theorem pop_push (hs : t.Sound) (h : t.next ≤ Number.maxInteger) (v : Value) :
    (t.push v).pop = (v, t) := by
  have hnext := next_push h v
  have hstep : (t.push v).InStep := (sound_act hs (.push v)).toInStep
  have hget : ∀ key, (t.push v).get? key = if Key.ofPosition t.next = key then some v else t.get? key :=
    get?_set t _ v
  have hfresh := not_mem_keys_of_next hs h
  have htop : (t.push v).top = v := by
    rw [top_eq hnext, hget, if_pos rfl]
    rfl
  have hdrop : (t.push v).dropTop = t := by
    refine eq_of_parts ?_ ?_ ?_
    · intro key
      rw [get?_dropTop hnext, hget]
      split
      · rename_i heq
        rw [← heq, eq_comm, ← Option.not_isSome_iff_eq_none, ← hs.mem_keys_iff]
        exact hfresh
      · rfl
    · rw [keys_dropTop hstep hnext, keys_push hs h, List.filter_append, List.filter_cons_of_neg (by simp),
        List.filter_nil, List.append_nil, List.filter_eq_self]
      intro key hkey
      exact decide_eq_true fun heq => hfresh (heq ▸ hkey)
    · rw [next_dropTop, hnext]
      rfl
  rw [pop, htop, hdrop]

theorem appends_of_next_le (hs : t.Sound) (h : t.next ≤ Number.maxInteger) (v : Value) :
    t.Appends v where
  size_eq := by simpa [keys, size] using congrArg List.length (keys_push hs h v)
  entries_eq := ⟨_, not_mem_keys_of_next hs h, toList_push hs h v⟩
  pop_eq := pop_push hs h v

/-- A pushed value takes the place of the entry at the largest integer. -/
structure Overwrites (t : Table) (v : Value) : Prop where
  size_eq : (t.push v).size = t.size
  keys_eq : (t.push v).keys = t.keys
  get?_eq : (t.push v).get? (Key.ofPosition Number.maxInteger) = some v

/-- After the largest integer there is no position left. -/
theorem overwrites_of_full (hs : t.Sound) (h : t.next = Number.maxInteger + 1) (v : Value) :
    t.Overwrites v := by
  have hkey : Key.ofPosition t.next = Key.ofPosition Number.maxInteger := by
    rw [h]
    rfl
  have hkeys : (t.push v).keys = t.keys := by
    rw [push, hkey, keys_set, if_pos ((hs.mem_keys_iff _).mp (hs.full h))]
  refine ⟨?_, hkeys, ?_⟩
  · simpa [keys, size] using congrArg List.length hkeys
  · rw [push, hkey, get?_set, if_pos rfl]

/-- **A push appends, and a pop undoes it, exactly as long as there is a position left.** Once the
largest integer has been a key, and until it is popped, a push writes over its entry. -/
theorem push_appends_iff (values : List Value) (actions : List Action) (v : Value) :
    ((ofHistory values actions).Appends v ↔ (ofHistory values actions).next < 2 ^ 53) ∧
      ((ofHistory values actions).Overwrites v ↔ (ofHistory values actions).next = 2 ^ 53) := by
  have hs := sound_ofHistory values actions
  generalize ofHistory values actions = t at hs
  have hle : t.next ≤ 2 ^ 53 := hs.next_le
  by_cases hfull : t.next = 2 ^ 53
  · have hover := overwrites_of_full hs hfull v
    constructor
    · refine iff_of_false ?_ (by omega)
      intro happ
      have := happ.size_eq.symm.trans hover.size_eq
      omega
    · exact iff_of_true hover hfull
  · have happ := appends_of_next_le hs (by rw [Number.maxInteger_eq]; omega) v
    constructor
    · exact iff_of_true happ (by omega)
    · refine iff_of_false ?_ hfull
      intro hover
      have := happ.size_eq.symm.trans hover.size_eq
      omega

/-- With an entry at the largest integer, a pushed value replaces it. -/
theorem push_replaces_last :
    ¬ (ofHistory []
        [.set (Key.ofPosition (2 ^ 53 - 1)) (Key.normal_ofPosition _) (.boolean false)]).Appends
      (.boolean true) := by
  intro h
  have hsize := h.size_eq
  revert hsize
  decide +kernel

end Table

end Ballad
