import Ballad.Proofs.Arrays.Soundness
import Ballad.Proofs.Evaluation.Keeping
import Ballad.Proofs.Unfolding
import Mathlib.Algebra.Group.Nat.Defs
import Mathlib.Data.List.Forall2
import Mathlib.Data.List.Nodup

/-!
# Values that cross the border twice

A host value that is taken into the store and out again comes back in a normal form: numbers that are
integers as integers, functions as their names, and arrays with one entry for each key, which stands
where the key was first and has the value that was last.

- `Store.returned`: a host value after it has been in the store and out again.
- `HostValue.settled`: what comes back, without a store (`Store.returned_eq`).
- `HostValue.quiet`: a host value in which there is only one NaN.
- `HostValue.Regular`: a part of a host value that comes back as it is.
- `returned_normalises`: what comes back once does not change any more, and a host value comes back as
  it is exactly if all of its parts are regular.
-/

namespace Ballad

namespace HostValue

/-! ### What comes back -/

/-- The key of a host value. What cannot be a key becomes the string that is said for it. -/
def toKey : HostValue → Key
  | null => .null
  | integer n => .ofNumber (.ofInt n)
  | float n => .ofNumber n
  | string s => .string s
  | boolean b => .boolean b
  | h => .string h.text

/-- The entry of the host for a binding. -/
def ofBinding (b : Key × HostValue) : HostValue × HostValue :=
  (ofKey b.1, b.2)

mutual

/-- A host value after it has been in the store. -/
def settled : HostValue → HostValue
  | integer n => ofNumber (.ofInt n)
  | float n => ofNumber n
  | function name => string name
  | array entries => array ((settledEntries [] entries).map ofBinding)
  | null => null
  | string s => string s
  | boolean b => boolean b
  | mysterious => mysterious

/-- The bindings of an array with further entries. -/
def settledEntries (bs : List (Key × HostValue)) :
    List (HostValue × HostValue) → List (Key × HostValue)
  | [] => bs
  | (key, value) :: rest => settledEntries (Association.insert key.settled.toKey value.settled bs) rest

end

/-- A number is the same key on both sides, whether it comes as an integer or not. -/
theorem toKey_ofNumber (n : Number) : (ofNumber n).toKey = .ofNumber n := by
  rw [ofNumber]
  split
  · rename_i i hi
    show Key.ofNumber (.ofInt i) = Key.ofNumber n
    by_cases h0 : i = 0
    · subst h0
      rw [Key.ofNumber, Key.ofNumber, if_pos (Number.isZero_of_toInt? hi), if_pos (by decide +kernel)]
    · rw [Number.eq_ofInt hi h0]
  · rfl

end HostValue

namespace Store

open HostValue (settled settledEntries ofBinding)

/-! ### The store shows what has been settled -/

/-- A host value after it has been taken into the store and out again. -/
def returned (s : Store) (h : HostValue) : HostValue :=
  (s.intern h).2.unfold (s.intern h).1

/-- Seen from outside, a value is `h`, whatever arrays are added to the store. The arrays that it
stands inside of are none of those that the store has so far. -/
def Shows (s : Store) (v : Value) (h : HostValue) : Prop :=
  ∀ (more : Array Table) (depth : Nat) (inside : List TableRef), s.tables.size ≤ depth →
    (∀ r ∈ inside, s.tables.size ≤ r.index) →
      ({ s with tables := s.tables ++ more } : Store).unfoldWithin depth inside v = h

/-- Seen from outside, an entry of an array is a binding. -/
def ShowsEntry (s : Store) (e : Key × Value) (b : Key × HostValue) : Prop :=
  e.1 = b.1 ∧ s.Shows e.2 b.2

variable {s : Store} {v : Value} {h : HostValue} {e : Key × Value} {b : Key × HostValue}

/-- What a value shows does not change when arrays are added. -/
theorem Shows.append (hv : s.Shows v h) (added : Array Table) :
    ({ s with tables := s.tables ++ added } : Store).Shows v h := by
  intro more depth inside hdepth hinside
  have hsize : s.tables.size ≤ (s.tables ++ added).size := by
    rw [Array.size_append]
    exact Nat.le_add_right _ _
  have hshows := hv (added ++ more) depth inside (Nat.le_trans hsize hdepth) fun r hr =>
    Nat.le_trans hsize (hinside r hr)
  rwa [← Array.append_assoc] at hshows

/-- Nor does what an entry shows. -/
theorem ShowsEntry.append (he : s.ShowsEntry e b) (added : Array Table) :
    ({ s with tables := s.tables ++ added } : Store).ShowsEntry e b :=
  ⟨he.1, he.2.append added⟩

/-- The tree of a value becomes the key that the value becomes. -/
theorem toKey_unfoldWithin (depth : Nat) (harray : ∀ r, v = .array r → (s.table r).InStep) :
    (s.unfoldWithin (depth + 1) [] v).toKey = s.toKey v := by
  cases v with
  | number n =>
    rw [unfoldWithin]
    exact HostValue.toKey_ofNumber n
  | array r =>
    rw [unfoldWithin, if_neg List.not_mem_nil]
    show Key.string (List.length _).repr = Key.string (s.table r).size.repr
    rw [List.length_map, Table.length_entries (harray r rfl)]
  | _ => rw [unfoldWithin]; rfl

/-- A value becomes the key that what it shows becomes. -/
theorem Shows.toKey (hv : s.Shows v h) (harray : ∀ r, v = .array r → (s.table r).InStep) :
    s.toKey v = h.toKey := by
  have hshows := hv #[] (s.tables.size + 1) [] (Nat.le_succ _) fun _ hr => absurd hr List.not_mem_nil
  rw [Array.append_empty] at hshows
  rw [← hshows, toKey_unfoldWithin _ harray]

/-- What a value shows is its tree. -/
theorem unfold_of_shows (hv : s.Shows v h) : s.unfold v = h := by
  have hshows := hv #[] (s.tables.size + 1) [] (Nat.le_succ _) fun _ hr => absurd hr List.not_mem_nil
  rw [Array.append_empty] at hshows
  rw [s.unfold_eq (Nat.lt_succ_self _), hshows]

/-- What becomes the key of an entry is a key that values have. -/
theorem normal_toKey (s : Store) (v : Value) : (s.toKey v).Normal := by
  rw [Store.toKey]
  cases hv : Key.ofValue? v with
  | some k => exact ⟨v, hv⟩
  | none => exact ⟨.string (s.text v), rfl⟩

/-- Setting an entry sets a binding. -/
theorem showsEntry_insert {es : List (Key × Value)} {bs : List (Key × HostValue)} (k : Key)
    (hes : List.Forall₂ s.ShowsEntry es bs) (hv : s.Shows v h) :
    List.Forall₂ s.ShowsEntry (Association.insert k v es) (Association.insert k h bs) := by
  induction hes with
  | nil => exact .cons ⟨rfl, hv⟩ .nil
  | @cons e b es bs he hes ih =>
    rw [Association.insert, Association.insert, he.1]
    split
    · exact .cons ⟨rfl, hv⟩ hes
    · exact .cons ⟨rfl, he.2⟩ ih

/-- The trees of the entries are the bindings that they show. -/
theorem map_unfoldWithin {es : List (Key × Value)} {bs : List (Key × HostValue)}
    (hes : List.Forall₂ s.ShowsEntry es bs) (more : Array Table) {depth : Nat}
    {inside : List TableRef} (hdepth : s.tables.size ≤ depth)
    (hinside : ∀ r ∈ inside, s.tables.size ≤ r.index) :
    es.map (fun e => (.ofKey e.1,
      ({ s with tables := s.tables ++ more } : Store).unfoldWithin depth inside e.2)) =
      bs.map ofBinding := by
  induction hes with
  | nil => rfl
  | @cons e b es bs he _ ih =>
    rw [List.map_cons, List.map_cons, ih, ofBinding, he.1, he.2 more depth inside hdepth hinside]

/-- The arrays that are taken in are sound. -/
theorem sound_internEntries (s : Store) {t : Table} (ht : t.Sound)
    (entries : List (HostValue × HostValue)) : (s.internEntries t entries).1.Sound := by
  induction entries generalizing s t with
  | nil => exact ht
  | cons e rest ih =>
    rw [internEntries]
    exact ih _ (Table.sound_set ht (normal_toKey _ _) _)

theorem table_addTable (s : Store) (t : Table) : (s.addTable t).2.table (s.addTable t).1 = t := by
  rw [table, addTable, Array.getElem?_push_size]
  rfl

/-- The array that is taken in is in step. -/
theorem inStep_intern (s : Store) (h : HostValue) (r : TableRef) (hr : (s.intern h).1 = .array r) :
    ((s.intern h).2.table r).InStep := by
  cases h with
  | array entries =>
    rw [intern] at hr ⊢
    obtain rfl := Value.array.inj hr
    rw [table_addTable]
    exact (s.sound_internEntries Table.sound_empty entries).toInStep
  | _ => rw [intern] at hr; cases hr

/-- A new array shows the bindings that its entries show. -/
theorem shows_addTable {t : Table} {bs : List (Key × HostValue)}
    (ht : List.Forall₂ s.ShowsEntry t.entries.toList bs) :
    (s.addTable t).2.Shows (.array (s.addTable t).1) (.array (bs.map ofBinding)) := by
  intro more depth inside hdepth hinside
  simp only [addTable, Array.size_push] at hdepth hinside ⊢
  obtain ⟨d, rfl⟩ : ∃ d, depth = d + 1 := ⟨depth - 1, by omega⟩
  have hnew : ⟨s.tables.size⟩ ∉ inside := fun hr => Nat.not_succ_le_self _ (hinside _ hr)
  have hstore : s.tables.push t ++ more = s.tables ++ (#[t] ++ more) := by simp
  have htable : ({ s with tables := s.tables.push t ++ more } : Store).table ⟨s.tables.size⟩ = t := by
    rw [table, Array.getElem?_append_left (by simp), Array.getElem?_push_size]
    rfl
  rw [unfoldWithin, if_neg hnew, htable, hstore]
  -- the entries stand inside of the new array too, which comes after all that they show
  refine congrArg HostValue.array (map_unfoldWithin ht (#[t] ++ more) (by omega) fun r hr => ?_)
  rcases List.mem_cons.mp hr with rfl | hr
  · exact Nat.le_refl _
  · exact Nat.le_of_succ_le (hinside r hr)

mutual

/-- **A value that is taken in shows what has become of it under distinct keys.** -/
theorem shows_intern (s : Store) : ∀ h : HostValue, (s.intern h).2.Shows (s.intern h).1 h.settled
  | .null | .integer _ | .float _ | .string _ | .boolean _ | .mysterious | .function _ => by
    intro more depth inside _ _
    rw [intern, settled, unfoldWithin]
  | .array entries => by
    rw [intern, settled]
    exact shows_addTable (shows_internEntries s Table.sound_empty .nil entries)

/-- So do the entries of an array, one after the other. -/
theorem shows_internEntries (s : Store) {t : Table} {bs : List (Key × HostValue)} (ht : t.Sound)
    (hbs : List.Forall₂ s.ShowsEntry t.entries.toList bs) : ∀ entries,
    List.Forall₂ (s.internEntries t entries).2.ShowsEntry
      (s.internEntries t entries).1.entries.toList (settledEntries bs entries)
  | [] => hbs
  | (key, value) :: rest => by
    have hkey := (shows_intern s key).toKey (s.inStep_intern key)
    have hvalue := shows_intern (s.intern key).2 value
    have hold : List.Forall₂ ((s.intern key).2.intern value).2.ShowsEntry t.entries.toList bs := by
      obtain ⟨added₁, hadded₁⟩ := intern_eq s key
      obtain ⟨added₂, hadded₂⟩ := intern_eq (s.intern key).2 value
      rw [hadded₂, hadded₁]
      exact hbs.imp fun _ _ he => (he.append added₁).append added₂
    rw [internEntries, settledEntries, ← hkey]
    refine shows_internEntries _ (Table.sound_set ht (normal_toKey _ _) _) ?_ rest
    rw [Table.toList_set ht.toInStep]
    exact showsEntry_insert _ hold hvalue

end

/-- What comes back does not depend on the store. -/
theorem returned_eq (s : Store) (h : HostValue) : s.returned h = h.settled :=
  unfold_of_shows (shows_intern s h)

end Store

namespace HostValue

/-! ### Bindings under distinct keys -/

variable {bs ps : List (Key × HostValue)} {k : Key} {v : HostValue}

/-- Bindings with further ones. -/
def enterAll (bs ps : List (Key × HostValue)) : List (Key × HostValue) :=
  ps.foldl (fun bs p => Association.insert p.1 p.2 bs) bs

theorem enterAll_cons (bs : List (Key × HostValue)) (p : Key × HostValue)
    (ps : List (Key × HostValue)) : enterAll bs (p :: ps) = enterAll (Association.insert p.1 p.2 bs) ps :=
  rfl

/-- No binding comes from elsewhere. -/
theorem mem_enterAll {b : Key × HostValue} (h : b ∈ enterAll bs ps) : b ∈ bs ∨ b ∈ ps := by
  induction ps generalizing bs with
  | nil => exact .inl h
  | cons p ps ih =>
    rcases ih h with hb | hb
    · rcases Association.mem_insert hb with rfl | hb
      · exact .inr List.mem_cons_self
      · exact .inl hb
    · exact .inr (List.mem_cons_of_mem p hb)

/-- Keys stay distinct. -/
theorem nodup_enterAll (h : (bs.map (·.1)).Nodup) : ((enterAll bs ps).map (·.1)).Nodup := by
  induction ps generalizing bs with
  | nil => exact h
  | cons p ps ih => exact ih (Association.nodup_insert h)

/-- There are no more bindings than were entered. -/
theorem length_enterAll_le (bs ps : List (Key × HostValue)) :
    (enterAll bs ps).length ≤ bs.length + ps.length := by
  induction ps generalizing bs with
  | nil => exact Nat.le_refl _
  | cons p ps ih =>
    have hrest := ih (Association.insert p.1 p.2 bs)
    rw [Association.length_insert] at hrest
    rw [enterAll_cons, List.length_cons]
    split at hrest <;> omega

/-- Under distinct keys, every binding is kept, in order. -/
theorem enterAll_of_nodup (h : ((bs ++ ps).map (·.1)).Nodup) : enterAll bs ps = bs ++ ps := by
  induction ps generalizing bs with
  | nil => exact (List.append_nil bs).symm
  | cons p ps ih =>
    have hp : p.1 ∉ bs.map (·.1) := by
      rw [List.map_append, List.map_cons] at h
      exact fun hmem => (List.nodup_append.mp h).2.2 p.1 hmem p.1 List.mem_cons_self rfl
    rw [List.append_cons] at h ⊢
    rw [enterAll_cons, Association.insert_of_not_mem hp, ih h]

/-- If no binding takes the place of another one, all keys are distinct. -/
theorem nodup_of_length_enterAll (h : (bs.map (·.1)).Nodup)
    (hlength : (enterAll bs ps).length = bs.length + ps.length) :
    ((bs ++ ps).map (·.1)).Nodup := by
  induction ps generalizing bs with
  | nil => rwa [List.append_nil]
  | cons p ps ih =>
    rw [enterAll_cons, List.length_cons] at hlength
    have hle := length_enterAll_le (Association.insert p.1 p.2 bs) ps
    have hone := Association.length_insert p.1 p.2 bs
    have hp : p.1 ∉ bs.map (·.1) := by
      intro hmem
      rw [if_pos hmem] at hone
      omega
    rw [if_neg hp] at hone
    have hrest : (enterAll (Association.insert p.1 p.2 bs) ps).length =
        (Association.insert p.1 p.2 bs).length + ps.length := by omega
    have hnodup := ih (Association.nodup_insert h) hrest
    rwa [Association.insert_of_not_mem hp, ← List.append_cons] at hnodup

/-! ### What comes back stays -/

variable {h : HostValue}

/-- Every host value has a property if the simple ones have it, and an array has it if all keys and
values of its entries do. -/
@[elab_as_elim]
theorem inductionOnParts {P : HostValue → Prop} (null : P null) (integer : ∀ n, P (integer n))
    (float : ∀ x, P (float x)) (string : ∀ s, P (string s)) (boolean : ∀ b, P (boolean b))
    (mysterious : P mysterious) (function : ∀ name, P (function name))
    (array : ∀ entries, (∀ e ∈ entries, P e.1 ∧ P e.2) → P (array entries)) (h : HostValue) : P h :=
  @HostValue.rec P (fun entries => ∀ e ∈ entries, P e.1 ∧ P e.2) (fun e => P e.1 ∧ P e.2)
    null integer float string boolean mysterious array function
    (fun _ he => absurd he List.not_mem_nil)
    (fun _ _ hhead htail _ he => (List.mem_cons.mp he).elim (fun heq => heq ▸ hhead) (htail _))
    (fun _ _ hkey hvalue => ⟨hkey, hvalue⟩) h

/-- The binding of an entry. -/
def binding (e : HostValue × HostValue) : Key × HostValue :=
  (e.1.settled.toKey, e.2.settled)

/-- Settling the entries of an array enters their bindings, one after the other. -/
theorem settledEntries_eq (bs : List (Key × HostValue)) (entries : List (HostValue × HostValue)) :
    settledEntries bs entries = enterAll bs (entries.map binding) := by
  induction entries generalizing bs with
  | nil => rw [settledEntries]; rfl
  | cons e rest ih =>
    rw [settledEntries, ih]
    rfl

/-- An array settles to the bindings of its entries. -/
theorem settled_array (entries : List (HostValue × HostValue)) :
    (array entries).settled = array ((enterAll [] (entries.map binding)).map ofBinding) := by
  rw [settled, settledEntries_eq]

theorem settled_ofNumber (n : Number) : (ofNumber n).settled = ofNumber n := by
  cases hn : n.toInt? with
  | none => simp only [ofNumber, hn, settled]
  | some i =>
    have hi := Number.toInt?_ofInt (Number.natAbs_le_of_toInt? hn)
    simp only [ofNumber, hn, settled, hi]

theorem settled_ofKey (k : Key) : (ofKey k).settled = ofKey k := by
  cases k with
  | number n => exact settled_ofNumber n
  | string s => rw [ofKey, settled]
  | boolean b => rw [ofKey, settled]
  | null => rw [ofKey, settled]

/-- What becomes of a value of the host is a key that values have. -/
theorem normal_toKey (h : HostValue) : h.toKey.Normal := by
  cases h with
  | null => exact ⟨.null, rfl⟩
  | integer n => exact ⟨.number (.ofInt n), rfl⟩
  | float x => exact ⟨.number x, rfl⟩
  | boolean b => exact ⟨.boolean b, rfl⟩
  | _ => exact ⟨.string _, rfl⟩

/-- A key of a number is the key of the number in it. -/
theorem key_ofNumber_eq {n m : Number} (h : Key.ofNumber m = .number n) :
    Key.ofNumber n = .number n := by
  obtain rfl : (if m.isZero then .zero else if m.isNaN then .nan else m) = n := Key.number.inj h
  split
  · rfl
  · rename_i hzero
    split
    · rfl
    · rename_i hnan
      rw [Key.ofNumber, if_neg hzero, if_neg hnan]

/-- Such a key is read back from the host as itself. -/
theorem toKey_ofKey (hk : k.Normal) : (ofKey k).toKey = k := by
  obtain ⟨v, hv⟩ := hk
  cases v with
  | number n =>
    obtain rfl := Option.some.inj hv
    exact (toKey_ofNumber _).trans (key_ofNumber_eq rfl)
  | string s => obtain rfl := Option.some.inj hv; rfl
  | boolean b => obtain rfl := Option.some.inj hv; rfl
  | null => obtain rfl := Option.some.inj hv; rfl
  | _ => cases hv

/-- **What comes back comes back as it is.** -/
theorem settled_settled (h : HostValue) : h.settled.settled = h.settled := by
  induction h using inductionOnParts with
  | integer n => exact settled_ofNumber _
  | float x => exact settled_ofNumber x
  | array entries ih =>
    let bs := enterAll [] (entries.map binding)
    have hbs : ∀ b ∈ bs, binding (ofBinding b) = b := by
      intro b hb
      obtain ⟨e, he, rfl⟩ := List.mem_map.mp ((mem_enterAll hb).resolve_left List.not_mem_nil)
      simp only [binding, ofBinding, settled_ofKey, toKey_ofKey (normal_toKey _), (ih e he).2]
    have hmap : (bs.map ofBinding).map binding = bs := by
      rw [List.map_map]
      exact (List.map_congr_left hbs).trans (List.map_id bs)
    have hnodup : (bs.map (·.1)).Nodup := nodup_enterAll List.nodup_nil
    rw [settled_array, settled_array, hmap, enterAll_of_nodup hnodup, List.nil_append]
  | _ => rw [settled, settled]

/-! ### What comes back as it is -/

mutual

/-- A host value in which there is only one NaN. -/
def quiet : HostValue → HostValue
  | float x => float (if x.isNaN then .nan else x)
  | array entries => array (quietEntries entries)
  | null => null
  | integer n => integer n
  | string s => string s
  | boolean b => boolean b
  | mysterious => mysterious
  | function name => function name

/-- Entries in which there is only one NaN. -/
def quietEntries : List (HostValue × HostValue) → List (HostValue × HostValue)
  | [] => []
  | (key, value) :: rest => (key.quiet, value.quiet) :: quietEntries rest

end

/-- Whether a host value can be a key. -/
def isScalar : HostValue → Bool
  | null | integer _ | float _ | string _ | boolean _ => true
  | mysterious | array _ | function _ => false

/-- What comes back as it is, apart from the parts of an array: integers that a number can hold
exactly, floats that equal none of these, and arrays with distinct keys. -/
def Regular : HostValue → Prop
  | integer n => n.natAbs ≤ 2 ^ 53 - 1
  | float x => ∀ i : Int, i.natAbs ≤ 2 ^ 53 - 1 → x.eq (.ofInt i) = false
  | array entries => (entries.map (·.1.quiet)).Nodup ∧ ∀ e ∈ entries, e.1.isScalar
  | function _ => False
  | null | string _ | boolean _ | mysterious => True

/-- What a host value consists of: itself, and the parts of its keys and values. -/
inductive HasPart : HostValue → HostValue → Prop where
  | self (h : HostValue) : HasPart h h
  | key {entries : List (HostValue × HostValue)} {e : HostValue × HostValue} {p : HostValue}
      (mem : e ∈ entries) (part : HasPart e.1 p) : HasPart (array entries) p
  | value {entries : List (HostValue × HostValue)} {e : HostValue × HostValue} {p : HostValue}
      (mem : e ∈ entries) (part : HasPart e.2 p) : HasPart (array entries) p

/-- Each entry is quieted on its own. -/
theorem quietEntries_eq (entries : List (HostValue × HostValue)) :
    quietEntries entries = entries.map fun e => (e.1.quiet, e.2.quiet) := by
  induction entries with
  | nil => rw [quietEntries]; rfl
  | cons e rest ih =>
    rw [quietEntries, ih]
    rfl

/-- To quiet a value does not change whether it is an array. -/
theorem isScalar_quiet (h : HostValue) : h.quiet.isScalar = h.isScalar := by
  cases h <;> rw [quiet] <;> rfl

theorem isScalar_ofKey (k : Key) : (ofKey k).isScalar := by
  cases k with
  | number n =>
    rw [ofKey, ofNumber]
    split <;> rfl
  | _ => rfl

/-- Nor does it change the key that it becomes. -/
theorem toKey_quiet (h : HostValue) : h.quiet.toKey = h.toKey := by
  cases h with
  | float x =>
    rw [quiet]
    split
    · rename_i hnan
      have hzero : x.isZero = false := by
        simp only [Number.isNaN, decide_eq_true_eq] at hnan
        simp only [Number.isZero, beq_eq_false_iff_ne]
        omega
      show Key.ofNumber .nan = Key.ofNumber x
      rw [Key.ofNumber, Key.ofNumber, hzero, hnan]
      rfl
    · rfl
  | array entries =>
    rw [quiet, quietEntries_eq]
    exact congrArg (Key.string ·.repr) (List.length_map _)
  | _ => rw [quiet]

/-- A number comes back as itself, whether as a key or as a value. -/
theorem quiet_ofKey_ofNumber (n : Number) : (ofKey (.ofNumber n)).quiet = (ofNumber n).quiet := by
  rw [Key.ofNumber]
  split
  · rename_i hzero
    rw [ofKey, ofNumber, ofNumber, Number.toInt?_of_isZero hzero, Number.toInt?_of_isZero (by decide)]
  · split
    · rename_i hnan
      rw [ofKey, ofNumber, ofNumber, Number.toInt?_of_isNaN hnan, Number.toInt?_of_isNaN (by decide)]
      simp only [quiet, hnan]
      rfl
    · rfl

/-- A simple value is the key that it becomes. -/
theorem quiet_ofKey_toKey (hs : h.isScalar) :
    (ofKey h.settled.toKey).quiet = h.settled.quiet := by
  cases h with
  | integer n => rw [settled, toKey_ofNumber, quiet_ofKey_ofNumber]
  | float x => rw [settled, toKey_ofNumber, quiet_ofKey_ofNumber]
  | null => rw [settled]; rfl
  | string s => rw [settled]; rfl
  | boolean b => rw [settled]; rfl
  | _ => cases hs

/-- What holds of all parts of an array holds of it and of all parts of its keys and values. -/
theorem forall_hasPart_array {entries : List (HostValue × HostValue)} {P : HostValue → Prop} :
    (∀ p, HasPart (array entries) p → P p) ↔
      P (array entries) ∧ ∀ e ∈ entries, (∀ p, HasPart e.1 p → P p) ∧ ∀ p, HasPart e.2 p → P p := by
  constructor
  · intro h
    exact ⟨h _ (.self _), fun e he =>
      ⟨fun p hp => h p (.key he hp), fun p hp => h p (.value he hp)⟩⟩
  · rintro ⟨hself, hparts⟩ p hp
    cases hp with
    | self => exact hself
    | key he hp => exact (hparts _ he).1 p hp
    | value he hp => exact (hparts _ he).2 p hp

/-- What is no array has no other part than itself. -/
theorem forall_hasPart_iff {P : HostValue → Prop} (hne : ∀ entries, h ≠ array entries) :
    (∀ p, HasPart h p → P p) ↔ P h := by
  constructor
  · exact fun hall => hall h (.self h)
  · intro hself p hp
    cases hp with
    | self => exact hself
    | key => exact absurd rfl (hne _)
    | value => exact absurd rfl (hne _)

/-- An array comes back as it is exactly if its entries become bindings under distinct keys and every
binding is the entry that it was made of. -/
theorem quiet_settled_array_iff (entries : List (HostValue × HostValue)) :
    (array entries).settled.quiet = (array entries).quiet ↔
      ((entries.map binding).map (·.1)).Nodup ∧ ∀ e ∈ entries,
        (ofKey e.1.settled.toKey).quiet = e.1.quiet ∧ e.2.settled.quiet = e.2.quiet := by
  let shown : Key × HostValue → HostValue × HostValue := fun b => ((ofKey b.1).quiet, b.2.quiet)
  have hquiet : (array entries).settled.quiet = (array entries).quiet ↔
      (enterAll [] (entries.map binding)).map shown = entries.map fun e => (e.1.quiet, e.2.quiet) := by
    rw [settled_array, quiet, quiet, quietEntries_eq, quietEntries_eq, List.map_map, array.injEq]
    rfl
  have hentries : (entries.map binding).map shown = (entries.map fun e => (e.1.quiet, e.2.quiet)) ↔
      ∀ e ∈ entries,
        (ofKey e.1.settled.toKey).quiet = e.1.quiet ∧ e.2.settled.quiet = e.2.quiet := by
    rw [List.map_map, List.map_inj_left]
    simp [shown, binding]
  rw [hquiet]
  constructor
  · intro hmap
    have hnone : (([] : List (Key × HostValue)).map (·.1)).Nodup := List.nodup_nil
    have hnodup : ((entries.map binding).map (·.1)).Nodup :=
      nodup_of_length_enterAll hnone (by simpa using congrArg List.length hmap)
    rw [enterAll_of_nodup hnodup] at hmap
    exact ⟨hnodup, hentries.mp hmap⟩
  · rintro ⟨hnodup, hall⟩
    rw [enterAll_of_nodup hnodup]
    exact hentries.mpr hall

/-- A key is the one that was given exactly if that is simple and comes back as it is. -/
theorem quiet_ofKey_toKey_iff :
    (ofKey h.settled.toKey).quiet = h.quiet ↔ h.isScalar ∧ h.settled.quiet = h.quiet := by
  constructor
  · intro heq
    have hs : h.isScalar := by
      rw [← isScalar_quiet, ← heq, isScalar_quiet]
      exact isScalar_ofKey _
    exact ⟨hs, quiet_ofKey_toKey hs ▸ heq⟩
  · rintro ⟨hs, heq⟩
    rw [quiet_ofKey_toKey hs, heq]

/-- Where keys are the ones that were given, distinct ones stay distinct, and others do not become
so. -/
theorem nodup_binding_iff {entries : List (HostValue × HostValue)}
    (hkeys : ∀ e ∈ entries, (ofKey e.1.settled.toKey).quiet = e.1.quiet) :
    ((entries.map binding).map (·.1)).Nodup ↔ (entries.map (·.1.quiet)).Nodup := by
  have hback : (entries.map (·.1.quiet)).map toKey = (entries.map binding).map (·.1) := by
    rw [List.map_map, List.map_map]
    refine List.map_congr_left fun e he => ?_
    show e.1.quiet.toKey = e.1.settled.toKey
    rw [← hkeys e he, toKey_quiet, toKey_ofKey (normal_toKey _)]
  have hforth : ((entries.map binding).map (·.1)).map (fun k => (ofKey k).quiet) =
      entries.map (·.1.quiet) := by
    rw [List.map_map, List.map_map]
    exact List.map_congr_left hkeys
  constructor
  · intro hnodup
    rw [← hback] at hnodup
    exact List.Nodup.of_map toKey hnodup
  · intro hnodup
    rw [← hforth] at hnodup
    exact List.Nodup.of_map _ hnodup

/-- A number is shown as an integer exactly if it is one. -/
theorem quiet_ofNumber_eq_integer {n : Number} {i : Int} :
    (ofNumber n).quiet = integer i ↔ n.toInt? = some i := by
  cases hint : n.toInt? with
  | none => simp [ofNumber, hint, quiet]
  | some j => simp [ofNumber, hint, quiet]

/-- It is shown as a float exactly if it is none. -/
theorem quiet_ofNumber_eq_float {n : Number} :
    (ofNumber n).quiet = (float n).quiet ↔ n.toInt? = none := by
  cases hint : n.toInt? with
  | none => simp [ofNumber, hint]
  | some j => simp [ofNumber, hint, quiet]

/-- **Exactly the values with regular parts come back as they are.** -/
theorem quiet_settled_iff (h : HostValue) :
    h.settled.quiet = h.quiet ↔ ∀ p, h.HasPart p → p.Regular := by
  induction h using inductionOnParts with
  | integer n =>
    rw [forall_hasPart_iff (by simp), settled]
    exact quiet_ofNumber_eq_integer.trans ⟨Number.natAbs_le_of_toInt?, Number.toInt?_ofInt⟩
  | float x =>
    rw [forall_hasPart_iff (by simp), settled, quiet_ofNumber_eq_float]
    exact Number.toInt?_eq_none_iff
  | function name =>
    rw [forall_hasPart_iff (by simp), settled, quiet, quiet]
    simp [Regular]
  | array entries ih =>
    have hkeys : ∀ e ∈ entries, (ofKey e.1.settled.toKey).quiet = e.1.quiet ↔
        e.1.isScalar ∧ ∀ p, e.1.HasPart p → p.Regular := fun e he => by
      rw [quiet_ofKey_toKey_iff, (ih e he).1]
    rw [forall_hasPart_array, quiet_settled_array_iff]
    constructor
    · rintro ⟨hnodup, hall⟩
      have hnodup' := (nodup_binding_iff fun e he => (hall e he).1).mp hnodup
      refine ⟨⟨hnodup', fun e he => ((hkeys e he).mp (hall e he).1).1⟩, fun e he => ?_⟩
      exact ⟨((hkeys e he).mp (hall e he).1).2, (ih e he).2.mp (hall e he).2⟩
    · rintro ⟨⟨hnodup, hscalar⟩, hparts⟩
      have hkept := fun e he => (hkeys e he).mpr ⟨hscalar e he, (hparts e he).1⟩
      exact ⟨(nodup_binding_iff hkept).mpr hnodup, fun e he =>
        ⟨hkept e he, (ih e he).2.mpr (hparts e he).2⟩⟩
  | _ =>
    rw [forall_hasPart_iff (by simp), settled]
    simp [Regular]

end HostValue

/-- **A host value that has been in the store comes back in a normal form.** It does not change on the
way a second time, through whatever stores it goes; and, if all NaNs count as the same, a host value
comes back as it is exactly if it has no function in it, only integers that a number can hold exactly,
no float that equals one of these, and in each array distinct keys that are numbers, strings, booleans
or null. -/
theorem returned_normalises (s s' : Store) (h : HostValue) :
    s'.returned (s.returned h) = s.returned h ∧
      ((s.returned h).quiet = h.quiet ↔ ∀ p, h.HasPart p → p.Regular) := by
  rw [Store.returned_eq, Store.returned_eq]
  exact ⟨h.settled_settled, h.quiet_settled_iff⟩

end Ballad
