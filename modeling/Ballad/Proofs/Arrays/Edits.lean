import Ballad.Proofs.Associations
import Ballad.Table

/-!
# Edits of association lists

What an array is compared with: a list of bindings, and the two ways to change it.

- `Edit`, `Edit.apply`: a change, and what it does to the bindings.
- `Edit.remember`: what it does to the value of a key.
- `Edit.bindings`, `Edit.valueOf`: what a sequence of edits leaves. `Edit.lookup_bindings` says that
  the two agree.
- `Edit.listing`: the bindings of some keys, in their order, with the values that a function has for
  them. `Edit.listing_store`, `Edit.listing_append`, `Edit.listing_remove`: what becomes of them if the
  function and the keys are changed apart from each other.
-/

namespace Ballad

/-- A change of an association list. -/
inductive Edit where
  | store (key : Key) (value : Value)
  | remove (key : Key)
deriving DecidableEq, Repr

namespace Edit

/-- What an edit does to bindings. -/
def apply (bs : List (Key × Value)) : Edit → List (Key × Value)
  | store key value => Association.insert key value bs
  | remove key => bs.filter (·.1 ≠ key)

/-- What an edit does to the value of a key. -/
def remember (key : Key) (found : Option Value) : Edit → Option Value
  | store k v => if k = key then some v else found
  | remove k => if k = key then none else found

variable {k : Key} {v : Value}

/-- **The value of a key** is what the last edit that is about the key left of it. -/
theorem lookup_apply (e : Edit) (bs : List (Key × Value)) (key : Key) :
    (e.apply bs).lookup key = remember key (bs.lookup key) e := by
  cases e with
  | store k v => exact Association.lookup_insert k v bs key
  | remove k =>
    show (bs.filter (·.1 ≠ k)).lookup key = if k = key then none else bs.lookup key
    induction bs with
    | nil => simp
    | cons b rest ih =>
      by_cases hb : b.1 = k
      · subst hb
        rw [List.filter_cons_of_neg (by simp), ih, Association.lookup_cons_eq]
        split <;> rfl
      · rw [List.filter_cons_of_pos (by simpa using hb), Association.lookup_cons_eq,
          Association.lookup_cons_eq, ih]
        by_cases hk : k = key
        · subst hk
          simp [hb]
        · rw [if_neg hk, if_neg hk]

/-- The bindings that edits leave, from none on. -/
def bindings (edits : List Edit) : List (Key × Value) :=
  edits.foldl apply []

/-- The value that edits leave under a key: the one last stored and not removed since. -/
def valueOf (edits : List Edit) (key : Key) : Option Value :=
  edits.foldl (remember key) none

theorem bindings_concat (edits : List Edit) (e : Edit) :
    bindings (edits ++ [e]) = e.apply (bindings edits) := by
  simp [bindings]

/-- The bindings that edits leave have the values that edits leave. -/
theorem lookup_bindings (edits : List Edit) (key : Key) :
    (bindings edits).lookup key = valueOf edits key := by
  suffices h : ∀ bs, (edits.foldl apply bs).lookup key =
      edits.foldl (remember key) (bs.lookup key) from h []
  induction edits with
  | nil =>
    intro bs
    rfl
  | cons e rest ih =>
    intro bs
    rw [List.foldl_cons, List.foldl_cons, ih, lookup_apply]

/-! ### Keys in order and values by key -/

/-- The bindings of keys, in their order. A key without a value has none. -/
def listing (found : Key → Option Value) (keys : List Key) : List (Key × Value) :=
  keys.filterMap fun key => (found key).map (key, ·)

variable {found found' : Key → Option Value} {keys : List Key}

theorem listing_cons_some (h : found k = some v) :
    listing found (k :: keys) = (k, v) :: listing found keys := by
  rw [listing, List.filterMap_cons_some (by rw [h]; rfl)]
  rfl

theorem listing_cons_none (h : found k = none) : listing found (k :: keys) = listing found keys := by
  rw [listing, List.filterMap_cons_none (by rw [h]; rfl)]
  rfl

/-- Only the values of these keys matter. -/
theorem listing_congr (h : ∀ k ∈ keys, found' k = found k) :
    listing found' keys = listing found keys :=
  List.filterMap_congr fun k hk => by rw [h k hk]

/-- If all keys have values, the bindings have all keys. -/
theorem map_fst_listing (h : ∀ k ∈ keys, (found k).isSome) :
    (listing found keys).map (·.1) = keys := by
  induction keys with
  | nil => rfl
  | cons k rest ih =>
    obtain ⟨hk, hrest⟩ := List.forall_mem_cons.mp h
    obtain ⟨v, hv⟩ := Option.isSome_iff_exists.mp hk
    rw [listing_cons_some hv, List.map_cons, ih hrest]

/-- In any case they have no others. -/
theorem map_fst_listing_subset (found : Key → Option Value) (keys : List Key) :
    (listing found keys).map (·.1) ⊆ keys := by
  intro k hk
  obtain ⟨b, hb, rfl⟩ := List.mem_map.mp hk
  obtain ⟨key, hkey, hsome⟩ := List.mem_filterMap.mp hb
  obtain ⟨v, -, rfl⟩ := Option.map_eq_some_iff.mp hsome
  exact hkey

/-- Looking through the bindings gives the values of the function. -/
theorem lookup_listing (h : found k = none ∨ k ∈ keys) : (listing found keys).lookup k = found k := by
  induction keys with
  | nil => exact (h.resolve_right List.not_mem_nil).symm
  | cons key rest ih =>
    by_cases hkey : key = k
    · subst hkey
      cases hfound : found key with
      | none => rw [listing_cons_none hfound, ih (.inl hfound), hfound]
      | some v => rw [listing_cons_some hfound, Association.lookup_cons_eq, if_pos rfl]
    · have hrest := ih (h.imp_right fun hk => (List.mem_cons.mp hk).resolve_left (Ne.symm hkey))
      cases hfound : found key with
      | none => rw [listing_cons_none hfound, hrest]
      | some v => rw [listing_cons_some hfound, Association.lookup_cons_eq, if_neg hkey, hrest]

/-- **A value is stored under a key that is there**: the keys stay as they are. -/
theorem listing_store (hnodup : keys.Nodup) (hk : k ∈ keys) (hsome : (found k).isSome)
    (hfound : ∀ key, found' key = if k = key then some v else found key) :
    listing found' keys = Association.insert k v (listing found keys) := by
  induction keys with
  | nil => cases hk
  | cons key rest ih =>
    obtain ⟨hkey, hrest⟩ := List.nodup_cons.mp hnodup
    by_cases heq : k = key
    · subst heq
      obtain ⟨old, hold⟩ := Option.isSome_iff_exists.mp hsome
      rw [listing_cons_some ((hfound k).trans (if_pos rfl)), listing_cons_some hold,
        Association.insert, if_pos rfl]
      refine congrArg _ (listing_congr fun key hmem => (hfound key).trans (if_neg ?_))
      rintro rfl
      exact hkey hmem
    · have hsame : found' key = found key := (hfound key).trans (if_neg heq)
      have hlater := ih hrest ((List.mem_cons.mp hk).resolve_left heq)
      cases hold : found key with
      | none => rw [listing_cons_none (hsame.trans hold), listing_cons_none hold, hlater]
      | some w =>
        rw [listing_cons_some (hsame.trans hold), listing_cons_some hold, Association.insert,
          if_neg (Ne.symm heq), hlater]

/-- **A value is stored under a new key**: the key comes last. -/
theorem listing_append (hk : k ∉ keys)
    (hfound : ∀ key, found' key = if k = key then some v else found key) :
    listing found' (keys ++ [k]) = Association.insert k v (listing found keys) := by
  have hold : listing found' keys = listing found keys := by
    refine listing_congr fun key hkey => (hfound key).trans (if_neg ?_)
    rintro rfl
    exact hk hkey
  have hnew : listing found' [k] = [(k, v)] := listing_cons_some ((hfound k).trans (if_pos rfl))
  rw [Association.insert_of_not_mem fun h => hk (map_fst_listing_subset found keys h), ← hold, ← hnew]
  exact List.filterMap_append

/-- **A key is removed** from the keys, and its value from the function. -/
theorem listing_remove (hfound : ∀ key, found' key = if k = key then none else found key) :
    listing found' (keys.filter (· ≠ k)) = (listing found keys).filter (·.1 ≠ k) := by
  induction keys with
  | nil => rfl
  | cons key rest ih =>
    by_cases hkey : key = k
    · subst hkey
      rw [List.filter_cons_of_neg (by simp), ih]
      cases hold : found key with
      | none => rw [listing_cons_none hold]
      | some w => rw [listing_cons_some hold, List.filter_cons_of_neg (by simp)]
    · have hsame : found' key = found key := (hfound key).trans (if_neg (Ne.symm hkey))
      rw [List.filter_cons_of_pos (by simpa using hkey)]
      cases hold : found key with
      | none => rw [listing_cons_none (hsame.trans hold), listing_cons_none hold, ih]
      | some w =>
        rw [listing_cons_some (hsame.trans hold), listing_cons_some hold,
          List.filter_cons_of_pos (by simpa using hkey), ih]

end Edit

end Ballad
