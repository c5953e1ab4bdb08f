import Ballad.HostValue
import Mathlib.Data.List.Perm.Subperm

/-!
# Arrays that hold each other, seen from outside

Arrays of a store can hold each other in any way, and themselves too. The tree of a value has a node
for each way to go down from the value, from array to entry. It ends where a way comes back to an
array that it has come through; an array that is held in several places has a tree in each.

- `Store.follow?`: where a way down leads to, and the arrays that it comes through.
  `HostValue.part?`: the same way, down a tree.
- `Store.Appears`: what a value looks like from outside, by the arrays around it.
- `Store.Depicts`: trees with a node for each way down that comes through no array twice.
- `Store.unfoldWithin`: the tree of a value, by the arrays around it. Nothing is passed from one entry
  of an array to the next.
- `Store.convert_eq`: every conversion takes out of the set of open arrays what it has put into it, so
  the set is always the arrays around the value, and the conversion gives this tree.
- `Store.unfoldWithin_eq`: any depth that is enough gives the same tree. `Store.unfoldInside_array`:
  what the tree of an array is, without a depth.
- `Store.unfold_depicts_once`: there is one such tree, and this is the one that the host sees.
-/

namespace Ballad

/-- The part of a host value at the end of a way down, which gives the numbers of the entries. -/
def HostValue.part? : HostValue → List Nat → Option HostValue
  | h, [] => some h
  | .array entries, i :: path => entries[i]?.bind fun e => e.2.part? path
  | _, _ :: _ => none

/-- The host value of a key. -/
def HostValue.ofKey : Key → HostValue
  | .number n => ofNumber n
  | .string s => string s
  | .boolean b => boolean b
  | .null => null

namespace Store

/-! ### Ways down -/

/-- Where a way down leads to, from a value that stands inside of some arrays: the arrays around the
place, innermost first, and the value there. -/
def follow? (s : Store) : List TableRef → Value → List Nat → Option (List TableRef × Value)
  | around, v, [] => some (around, v)
  | around, .array r, i :: path =>
    (s.table r).entries[i]?.bind fun e => s.follow? (r :: around) e.2 path
  | _, _, _ :: _ => none

/-- An array can be come to from a value. -/
def Reaches (s : Store) (v : Value) (r : TableRef) : Prop :=
  ∃ path around, s.follow? [] v path = some (around, .array r)

/-- What a value looks like from outside, if it stands inside of some arrays. -/
inductive Appears (s : Store) (around : List TableRef) : Value → HostValue → Prop where
  | number (n : Number) : Appears s around (.number n) (.ofNumber n)
  | string (t : String) : Appears s around (.string t) (.string t)
  | boolean (b : Bool) : Appears s around (.boolean b) (.boolean b)
  | null : Appears s around .null .null
  | mysterious : Appears s around .mysterious .mysterious
  | function (r : FunctionRef) : Appears s around (.function r) (.function (s.closure r).name)
  | again {r : TableRef} (h : r ∈ around) : Appears s around (.array r) .mysterious
  | whole {r : TableRef} {parts : List (HostValue × HostValue)} (h : r ∉ around)
      (hkeys : parts.map (·.1) = (s.table r).entries.toList.map fun e => .ofKey e.1) :
    Appears s around (.array r) (.array parts)

/-- A host value shows what is to be found on all ways down that come through no array twice. -/
structure Depicts (s : Store) (around : List TableRef) (v : Value) (h : HostValue) : Prop where
  shown : ∀ path around' w, s.follow? around v path = some (around', w) → around'.Nodup →
    ∃ part, h.part? path = some part ∧ s.Appears around' w part
  only : ∀ path part, h.part? path = some part →
    ∃ around' w, s.follow? around v path = some (around', w) ∧ around'.Nodup

variable {s : Store} {around around' : List TableRef} {v w : Value} {r : TableRef} {path : List Nat}

/-- An array that has entries is there. -/
theorem index_lt_of_mem_entries {e : Key × Value} (he : e ∈ (s.table r).entries) :
    r.index < s.tables.size := by
  refine Nat.lt_of_not_le fun hle => ?_
  rw [table, Array.getElem?_eq_none hle] at he
  exact absurd he (Array.not_mem_empty e)

/-- A way down comes through one array for each step. -/
theorem exists_of_follow? (h : s.follow? around v path = some (around', w)) :
    ∃ more, around' = more ++ around ∧ more.length = path.length ∧
      ∀ r ∈ more, r.index < s.tables.size := by
  induction path generalizing around v with
  | nil =>
    cases h
    exact ⟨[], rfl, rfl, nofun⟩
  | cons i path ih =>
    cases v with
    | array r =>
      obtain ⟨e, he, hrest⟩ := Option.bind_eq_some_iff.mp h
      obtain ⟨more, rfl, hlength, hthere⟩ := ih hrest
      refine ⟨more ++ [r], List.append_cons more r around, ?_, ?_⟩
      · rw [List.length_append, hlength]
        rfl
      · intro a ha
        rcases List.mem_append.mp ha with ha | ha
        · exact hthere a ha
        · cases List.mem_singleton.mp ha
          exact index_lt_of_mem_entries (Array.mem_of_getElem? he)
    | _ => cases h

/-- Further arrays around are around all the way down. -/
theorem follow?_append (s : Store) (around outer : List TableRef) (v : Value) (path : List Nat) :
    s.follow? (around ++ outer) v path =
      (s.follow? around v path).map fun place => (place.1 ++ outer, place.2) := by
  induction path generalizing around v with
  | nil => rfl
  | cons i path ih =>
    cases v with
    | array r =>
      rw [follow?, follow?, Option.map_bind]
      exact congrArg _ (funext fun e => ih (r :: around) e.2)
    | _ => rfl

/-- What an entry reaches, its array reaches. -/
theorem Reaches.of_entry {e : Key × Value} (he : e ∈ (s.table r).entries) {a : TableRef}
    (h : s.Reaches e.2 a) : s.Reaches (.array r) a := by
  obtain ⟨path, around, hfollow⟩ := h
  obtain ⟨i, hi⟩ := Array.mem_iff_getElem?.mp he
  refine ⟨i :: path, around ++ [r], ?_⟩
  have hinside := s.follow?_append [] [r] e.2 path
  rw [follow?, hi, Option.bind_some]
  rw [hfollow] at hinside
  exact hinside

theorem reaches_self (s : Store) (r : TableRef) : s.Reaches (.array r) r :=
  ⟨[], [], rfl⟩

/-! ### Enough depth -/

/-- The tree of a value, `around` being the arrays that it stands inside of. -/
def unfoldWithin (s : Store) : (depth : Nat) → (around : List TableRef) → Value → HostValue
  | _, _, .number n => .ofNumber n
  | _, _, .string t => .string t
  | _, _, .boolean b => .boolean b
  | _, _, .null => .null
  | _, _, .mysterious => .mysterious
  | _, _, .function r => .function (s.closure r).name
  | 0, _, .array _ => .mysterious
  | depth + 1, around, .array r =>
    if r ∈ around then .mysterious
    else
      .array ((s.table r).entries.toList.map fun (key, value) =>
        (.ofKey key, s.unfoldWithin depth (r :: around) value))

/-- An array, seen from inside of others. -/
theorem unfoldWithin_array (s : Store) (depth : Nat) (inside : List TableRef) (r : TableRef) :
    s.unfoldWithin (depth + 1) inside (.array r) =
      if r ∈ inside then .mysterious
      else .array ((s.table r).entries.toList.map fun e =>
        (.ofKey e.1, s.unfoldWithin depth (r :: inside) e.2)) := by
  rw [unfoldWithin]

/-- Different arrays of a store, one inside of the other. -/
structure Opened (s : Store) (around : List TableRef) : Prop where
  nodup : around.Nodup
  there : ∀ r ∈ around, r.index < s.tables.size

theorem opened_nil (s : Store) : s.Opened [] :=
  ⟨List.nodup_nil, nofun⟩

/-- The array that is gone into is open, too. -/
theorem Opened.entry (h : s.Opened around) (hr : r ∉ around) {e : Key × Value}
    (he : e ∈ (s.table r).entries) : s.Opened (r :: around) :=
  ⟨List.nodup_cons.mpr ⟨hr, h.nodup⟩,
    List.forall_mem_cons.mpr ⟨index_lt_of_mem_entries he, h.there⟩⟩

/-- All arrays on a path are open at its end. -/
theorem Opened.follow? (h : s.Opened around) (hfollow : s.follow? around v path = some (around', w))
    (hnodup : around'.Nodup) : s.Opened around' := by
  obtain ⟨more, rfl, -, hthere⟩ := exists_of_follow? hfollow
  exact ⟨hnodup, fun r hr => (List.mem_append.mp hr).elim (hthere r) (h.there r)⟩

/-- There are no more different arrays than the store has. -/
theorem Opened.length_le (h : s.Opened around) : around.length ≤ s.tables.size := by
  have hindices : (around.map TableRef.index).Nodup :=
    List.Pairwise.map _ (fun a b hne hindex => hne (congrArg TableRef.mk hindex)) h.nodup
  have hsubset : around.map TableRef.index ⊆ List.range s.tables.size := by
    intro i hi
    obtain ⟨r, hr, rfl⟩ := List.mem_map.mp hi
    exact List.mem_range.mpr (h.there r hr)
  have hle := (List.subperm_of_subset hindices hsubset).length_le
  rwa [List.length_map, List.length_range] at hle

/-- Any depth is enough that is more than the number of arrays that may still be opened. -/
theorem unfoldWithin_eq {depth depth' : Nat} (h : s.Opened around)
    (hdepth : s.tables.size < depth + around.length)
    (hdepth' : s.tables.size < depth' + around.length) (v : Value) :
    s.unfoldWithin depth around v = s.unfoldWithin depth' around v := by
  have hroom := h.length_le
  induction depth generalizing depth' around v with
  | zero => omega
  | succ depth ih =>
    obtain ⟨depth', rfl⟩ : ∃ n, depth' = n + 1 := ⟨depth' - 1, by omega⟩
    cases v with
    | array r =>
      rw [unfoldWithin_array, unfoldWithin_array]
      by_cases hr : r ∈ around
      · rw [if_pos hr, if_pos hr]
      · rw [if_neg hr, if_neg hr]
        refine congrArg HostValue.array (List.map_congr_left fun e he => ?_)
        -- an array that has entries is there, and one more is open from here on
        have hentry := h.entry hr (Array.mem_toList_iff.mp he)
        refine congrArg (Prod.mk _) (ih hentry ?_ ?_ e.2 hentry.length_le)
        · rw [List.length_cons]
          omega
        · rw [List.length_cons]
          omega
    | _ => rw [unfoldWithin, unfoldWithin]

/-! ### The set of open arrays -/

/-- Steps that leave the state as it is and have results leave it so one after the other. -/
theorem mapM_of_forall {α β σ : Type} {f : α → StateT σ Option β} {g : α → β} {state : σ} {xs : List α}
    (h : ∀ x ∈ xs, f x state = some (g x, state)) : xs.mapM f state = some (xs.map g, state) := by
  induction xs with
  | nil => rfl
  | cons x xs ih =>
    obtain ⟨hx, hxs⟩ := List.forall_mem_cons.mp h
    rw [List.mapM_cons]
    show (f x state >>= fun r => (xs.mapM f >>= fun ys => pure (r.1 :: ys)) r.2) = _
    rw [hx]
    show (xs.mapM f state >>= fun r => some (g x :: r.1, r.2)) = _
    rw [ih hxs]
    rfl

/-- How an entry of an array is converted: the key first. -/
def convertEntry (s : Store) (depth : Nat) (e : Key × Value) :
    StateT (List TableRef) Option (HostValue × HostValue) := do
  let key ← s.convert depth e.1.toValue
  let value ← s.convert depth e.2
  return (key, value)

/-- A key comes back as itself, and opens nothing. -/
theorem convert_toValue (s : Store) (depth : Nat) (key : Key) (around : List TableRef) :
    s.convert depth key.toValue around = some (.ofKey key, around) := by
  cases key <;> rw [Key.toValue, convert] <;> rfl

/-- An array that is open already is not opened again. -/
theorem convert_open (s : Store) (depth : Nat) (hr : r ∈ around) :
    s.convert (depth + 1) (.array r) around = some (.mysterious, around) := by
  rw [convert]
  show (if r ∈ around then (pure HostValue.mysterious : StateT _ Option _) else _) around = _
  rw [if_pos hr]
  rfl

/-- An array is put into the set of open arrays, and taken out of it when its entries are done. -/
theorem convert_closed {depth : Nat} {tree : Value → HostValue} (hr : r ∉ around)
    (h : ∀ e ∈ (s.table r).entries.toList,
      s.convert depth e.2 (r :: around) = some (tree e.2, r :: around)) :
    s.convert (depth + 1) (.array r) around =
      some (.array ((s.table r).entries.toList.map fun e => (.ofKey e.1, tree e.2)), around) := by
  -- the entries, one after the other, with the array open
  have hentries : (s.table r).entries.toList.mapM (s.convertEntry depth) (r :: around) =
      some ((s.table r).entries.toList.map fun e => (.ofKey e.1, tree e.2), r :: around) := by
    refine mapM_of_forall fun e he => ?_
    show (s.convert depth e.1.toValue (r :: around) >>= fun k =>
      (s.convert depth e.2 >>= fun v => pure (k.1, v)) k.2) = _
    rw [convert_toValue]
    show (s.convert depth e.2 (r :: around) >>= fun v => some ((HostValue.ofKey e.1, v.1), v.2)) = _
    rw [h e he]
    rfl
  rw [convert]
  show (if r ∈ around then _ else _ : StateT _ Option HostValue) around = _
  rw [if_neg hr]
  show ((s.table r).entries.toList.mapM (s.convertEntry depth) (r :: around) >>= fun entries =>
    some (HostValue.array entries.1, entries.2.erase r)) = _
  rw [hentries]
  show some (_, (r :: around).erase r) = _
  rw [List.erase_cons_head]

/-- **Every conversion leaves the set of open arrays as it was**, and so an entry of an array is converted
with nothing open but the arrays around it, whatever has been converted before. It gives the tree by
these arrays. -/
theorem convert_eq {depth : Nat} (h : s.Opened around)
    (hdepth : s.tables.size < depth + around.length) (v : Value) :
    s.convert depth v around = some (s.unfoldWithin depth around v, around) := by
  have hroom := h.length_le
  induction depth generalizing around v with
  | zero => omega
  | succ depth ih =>
    cases v with
    | array r =>
      rw [unfoldWithin_array]
      by_cases hr : r ∈ around
      · rw [if_pos hr, s.convert_open depth hr]
      · rw [if_neg hr]
        refine convert_closed hr fun e he => ?_
        have hentry := h.entry hr (Array.mem_toList_iff.mp he)
        refine ih hentry ?_ e.2 hentry.length_le
        rw [List.length_cons]
        omega
    | _ => rw [convert, unfoldWithin]; rfl

/-- The host sees the tree of the value on its own. -/
theorem unfold_eq (s : Store) {depth : Nat} (hdepth : s.tables.size < depth) (v : Value) :
    s.unfold v = s.unfoldWithin depth [] v := by
  have hconvert := convert_eq s.opened_nil (Nat.lt_succ_self _) v
  rw [unfold, hconvert]
  exact unfoldWithin_eq s.opened_nil (Nat.lt_succ_self _) hdepth v

/-- The tree of a value that stands inside of some arrays. -/
def unfoldInside (s : Store) (around : List TableRef) (v : Value) : HostValue :=
  s.unfoldWithin (s.tables.size + 1) around v

theorem unfold_eq_unfoldInside (s : Store) (v : Value) : s.unfold v = s.unfoldInside [] v :=
  s.unfold_eq (Nat.lt_succ_self _) v

/-- With any depth that is enough, the conversion gives the tree and leaves the set as it was. -/
theorem convert_eq_unfoldInside {depth : Nat} (h : s.Opened around)
    (hdepth : s.tables.size < depth + around.length) (v : Value) :
    s.convert depth v around = some (s.unfoldInside around v, around) := by
  rw [convert_eq h hdepth, unfoldInside]
  rw [unfoldWithin_eq h hdepth (Nat.lt_of_lt_of_le (Nat.lt_succ_self _) (Nat.le_add_right _ _))]

/-- **An array that is open shows as `mysterious`, and any other with all its entries.** -/
theorem unfoldInside_array (h : s.Opened around) (r : TableRef) :
    s.unfoldInside around (.array r) =
      if r ∈ around then .mysterious
      else .array ((s.table r).entries.toList.map fun e =>
        (.ofKey e.1, s.unfoldInside (r :: around) e.2)) := by
  rw [unfoldInside, unfoldWithin_array]
  by_cases hr : r ∈ around
  · rw [if_pos hr, if_pos hr]
  · rw [if_neg hr, if_neg hr]
    refine congrArg HostValue.array (List.map_congr_left fun e he => congrArg (Prod.mk _) ?_)
    have hentry := h.entry hr (Array.mem_toList_iff.mp he)
    refine unfoldWithin_eq hentry ?_ ?_ e.2
    · rw [List.length_cons]
      omega
    · omega

/-- Arrays that are not come to from a value make no difference to its tree. -/
theorem unfoldWithin_append (s : Store) (depth : Nat) (around : List TableRef)
    {outer : List TableRef} {v : Value} (houter : ∀ r ∈ outer, ¬ s.Reaches v r) :
    s.unfoldWithin depth (around ++ outer) v = s.unfoldWithin depth around v := by
  induction depth generalizing around v with
  | zero => cases v <;> rw [unfoldWithin, unfoldWithin]
  | succ depth ih =>
    cases v with
    | array r =>
      have hr : r ∈ around ++ outer ↔ r ∈ around := by
        refine List.mem_append.trans (or_iff_left fun hr => ?_)
        exact houter r hr (s.reaches_self r)
      rw [unfoldWithin_array, unfoldWithin_array, if_congr hr rfl rfl]
      refine congrArg (ite _ _) (congrArg HostValue.array ?_)
      refine List.map_congr_left fun e he => congrArg (Prod.mk _) (ih (r :: around) fun a ha => ?_)
      exact fun hreaches => houter a ha (hreaches.of_entry (Array.mem_toList_iff.mp he))
    | _ => rw [unfoldWithin, unfoldWithin]

/-! ### The tree of a value -/

/-- Down the tree there are the trees of the values that are down there. -/
theorem part?_unfoldInside (hfollow : s.follow? around v path = some (around', w))
    (h : s.Opened around') : (s.unfoldInside around v).part? path = some (s.unfoldInside around' w) := by
  induction path generalizing around v with
  | nil =>
    cases hfollow
    rfl
  | cons i path ih =>
    cases v with
    | array r =>
      obtain ⟨e, he, hrest⟩ := Option.bind_eq_some_iff.mp hfollow
      -- the arrays that the way has come through so far are among those at its end
      obtain ⟨more, rfl, -, -⟩ := exists_of_follow? hrest
      have hsofar : s.Opened (r :: around) :=
        ⟨(List.nodup_append.mp h.nodup).2.1, fun a ha => h.there a (List.mem_append_right more ha)⟩
      obtain ⟨hr, hnodup⟩ := List.nodup_cons.mp hsofar.nodup
      have haround : s.Opened around := ⟨hnodup, fun a ha => hsofar.there a (List.mem_cons_of_mem r ha)⟩
      rw [unfoldInside_array haround, if_neg hr, HostValue.part?, List.getElem?_map,
        Array.getElem?_toList, he, Option.map_some, Option.bind_some]
      exact ih hrest
    | _ => cases hfollow

theorem not_part?_ofNumber (n : Number) (i : Nat) (path : List Nat) :
    (HostValue.ofNumber n).part? (i :: path) = none := by
  unfold HostValue.ofNumber
  split <;> rfl

/-- The tree has no other nodes. -/
theorem exists_follow?_of_part? (h : s.Opened around) {part : HostValue}
    (hpart : (s.unfoldInside around v).part? path = some part) :
    ∃ around' w, s.follow? around v path = some (around', w) ∧ around'.Nodup := by
  induction path generalizing around v with
  | nil => exact ⟨around, v, rfl, h.nodup⟩
  | cons i path ih =>
    cases v with
    | array r =>
      rw [unfoldInside_array h] at hpart
      by_cases hr : r ∈ around
      · rw [if_pos hr] at hpart
        cases hpart
      · rw [if_neg hr, HostValue.part?, List.getElem?_map, Array.getElem?_toList] at hpart
        obtain ⟨_, hentry, hpart⟩ := Option.bind_eq_some_iff.mp hpart
        obtain ⟨e, he, rfl⟩ := Option.map_eq_some_iff.mp hentry
        obtain ⟨around', w, hfollow, hnodup⟩ := ih (h.entry hr (Array.mem_of_getElem? he)) hpart
        refine ⟨around', w, ?_, hnodup⟩
        rw [follow?, he, Option.bind_some]
        exact hfollow
    | number n =>
      rw [unfoldInside, unfoldWithin, not_part?_ofNumber] at hpart
      cases hpart
    | _ =>
      rw [unfoldInside, unfoldWithin] at hpart
      cases hpart

/-- **The tree of a value is what appears of it.** -/
theorem appears_unfoldInside (h : s.Opened around) (v : Value) :
    s.Appears around v (s.unfoldInside around v) := by
  cases v with
  | array r =>
    rw [unfoldInside_array h]
    by_cases hr : r ∈ around
    · rw [if_pos hr]
      exact .again hr
    · rw [if_neg hr]
      refine .whole hr ?_
      rw [List.map_map]
      rfl
  | number n => exact .number n
  | string t => exact .string t
  | boolean b => exact .boolean b
  | null => exact .null
  | mysterious => exact .mysterious
  | function r => exact .function r

/-- **It depicts the value.** -/
theorem depicts_unfoldInside (h : s.Opened around) (v : Value) :
    s.Depicts around v (s.unfoldInside around v) where
  shown := by
    intro path around' w hfollow hnodup
    have hend := h.follow? hfollow hnodup
    exact ⟨_, part?_unfoldInside hfollow hend, appears_unfoldInside hend w⟩
  only path part hpart := exists_follow?_of_part? h hpart

/-- What depicts an array depicts its entries. -/
theorem Depicts.entry {parts : List (HostValue × HostValue)} {p : HostValue × HostValue}
    {e : Key × Value} {i : Nat} (h : s.Depicts around (.array r) (.array parts))
    (he : (s.table r).entries[i]? = some e) (hp : parts[i]? = some p) :
    s.Depicts (r :: around) e.2 p.2 := by
  have hfollow : ∀ path, s.follow? around (.array r) (i :: path) =
      s.follow? (r :: around) e.2 path := by
    intro path
    rw [Store.follow?, he, Option.bind_some]
  have hpart : ∀ path, (HostValue.array parts).part? (i :: path) = p.2.part? path := by
    intro path
    rw [HostValue.part?, hp, Option.bind_some]
  refine ⟨fun path around' w hend hnodup => ?_, fun path part hend => ?_⟩
  · rw [← hfollow] at hend
    rw [← hpart]
    exact h.shown (i :: path) around' w hend hnodup
  · rw [← hpart] at hend
    rw [← hfollow]
    exact h.only (i :: path) part hend

/-- There is only one tree. -/
theorem Depicts.eq_unfoldInside {h : HostValue} (hopened : s.Opened around)
    (hdepicts : s.Depicts around v h) : h = s.unfoldInside around v := by
  -- by induction on the number of arrays that are not around
  induction hroom : s.tables.size - around.length using Nat.strongRecOn
    generalizing around v h with
  | _ room ih =>
    obtain ⟨_, hpart, happears⟩ := hdepicts.shown [] around v rfl hopened.nodup
    obtain rfl := Option.some.inj hpart
    cases happears with
    | again hr => rw [unfoldInside_array hopened, if_pos hr]
    | @whole r parts hr hkeys =>
      rw [unfoldInside_array hopened, if_neg hr]
      refine congrArg HostValue.array (List.ext_getElem? fun i => ?_)
      have hkey := congrArg (·[i]?) hkeys
      simp only [List.getElem?_map, Array.getElem?_toList] at hkey ⊢
      cases he : (s.table r).entries[i]? with
      | none =>
        rw [he] at hkey
        exact Option.map_eq_none_iff.mp hkey
      | some e =>
        rw [he] at hkey
        obtain ⟨p, hp, hfirst⟩ := Option.map_eq_some_iff.mp hkey
        have hentry := hopened.entry hr (Array.mem_of_getElem? he)
        have hlength := hentry.length_le
        rw [List.length_cons] at hlength
        have hsecond := ih _ (by rw [List.length_cons]; omega) hentry (hdepicts.entry he hp) rfl
        rw [hp]
        exact congrArg some (Prod.ext hfirst hsecond)
    | _ => rfl

/-- **A value is seen from outside as the tree of all ways down from it, cut off where an array comes
again.** On each way down that has come through no array twice there is a node. It is `mysterious` for
an array that the way has come through, and an array with all its entries for any other array, however
often it is held elsewhere; the tree has no other nodes.

The conversion comes to an end with any depth beyond the number of arrays, and no array is open
afterwards. The node at the end of a way down is what the conversion gives with exactly the arrays open
that the way has come through, and it leaves exactly these open. A value that leads back to none of
them has the same tree as on its own. -/
theorem unfold_depicts_once (s : Store) (v : Value) :
    (∀ h, s.Depicts [] v h ↔ h = s.unfold v) ∧
    (∀ path part, (s.unfold v).part? path = some part → path.length ≤ s.tables.size) ∧
    (∀ depth, s.tables.size < depth → s.convert depth v [] = some (s.unfold v, [])) ∧
    ∀ path around w, s.follow? [] v path = some (around, w) → around.Nodup →
      ∃ part, (s.unfold v).part? path = some part ∧
        (∀ depth, s.tables.size < depth + around.length →
          s.convert depth w around = some (part, around)) ∧
        ((∀ r ∈ around, ¬ s.Reaches w r) → part = s.unfold w) := by
  have hopened := s.opened_nil
  rw [unfold_eq_unfoldInside]
  refine ⟨fun h => ⟨fun hdepicts => hdepicts.eq_unfoldInside hopened, ?_⟩, ?_, ?_, ?_⟩
  · rintro rfl
    exact depicts_unfoldInside hopened v
  · intro path part hpart
    obtain ⟨around, w, hfollow, hnodup⟩ := exists_follow?_of_part? hopened hpart
    obtain ⟨more, rfl, hlength, hthere⟩ := exists_of_follow? hfollow
    have hways : s.Opened more := ⟨(List.nodup_append.mp hnodup).1, hthere⟩
    rw [← hlength]
    exact hways.length_le
  · intro depth hdepth
    exact convert_eq_unfoldInside hopened hdepth v
  · intro path around w hfollow hnodup
    have haround := hopened.follow? hfollow hnodup
    refine ⟨_, part?_unfoldInside hfollow haround, ?_, ?_⟩
    · intro depth hdepth
      exact convert_eq_unfoldInside haround hdepth w
    · intro hback
      rw [unfold_eq_unfoldInside]
      exact s.unfoldWithin_append (s.tables.size + 1) [] hback

/-- An array that holds itself and, twice, one that holds it: each of the two is whole, up to where it
comes back to the array around it. -/
example :
    (⟨#[((Table.empty.set (.string "self") (.array ⟨0⟩)).set (.string "one") (.array ⟨1⟩)).set
          (.string "two") (.array ⟨1⟩),
        (Table.empty.set (.string "back") (.array ⟨0⟩)).set .null (.boolean true)],
      #[], #[], none⟩ : Store).unfold (.array ⟨0⟩) =
      .array [(.string "self", .mysterious),
        (.string "one", .array [(.string "back", .mysterious), (.null, .boolean true)]),
        (.string "two", .array [(.string "back", .mysterious), (.null, .boolean true)])] :=
  rfl

end Store

end Ballad
