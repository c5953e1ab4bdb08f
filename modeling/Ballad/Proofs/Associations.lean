import Ballad.Association
import Mathlib.Data.List.Nodup

/-!
# Association lists

What is known of the entries of an association list when a value is put under a key.

- `Association.map_fst_insert`: a key that is there keeps its place, and a new one comes last.
- `Association.lookup_insert`: the key has the new value, and all others have what they had.
- `Association.exists_replaced`: the value that was there is the only one that goes.
-/

namespace Ballad.Association

variable {α β γ : Type} [DecidableEq α] {es : List (α × β)} {k : α} {v w : β}

/-- A new key comes last. -/
theorem insert_of_not_mem (h : k ∉ es.map (·.1)) : insert k v es = es ++ [(k, v)] := by
  induction es with
  | nil => rfl
  | cons e rest ih =>
    obtain ⟨he, hrest⟩ : k ≠ e.1 ∧ k ∉ rest.map (·.1) := by simpa using h
    rw [insert, if_neg (Ne.symm he), ih hrest]
    rfl

/-- A key that is there keeps its place, and a new one comes last. -/
theorem map_fst_insert (k : α) (v : β) (es : List (α × β)) :
    (insert k v es).map (·.1) =
      if k ∈ es.map (·.1) then es.map (·.1) else es.map (·.1) ++ [k] := by
  induction es with
  | nil => rfl
  | cons e rest ih =>
    rw [insert]
    by_cases he : e.1 = k
    · rw [if_pos he, if_pos (by simp [he])]
      simp [he]
    · rw [if_neg he, List.map_cons, ih, List.map_cons]
      simp only [List.mem_cons, Ne.symm he, false_or]
      split <;> rfl

/-- No other entry comes in. -/
theorem mem_insert {e : α × β} (h : e ∈ insert k v es) : e = (k, v) ∨ e ∈ es := by
  induction es with
  | nil => exact .inl (List.mem_singleton.mp h)
  | cons c rest ih =>
    rw [insert] at h
    split at h
    · exact (List.mem_cons.mp h).imp_right (List.mem_cons_of_mem c)
    · rcases List.mem_cons.mp h with rfl | h
      · exact .inr List.mem_cons_self
      · exact (ih h).imp_right (List.mem_cons_of_mem c)

/-- Only a new key makes the list longer. -/
theorem length_insert (k : α) (v : β) (es : List (α × β)) :
    (insert k v es).length = if k ∈ es.map (·.1) then es.length else es.length + 1 := by
  have hlength := congrArg List.length (map_fst_insert k v es)
  rw [List.length_map] at hlength
  rw [hlength]
  split <;> simp

/-- Keys that are distinct stay distinct. -/
theorem nodup_insert (h : (es.map (·.1)).Nodup) : ((insert k v es).map (·.1)).Nodup := by
  rw [map_fst_insert]
  split
  · exact h
  · rename_i hk
    refine List.nodup_append.mpr ⟨h, List.nodup_singleton k, ?_⟩
    rintro a ha b hb rfl
    exact hk (List.mem_singleton.mp hb ▸ ha)

/-- The value that was under the key is the only one that goes. -/
theorem exists_replaced (h : k ∈ es.map (·.1)) :
    ∃ before old after, es.map (·.2) = before ++ old :: after ∧
      (insert k v es).map (·.2) = before ++ v :: after := by
  induction es with
  | nil => cases h
  | cons e rest ih =>
    rw [insert]
    by_cases he : e.1 = k
    · rw [if_pos he]
      exact ⟨[], e.2, rest.map (·.2), rfl, rfl⟩
    · have hrest : k ∈ rest.map (·.1) := by simpa [Ne.symm he] using h
      obtain ⟨before, old, after, hold, hnew⟩ := ih hrest
      rw [if_neg he]
      exact ⟨e.2 :: before, old, after, congrArg (e.2 :: ·) hold, congrArg (e.2 :: ·) hnew⟩

/-- Values can be changed one by one before or after. -/
theorem insert_map (f : β → γ) (k : α) (v : β) (es : List (α × β)) :
    insert k (f v) (es.map fun e => (e.1, f e.2)) = (insert k v es).map fun e => (e.1, f e.2) := by
  induction es with
  | nil => rfl
  | cons e rest ih =>
    rw [insert, List.map_cons, insert]
    split
    · rfl
    · rw [ih]
      rfl

/-! ### Looking up -/

variable [BEq α] [LawfulBEq α]

theorem lookup_cons_eq (key : α) (e : α × β) (rest : List (α × β)) :
    (e :: rest).lookup key = if e.1 = key then some e.2 else rest.lookup key := by
  obtain ⟨k, v⟩ := e
  rw [List.lookup_cons]
  by_cases hk : k = key
  · rw [if_pos hk, beq_iff_eq.mpr hk.symm]
  · rw [if_neg hk, beq_eq_false_iff_ne.mpr (Ne.symm hk)]

/-- The key has the new value, and all others have what they had. -/
theorem lookup_insert (k : α) (v : β) (es : List (α × β)) (key : α) :
    (insert k v es).lookup key = if k = key then some v else es.lookup key := by
  induction es with
  | nil => rw [insert, lookup_cons_eq]
  | cons e rest ih =>
    rw [insert]
    by_cases he : e.1 = k
    · subst he
      rw [if_pos rfl, lookup_cons_eq, lookup_cons_eq]
      split <;> rfl
    · rw [if_neg he, lookup_cons_eq, lookup_cons_eq, ih]
      -- the first entry cannot be about both keys
      by_cases hk : k = key
      · subst hk
        simp [he]
      · rw [if_neg hk, if_neg hk]

omit [DecidableEq α] in
/-- The keys of the list are those that have a value. -/
theorem isSome_lookup (k : α) (es : List (α × β)) :
    (es.lookup k).isSome ↔ k ∈ es.map (·.1) := by
  rw [List.lookup_isSome_iff, List.mem_map]
  simp only [beq_iff_eq, @eq_comm _ k]

end Ballad.Association
