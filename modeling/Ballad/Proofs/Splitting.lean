import Ballad.Evaluation.Evaluator
import Ballad.Proofs.Arrays.Histories
import Ballad.Proofs.Evaluation.Keeping
import Mathlib.Data.List.Induction

/-!
# Joining what has been split

A text is cut from left to right, and what stands between two pieces is the delimiter. So the pieces,
with the delimiter between them, are the text again: whether delimiters overlap in it or not, and also
if the delimiter is empty and every character is a piece of its own. Between the split and the join the
pieces are the values of an array, which keeps all of them as long as it has a position for each.

- `intercalate_splitFrom`, `joinTexts_splitText`: the pieces make up the text.
- `Table.values_ofValues`: an array holds the values that it is made of, if they are not too many.
- `Table.length_flatMap_ofValues`: of more values it does not hold all.
- `join_undoes_split`: a join gives the text back that was split.
-/

namespace Ballad

/-! ### Arrays of many values -/

namespace Table

variable {t : Table} {v : Value} {vs : List Value}

theorem ofValues_concat (vs : List Value) (v : Value) :
    ofValues (vs ++ [v]) = (ofValues vs).push v := by
  rw [ofValues, List.foldl_append]
  rfl

theorem sound_ofValues (vs : List Value) : (ofValues vs).Sound :=
  sound_ofHistory vs []

theorem values_push (hs : t.Sound) (h : t.next ≤ Number.maxInteger) (v : Value) :
    (t.push v).values = t.values ++ [v] := by
  rw [values, toList_push hs h, List.map_append]
  rfl

/-- The values of an array without a free position, when one more is pushed. -/
theorem values_push_full (hs : t.Sound) (h : t.next = Number.maxInteger + 1) (v : Value) :
    ∃ before old after, t.values = before ++ old :: after ∧
      (t.push v).values = before ++ v :: after := by
  have hkey : Key.ofPosition t.next = Key.ofPosition Number.maxInteger := by
    rw [h]
    rfl
  unfold values
  rw [push, toList_set hs.toInStep, hkey]
  refine Association.exists_replaced ?_
  rw [map_fst_entries hs.toInStep]
  exact hs.full h

theorem next_ofValues (vs : List Value) :
    (ofValues vs).next = min vs.length (Number.maxInteger + 1) := by
  induction vs using List.reverseRecOn with
  | nil => rfl
  | append_singleton vs v ih =>
    rw [ofValues_concat, push, next_set, Table.advance, Key.position?_ofPosition, ih,
      List.length_append]
    show max _ (min _ _ + 1) = min (vs.length + 1) _
    omega

/-- **An array holds the values that it is made of**, if there is a position for each of them. -/
theorem values_ofValues (h : vs.length ≤ Number.maxInteger + 1) : (ofValues vs).values = vs := by
  induction vs using List.reverseRecOn with
  | nil => rfl
  | append_singleton vs v ih =>
    rw [List.length_append, List.length_singleton] at h
    have hnext := next_ofValues vs
    rw [ofValues_concat, values_push (sound_ofValues vs) (by omega), ih (by omega)]

/-- The value pushed last is there, in the place of another one or behind all others. -/
theorem values_ofValues_concat (vs : List Value) (v : Value) :
    (ofValues vs).next ≤ Number.maxInteger ∧
      (ofValues (vs ++ [v])).values = (ofValues vs).values ++ [v] ∨
    (ofValues vs).next = Number.maxInteger + 1 ∧ ∃ before old after,
      (ofValues vs).values = before ++ old :: after ∧
        (ofValues (vs ++ [v])).values = before ++ v :: after := by
  have hs := sound_ofValues vs
  have hle := hs.next_le
  rw [ofValues_concat]
  rcases Nat.lt_or_ge Number.maxInteger (ofValues vs).next with hfull | hfree
  · have hnext : (ofValues vs).next = Number.maxInteger + 1 := by omega
    exact .inr ⟨hnext, values_push_full hs hnext v⟩
  · exact .inl ⟨hfree, values_push hs hfree v⟩

theorem values_ofValues_ne_nil (h : vs ≠ []) : (ofValues vs).values ≠ [] := by
  obtain ⟨init, v, rfl⟩ := (List.eq_nil_or_concat vs).resolve_left h
  rcases values_ofValues_concat init v with ⟨-, hvalues⟩ | ⟨-, before, old, after, -, hvalues⟩
  all_goals simp [hvalues]

/-- All that an array of values holds is one of them. -/
theorem mem_of_mem_ofValues : ∀ u ∈ (ofValues vs).values, u ∈ vs := by
  induction vs using List.reverseRecOn with
  | nil => exact fun u hu => absurd hu List.not_mem_nil
  | append_singleton vs v ih =>
    intro u hu
    have hcases : u ∈ (ofValues vs).values ∨ u = v := by
      rcases values_ofValues_concat vs v with ⟨-, hnew⟩ | ⟨-, before, old, after, hold, hnew⟩
      · simpa [hnew] using hu
      · simp only [hnew, hold, List.mem_append, List.mem_cons] at hu ⊢
        tauto
    rcases hcases with hu | rfl
    · exact List.mem_append_left [v] (ih u hu)
    · exact List.mem_append_right vs (List.mem_singleton_self u)

/-- Every value without a position takes at least one character away from what is made of all values,
if something is made of each. -/
theorem length_flatMap_ofValues {g : Value → List Char} (hg : ∀ v ∈ vs, g v ≠ []) :
    ((ofValues vs).values.flatMap g).length + (vs.length - (Number.maxInteger + 1)) ≤
      (vs.flatMap g).length := by
  induction vs using List.reverseRecOn with
  | nil => exact Nat.zero_le _
  | append_singleton vs v ih =>
    have hbefore := ih fun u hu => hg u (List.mem_append_left [v] hu)
    have hnext := next_ofValues vs
    rw [List.flatMap_append, List.length_append, List.length_append, List.flatMap_singleton,
      List.length_singleton]
    rcases values_ofValues_concat vs v with ⟨hfree, hnew⟩ | ⟨hfull, before, old, after, hold, hnew⟩
    · rw [hnew, List.flatMap_append, List.length_append, List.flatMap_singleton]
      omega
    · have hmem : old ∈ (ofValues vs).values := by simp [hold]
      have hpos : 0 < (g old).length :=
        List.length_pos_iff.mpr (hg old (List.mem_append_left [v] (mem_of_mem_ofValues old hmem)))
      simp only [hnew, hold, List.flatMap_append, List.flatMap_cons, List.length_append]
        at hbefore ⊢
      omega

end Table

namespace Evaluation

/-! ### The pieces of a text -/

variable {delimiter run cs : List Char} {skip : Nat}

theorem splitFrom_ne_nil : splitFrom delimiter run skip cs ≠ [] := by
  fun_induction splitFrom delimiter run skip cs with
  | case1 => exact List.cons_ne_nil _ _
  | case2 _ _ _ _ ih => exact ih
  | case3 => exact List.cons_ne_nil _ _
  | case4 _ _ _ _ ih => exact ih

/-- What has been collected and what is left are made up of the pieces. After a cut the rest of the
delimiter is passed over, so that the next piece begins behind it. -/
theorem intercalate_splitFrom (h : delimiter ≠ []) :
    delimiter.intercalate (splitFrom delimiter run skip cs) = run.reverse ++ cs.drop skip := by
  fun_induction splitFrom delimiter run skip cs with
  | case1 run skip => simp
  | case2 run skip c cs ih => simpa using ih
  | case3 run c cs hcut ih =>
    obtain ⟨rest, hrest⟩ := List.isPrefixOf_iff_prefix.mp hcut
    have hpos : 0 < delimiter.length := List.length_pos_iff.mpr h
    have hdrop : cs.drop (delimiter.length - 1) = rest :=
      calc cs.drop (delimiter.length - 1) = (c :: cs).drop (delimiter.length - 1 + 1) := rfl
        _ = (delimiter ++ rest).drop delimiter.length := by rw [hrest, Nat.sub_add_cancel hpos]
        _ = rest := List.drop_left
    rw [List.intercalate_cons_of_ne_nil splitFrom_ne_nil, ih, hdrop]
    simp [← hrest]
  | case4 run c cs _ ih => simpa using ih

/-- With one more delimiter at the end, a joined text has one after each of its pieces. -/
theorem joinTexts_append {d : String} {texts : List String} (h : texts ≠ [] ∨ d = "") :
    (joinTexts d texts).toList ++ d.toList = texts.flatMap fun t => t.toList ++ d.toList := by
  rw [joinTexts, String.toList_intercalate]
  induction texts with
  | nil =>
    obtain rfl := h.resolve_left fun hne => hne rfl
    rfl
  | cons t texts ih =>
    cases texts with
    | nil => simp
    | cons u texts =>
      have hrest := ih (.inl (List.cons_ne_nil u texts))
      simp only [List.map_cons, List.intercalate_cons_cons, List.append_assoc, List.flatMap_cons]
        at hrest ⊢
      rw [hrest]

/-- **The pieces of a text, with the delimiter between them, are the text.** -/
theorem joinTexts_splitText (d s : String) : joinTexts d (splitText d s) = s := by
  apply String.toList_inj.mp
  rw [splitText]
  split
  · rename_i hempty
    obtain rfl : d = "" := String.isEmpty_iff.mp hempty
    let texts := s.toList.map fun c => String.ofList [c]
    have hjoin : (joinTexts "" texts).toList ++ [] = texts.flatMap fun t => t.toList ++ [] :=
      joinTexts_append (.inr rfl)
    simpa [texts, List.flatMap_map] using hjoin
  · rename_i hempty
    have hd : d.toList ≠ [] := by simpa [String.isEmpty_iff] using hempty
    have hpieces : ((splitFrom d.toList [] 0 s.toList).map String.ofList).map String.toList =
        splitFrom d.toList [] 0 s.toList := by
      simp [Function.comp_def]
    rw [joinTexts, String.toList_intercalate, hpieces, intercalate_splitFrom hd]
    rfl

theorem splitText_ne_nil_or (d s : String) : splitText d s ≠ [] ∨ d = "" := by
  rw [splitText]
  split
  · rename_i hempty
    exact .inr (String.isEmpty_iff.mp hempty)
  · exact .inl fun hnil => splitFrom_ne_nil (List.map_eq_nil_iff.mp hnil)

/-- A piece is only empty if there is a delimiter after it. -/
theorem append_ne_nil_of_mem_splitText {d s p : String} (h : p ∈ splitText d s) :
    p.toList ++ d.toList ≠ [] := by
  rw [splitText] at h
  split at h
  · obtain ⟨c, -, rfl⟩ := List.mem_map.mp h
    simp
  · rename_i hempty
    have hd : d.toList ≠ [] := by simpa [String.isEmpty_iff] using hempty
    exact List.append_ne_nil_of_right_ne_nil _ hd

/-! ### Through an array -/

/-- The pieces of a text in an array, joined again, are the text exactly if the array has a position
for each of them. -/
theorem joinTexts_ofValues_iff (store : Store) (d s : String) :
    joinTexts d ((Table.ofValues ((splitText d s).map .string)).values.map store.text) = s ↔
      (splitText d s).length ≤ 2 ^ 53 := by
  have hlimit : Number.maxInteger + 1 = 2 ^ 53 := rfl
  constructor
  · intro hjoin
    -- compares lengths, with a delimiter after every piece on both sides
    let g : Value → List Char := fun v => (store.text v).toList ++ d.toList
    have hg : ∀ v ∈ (splitText d s).map Value.string, g v ≠ [] := by
      intro v hv
      obtain ⟨p, hp, rfl⟩ := List.mem_map.mp hv
      exact append_ne_nil_of_mem_splitText hp
    have hall : s.toList ++ d.toList = ((splitText d s).map Value.string).flatMap g := by
      have happend := joinTexts_append (splitText_ne_nil_or d s)
      rw [joinTexts_splitText] at happend
      rw [happend, List.flatMap_map]
      rfl
    have hkept : s.toList ++ d.toList =
        (Table.ofValues ((splitText d s).map .string)).values.flatMap g := by
      rw [← List.flatMap_map store.text fun t => t.toList ++ d.toList, ← joinTexts_append, hjoin]
      refine (splitText_ne_nil_or d s).imp_left fun hne hnil => ?_
      have hvalues : (splitText d s).map Value.string ≠ [] := by simpa using hne
      exact Table.values_ofValues_ne_nil hvalues (List.map_eq_nil_iff.mp hnil)
    have hlost := Table.length_flatMap_ofValues hg
    rw [← hall, ← hkept, List.length_map] at hlost
    omega
  · intro hfew
    have htexts : ((splitText d s).map Value.string).map store.text = splitText d s := by
      simp [Function.comp_def, Store.text]
    rw [Table.values_ofValues (by rw [List.length_map]; omega), htexts, joinTexts_splitText]

namespace Evaluator

variable {ev : Evaluator} {env : Env} {w w₁ : World} {argument : Option Node} {d : String}

/-- The pieces become a new array. -/
theorem split_of_delimiter (h : ev.delimiter argument env w = .ok d w₁) (s : String) (span : Span) :
    ev.split (.string s) argument span env w =
      .ok (.array ⟨w₁.store.tables.size⟩) { w₁ with
        store := (w₁.store.addTable (.ofValues ((splitText d s).map .string))).2 } := by
  rw [split, bind_of_ok (show asString (.string s) .string span env w = .ok s w from rfl),
    bind_of_ok h]
  rfl

theorem join_of_delimiter (h : ev.delimiter argument env w = .ok d w₁) (r : TableRef) (span : Span) :
    ev.join (.array r) argument span env w =
      .ok (.string (joinTexts d ((w₁.store.table r).values.map w₁.store.text))) w₁ :=
  bind_of_ok h

end Evaluator

/-- **A join undoes a split.** Whatever the argument does, if its value is the delimiter, a split of a
text makes an array of it; and whenever that array is joined as the split has left it, with the same
delimiter, the result is the text. The one exception is a text of more pieces than an array has
positions, which are `2 ^ 53`. -/
theorem join_undoes_split {ev : Evaluator} {env : Env} {w w₁ : World} {argument : Option Node}
    {d : String} (hd : ev.delimiter argument env w = .ok d w₁) (s : String) (span : Span) :
    ∃ r w₂, ev.split (.string s) argument span env w = .ok (.array r) w₂ ∧
      ∀ (ev' : Evaluator) (env' : Env) (w₃ w₄ : World) (argument' : Option Node) (span' : Span),
        ev'.delimiter argument' env' w₃ = .ok d w₄ → w₄.store.table r = w₂.store.table r →
        ∃ t, ev'.join (.array r) argument' span' env' w₃ = .ok (.string t) w₄ ∧
          (t = s ↔ (splitText d s).length ≤ 2 ^ 53) := by
  refine ⟨_, _, Evaluator.split_of_delimiter hd s span, ?_⟩
  intro ev' env' w₃ w₄ argument' span' hd' htable
  refine ⟨_, Evaluator.join_of_delimiter hd' _ span', ?_⟩
  have hnew : (w₁.store.addTable (.ofValues ((splitText d s).map .string))).2.table
      ⟨w₁.store.tables.size⟩ = .ofValues ((splitText d s).map .string) := by
    simp [Store.addTable, Store.table]
  rw [htable, hnew]
  exact joinTexts_ofValues_iff w₄.store d s

/-- Of three marks in a row, the first two are the delimiter. -/
theorem join_undoes_split_overlapping :
    splitText "!!" "do!!!re!!" = ["do", "!re", ""] ∧
    ∃ (env : Env) (w w₂ : World) (marks : Node) (r : TableRef),
      (evaluator 1).split (.string "do!!!re!!") (some marks) .origin env w = .ok (.array r) w₂ ∧
      (evaluator 1).join (.array r) (some marks) .origin env w₂ = .ok (.string "do!!!re!!") w₂ := by
  have hpieces : splitText "!!" "do!!!re!!" = ["do", "!re", ""] := by decide +kernel
  let env : Env := ⟨Store.global, none⟩
  let w : World := ⟨.empty, [], #[]⟩
  let marks : Node := .literal .origin (.string "!!")
  have hd : ∀ w, (evaluator 1).delimiter (some marks) env w = .ok "!!" w := fun _ => rfl
  obtain ⟨r, w₂, hsplit, hjoin⟩ := join_undoes_split (hd w) "do!!!re!!" .origin
  obtain ⟨t, ht, hsame⟩ := hjoin (evaluator 1) env w₂ w₂ (some marks) .origin (hd w₂) rfl
  obtain rfl := hsame.mpr (by rw [hpieces]; decide)
  exact ⟨hpieces, env, w, w₂, marks, r, hsplit, ht⟩

end Evaluation

end Ballad
