import Ballad.Proofs.Places
import Ballad.Session

/-!
# Entries of what is not there

Assigning to an entry of a variable that holds nothing makes an array for it. Assigning to an entry of
an entry of it fails: to find out whether the inner entry holds an array it is read, and there is
nothing that it could be read from.

- `Node.Chain`: the entries of a node under one literal key after the other.
- `tryRead_chain`: no entry of a variable that holds nothing can be read.
- `write_entry`: an entry of a variable that holds nothing can be assigned to.
-/

namespace Ballad

/-- A node with one literal key after the other behind it, from the innermost to the outermost. -/
inductive Node.Chain (x : Node) : List Literal → Node → Prop where
  | root : Chain x [] x
  | entry {keys : List Literal} {n : Node} (h : Chain x keys n) (span keySpan : Span) (k : Literal) :
    Chain x (keys ++ [k]) (.index span n (.literal keySpan k))

/-- Every literal but `mysterious` can be a key. -/
theorem Evaluation.exists_key {k : Literal} (h : k ≠ .mysterious) :
    ∃ key, Key.ofValue? (literalValue k) = some key := by
  cases k with
  | mysterious => exact absurd rfl h
  | _ => exact ⟨_, rfl⟩

/-- An array that is changed after it has been added. -/
theorem Store.table_modify_new (s : Store) (t : Table) (f : Table → Table) :
    ((s.addTable t).2.modifyTable ⟨s.tables.size⟩ f).table ⟨s.tables.size⟩ = f t := by
  show (((s.tables.push t).modify s.tables.size f)[s.tables.size]?).getD .empty = f t
  rw [Array.getElem?_modify, if_pos rfl, Array.getElem?_push_size]
  rfl

namespace Evaluation

variable {env : Env} {w w₁ : World} {steps : Nat} {x : String} {sx : Span}

/-! ### Reading -/

/-- Where a location cannot be read, it has no value. -/
theorem eval_of_tryRead_error {n : Node} {e : Halt} (hloc : n.isLocation)
    (h : (evaluator steps).tryRead n env w = .error e w) :
    (evaluator (steps + 1)).eval n env w = .error e w := by
  cases n with
  | var | pronoun | index => exact bind_of_error h
  | _ => cases hloc

/-- Where a location can be read, it has that value. -/
theorem eval_of_tryRead_ok {n : Node} {v : Value} (hloc : n.isLocation)
    (h : (evaluator steps).tryRead n env w = .ok (some v) w) :
    (evaluator (steps + 1)).eval n env w = .ok v w := by
  cases n with
  | var | pronoun | index => exact bind_of_ok h
  | _ => cases hloc

/-- Nothing has no entries. -/
theorem entry_nothing {v : Value} (hv : v.isNothing) (index : Value) (span : Span) :
    ∃ shown, entry v index span env w = .error (.error ⟨.unfit shown .indexing, span⟩) w := by
  cases v with
  | null | mysterious => exact ⟨_, rfl⟩
  | _ => cases hv

/-- The errors of reading an entry of a variable that holds nothing. -/
def MissesArray (x : String) (e : RuntimeError) : Prop :=
  e.cause = .unassigned x ∨ ∃ shown, e.cause = .unfit shown .indexing

/-- The innermost entry of a variable that holds nothing cannot be read. -/
theorem tryRead_entry (hnothing : ∀ v, w.store.get? env.frame x = some v → v.isNothing)
    (steps : Nat) (span keySpan : Span) (k : Literal) :
    ∃ e, MissesArray x e ∧
      (evaluator (steps + 1)).tryRead (.index span (.var sx x) (.literal keySpan k)) env w =
        .error (.error e) w := by
  have hread : (evaluator steps).tryRead (.var sx x) env w = .ok (w.store.get? env.frame x) w :=
    tryRead_var steps sx x
  rw [tryRead_index]
  cases hfound : w.store.get? env.frame x with
  | none =>
    rw [hfound] at hread
    exact ⟨⟨.unassigned x, sx⟩, .inl rfl, bind_of_error (bind_of_ok hread)⟩
  | some v =>
    rw [hfound] at hread
    obtain ⟨shown, hentry⟩ := entry_nothing (hnothing v hfound) (literalValue k) span
    refine ⟨⟨.unfit shown .indexing, span⟩, .inr ⟨shown, rfl⟩, ?_⟩
    have hkey : (evaluator (steps + 1)).eval (.literal keySpan k) env w =
        .ok (literalValue k) w := rfl
    rw [bind_of_ok (eval_of_tryRead_ok rfl hread), bind_of_ok hkey, bind_of_error hentry]

/-- **No entry of a variable that holds nothing can be read**, at any depth. If the steps are enough
to get to the variable, it is for want of an array. -/
theorem tryRead_chain {keys : List Literal} {n : Node} (h : Node.Chain (.var sx x) keys n)
    (hkeys : keys ≠ []) (hnothing : ∀ v, w.store.get? env.frame x = some v → v.isNothing)
    (steps : Nat) :
    ∃ e, (evaluator steps).tryRead n env w = .error e w ∧
      (keys.length ≤ steps → ∃ error, MissesArray x error ∧ e = .error error) := by
  induction h generalizing steps with
  | root => exact absurd rfl hkeys
  | @entry keys n h span keySpan k ih =>
    rw [List.length_append, List.length_singleton]
    cases steps with
    | zero =>
      rw [tryRead_index]
      exact ⟨.exhausted, bind_of_error rfl, by omega⟩
    | succ steps =>
      cases h with
      | root =>
        obtain ⟨error, hmisses, hread⟩ := tryRead_entry hnothing steps span keySpan k
        exact ⟨.error error, hread, fun _ => ⟨error, hmisses, rfl⟩⟩
      | entry h' span' keySpan' k' =>
        obtain ⟨e, hread, hsteps⟩ := ih (by simp) steps
        rw [tryRead_index]
        exact ⟨e, bind_of_error (eval_of_tryRead_error rfl hread), fun hle => hsteps (by omega)⟩

/-! ### Writing -/

theorem write_var (steps : Nat) (v : Value) : (evaluator steps).write (.var sx x) v env w =
    .ok () { w with store := (w.store.set env.frame x v).setReferent (some x) } := by
  rw [Evaluator.write, evaluator_resolve]
  · rfl
  · intro _ _ _ hindex
    cases hindex

/-- For a variable that holds nothing, an array is made. -/
theorem arrayWith_var (hnothing : ∀ v, w.store.get? env.frame x = some v → v.isNothing)
    (steps : Nat) (use : Use) :
    (evaluator steps).arrayWith (.var sx x) use ((evaluator steps).write (.var sx x)) env w =
      .ok ⟨w.store.tables.size⟩ { w with
        store := ((w.store.addTable .empty).2.set env.frame x
          (.array ⟨w.store.tables.size⟩)).setReferent (some x) } := by
  have hread : (evaluator steps).tryRead (.var sx x) env w =
      .ok (w.store.get? env.frame x) w := tryRead_var steps sx x
  have hnew : newTable .empty env w = .ok ⟨w.store.tables.size⟩
      { w with store := (w.store.addTable .empty).2 } := rfl
  have hcreate : Evaluator.arrayWith.create ((evaluator steps).write (.var sx x)) env w = _ :=
    (bind_of_ok hnew).trans (bind_of_ok (write_var steps _))
  unfold Evaluator.arrayWith
  rw [bind_of_ok hread]
  cases hfound : w.store.get? env.frame x with
  | none => exact hcreate
  | some v =>
    have hv := hnothing v hfound
    cases v with
    | null | mysterious => exact hcreate
    | _ => cases hv

theorem keyOf_literal {k : Literal} {key : Key} (hkey : Key.ofValue? (literalValue k) = some key)
    (span : Span) : keyOf (literalValue k) span env w = .ok key w := by
  unfold keyOf
  rw [hkey]
  rfl

/-- To assign to an entry under a literal key, its array is all that has to be found. -/
theorem write_index {k : Literal} {key : Key} (hkey : Key.ofValue? (literalValue k) = some key)
    (steps : Nat) (span keySpan : Span) (target : Node) (v : Value) :
    (evaluator (steps + 1)).write (.index span target (.literal keySpan k)) v env w =
      ((evaluator (steps + 1)).arrayWith target .indexing ((evaluator (steps + 1)).write target) >>=
        fun r => modifyStore fun s => s.modifyTable r (·.set key v)) env w := by
  have heval : (evaluator (steps + 1)).eval (.literal keySpan k) env w =
      .ok (literalValue k) w := rfl
  rw [Evaluator.write]
  dsimp only
  rw [bind_of_ok heval, bind_of_ok (keyOf_literal hkey span)]

/-- **An entry of a variable that holds nothing can be assigned to**, and can be read then. -/
theorem write_entry (hnothing : ∀ v, w.store.get? env.frame x = some v → v.isNothing)
    (hframe : w.store.Has env.frame) (steps : Nat) (span keySpan : Span) {k : Literal}
    (hk : k ≠ .mysterious) (v : Value) :
    ∃ w', (evaluator (steps + 1)).write (.index span (.var sx x) (.literal keySpan k)) v env w =
        .ok () w' ∧
      ∀ more, (evaluator (more + 2)).eval (.index span (.var sx x) (.literal keySpan k)) env w' =
        .ok v w' := by
  obtain ⟨key, hkey⟩ := exists_key hk
  let r : TableRef := ⟨w.store.tables.size⟩
  let s' := ((w.store.addTable .empty).2.set env.frame x (.array r)).setReferent (some x)
  let w' : World := { w with store := s'.modifyTable r (·.set key v) }
  refine ⟨w', ?_, fun more => eval_of_tryRead_ok rfl ?_⟩
  · rw [write_index hkey, bind_of_ok (arrayWith_var hnothing _ _)]
    rfl
  · have hget : w'.store.get? env.frame x = some (.array r) :=
      Store.get?_set_self (s := (w.store.addTable .empty).2) hframe x (.array r)
    have hcontainer : (evaluator (more + 1)).eval (.var sx x) env w' = .ok (.array r) w' :=
      eval_of_tryRead_ok rfl ((tryRead_var more sx x).trans (by rw [hget]))
    have hindex : (evaluator (more + 1)).eval (.literal keySpan k) env w' =
        .ok (literalValue k) w' := rfl
    have htable : w'.store.table r = Table.empty.set key v :=
      Store.table_modify_new w.store .empty (·.set key v)
    have hentry : entry (.array r) (literalValue k) span env w' = .ok v w' := by
      refine (bind_of_ok (keyOf_literal hkey span)).trans ?_
      show EStateM.Result.ok (((w'.store.table r).get? key).getD .mysterious) w' = _
      rw [htable, Table.get?_set, if_pos rfl]
      rfl
    rw [tryRead_index, bind_of_ok hcontainer, bind_of_ok hindex, bind_of_ok hentry]
    rfl

/-- **Only the first array is made**: assigning to an entry of a variable that is unassigned, null or
mysterious, under some literal keys, succeeds and is read back exactly if there is one key. With more,
it fails for want of an array, and nothing but the evaluation of the value has happened. -/
theorem assign_chain_iff {keys : List Literal} {target value : Node} {v : Value}
    (hchain : Node.Chain (.var sx x) keys target) (hkeys : keys ≠ [])
    (hscalar : ∀ k ∈ keys, k ≠ .mysterious)
    (hvalue : (evaluator steps).eval value env w = .ok v w₁) (hframe : w₁.store.Has env.frame)
    (hnothing : ∀ u, w₁.store.get? env.frame x = some u → u.isNothing) (span : Span) :
    ((∃ w', (evaluator (steps + 1)).exec (.assign span target value) env w = .ok .normal w' ∧
        ∀ more, (evaluator (more + 2)).eval target env w' = .ok v w') ↔ keys.length = 1) ∧
    (keys.length ≠ 1 → ∃ e, (evaluator (steps + 1)).exec (.assign span target value) env w =
        .error e w₁ ∧
      (keys.length ≤ steps → ∃ error, MissesArray x error ∧ e = .error error)) := by
  have hexec : (evaluator (steps + 1)).exec (.assign span target value) env w =
      ((evaluator steps).write target v >>= fun _ => pure .normal) env w₁ := bind_of_ok hvalue
  -- the value has been evaluated, so there are steps
  obtain ⟨steps, rfl⟩ : ∃ n, steps = n + 1 := by
    cases steps with
    | zero => cases hvalue
    | succ n => exact ⟨n, rfl⟩
  cases hchain with
  | root => exact absurd rfl hkeys
  | @entry keys n h span' keySpan k =>
    have hk : k ≠ .mysterious := hscalar k (by simp)
    cases h with
    | root =>
      obtain ⟨w', hwrite, hread⟩ := write_entry hnothing hframe steps span' keySpan hk v
      refine ⟨iff_of_true ⟨w', ?_, hread⟩ rfl, fun hlength => absurd rfl hlength⟩
      rw [hexec, bind_of_ok hwrite]
      rfl
    | @entry keys n h span'' keySpan'' k'' =>
      obtain ⟨key, hkey⟩ := exists_key hk
      obtain ⟨e, hread, hsteps⟩ :=
        tryRead_chain (h.entry span'' keySpan'' k'') (by simp) hnothing (steps + 1)
      have hwrite := (write_index hkey steps span' keySpan _ v).trans
        (bind_of_error (bind_of_error hread))
      have hfails := hexec.trans (bind_of_error hwrite)
      have hlength : (keys ++ [k''] ++ [k]).length ≠ 1 := by simp
      refine ⟨iff_of_false ?_ hlength, fun _ => ⟨e, hfails, fun hle => hsteps ?_⟩⟩
      · rintro ⟨w', hok, -⟩
        cases hfails.symm.trans hok
      · rw [List.length_append] at hle
        omega

/-- A variable that is not assigned, under one key and under two. -/
theorem assign_chain_iff_zero : ∃ (w w' : World) (e : Halt) (one two value : Node),
    Node.Chain (.var .origin "x") [.null] one ∧
    Node.Chain (.var .origin "x") [.null, .string "a"] two ∧
    w.store.get? Store.global "x" = none ∧
    (evaluator 3).exec (.assign .origin one value) ⟨Store.global, none⟩ w = .ok .normal w' ∧
    (evaluator 2).eval one ⟨Store.global, none⟩ w' = .ok (.boolean true) w' ∧
    (evaluator 3).exec (.assign .origin two value) ⟨Store.global, none⟩ w = .error e w ∧
    ∃ error, MissesArray "x" error ∧ e = .error error := by
  let w : World := ⟨.empty, [], #[]⟩
  let value : Node := .literal .origin (.boolean true)
  have hvalue : (evaluator 2).eval value ⟨Store.global, none⟩ w = .ok (.boolean true) w := rfl
  have hone : Node.Chain (.var .origin "x") [.null] _ := Node.Chain.root.entry .origin .origin .null
  have htwo : Node.Chain (.var .origin "x") [.null, .string "a"] _ :=
    hone.entry .origin .origin (.string "a")
  have hframe : w.store.Has Store.global := by decide
  obtain ⟨w', hok, hread⟩ :=
    (assign_chain_iff hone (by simp) (by simp) hvalue hframe nofun .origin).1.mpr rfl
  obtain ⟨e, hfails, herror⟩ :=
    (assign_chain_iff htwo (by simp) (by simp) hvalue hframe nofun .origin).2 (by simp)
  exact ⟨w, w', e, _, _, value, hone, htwo, rfl, hok, hread 0, hfails, herror (by simp)⟩

/-- A program that assigns to an entry of an entry of a variable that it has not assigned, and fails
where it names the variable. -/
theorem entry_of_entry_fails :
    ((Session.fresh "let x at 1 at 2 be 5\nsay x at 1 at 2").run 20).1.failure =
      some (.runtime ⟨.unassigned "x", ⟨⟨1, 4⟩, ⟨1, 5⟩⟩⟩) := by
  decide +kernel

end Evaluation

end Ballad
