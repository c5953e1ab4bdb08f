import Ballad.Proofs.Splitting
import Ballad.Proofs.Unfolding

/-!
# One text for each value

A value is turned into text in two ways. What is said goes out to the host as a tree, and the host
prints the tree. What is joined, and what diagnostics show, is printed from the store. Both give the
same text, whatever the arrays of the store hold.

- `HostValue.text_ofNumber`: numbers that the host sees as integers are written as integers.
- `Store.exists_unfold_array`: the tree of an array has as many parts as the array has keys in order.
  The conversion passes over keys that the map does not have, so this holds if the two are in step.
- `Store.text_unfold`: the two texts are the same if all arrays are in step.
- `Store.Built`: stores that come about by making arrays and changing them, in any order. Arrays may
  hold each other and themselves.
- `Store.Built.sound`: in such a store all arrays are sound, so that the text of an array is the number
  of keys under which something is found.
- `Evaluation.PrintsAlike`: where a value is printed, and what this has to do with saying it.
-/

namespace Ballad

/-- **A number is printed alike** as an integer of the host and as a number: what decides is the same,
and of a negative zero neither shows the sign. -/
theorem HostValue.text_ofNumber (n : Number) : (HostValue.ofNumber n).text = n.text := by
  unfold HostValue.ofNumber
  cases hint : n.toInt? with
  | none => rfl
  | some i =>
    show Number.integerText i = n.text
    rw [Number.text, hint]

/-- The value as diagnostics show it, by the text that it is said with. -/
def Value.labelled (v : Value) (text : String) : String :=
  match v with
  | .string _ => "\"" ++ text ++ "\""
  | .array _ => "array of " ++ text
  | .function _ => "function '" ++ text ++ "'"
  | _ => text

namespace Store

variable {s : Store}

/-! ### The two texts -/

/-- An array is shown with one part for each key that is in order and in the map, also if it is one of
its own entries. If the two are in step, these are all the keys in order. -/
theorem exists_unfold_array {r : TableRef} (h : (s.table r).InStep) :
    ∃ parts, s.unfold (.array r) = .array parts ∧ parts.length = (s.table r).size := by
  have hwhole := s.unfoldWithin_array s.tables.size [] r
  rw [if_neg List.not_mem_nil] at hwhole
  refine ⟨_, (s.unfold_eq (Nat.lt_succ_self _) _).trans hwhole, ?_⟩
  rw [List.length_map, Table.length_entries h]

/-- **A value has one text**: the host prints the tree of a value as the store prints the value. The
host counts the entries that were converted, the store the keys in order. -/
theorem text_unfold (h : ∀ r, (s.table r).InStep) (v : Value) : (s.unfold v).text = s.text v := by
  cases v with
  | number n =>
    rw [s.unfold_eq (Nat.lt_succ_self _)]
    exact HostValue.text_ofNumber n
  | array r =>
    obtain ⟨parts, hparts, hlength⟩ := exists_unfold_array (h r)
    rw [hparts]
    show parts.length.repr = (s.table r).size.repr
    rw [hlength]
  | _ => rfl

/-- With a key in order that the map does not have, the two would not agree. -/
example : let s : Store := (Store.empty.addTable ⟨∅, #[.null], 0⟩).2
    s.text (.array ⟨0⟩) = "1" ∧ (s.unfold (.array ⟨0⟩)).text = "0" := by
  decide +kernel

theorem describe_eq (h : ∀ r, (s.table r).InStep) (v : Value) :
    s.describe v = v.labelled (s.unfold v).text := by
  rw [text_unfold h]
  cases v <;> rfl

/-! ### The number of entries -/

/-- What making arrays and changing them leads to. What a store has besides arrays may be anything. -/
inductive Built : Store → Prop where
  | empty : Built .empty
  | make {s : Store} (h : Built s) (values : List Value) : Built (s.addTable (.ofValues values)).2
  | change {s : Store} (h : Built s) (r : TableRef) (action : Table.Action) :
    Built (s.modifyTable r (·.act action))
  | other {s s' : Store} (h : Built s) (htables : s'.tables = s.tables) : Built s'

/-- A reference to no array means the empty one. -/
theorem sound_table (h : ∀ t ∈ s.tables, t.Sound) (r : TableRef) : (s.table r).Sound := by
  rw [table]
  cases ht : s.tables[r.index]? with
  | none => exact Table.sound_empty
  | some t => exact h t (Array.mem_of_getElem? ht)

/-- **All arrays of such a store are sound.** -/
theorem Built.sound (h : s.Built) (r : TableRef) : (s.table r).Sound := by
  refine sound_table ?_ r
  induction h with
  | empty => simp [Store.empty]
  | make _ values ih =>
    intro t ht
    rcases Array.mem_push.mp ht with hold | rfl
    · exact ih t hold
    · exact Table.sound_ofValues values
  | change _ r action ih =>
    intro t ht
    obtain ⟨i, hi⟩ := Array.mem_iff_getElem?.mp ht
    rw [modifyTable, Array.getElem?_modify] at hi
    split at hi
    · obtain ⟨t', ht', rfl⟩ := Option.map_eq_some_iff.mp hi
      exact Table.sound_act (ih t' (Array.mem_of_getElem? ht')) action
    · exact ih t (Array.mem_of_getElem? hi)
  | other _ htables ih => rwa [htables]

/-- In each of its arrays the map and the order hold the same keys. -/
theorem Built.inStep (h : s.Built) (r : TableRef) : (s.table r).InStep :=
  (h.sound r).toInStep

end Store

namespace Evaluation

/-- All that is printed in a world is printed as it is said. -/
structure PrintsAlike (w : World) : Prop where
  /-- The host prints the tree of a value as the store prints the value. -/
  text_eq : ∀ v, (w.store.unfold v).text = w.store.text v
  /-- What is said is the tree, -/
  said : ∀ (ev : Evaluator) (steps : Nat) (span : Span) (node : Node) (env : Env) (w₀ : World)
    (v : Value), ev.eval node env w₀ = .ok v w →
      ev.execNode steps (.output span node) env w₀ =
        .ok .normal { w with said := w.said.push (w.store.unfold v) }
  /-- a join puts together what would be said of the entries, -/
  joined : ∀ (ev : Evaluator) (argument : Option Node) (span : Span) (env : Env) (w₀ : World)
    (d : String) (r : TableRef), ev.delimiter argument env w₀ = .ok d w →
      ev.join (.array r) argument span env w₀ =
        .ok (.string (joinTexts d ((w.store.table r).values.map fun e => (w.store.unfold e).text))) w
  /-- and diagnostics show a value by what would be said of it. -/
  described : ∀ v, w.store.describe v = v.labelled (w.store.unfold v).text
  /-- Of an array, this is the number of keys under which something is found. -/
  counted : ∀ r, ∃ keys : List Key, keys.Nodup ∧
    (∀ k, k ∈ keys ↔ ((w.store.table r).get? k).isSome) ∧
    (w.store.unfold (.array r)).text = keys.length.repr

/-- **Values are printed alike, wherever they are printed.** In every store that making and changing
arrays leads to, with arrays that hold each other or themselves, a value is said as it is joined and as
diagnostics show it. -/
theorem values_print_alike {w : World} (h : w.store.Built) : PrintsAlike w where
  text_eq := Store.text_unfold h.inStep
  said := by
    intro ev steps span node env w₀ v hv
    rw [Evaluator.execNode, bind_of_ok hv]
    rfl
  joined := by
    intro ev argument span env w₀ d r hd
    rw [Evaluator.join_of_delimiter hd]
    simp only [Store.text_unfold h.inStep]
  described := Store.describe_eq h.inStep
  counted := by
    intro r
    have hstep := h.inStep r
    refine ⟨(w.store.table r).keys, hstep.nodup, hstep.mem_keys_iff, ?_⟩
    rw [Store.text_unfold h.inStep]
    rfl

/-- An array that holds itself and, twice, another one. -/
theorem values_print_alike_cyclic : ∃ s : Store, s.Built ∧
    (s.table ⟨0⟩).values = [.array ⟨0⟩, .array ⟨1⟩, .array ⟨1⟩] ∧
    (s.unfold (.array ⟨0⟩)).text = "3" ∧ PrintsAlike ⟨s, [], #[]⟩ := by
  have hbuilt := ((((Store.Built.empty.make []).make [.null]).change ⟨0⟩ (.push (.array ⟨0⟩))).change ⟨0⟩
    (.push (.array ⟨1⟩))).change ⟨0⟩ (.push (.array ⟨1⟩))
  exact ⟨_, hbuilt, by decide +kernel, by decide +kernel, values_print_alike hbuilt⟩

end Evaluation

end Ballad
