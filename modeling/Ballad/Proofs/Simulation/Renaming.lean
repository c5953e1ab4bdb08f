import Ballad.Proofs.Arrays.Soundness
import Ballad.Proofs.Frames
import Ballad.Proofs.Unfolding

/-!
# Stores that differ in their references only

Which array, function or frame a reference means is all that matters about it. Two stores that hold
the same under other references cannot be told apart, neither by a program nor from outside.

- `Renaming`: other references in the place of those of a store. `rename` carries it over to all data
  that refer to a store.
- `Store.Mirrors ρ s s'`: what `s'` holds under the other references is what `s` holds. What is added
  next gets references that mirror each other again, so the two stores can go on side by side.
- `Store.Mirrors.get?`, `Store.Mirrors.set` and so on: one lemma for each thing that is read from a
  store or done to it.
- `Store.Mirrors.unfold`: seen from outside, mirrored values are the same.
-/

namespace Ballad

/-- Other places for the arrays, the functions and the frames of a store. Different ones stay apart,
and the global frame stays where it is. -/
structure Renaming where
  table : Nat → Nat
  function : Nat → Nat
  frame : Nat → Nat
  table_inj : Function.Injective table
  function_inj : Function.Injective function
  frame_inj : Function.Injective frame
  global : frame 0 = 0

/-- Data that refer to a store. -/
class Renamed (α : Type) where
  /-- The same data, with other references. -/
  rename : Renaming → α → α

open Renamed

/-! ### Data with references -/

/-- The renaming that changes no reference. -/
def Renaming.same : Renaming :=
  ⟨id, id, id, Function.injective_id, Function.injective_id, Function.injective_id, rfl⟩

instance : Renamed TableRef := ⟨fun ρ r => ⟨ρ.table r.index⟩⟩

instance : Renamed FunctionRef := ⟨fun ρ r => ⟨ρ.function r.index⟩⟩

instance : Renamed FrameRef := ⟨fun ρ f => ⟨ρ.frame f.index⟩⟩

/-- Different arrays have different names afterwards, too. -/
theorem TableRef.rename_inj (ρ : Renaming) :
    Function.Injective (rename ρ : TableRef → TableRef) := by
  rintro ⟨i⟩ ⟨j⟩ h
  exact congrArg TableRef.mk (ρ.table_inj (TableRef.mk.inj h))

/-- So have different functions. -/
theorem FunctionRef.rename_inj (ρ : Renaming) :
    Function.Injective (rename ρ : FunctionRef → FunctionRef) := by
  rintro ⟨i⟩ ⟨j⟩ h
  exact congrArg FunctionRef.mk (ρ.function_inj (FunctionRef.mk.inj h))

/-- A value with other references. -/
def Value.rename (ρ : Renaming) : Value → Value
  | .array r => .array (Renamed.rename ρ r)
  | .function r => .function (Renamed.rename ρ r)
  | v => v

instance : Renamed Value := ⟨Value.rename⟩

instance {α : Type} [Renamed α] : Renamed (Option α) := ⟨fun ρ => Option.map (rename ρ)⟩

instance {α : Type} [Renamed α] : Renamed (List α) := ⟨fun ρ => List.map (rename ρ)⟩

/-- A variable keeps its name, and an entry its key. -/
instance {κ α : Type} [Renamed α] : Renamed (κ × α) := ⟨fun ρ => Prod.map id (rename ρ)⟩

instance : Renamed Table := ⟨fun ρ t => { t with map := t.map.map fun _ v => rename ρ v }⟩

instance : Renamed Frame := ⟨fun ρ f => ⟨f.kind, rename ρ f.bindings, rename ρ f.outer⟩⟩

instance : Renamed Closure := ⟨fun ρ c => { c with frame := rename ρ c.frame }⟩

/-- The truth of a value does not depend on the names of arrays. -/
theorem Value.isTruthy_rename (ρ : Renaming) (v : Value) :
    (Renamed.rename ρ v).isTruthy = v.isTruthy := by
  cases v <;> rfl

/-! ### Arrays -/

/-- Arrays and functions are no keys, so keys stay what they are. -/
theorem Key.ofValue?_rename (ρ : Renaming) (v : Value) :
    Key.ofValue? (rename ρ v) = Key.ofValue? v := by
  cases v <;> rfl

namespace Table

variable (ρ : Renaming)

/-- An entry of a renamed array is the renamed entry. -/
theorem get?_rename (t : Table) (key : Key) : (rename ρ t).get? key = rename ρ (t.get? key) :=
  Std.ExtTreeMap.getElem?_map

theorem keys_rename (t : Table) : (rename ρ t).keys = t.keys :=
  rfl

theorem next_rename (t : Table) : (rename ρ t).next = t.next :=
  rfl

/-- Keys are not renamed, so the entries stay in their places. -/
theorem toList_entries_rename (t : Table) :
    (rename ρ t).entries.toList = t.entries.toList.map (rename ρ) := by
  rw [toList_entries, toList_entries, Edit.listing, Edit.listing, keys_rename, List.map_filterMap]
  refine List.filterMap_congr fun k _ => ?_
  rw [get?_rename]
  cases t.get? k <;> rfl

/-- Setting an entry commutes with renaming, for keys are not renamed. -/
theorem set_rename (t : Table) (key : Key) (v : Value) :
    (rename ρ t).set key (rename ρ v) = rename ρ (t.set key v) := by
  refine eq_of_parts (fun k => ?_) ?_ ?_
  · rw [get?_set, get?_rename, get?_rename, get?_set]
    split <;> rfl
  · rw [keys_set, keys_rename, keys_rename, keys_set, get?_rename]
    cases t.get? key <;> rfl
  · rw [next_set, next_rename, next_rename, next_set]

/-- So does a push. -/
theorem push_rename (t : Table) (v : Value) :
    (rename ρ t).push (rename ρ v) = rename ρ (t.push v) :=
  set_rename ρ t _ v

theorem rename_empty : rename ρ empty = empty :=
  eq_of_parts (fun k => (get?_rename ρ empty k).trans (by rw [get?_empty]; rfl)) rfl rfl

/-- Values that are pushed one after the other. -/
theorem foldl_push_rename (t : Table) (values : List Value) :
    (rename ρ values).foldl push (rename ρ t) = rename ρ (values.foldl push t) := by
  induction values generalizing t with
  | nil => rfl
  | cons v values ih =>
    show (rename ρ values).foldl push ((rename ρ t).push (rename ρ v)) = _
    rw [push_rename, ih]
    rfl

theorem ofValues_rename (values : List Value) :
    ofValues (rename ρ values) = rename ρ (ofValues values) := by
  rw [ofValues, ofValues, ← foldl_push_rename, rename_empty]

/-- So does what a pop takes. -/
theorem top_rename (t : Table) : (rename ρ t).top = rename ρ t.top := by
  cases hp : t.next with
  | zero =>
    obtain ⟨map, order, next⟩ := t
    cases hp
    rfl
  | succ p =>
    rw [top_eq hp, top_eq ((next_rename ρ t).trans hp), get?_rename]
    cases t.get? (Key.ofPosition p) <;> rfl

/-- So does what a pop leaves. -/
theorem dropTop_rename (t : Table) : (rename ρ t).dropTop = rename ρ t.dropTop := by
  cases hp : t.next with
  | zero =>
    rw [dropTop_of_next_eq_zero hp, dropTop_of_next_eq_zero ((next_rename ρ t).trans hp)]
  | succ p =>
    have hp' := (next_rename ρ t).trans hp
    refine eq_of_parts (fun k => ?_) ?_ ?_
    · rw [get?_dropTop hp', get?_rename, get?_rename, get?_dropTop hp]
      split <;> rfl
    · rw [keys_rename, dropTop_eq hp', dropTop_eq hp, get?_rename]
      cases t.get? (Key.ofPosition p) <;> rfl
    · rw [next_dropTop, next_rename, next_rename, next_dropTop]

theorem size_rename (t : Table) : (rename ρ t).size = t.size :=
  rfl

end Table

/-! ### Variables -/

namespace Bindings

variable (ρ : Renaming)

/-- A variable has its value, renamed. -/
theorem get?_rename (b : Bindings) (name : String) :
    get? (rename ρ b) name = rename ρ (b.get? name) := by
  induction b with
  | nil => rfl
  | cons entry b ih =>
    obtain ⟨n, v⟩ := entry
    show List.lookup name ((n, rename ρ v) :: rename ρ b) = rename ρ (List.lookup name _)
    rw [Association.lookup_cons_eq, Association.lookup_cons_eq]
    split
    · rfl
    · exact ih

/-- Binding a variable commutes with renaming. -/
theorem insert_rename (name : String) (v : Value) (b : Bindings) :
    Association.insert name (rename ρ v) (rename ρ b) = rename ρ (Association.insert name v b) :=
  Association.insert_map (rename ρ) name v b

/-- Variables that are given values one after the other. -/
theorem foldl_insert_rename (entries : List (String × Value)) (b : Bindings) :
    (rename ρ entries).foldl (fun b e => Association.insert e.1 e.2 b) (rename ρ b) =
      rename ρ (entries.foldl (fun b e => Association.insert e.1 e.2 b) b) := by
  induction entries generalizing b with
  | nil => rfl
  | cons e entries ih =>
    show (rename ρ entries).foldl _ (Association.insert e.1 (rename ρ e.2) (rename ρ b)) = _
    rw [insert_rename, ih]
    rfl

end Bindings

/-! ### Stores -/

/-- What the second of two arrays holds in the places that `move` gives is what the first one holds,
and they grow in step. -/
structure Renaming.Carries {α : Type} [Renamed α] (ρ : Renaming) (move : Nat → Nat)
    (xs xs' : Array α) : Prop where
  get : ∀ i, xs'[move i]? = rename ρ xs[i]?
  next : ∀ n, move (xs.size + n) = xs'.size + n

namespace Renaming.Carries

variable {α : Type} [Renamed α] {ρ : Renaming} {move : Nat → Nat} {xs xs' : Array α}

/-- What is added on one side has its place on the other. -/
theorem push (h : ρ.Carries move xs xs') (hmove : Function.Injective move) (a : α) :
    ρ.Carries move (xs.push a) (xs'.push (rename ρ a)) := by
  constructor
  · intro i
    have hnew : move i = xs'.size ↔ i = xs.size := by
      rw [← Nat.add_zero xs'.size, ← h.next 0]
      exact hmove.eq_iff
    rw [Array.getElem?_push, Array.getElem?_push, h.get]
    by_cases hi : i = xs.size
    · rw [if_pos hi, if_pos (hnew.mpr hi)]
      rfl
    · rw [if_neg hi, if_neg (mt hnew.mp hi)]
  · intro n
    have hnext := h.next (n + 1)
    rw [Array.size_push, Array.size_push]
    rwa [show xs.size + 1 + n = xs.size + (n + 1) by omega,
      show xs'.size + 1 + n = xs'.size + (n + 1) by omega]

/-- What is changed on one side is changed at its place on the other. -/
theorem modify (h : ρ.Carries move xs xs') (hmove : Function.Injective move) {f f' : α → α}
    (hf : ∀ a, f' (rename ρ a) = rename ρ (f a)) (i : Nat) :
    ρ.Carries move (xs.modify i f) (xs'.modify (move i) f') := by
  constructor
  · intro j
    rw [Array.getElem?_modify, Array.getElem?_modify, h.get]
    by_cases hj : i = j
    · rw [if_pos hj, if_pos (congrArg move hj)]
      cases xs[j]? with
      | none => rfl
      | some a => exact congrArg some (hf a)
    · rw [if_neg hj, if_neg fun hmoved => hj (hmove hmoved)]
  · intro n
    rw [Array.size_modify, Array.size_modify]
    exact h.next n

end Renaming.Carries

namespace Store

/-- What a store holds is what another one holds under other references. -/
structure Mirrors (ρ : Renaming) (s s' : Store) : Prop where
  tables : ρ.Carries ρ.table s.tables s'.tables
  functions : ρ.Carries ρ.function s.functions s'.functions
  frames : ρ.Carries ρ.frame s.frames s'.frames
  referent : s'.referent = s.referent

namespace Mirrors

variable {ρ : Renaming} {s s' : Store} (h : Mirrors ρ s s')

include h

/-! ### What a store tells -/

/-- An array of the store is found under its new name, with its entries renamed. -/
theorem table (r : TableRef) : s'.table (rename ρ r) = rename ρ (s.table r) := by
  show s'.tables[ρ.table r.index]?.getD .empty = rename ρ (s.tables[r.index]?.getD .empty)
  rw [h.tables.get]
  cases s.tables[r.index]? with
  | none => exact (Table.rename_empty ρ).symm
  | some t => rfl

/-- So is a function. -/
theorem closure (r : FunctionRef) : s'.closure (rename ρ r) = rename ρ (s.closure r) := by
  show s'.functions[ρ.function r.index]?.getD default =
    rename ρ (s.functions[r.index]?.getD default)
  rw [h.functions.get]
  cases s.functions[r.index]? with
  | none =>
    -- a function that is not there is as if declared in the global frame
    show (⟨"", [], [], ⟨0⟩⟩ : Closure) = ⟨"", [], [], ⟨ρ.frame 0⟩⟩
    rw [ρ.global]
  | some c => rfl

/-- So is a frame. -/
theorem frame (f : FrameRef) : s'.frame (rename ρ f) = rename ρ (s.frame f) := by
  show s'.frames[ρ.frame f.index]?.getD .empty = rename ρ (s.frames[f.index]?.getD .empty)
  rw [h.frames.get]
  cases s.frames[f.index]? <;> rfl

/-- The frames around a frame are those around it, renamed. -/
theorem chain (f : FrameRef) : s'.chain (rename ρ f) = rename ρ (s.chain f) := by
  unfold Store.chain
  rw [h.frame]
  rfl

/-- A variable of a frame. -/
theorem binding (f : FrameRef) (name : String) :
    (s'.frame (rename ρ f)).bindings.get? name =
      rename ρ ((s.frame f).bindings.get? name) := by
  rw [h.frame]
  exact Bindings.get?_rename ρ _ name

/-- **A variable is seen from a frame as it is seen from its counterpart.** -/
theorem get? (f : FrameRef) (name : String) :
    s'.get? (rename ρ f) name = rename ρ (s.get? f name) := by
  show List.findSome? _ _ = Option.map (rename ρ) (List.findSome? _ _)
  rw [h.chain, List.map_findSome?]
  show List.findSome? _ (List.map (rename ρ) (s.chain f)) = _
  rw [List.findSome?_map]
  exact congrArg (List.findSome? · _) (funext fun g => h.binding g name)

/-- Its owner is the counterpart of its owner. -/
theorem owner? (f : FrameRef) (name : String) :
    s'.owner? (rename ρ f) name = rename ρ (s.owner? f name) := by
  unfold Store.owner?
  rw [h.chain]
  show List.find? _ (List.map (rename ρ) (s.chain f)) = Option.map (rename ρ) _
  rw [List.find?_map]
  refine congrArg (fun p => Option.map _ (List.find? p _)) (funext fun g => ?_)
  show Option.isSome _ = Option.isSome _
  rw [h.binding]
  exact Option.isSome_map

/-- A value is said in the same words, since no name of an array gets into them. -/
theorem text (v : Value) : s'.text (rename ρ v) = s.text v := by
  cases v with
  | array r =>
    show (s'.table (rename ρ r)).size.repr = _
    rw [h.table, Table.size_rename]
    rfl
  | function r =>
    show (s'.closure (rename ρ r)).name = _
    rw [h.closure]
    rfl
  | _ => rfl

/-- Diagnostics show it in the same words. -/
theorem describe (v : Value) : s'.describe (rename ρ v) = s.describe v := by
  cases v with
  | array r => exact congrArg ("array of " ++ ·) (h.text (.array r))
  | function r => exact congrArg ("function '" ++ · ++ "'") (h.text (.function r))
  | _ => rfl

/-! ### What is done to a store -/

/-- A new array is the counterpart of a new array. -/
theorem addTable (t : Table) :
    (s'.addTable (rename ρ t)).1 = rename ρ (s.addTable t).1 ∧
      Mirrors ρ (s.addTable t).2 (s'.addTable (rename ρ t)).2 := by
  constructor
  · exact congrArg TableRef.mk (h.tables.next 0).symm
  · exact { h with tables := h.tables.push ρ.table_inj t }

/-- An array is changed as its counterpart is. -/
theorem modifyTable (r : TableRef) {f f' : Table → Table}
    (hf : ∀ t, f' (rename ρ t) = rename ρ (f t)) :
    Mirrors ρ (s.modifyTable r f) (s'.modifyTable (rename ρ r) f') :=
  { h with tables := h.tables.modify ρ.table_inj hf r.index }

/-- A new function is the counterpart of a new function. -/
theorem addClosure (c : Closure) :
    (s'.addClosure (rename ρ c)).1 = rename ρ (s.addClosure c).1 ∧
      Mirrors ρ (s.addClosure c).2 (s'.addClosure (rename ρ c)).2 := by
  constructor
  · exact congrArg FunctionRef.mk (h.functions.next 0).symm
  · exact { h with functions := h.functions.push ρ.function_inj c }

/-- A new frame is the counterpart of a new frame. -/
theorem addFrame (parent : FrameRef) (kind : FrameKind) (b : Bindings) :
    (s'.addFrame (rename ρ parent) kind (rename ρ b)).1 = rename ρ (s.addFrame parent kind b).1 ∧
      Mirrors ρ (s.addFrame parent kind b).2
        (s'.addFrame (rename ρ parent) kind (rename ρ b)).2 := by
  constructor
  · exact congrArg FrameRef.mk (h.frames.next 0).symm
  · have hframe : (⟨kind, rename ρ b, s'.chain (rename ρ parent)⟩ : Frame) =
        rename ρ ⟨kind, b, s.chain parent⟩ := by
      rw [h.chain]
      rfl
    refine { h with frames := ?_ }
    show ρ.Carries ρ.frame _ (s'.frames.push _)
    rw [hframe]
    exact h.frames.push ρ.frame_inj _

/-- The variables of a frame are changed as those of its counterpart are. -/
theorem modifyBindings (f : FrameRef) {g g' : Bindings → Bindings}
    (hg : ∀ b, g' (rename ρ b) = rename ρ (g b)) :
    Mirrors ρ (s.modifyBindings f g) (s'.modifyBindings (rename ρ f) g') := by
  refine { h with frames := ?_ }
  unfold Store.modifyBindings
  dsimp only
  refine Renaming.Carries.modify h.frames ρ.frame_inj ?_ f.index
  intro frame
  exact congrArg (Frame.mk frame.kind · _) (hg frame.bindings)

/-- **Assignments keep stores alike.** -/
theorem set (f : FrameRef) (name : String) (v : Value) :
    Mirrors ρ (s.set f name v) (s'.set (rename ρ f) name (rename ρ v)) := by
  have howner : (s'.owner? (rename ρ f) name).getD (rename ρ f) =
      rename ρ ((s.owner? f name).getD f) := by
    rw [h.owner?]
    cases s.owner? f name <;> rfl
  unfold Store.set
  rw [howner]
  exact h.modifyBindings _ (Bindings.insert_rename ρ name v)

theorem setReferent (name : Option String) :
    Mirrors ρ (s.setReferent name) (s'.setReferent name) :=
  { h with referent := rfl }

/-! ### Values outside of a program -/

/-- What becomes the key of an entry is the same. -/
theorem toKey (v : Value) : s'.toKey (rename ρ v) = s.toKey v := by
  unfold Store.toKey
  rw [Key.ofValue?_rename, h.text]

end Mirrors

mutual

/-- What comes from outside refers to nothing that is there already. -/
theorem Mirrors.intern {ρ : Renaming} {s s' : Store} (h : Mirrors ρ s s') : ∀ host : HostValue,
    (s'.intern host).1 = rename ρ (s.intern host).1 ∧
      Mirrors ρ (s.intern host).2 (s'.intern host).2
  | .null | .integer _ | .float _ | .string _ | .boolean _ | .mysterious | .function _ => ⟨rfl, h⟩
  | .array entries => by
    obtain ⟨htable, hentries⟩ := internEntries h .empty entries
    rw [Table.rename_empty] at htable hentries
    obtain ⟨href, hadd⟩ := hentries.addTable (s.internEntries .empty entries).1
    rw [← htable] at href hadd
    rw [Store.intern, Store.intern]
    exact ⟨congrArg Value.array href, hadd⟩

/-- The entries of a host array are taken into both stores alike. -/
theorem Mirrors.internEntries {ρ : Renaming} {s s' : Store} (h : Mirrors ρ s s') (t : Table) :
    ∀ entries : List (HostValue × HostValue),
      (s'.internEntries (rename ρ t) entries).1 = rename ρ (s.internEntries t entries).1 ∧
        Mirrors ρ (s.internEntries t entries).2 (s'.internEntries (rename ρ t) entries).2
  | [] => ⟨rfl, h⟩
  | (key, value) :: rest => by
    obtain ⟨hkey, hmid⟩ := intern h key
    obtain ⟨hvalue, hlast⟩ := intern hmid value
    have hset : (rename ρ t).set ((s'.intern key).2.toKey (s'.intern key).1)
          ((s'.intern key).2.intern value).1 =
        rename ρ (t.set ((s.intern key).2.toKey (s.intern key).1)
          ((s.intern key).2.intern value).1) := by
      rw [hkey, hvalue, hmid.toKey, Table.set_rename]
    have hrest := internEntries hlast
      (t.set ((s.intern key).2.toKey (s.intern key).1) ((s.intern key).2.intern value).1) rest
    rw [← hset] at hrest
    rw [Store.internEntries, Store.internEntries]
    exact hrest

end

namespace Mirrors

variable {ρ : Renaming} {s s' : Store} (h : Mirrors ρ s s')

include h

/-- The tree of a value is the same, inside of arrays that have been renamed. -/
theorem unfoldWithin (depth : Nat) (inside : List TableRef) (v : Value) :
    s'.unfoldWithin depth (rename ρ inside) (rename ρ v) = s.unfoldWithin depth inside v := by
  induction depth generalizing inside v with
  | zero =>
    cases v with
    | function r => exact congrArg (HostValue.function ·.name) (h.closure r)
    | _ => rfl
  | succ depth ih =>
    cases v with
    | function r => exact congrArg (HostValue.function ·.name) (h.closure r)
    | array r =>
      have hinside : rename ρ r ∈ rename ρ inside ↔ r ∈ inside :=
        List.mem_map_of_injective (TableRef.rename_inj ρ)
      show s'.unfoldWithin (depth + 1) (rename ρ inside) (.array (rename ρ r)) = _
      rw [unfoldWithin_array, unfoldWithin_array, h.table]
      by_cases hr : r ∈ inside
      · rw [if_pos hr, if_pos (hinside.mpr hr)]
      · rw [if_neg hr, if_neg (mt hinside.mp hr)]
        refine congrArg HostValue.array ?_
        rw [Table.toList_entries_rename, List.map_map]
        exact List.map_congr_left fun e _ => congrArg (Prod.mk _) (ih (r :: inside) e.2)
    | _ => rfl

/-- Seen from outside, mirrored values are the same. -/
theorem unfold (v : Value) : s'.unfold (rename ρ v) = s.unfold v := by
  have hdepth : s.tables.size < s.tables.size + s'.tables.size + 1 := by omega
  have hdepth' : s'.tables.size < s.tables.size + s'.tables.size + 1 := by omega
  rw [s.unfold_eq hdepth, s'.unfold_eq hdepth']
  exact h.unfoldWithin _ [] v

end Mirrors

end Store

/-! ### The same references -/

theorem Value.rename_same (v : Value) : Renamed.rename .same v = v := by
  cases v <;> rfl

/-- Variables and entries, one by one. -/
theorem Renaming.rename_same_entry {κ : Type} : (rename .same : κ × Value → κ × Value) = id :=
  funext fun e => congrArg (Prod.mk e.1) (Value.rename_same e.2)

theorem Table.rename_same (t : Table) : rename .same t = t := by
  refine Table.eq_of_parts (fun k => ?_) rfl rfl
  rw [Table.get?_rename]
  cases t.get? k with
  | none => rfl
  | some v => exact congrArg some (Value.rename_same v)

theorem Closure.rename_same (c : Closure) : rename .same c = c :=
  rfl

theorem Frame.rename_same (f : Frame) : rename .same f = f := by
  show (⟨f.kind, f.bindings.map (rename .same), f.outer.map (rename .same)⟩ : Frame) = f
  rw [Renaming.rename_same_entry, List.map_id]
  exact congrArg (Frame.mk f.kind f.bindings) (List.map_id f.outer)

/-- Under no change of names, to carry over is to be the same. -/
theorem Renaming.carries_same {α : Type} [Renamed α] (hrename : ∀ a : α, rename .same a = a)
    {xs xs' : Array α} : Renaming.same.Carries id xs xs' ↔ xs' = xs := by
  have hget : ∀ i : Nat, rename .same xs[i]? = xs[i]? := fun i => by
    cases xs[i]? with
    | none => rfl
    | some a => exact congrArg some (hrename a)
  constructor
  · intro h
    exact Array.ext_getElem? fun i => (h.get i).trans (hget i)
  · rintro rfl
    exact ⟨fun i => (hget i).symm, fun _ => rfl⟩

/-- Nothing mirrors a store with the same references but the store itself. -/
theorem Store.mirrors_same {s s' : Store} : s.Mirrors .same s' ↔ s' = s := by
  constructor
  · intro h
    have htables := (Renaming.carries_same Table.rename_same).mp h.tables
    have hfunctions := (Renaming.carries_same Closure.rename_same).mp h.functions
    have hframes := (Renaming.carries_same Frame.rename_same).mp h.frames
    have hreferent := h.referent
    cases s
    cases s'
    cases htables
    cases hfunctions
    cases hframes
    cases hreferent
    rfl
  · rintro rfl
    exact ⟨(Renaming.carries_same Table.rename_same).mpr rfl,
      (Renaming.carries_same Closure.rename_same).mpr rfl,
      (Renaming.carries_same Frame.rename_same).mpr rfl, rfl⟩

end Ballad
