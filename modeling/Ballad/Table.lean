import Ballad.Value
import Std.Data.ExtTreeMap

/-!
# Arrays

An array maps keys to values and remembers the order in which keys were first set. It also counts
positions, so that it can serve as a stack.

- `Key`: what a value can be stored under.
- `Table`: a map from keys to values, the keys in order, and the position that the next pushed value
  gets. The three are changed one by one, and nothing in the data says that they fit together.
- `Table.get?`, `Table.set`: look-up and assignment. A key that is there keeps its place.
- `Table.push`, `Table.pop`: the array as a stack. A pop takes what stands at the last position
  (`Table.top`, which is `mysterious` if nothing does) and leaves the rest (`Table.dropTop`).
- `Table.entries`: what the map has for the keys in order.
-/

namespace Ballad

/-- What a value can be stored under (`ArrayKey`). -/
inductive Key where
  /-- A number; of the two zeros only the positive one, and only one value that is no number. -/
  | number (n : Number)
  | string (s : String)
  | boolean (b : Bool)
  | null
deriving DecidableEq, Repr

namespace Key

/-- The kind of a key, and what tells it from the other keys of its kind. -/
def code : Key → Nat × UInt64 × String
  | number n => (0, n.bits, "")
  | string s => (1, 0, s)
  | boolean b => (2, if b then 1 else 0, "")
  | null => (3, 0, "")

/-- An order of keys, for maps to find them by. Nothing else depends on it. -/
def compare : Key → Key → Ordering :=
  compareLex (compareOn (·.code.1)) (compareLex (compareOn (·.code.2.1)) (compareOn (·.code.2.2)))

instance : Std.TransCmp compare :=
  inferInstanceAs (Std.TransCmp (compareLex _ (compareLex _ _)))

/-- Different keys differ in their codes. -/
theorem code_injective {a b : Key} (h : a.code = b.code) : a = b := by
  cases a <;> cases b <;> simp [code] at h
  case number.number n m =>
    cases n
    cases m
    exact congrArg number (congrArg Number.mk h)
  case string.string s t => exact congrArg string h
  case boolean.boolean x y =>
    revert h
    cases x <;> cases y <;> decide
  case null.null => rfl

instance : Std.LawfulEqCmp compare where
  eq_of_compare {a b} h := by
    obtain ⟨hkind, h⟩ := Ordering.then_eq_eq.mp h
    obtain ⟨hbits, htext⟩ := Ordering.then_eq_eq.mp h
    refine code_injective (Prod.ext (Std.LawfulEqCmp.eq_of_compare hkind) (Prod.ext ?_ ?_))
    · exact Std.LawfulEqCmp.eq_of_compare hbits
    · exact Std.LawfulEqCmp.eq_of_compare htext

/-- The key of a number (`ArrayKey::number`). Both zeros have the same, and so has all that is no
number. -/
def ofNumber (n : Number) : Key :=
  number (if n.isZero then .zero else if n.isNaN then .nan else n)

/-- The key of a position. -/
def ofPosition (p : Nat) : Key :=
  ofNumber (.ofCount p)

/-- The key of a value, if it can be one (`ArrayKey::from_value`). -/
def ofValue? : Value → Option Key
  | .number n => some (ofNumber n)
  | .string s => some (string s)
  | .boolean b => some (boolean b)
  | .null => some null
  | .mysterious | .array _ | .function _ => none

/-- A key as a value (`ArrayKey::to_value`). -/
def toValue : Key → Value
  | number n => .number n
  | string s => .string s
  | boolean b => .boolean b
  | null => .null

/-- The position that a key names (`ArrayKey::position`). -/
def position? : Key → Option Nat
  | number n => n.position?
  | _ => none

end Key

/-- An array (`ArrayValue`): the values by their keys, the keys in the order in which they were first
set, and the position after the last one. -/
structure Table where
  map : Std.ExtTreeMap Key Value Key.compare
  order : Array Key
  next : Nat
deriving DecidableEq, Repr

namespace Table

/-- An array without entries (`ArrayValue::new`). -/
def empty : Table := ⟨∅, #[], 0⟩

instance : Inhabited Table := ⟨empty⟩

/-- The number of entries (`ArrayValue::len`). -/
def size (t : Table) : Nat := t.order.size

/-- The keys in order. -/
def keys (t : Table) : List Key := t.order.toList

/-- The value of a key (`ArrayValue::get`). -/
def get? (t : Table) (key : Key) : Option Value := t.map[key]?

/-- The entries in order (`ArrayValue::entries`). A key that the map does not have is passed over. -/
def entries (t : Table) : Array (Key × Value) :=
  t.order.filterMap fun key => (t.get? key).map (key, ·)

/-- The values in order (`ArrayValue::values`). -/
def values (t : Table) : List Value := t.entries.toList.map (·.2)

/-- The position that is next after a key has been set (in `ArrayValue::set`). -/
def nextAfter (key : Key) (next : Nat) : Nat :=
  match key.position? with
  | some p => if next ≤ p then p + 1 else next
  | none => next

/-- Puts a value under a key (`ArrayValue::set`). A key that was not there yet becomes the last one. -/
def set : Table → Key → Value → Table
  | ⟨map, order, next⟩, key, value =>
    let (known, map) := map.containsThenInsert key value
    ⟨map, if known then order else order.push key, nextAfter key next⟩

/-- Puts a value at the next position (`ArrayValue::push`). -/
def push (t : Table) (value : Value) : Table :=
  t.set (Key.ofPosition t.next) value

/-- The place where a key stands last among keys. -/
def lastPlace? (order : Array Key) (key : Key) : Option Nat :=
  (order.toList.reverse.findIdx? (· == key)).map (order.size - 1 - ·)

/-- Takes a key out of the order (in `ArrayValue::pop`). Mostly it is the last one; otherwise it is
looked for from the end. -/
def forget (order : Array Key) (key : Key) : Array Key :=
  if order.back? = some key then order.pop
  else
    match lastPlace? order key with
    | some i => order.eraseIdxIfInBounds i
    | none => order

/-- The value at the last position, or `mysterious` if there is none (in `ArrayValue::pop`). -/
def top : Table → Value
  | ⟨_, _, 0⟩ => .mysterious
  | ⟨map, _, p + 1⟩ => map[Key.ofPosition p]?.getD .mysterious

/-- Gives the last position up, with the entry that it may have (in `ArrayValue::pop`). -/
def dropTop : Table → Table
  | ⟨map, order, 0⟩ => ⟨map, order, 0⟩
  | ⟨map, order, p + 1⟩ =>
    let key := Key.ofPosition p
    if map.contains key then ⟨map.erase key, forget order key, p⟩ else ⟨map, order, p⟩

/-- Takes the value at the last position off (`ArrayValue::pop`). -/
def pop (t : Table) : Value × Table :=
  (t.top, t.dropTop)

/-- The array of some values, in order, at the positions from zero on (`ArrayValue::from_values`). -/
def ofValues (values : List Value) : Table :=
  values.foldl push empty

end Table

end Ballad
