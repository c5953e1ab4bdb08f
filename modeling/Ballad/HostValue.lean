import Ballad.Store

/-!
# Values outside of a program

A program takes its input from, and says its output to, a host that does not share its store. Values
cross that border as trees.

- `HostValue`: a value as the host sees it.
- `HostValue.text`: the value as it is said.
- `Store.intern`: takes a host value into the store.
- `Store.convert`, `Store.unfold`: the tree of a value in the store. An array that stands inside of
  itself is `mysterious` there.
-/

namespace Ballad

/-- A value as the host sees it (`HostValue`). -/
inductive HostValue where
  | null
  | integer (n : Int)
  | float (n : Number)
  | string (s : String)
  | boolean (b : Bool)
  | mysterious
  | array (entries : List (HostValue × HostValue))
  | function (name : String)
deriving Repr, Inhabited

namespace HostValue

/-- A host value as it is said (`render`). -/
def text : HostValue → String
  | null => "null"
  | integer n => Number.integerText n
  | float n => n.text
  | string s => s
  | boolean b => if b then "true" else "false"
  | mysterious => "mysterious"
  | array entries => entries.length.repr
  | function name => name

/-- The host value of a number (in `HostValue::convert`): an integer if the number is one. -/
def ofNumber (n : Number) : HostValue :=
  match n.toInt? with
  | some i => integer i
  | none => float n

/-- The array of some values at the positions from zero on. -/
def ofList (values : List HostValue) : HostValue :=
  array (values.zipIdx.map fun (v, i) => (integer i, v))

end HostValue

namespace Store

/-! ### Into the store -/

/-- The key that a value becomes when an array is taken over (in `HostValue::into_value`). What cannot
be a key becomes the string that is said for it. -/
def toKey (s : Store) (v : Value) : Key :=
  (Key.ofValue? v).getD (.string (s.text v))

mutual

/-- Takes a host value into the store (`HostValue::into_value`). A function becomes the string of its
name. -/
def intern (s : Store) : HostValue → Value × Store
  | .null => (.null, s)
  | .integer n => (.number (.ofInt n), s)
  | .float n => (.number n, s)
  | .string t => (.string t, s)
  | .boolean b => (.boolean b, s)
  | .mysterious => (.mysterious, s)
  | .function name => (.string name, s)
  | .array entries =>
    let (t, s) := internEntries s .empty entries
    let (r, s) := s.addTable t
    (.array r, s)

/-- Takes the entries of an array into the store (in `HostValue::into_value`). -/
def internEntries (s : Store) (t : Table) : List (HostValue × HostValue) → Table × Store
  | [] => (t, s)
  | (key, value) :: rest =>
    let (k, s) := intern s key
    let k := s.toKey k
    let (v, s) := intern s value
    internEntries s (t.set k v) rest

end

/-! ### Out of the store -/

/-- Makes the tree of a value (`HostValue::convert`). The state is the set of arrays that are being
converted: an array is put into it before its entries are converted and taken out of it afterwards.
Every array inside of another one is a further array of the store, so a `depth` beyond the number of
arrays is enough; without one there is no result. -/
def convert (s : Store) : (depth : Nat) → Value → StateT (List TableRef) Option HostValue
  | _, .number n => return .ofNumber n
  | _, .string t => return .string t
  | _, .boolean b => return .boolean b
  | _, .null => return .null
  | _, .mysterious => return .mysterious
  | _, .function r => return .function (s.closure r).name
  | 0, .array _ => failure
  | depth + 1, .array r => do
    if r ∈ (← get) then return .mysterious
    modify (r :: ·)
    let entries ← (s.table r).entries.toList.mapM fun (key, value) => do
      let key ← s.convert depth key.toValue
      let value ← s.convert depth value
      return (key, value)
    modify (·.erase r)
    return .array entries

/-- The tree of a value (`HostValue::from_value`). -/
def unfold (s : Store) (v : Value) : HostValue :=
  match s.convert (s.tables.size + 1) v [] with
  | some (tree, _) => tree
  | none => .mysterious

end Store

end Ballad
