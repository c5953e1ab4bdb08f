import Ballad.Association
import Ballad.Node
import Ballad.Number.Shortest
import Ballad.Table

/-!
# The store

Everything that a running program shares: the arrays, the functions and the frames of variables, and
the name that pronouns stand for. Nothing is ever taken out of the store, so a reference stays good.

- `Frame`: the variables of a block or a call, and the frames around it.
- `Store`: arrays, functions, frames and the referent of pronouns. Frame 0 is the global frame.
- `Store.get?`, `Store.set`, `Store.define`: variables as seen from a frame. An assignment changes
  the variable of the innermost frame that has it, and otherwise makes one in the frame itself.
- `Store.text`, `Store.describe`: values as they are said, and as diagnostics show them.
-/

namespace Ballad

/-- What a frame belongs to (`FrameKind`). -/
inductive FrameKind where
  | global
  | conditional
  | loop
  | function
deriving DecidableEq, Repr

/-! ### Bindings -/

/-- The variables of a frame with their values. -/
abbrev Bindings := List (String × Value)

/-- The value of a variable. -/
def Bindings.get? (b : Bindings) (name : String) : Option Value :=
  b.lookup name

/-- The variables of a block or a call (`Scope`). -/
structure Frame where
  kind : FrameKind
  bindings : Bindings
  /-- The frames around this one, innermost first. -/
  outer : List FrameRef
deriving DecidableEq, Repr

namespace Frame

/-- The global frame, without variables. -/
def empty : Frame := ⟨.global, [], []⟩

instance : Inhabited Frame := ⟨empty⟩

end Frame

/-- A function with the frame that it was declared in (`FunctionValue`). -/
structure Closure where
  name : String
  parameters : List String
  body : List Node
  frame : FrameRef
deriving Repr

instance : Inhabited Closure := ⟨⟨"", [], [], ⟨0⟩⟩⟩

/-- What a running program shares. -/
structure Store where
  tables : Array Table
  functions : Array Closure
  frames : Array Frame
  /-- The name that pronouns stand for. -/
  referent : Option String
deriving Repr

namespace Store

/-- The global frame. -/
def global : FrameRef := ⟨0⟩

/-- A store with nothing but an empty global frame (`Scope::global`). -/
def empty : Store := ⟨#[], #[], #[.empty], none⟩

instance : Inhabited Store := ⟨empty⟩

/-! ### Arrays and functions -/

/-- The array that a reference means. -/
def table (s : Store) (r : TableRef) : Table :=
  s.tables[r.index]?.getD .empty

/-- Changes the array that a reference means. -/
def modifyTable (s : Store) (r : TableRef) (f : Table → Table) : Store :=
  { s with tables := s.tables.modify r.index f }

/-- Adds an array. -/
def addTable (s : Store) (t : Table) : TableRef × Store :=
  (⟨s.tables.size⟩, { s with tables := s.tables.push t })

/-- The function that a reference means. -/
def closure (s : Store) (r : FunctionRef) : Closure :=
  s.functions[r.index]?.getD default

/-- Adds a function. -/
def addClosure (s : Store) (c : Closure) : FunctionRef × Store :=
  (⟨s.functions.size⟩, { s with functions := s.functions.push c })

/-! ### Frames -/

/-- The frame that a reference means. -/
def frame (s : Store) (f : FrameRef) : Frame :=
  s.frames[f.index]?.getD .empty

/-- Changes the variables of a frame. -/
def modifyBindings (s : Store) (f : FrameRef) (g : Bindings → Bindings) : Store :=
  { s with
    frames := s.frames.modify f.index fun frame => { frame with bindings := g frame.bindings } }

/-- A frame and the frames around it, innermost first. -/
def chain (s : Store) (f : FrameRef) : List FrameRef :=
  f :: (s.frame f).outer

/-- Adds a frame inside of another one (`Scope::child`). -/
def addFrame (s : Store) (parent : FrameRef) (kind : FrameKind) (bindings : Bindings) :
    FrameRef × Store :=
  (⟨s.frames.size⟩, { s with frames := s.frames.push ⟨kind, bindings, s.chain parent⟩ })

/-- Whether a frame itself has a variable. -/
def owns (s : Store) (name : String) (f : FrameRef) : Bool :=
  ((s.frame f).bindings.get? name).isSome

/-- The innermost frame, from `f` outwards, that has a variable (`Scope::assign_existing`). -/
def owner? (s : Store) (f : FrameRef) (name : String) : Option FrameRef :=
  (s.chain f).find? (s.owns name)

/-- The value of a variable as seen from a frame (`Scope::get`). -/
def get? (s : Store) (f : FrameRef) (name : String) : Option Value :=
  (s.chain f).findSome? fun g => (s.frame g).bindings.get? name

/-- Gives a variable of a frame a value (`Scope::define`). -/
def define (s : Store) (f : FrameRef) (name : String) (value : Value) : Store :=
  s.modifyBindings f (Association.insert name value)

/-- Assigns to a variable as seen from a frame (`Scope::set`). -/
def set (s : Store) (f : FrameRef) (name : String) (value : Value) : Store :=
  s.define ((s.owner? f name).getD f) name value

/-- Lets pronouns stand for a name, or for nothing (`Scope::set_referent`). -/
def setReferent (s : Store) (name : Option String) : Store :=
  { s with referent := name }

/-- Forgets the variables of a frame and, with those of the global frame, what pronouns stand for
(`Scope::clear`). -/
def clear (s : Store) (f : FrameRef) : Store :=
  let s := s.modifyBindings f fun _ => []
  if f = global then s.setReferent none else s

/-! ### Text -/

/-- A value as it is said (`Value::fmt`). An array is said by its number of entries, a function by its
name. -/
def text (s : Store) : Value → String
  | .number n => n.text
  | .string t => t
  | .boolean b => if b then "true" else "false"
  | .null => "null"
  | .mysterious => "mysterious"
  | .array r => (s.table r).size.repr
  | .function r => (s.closure r).name

/-- A value as diagnostics show it (`Value::describe`). -/
def describe (s : Store) (v : Value) : String :=
  match v with
  | .string t => "\"" ++ t ++ "\""
  | .array _ => "array of " ++ s.text v
  | .function _ => "function '" ++ s.text v ++ "'"
  | v => s.text v

end Store

end Ballad
