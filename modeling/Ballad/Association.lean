/-!
# Association lists

Lists of entries, each a key with its value. The variables of a frame are one, and so is what an array
is compared with.

- `Association.insert`: puts a value under a key. A key that is there keeps its place.
-/

namespace Ballad.Association

/-- Entries with a value under a key: in the place of the entry that is there, or as the last one. -/
def insert {α β : Type} [DecidableEq α] (key : α) (value : β) : List (α × β) → List (α × β)
  | [] => [(key, value)]
  | (k, v) :: rest => if k = key then (key, value) :: rest else (k, v) :: insert key value rest

end Ballad.Association
