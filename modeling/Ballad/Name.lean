import Ballad.Text.Blank
import Ballad.Text.Case

/-!
# Names

- `Name.normalize`: the normal form of a name, in lower case and with single blanks between its
  words. Names that are written differently and have the same normal form are the same name.
-/

namespace Ballad.Name

/-- The words of a name in lower case. -/
def lowerWords (name : String) : List (List Char) :=
  (Text.words name.toList).map (Text.lower false)

/-- The normal form of a name (`normalize`): in lower case, its words separated by single blanks. -/
def normalize (name : String) : String :=
  String.ofList ([' '].intercalate (lowerWords name))

end Ballad.Name
