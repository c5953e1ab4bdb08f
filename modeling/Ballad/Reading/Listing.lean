import Ballad.Reading.Phrase

/-!
# Lists

- `Listing`: a list of expressions that is being read, as in `rock the array with 1, 2 and 3`.
- `Listing.push`, `Listing.finish`: reading on, and the end of the source.

The items are read as the arguments of a call are.
-/

namespace Ballad.Reading

/-- What has been read of a list of expressions (`ListBuilder`). -/
structure Listing where
  /-- The items before the current one. -/
  items : List Node
  /-- Whether a delimiter has separated items. -/
  delimited : Bool
  /-- The current item. -/
  current : Phrase
deriving Repr

namespace Listing

/-- A list of which nothing has been read (`ListBuilder::new`). -/
def empty : Listing := ⟨[], false, .empty .value⟩

/-- Whether the list could end here (`ListBuilder::is_complete`). -/
def isComplete (l : Listing) : Bool :=
  l.current.isComplete

/-- Whether a lexeme would separate items (`ListBuilder::claims`). -/
def claims (list : Listing) (l : Lexeme) : Bool :=
  Phrase.separates list.delimited list.current l

/-- What a lexeme does to a list (`ListBuilder::push`). -/
def push (list : Listing) (l : Lexeme) : Except ParseError (Step Listing Node) :=
  if l.isTrivia then .ok (.next list)
  else
    (Phrase.pushItem l list.items list.delimited list.current (list.current.take l)).map fun
      | .next (items, delimited, current) => .next ⟨items, delimited, current⟩
      | .done node => .done node
      | .yield node l => .yield node l

/-- The node of a list, if the source ends at `stop` (`ListBuilder::finish`). -/
def finish (list : Listing) (stop : Span) : Except ParseError Node :=
  Phrase.finishItems stop list.items list.current (list.current.finish stop)

end Listing

end Ballad.Reading
