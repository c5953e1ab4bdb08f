import Ballad.Name
import Ballad.Number.Decimal
import Ballad.ParseError
import Ballad.Reading.Step
import Ballad.Vocabulary

/-!
# Phrases

A phrase is an expression that is being read. It is a chain: each construct that is still open holds
the part of it that is known and, as its last part, another phrase.

- `Mode`: which expressions a phrase may become.
- `Phrase`: what has been read of an expression.
- `Phrase.push`: takes a lexeme. An operator that binds no tighter than an open construct closes it
  and takes it as its left operand; any other lexeme goes to the innermost phrase. A lexeme that is
  handed back by the last part of a construct is read by what is around it.
- `Phrase.feed`: the same, for statements.
- `Phrase.finish`: the expression, if the source ends here.
- `Phrase.isComplete`: whether what has been read is a whole expression.

Arguments of a call are separated by delimiters and, once there has been one, also by `and`.
-/

namespace Ballad.Reading

/-- Which expressions a phrase may become (`Mode`). -/
inductive Mode where
  /-- Any expression. -/
  | value
  /-- A variable, a pronoun or an entry of an array. -/
  | location
  /-- A single operand. -/
  | key
deriving DecidableEq, Repr

/-- What a phrase is called in diagnostics (`Mode::name`). -/
def Mode.construct : Mode → Construct
  | value => .value
  | location => .location
  | key => .key

/-- How far the words of a comparison have been read (`Tail`). -/
inductive Tail where
  /-- The copula has been read; more words may refine it. -/
  | copula
  /-- A comparative has been read, and `than` must follow. -/
  | than
  /-- The first `as` has been read. -/
  | as
  /-- The word after the first `as` has been read, and another `as` must follow. -/
  | secondAs
  /-- The operator is settled. -/
  | settled
deriving DecidableEq, Repr

/-- The known part of a construct whose last part is a phrase (`Shell`). -/
inductive Shell where
  | negation (start : Span)
  | pop (start : Span)
  | binary (op : Operator) (tail : Tail) (left : Node)
  | index (target : Node)
deriving Repr

/-- What has been read of an expression (`ValueBuilder`). -/
inductive Phrase where
  /-- Nothing yet. -/
  | empty (mode : Mode)
  /-- An article, which a noun must follow. -/
  | article (mode : Mode) (word : Lexeme)
  /-- A proper noun, which more capitalized words may extend. -/
  | proper (mode : Mode) (name : String) (span : Span)
  /-- A whole operand. -/
  | operand (mode : Mode) (node : Node)
  /-- An open construct and its last part. -/
  | within (mode : Mode) (shell : Shell) (child : Phrase)
  /-- A call: the function, the arguments before the current one, whether a delimiter has separated
  them, and the current argument. -/
  | call (mode : Mode) (callee : Node) (items : List Node) (delimited : Bool) (current : Phrase)
deriving Repr

/-- What a construct learns of a phrase in it (`Fed`). -/
inductive Fed where
  /-- The phrase can still grow. -/
  | pending (phrase : Phrase)
  /-- The phrase has ended before a lexeme. -/
  | finished (node : Node) (lexeme : Lexeme)
deriving Repr

/-! ### Operators -/

/-- What can follow a whole operand (`Operator`). -/
inductive Suffix where
  | binary (op : Operator) (tail : Tail)
  | index
  | call
deriving DecidableEq, Repr

/-- The rank of negation (`NOT_RANK`). -/
def negationRank : Nat := 5

/-- The rank of calls, indexing and pops, which bind tightest (`POSTFIX_RANK`). -/
def suffixRank : Nat := 6

/-- How tightly a suffix binds (`Operator::rank`). -/
def Suffix.rank : Suffix → Nat
  | binary op _ => op.rank
  | index | call => suffixRank

/-- The suffix that a word begins. Outside of values only indexing can follow an operand. -/
def Suffix.ofWord? (mode : Mode) (word : String) : Option Suffix :=
  if word = "at" then some .index
  else if mode ≠ .value then none
  else if word = "taking" then some .call
  else if let some op := Vocabulary.connective word then some (.binary op .settled)
  else if Vocabulary.isCopula word then some (.binary .equal .copula)
  else if Vocabulary.isNegatedCopula word then some (.binary .notEqual .settled)
  else none

/-- The suffix that a lexeme begins (`operator`). -/
def Suffix.of? (mode : Mode) (l : Lexeme) : Option Suffix :=
  l.word.bind (ofWord? mode)

namespace Shell

/-- How tightly a construct binds (`ValueBuilder::rank`). -/
def rank : Shell → Nat
  | negation _ => negationRank
  | binary op _ _ => op.rank
  | pop _ | index _ => suffixRank

/-- Whether the construct has all of its words. -/
def isSettled : Shell → Bool
  | binary _ tail _ => tail == .settled
  | _ => true

/-- A comparison that no more words refine. -/
def settle : Shell → Shell
  | binary op _ left => binary op .settled left
  | shell => shell

/-- The node of a construct whose last part is known (`Shell::close`). -/
def close (child : Node) : Shell → Node
  | negation start => .negation (start.through child.span) child
  | pop start => .pop (start.through child.span) child
  | binary op _ left => .binary (left.span.through child.span) op left child
  | index target => .index (target.span.through child.span) target child

/-- The construct after one more word of its comparison, or nothing if the lexeme is not one of its
words (`refine`). -/
def refine (l : Lexeme) : Shell → Except ParseError (Option Shell)
  | binary op .copula left =>
    match l.word with
    | some "not" => .ok (some (binary .notEqual .settled left))
    | some "as" => .ok (some (binary op .as left))
    | some word => .ok ((Vocabulary.strict word).map fun op => binary op .than left)
    | none => .ok none
  | binary op .than left =>
    if l.isWord "than" then .ok (some (binary op .settled left))
    else .error (.unexpectedWord l "'than'")
  | binary _ .as left =>
    match l.word.bind Vocabulary.inclusive with
    | some op => .ok (some (binary op .secondAs left))
    | none => .error (.unexpectedWord l "'high', 'low' or a synonym")
  | binary op .secondAs left =>
    if l.isWord "as" then .ok (some (binary op .settled left))
    else .error (.unexpectedWord l "'as'")
  | _ => .ok none

end Shell

/-- The node of a list (`ListBuilder::build`). -/
def listNode (items : List Node) : Node :=
  .list (Node.spanOf items) items

/-- The node of a call, `child` being its arguments (`Shell::close`). -/
def closeCall (callee child : Node) : Except ParseError Node :=
  match child with
  | .list span arguments => .ok (.call (callee.span.through span) callee arguments)
  | child => .error (.unexpectedKind child "argument list")

namespace Phrase

/-- Which expressions the phrase may become. -/
def mode : Phrase → Mode
  | empty mode | article mode _ | proper mode .. | operand mode _ | within mode .. | call mode .. =>
    mode

/-- Whether nothing has been read yet (`ValueBuilder::is_empty`). -/
def isEmpty : Phrase → Bool
  | empty _ => true
  | _ => false

/-- Whether what has been read is a whole expression (`ValueBuilder::is_complete`). -/
def isComplete : Phrase → Bool
  | empty _ | article .. => false
  | proper .. | operand .. => true
  | within _ shell child => shell.isSettled && child.isComplete
  | call _ _ _ _ current => current.isComplete

/-- Whether what has been read is a whole location (`ValueBuilder::is_location`). -/
def isLocation : Phrase → Bool
  | proper .. => true
  | operand _ node => node.isLocation
  | within _ (.index _) child => child.isComplete
  | _ => false

/-- Whether what has been read is a variable (`ValueBuilder::is_variable`). -/
def isVariable : Phrase → Bool
  | proper .. | operand _ (.var ..) => true
  | _ => false

/-! ### The end of the source -/

/-- A list that ends here, `last` being what the current item becomes (`ListBuilder::finish`). -/
def finishItems (stop : Span) (items : List Node) (current : Phrase)
    (last : Except ParseError Node) : Except ParseError Node :=
  if current.isEmpty && !items.isEmpty then .error (.unfinished .list stop)
  else last.map fun node => listNode (items ++ [node])

/-- The expression that has been read, if the source ends at `stop` (`ValueBuilder::finish`). -/
def finish (stop : Span) : Phrase → Except ParseError Node
  | empty mode => .error (.unfinished mode.construct stop)
  | article _ word => .error (.unfinished .commonVariable (word.span.through stop))
  | proper _ name span => .ok (.var span (Name.normalize name))
  | operand _ node => .ok node
  | within _ shell child =>
    match shell with
    | .binary _ .than left | .binary _ .as left | .binary _ .secondAs left =>
      .error (.unfinished .comparison (left.span.through stop))
    | shell => (child.finish stop).map shell.close
  | call _ callee items _ current =>
    (finishItems stop items current (current.finish stop)).bind (closeCall callee)

/-! ### Reading on -/

/-- An operand of a literal, which cannot be a location (in `ValueBuilder::start`). -/
def ofLiteral (mode : Mode) (span : Span) (value : Literal) : Except ParseError Phrase :=
  let node := Node.literal span value
  if mode = .location then .error (.unexpectedKind node "location") else .ok (operand mode node)

/-- The number that a lexeme writes (`parse_number`). -/
def numberOf (l : Lexeme) : Except ParseError Number :=
  match Number.ofText? l.literal with
  | some n => .ok n
  | none => .error ⟨.invalidNumber l.literal, l.span⟩

/-- A phrase that begins with a word (in `ValueBuilder::start`). -/
def ofWord (mode : Mode) (l : Lexeme) (word : String) : Except ParseError Phrase :=
  if Vocabulary.isArticle word then .ok (article mode l)
  else if Vocabulary.isPronoun word then .ok (operand mode (.pronoun l.span word))
  else if let some value := Vocabulary.constant word then ofLiteral mode l.span value
  else if mode = .value ∧ word = "not" then .ok (within mode (.negation l.span) (empty .value))
  else if mode = .value ∧ (word = "roll" ∨ word = "pop") then
    .ok (within mode (.pop l.span) (empty .location))
  else if Vocabulary.isReserved word then .error (.unexpectedWord l "a value")
  else if l.isCapitalized then .ok (proper mode l.literal l.span)
  else .ok (operand mode (.var l.span word))

/-- A phrase that begins with a lexeme (`ValueBuilder::start`). -/
def start (mode : Mode) (l : Lexeme) : Except ParseError Phrase :=
  match l.kind with
  | .number => (numberOf l).bind fun n => ofLiteral mode l.span (.number n)
  | .string => ofLiteral mode l.span (.string l.literal)
  | .identifier => ofWord mode l (Text.lowercase l.literal)
  | _ => .error (.unexpected l mode.construct)

/-- What a lexeme after a whole operand does (`ValueBuilder::after_operand`): it begins a construct
around the operand, or it ends the phrase. -/
def afterOperand (mode : Mode) (node : Node) (l : Lexeme) : Except ParseError (Step Phrase Node) :=
  match Suffix.of? mode l with
  | none => .ok (.yield node l)
  | some (.binary op tail) => .ok (.next (within mode (.binary op tail node) (empty .value)))
  | some .index => .ok (.next (within mode (.index node) (empty .key)))
  | some .call =>
    match node with
    | .var .. => .ok (.next (call mode node [] false (empty .value)))
    | node => .error (.unexpectedKind node "function name")

/-- Whether a lexeme takes a construct of the given rank, whose last part is `child`, as its left
operand (in `ValueBuilder::continue_composite`). -/
def folds (mode : Mode) (rank : Nat) (child : Phrase) (l : Lexeme) : Bool :=
  match Suffix.of? mode l with
  | some suffix => suffix.rank ≤ rank && child.isComplete
  | none => false

/-- Whether a lexeme separates the items of a list (`ListBuilder::claims`). Once a delimiter has, so
does `and`, unless the current item still needs something. -/
def separates (delimited : Bool) (current : Phrase) (l : Lexeme) : Bool :=
  l.kind == .delimiter
    || (delimited && l.isWord "and" && (current.isComplete || current.isEmpty))

/-- What a lexeme does to the items of a list, `inner` being what it does to the current item
(`ListBuilder::push`). -/
def pushItem (l : Lexeme) (items : List Node) (delimited : Bool) (current : Phrase)
    (inner : Except ParseError (Step Phrase Node)) :
    Except ParseError (Step (List Node × Bool × Phrase) Node) :=
  if separates delimited current l then
    if current.isComplete then
      (current.finish l.span).map fun item => .next (items ++ [item], true, empty .value)
    else if l.isWord "and" && current.isEmpty && !items.isEmpty then
      .ok (.next (items, delimited, current))
    else .error (.unexpected l .list)
  else
    inner.map fun
      | .next current => .next (items, delimited, current)
      | .done node => .done (listNode (items ++ [node]))
      | .yield node l => .yield (listNode (items ++ [node])) l

/-- What a lexeme that is no trivia does to a phrase (`ValueBuilder::continue_composite`). -/
def take (l : Lexeme) : Phrase → Except ParseError (Step Phrase Node)
  | empty mode => (start mode l).map .next
  | article mode word =>
    match l.word with
    | some noun =>
      let name := Text.lowercase word.literal ++ " " ++ noun
      .ok (.next (operand mode (.var (word.span.through l.span) name)))
    | none => .error (.unexpected l .commonVariable)
  | proper mode name span =>
    if l.isCapitalized && l.word.any (!Vocabulary.isReserved ·) then
      .ok (.next (proper mode (name ++ " " ++ l.literal) (span.through l.span)))
    else afterOperand mode (.var span (Name.normalize name)) l
  | operand mode node => afterOperand mode node l
  | within mode shell child =>
    match shell.refine l with
    | .error e => .error e
    | .ok (some shell) => .ok (.next (within mode shell child))
    | .ok none =>
      -- a comparison has all of its words now
      let shell := shell.settle
      if folds mode shell.rank child l then
        (child.finish l.span).bind fun node => afterOperand mode (shell.close node) l
      else
        (child.take l).bind fun
          | .next child => .ok (.next (within mode shell child))
          | .done node => .ok (.next (operand mode (shell.close node)))
          | .yield node l => afterOperand mode (shell.close node) l
  | call mode callee items delimited current =>
    -- `and` between arguments is no operator, though it could take the call as its operand
    if folds mode suffixRank current l && !separates delimited current l then
      (finishItems l.span items current (current.finish l.span)).bind fun list =>
        (closeCall callee list).bind fun node => afterOperand mode node l
    else
      (pushItem l items delimited current (current.take l)).bind fun
        | .next (items, delimited, current) =>
          .ok (.next (call mode callee items delimited current))
        | .done list => (closeCall callee list).map fun node => .next (operand mode node)
        | .yield list l => (closeCall callee list).bind fun node => afterOperand mode node l

/-- What a lexeme does to a phrase (`ValueBuilder::push`). -/
def push (p : Phrase) (l : Lexeme) : Except ParseError (Step Phrase Node) :=
  if l.isTrivia then .ok (.next p) else p.take l

/-- What a lexeme does to a phrase, for constructs that only ask whether the phrase has ended
(`ValueBuilder::feed`). One that has ended with its lexeme waits for what follows. -/
def feed (p : Phrase) (l : Lexeme) : Except ParseError Fed :=
  (p.push l).map fun
    | .next p => .pending p
    | .done node => .pending (operand p.mode node)
    | .yield node l => .finished node l

end Phrase

end Ballad.Reading
