import Ballad.Number.Integer
import Ballad.Reading.Listing
import Ballad.Reading.Poetic

/-!
# Statements

A statement is one line. Its first word selects its form; a line that begins otherwise is an
expression, which may turn out to be the target of a poetic assignment or the name of a function.

- `Slot`: what a phrase in a statement is for.
- `Slot.close`: what becomes of the statement when that phrase ends.
- `Statement`: what has been read of a statement.
- `Statement.push`: takes a lexeme. The statement ends with its line.
- `Statement.absorbs_push`: what is around a statement never gets a lexeme back.
- `Statement.finish`: a source may only end where no statement has begun.

Conditionals, loops and functions end with empty bodies, which the following lines fill.
-/

namespace Ballad.Reading

/-- The words that begin a block with a condition (`Head`). -/
inductive Head where
  | ifTrue
  | whileTrue
  | untilTrue
deriving DecidableEq, Repr

/-- Which part of a change is being read, with the parts before it (`Slot`). -/
inductive Part where
  | source
  | into (source : Node)
  | argument (source : Node) (into : Option Node)
deriving Repr

/-- What a phrase in a statement is for. -/
inductive Slot where
  | letTarget
  | letValue (target : Node)
  | putValue
  | putTarget (value : Node)
  | output
  | inputTarget
  | adjustTarget (up : Bool)
  | turnTarget (mode : Option Rounding)
  | pushTarget
  | popSource
  | popTarget (source : Node)
  | change (kind : Change) (part : Part)
  | condition (head : Head)
  | giveBack
deriving Repr

/-- What has been read of a statement (`StatementBuilder`). -/
inductive Statement where
  /-- Nothing that means anything; `blank` is false if there was a comment. -/
  | start (blank : Bool)
  /-- An expression. -/
  | bare (phrase : Phrase)
  /-- A target, a copula and a poetic literal. -/
  | poetic (target : Node) (literal : Poetic)
  /-- A target and the text that is assigned to it as it stands. -/
  | verbatim (target : Node) (text : String) (started : Bool) (last : Span)
  /-- A function with its parameters. -/
  | parameters (name : Node) (names : List String) (current : Phrase)
  /-- A form that waits for the end of a phrase. -/
  | slot (start : Span) (slot : Slot) (phrase : Phrase)
  /-- `listen`, before `to`. -/
  | listen (start : Span)
  /-- `build it up` or `knock it down`, with the count of the last word. -/
  | adjust (start : Span) (up : Bool) (target : Node) (count : Nat) (last : Span)
  /-- `turn`, before the direction or the target. -/
  | turn (start : Span)
  /-- `rock it with` and the values. -/
  | rock (start : Span) (target : Node) (values : Listing)
  /-- `give`, before `back` or the value. -/
  | give (start : Span)
  /-- A fixed phrase with its remaining words. -/
  | fixed (node : Node) (remaining : List String) (optional : Bool)
  /-- A whole statement. -/
  | finished (node : Node)
deriving Repr

/-! ### Nodes -/

/-- An assignment that spans from its target to its value (`assign`). -/
def assignment (target value : Node) : Node :=
  .assign (target.span.through value.span) target value

/-- `build it up, up` adds two, `knock it down` takes one off (`adjust`). -/
def adjustment (start : Span) (up : Bool) (target : Node) (count : Nat) (last : Span) : Node :=
  let amount := Node.literal last (.number (.ofNat count))
  let sum := Node.binary (target.span.through last) (if up then .add else .sub) target amount
  .assign (start.through last) target sum

/-- A change of a value (`mutation`). Without a place to store it in, the source must be one. -/
def changeNode (start : Span) (kind : Change) (source : Node) (into argument : Option Node) :
    Except ParseError Node :=
  if into.isNone && !source.isLocation then .error (.unexpectedKind source "location")
  else
    let last := (argument.or into).getD source
    .ok (.change (start.through last.span) kind source into argument)

/-- The first line of a block with a condition (`header`). -/
def headNode (start : Span) (head : Head) (condition : Node) : Node :=
  let span := start.through condition.span
  match head with
  | .ifTrue => .conditional span condition [] []
  | .whileTrue => .loop span condition [] false
  | .untilTrue => .loop span condition [] true

/-- Values that are put on top of an array (`push`). They end at `stop`, if there are any. -/
def pushNode (start : Span) (target : Node) (values : List Node) (stop : Option Span) : Node :=
  .push (start.through (stop.getD target.span)) target values

/-- The items of a list with its span (`items`). Anything else is its only item. -/
def items : Node → List Node × Span
  | .list span items => (items, span)
  | node => ([node], node.span)

/-- The first line of a function, `name` being the variable that it is declared as (`function`). -/
def functionNode (name : Node) (parameters : List String) (stop : Span) : Node :=
  let text :=
    match name with
    | .var _ text => text
    | _ => ""
  .function (name.span.through stop) text parameters []

/-! ### Slots -/

/-- What the statement around a slot is called in diagnostics. -/
def Slot.construct : Slot → Construct
  | letTarget | letValue _ | putValue | putTarget _ => .assignment
  | output => .output
  | inputTarget => .input
  | adjustTarget _ => .increment
  | turnTarget _ => .rounding
  | pushTarget => .push
  | popSource | popTarget _ => .pop
  | change .. => .mutation
  | condition _ => .condition
  | giveBack => .giveBack

/-- Which expressions a slot takes. -/
def Slot.mode : Slot → Mode
  | letValue _ | putValue | output | condition _ | giveBack | change _ (.argument ..) => .value
  | change _ .source => .key
  | _ => .location

/-- The word that goes on with an increment (`direction`). -/
def directionWord (up : Bool) : String :=
  if up then "up" else "down"

namespace Statement

/-- A statement of which nothing has been read (`StatementBuilder::new`). -/
def fresh : Statement := .start true

/-- Waits for the phrase of a slot. -/
def await (start : Span) (s : Slot) : Statement :=
  .slot start s (.empty s.mode)

/-- What a statement is called in diagnostics (`StatementBuilder::name`). -/
def construct : Statement → Construct
  | start _ => .statement
  | bare _ => .expression
  | poetic .. => .poeticAssignment
  | verbatim .. => .poeticString
  | parameters .. => .functionDeclaration
  | slot _ s _ => s.construct
  | listen _ => .input
  | adjust .. => .increment
  | turn _ => .rounding
  | rock .. => .push
  | give _ => .giveBack
  | fixed .. => .controlFlow
  | finished _ => .endOfStatement

/-- Whether nothing that means anything has been read (`StatementBuilder::is_start`). -/
def isStart : Statement → Bool
  | start _ => true
  | _ => false

/-- Ends a statement at the end of its line (`end_with`). -/
def endWith (node : Node) (l : Lexeme) (within : Construct) :
    Except ParseError (Step Statement Node) :=
  if l.isNewline then .ok (.done node) else .error (.unexpected l within)

/-- Goes on after a word that has to be there (`expect_word`). -/
def expect (word : String) (l : Lexeme) (then_ : Statement) :
    Except ParseError (Step Statement Node) :=
  if l.isWord word then .ok (.next then_) else .error (.unexpectedWord l ("'" ++ word ++ "'"))

end Statement

open Statement in
/-- What becomes of a change when one of its parts ends (in `StatementBuilder::push_significant`). -/
def Part.close (start : Span) (kind : Change) (node : Node) (l : Lexeme) :
    Part → Except ParseError (Step Statement Node)
  | .source =>
    if l.isNewline then (changeNode start kind node none none).map .done
    else if l.isWord "into" then .ok (.next (await start (.change kind (.into node))))
    else if l.isWord "with" then .ok (.next (await start (.change kind (.argument node none))))
    else .error (.unexpected l .mutation)
  | .into src =>
    if l.isNewline then (changeNode start kind src (some node) none).map .done
    else if l.isWord "with" then
      .ok (.next (await start (.change kind (.argument src (some node)))))
    else .error (.unexpected l .mutation)
  | .argument src dest =>
    if l.isNewline then (changeNode start kind src dest (some node)).map .done
    else .error (.unexpected l .mutation)

open Statement in
/-- What becomes of a statement when the phrase of its slot ends before a lexeme (in
`StatementBuilder::push_significant`). -/
def Slot.close (start : Span) (node : Node) (l : Lexeme) (s : Slot) :
    Except ParseError (Step Statement Node) :=
  match s with
  | letTarget => expect "be" l (await start (.letValue node))
  | letValue target =>
    endWith (.assign (start.through node.span) target node) l s.construct
  | putValue => expect "into" l (await start (.putTarget node))
  | putTarget value => endWith (.assign (start.through node.span) node value) l s.construct
  | output => endWith (.output (start.through node.span) node) l s.construct
  | inputTarget => endWith (.input (start.through node.span) (some node)) l s.construct
  | adjustTarget up => expect (directionWord up) l (.adjust start up node 1 l.span)
  | turnTarget (some mode) => endWith (.round (start.through node.span) node mode) l s.construct
  | turnTarget none =>
    match l.word.bind Vocabulary.rounding with
    | some mode => .ok (.next (.finished (.round (start.through l.span) node mode)))
    | none => .error (.unexpectedWord l "'up', 'down', 'round' or 'around'")
  | pushTarget =>
    if l.isWord "with" then .ok (.next (.rock start node .empty))
    else endWith (pushNode start node [] none) l s.construct
  | popSource =>
    if l.isWord "into" then .ok (.next (await start (.popTarget node)))
    else endWith (.pop (start.through node.span) node) l s.construct
  | popTarget source =>
    -- the sentence has the span of the words before `into`
    let pop := Node.pop (start.through source.span) source
    endWith (.assign (start.through pop.span) node pop) l s.construct
  | change kind part => part.close start kind node l
  | condition head => endWith (headNode start head node) l s.construct
  | giveBack =>
    if l.isWord "back" then .ok (.next (.finished (.giveBack (start.through l.span) node)))
    else endWith (.giveBack (start.through node.span) node) l s.construct

namespace Statement

/-! ### The first lexeme -/

/-- What the first word of a line begins (in `StatementBuilder::start`). Any other word begins an
expression. -/
def ofWord? (span : Span) (word : String) : Option Statement :=
  match word with
  | "let" => await span .letTarget
  | "put" => await span .putValue
  | "say" | "shout" | "whisper" | "scream" => await span .output
  | "listen" => some (listen span)
  | "build" => await span (.adjustTarget true)
  | "knock" => await span (.adjustTarget false)
  | "turn" => some (turn span)
  | "rock" | "push" => await span .pushTarget
  | "roll" | "pop" => await span .popSource
  | "cast" | "burn" => await span (.change .cast .source)
  | "split" | "cut" | "shatter" => await span (.change .split .source)
  | "join" | "unite" => await span (.change .join .source)
  | "if" => await span (.condition .ifTrue)
  | "while" => await span (.condition .whileTrue)
  | "until" => await span (.condition .untilTrue)
  | "else" | "otherwise" => some (finished (.otherwise span))
  | "break" => some (fixed (.breakLoop span) ["it", "down"] true)
  | "continue" => some (finished (.continueLoop span))
  | "take" => some (fixed (.continueLoop span) ["it", "to", "the", "top"] false)
  | "return" => await span .giveBack
  | "give" | "send" => some (give span)
  | _ => none

/-- What a lexeme does to an expression at the beginning of a line (in
`StatementBuilder::push_significant`). -/
def pushBare (phrase : Phrase) (l : Lexeme) : Except ParseError (Step Statement Node) :=
  -- after a location a copula assigns; after anything else it is an operator
  if l.word.any Vocabulary.isCopula && phrase.isLocation then
    (phrase.finish l.span).map fun target => .next (poetic target .leading)
  else if l.word.any Vocabulary.isQuotative && phrase.isLocation then
    (phrase.finish l.span).map fun target => .next (verbatim target "" false l.span)
  else if l.word.any Vocabulary.isDeclarative && phrase.isVariable then
    (phrase.finish l.span).map fun name => .next (parameters name [] (.empty .location))
  else
    (phrase.feed l).bind fun
      | .pending phrase => .ok (.next (bare phrase))
      | .finished node l => endWith node l .expression

/-- What a lexeme does to a line of which nothing has been read (`StatementBuilder::start`). -/
def pushStart (blank : Bool) (l : Lexeme) : Except ParseError (Step Statement Node) :=
  match l.kind with
  | .whitespace => .ok (.next (start blank))
  -- a line with nothing but a comment is no empty line, and does not end a block
  | .comment => .ok (.next (start false))
  | .newline | .endOfInput => .ok (if blank then .done (.blank l.span) else .next fresh)
  | _ =>
    match l.word.bind (ofWord? l.span) with
    | some statement => .ok (.next statement)
    | none => pushBare (.empty .value) l

/-! ### The other lexemes -/

/-- What a lexeme does to text that is assigned as it stands (`StatementBuilder::says`). The blank
after the verb does not belong to it. -/
def pushVerbatim (target : Node) (text : String) (started : Bool) (last : Span) (l : Lexeme) :
    Step Statement Node :=
  if l.isNewline then
    .done (.assign (target.span.through last) target (.literal last (.string text)))
  else
    let more :=
      if !started && l.kind == .whitespace then String.ofList l.source.toList.tail else l.source
    .next (verbatim target (text ++ more) true l.span)

/-- Whether a lexeme separates parameters. -/
def separatesParameters (l : Lexeme) : Bool :=
  l.kind == .delimiter || l.isWord "and"

/-- What a lexeme does to the parameters of a function (in `StatementBuilder::push_significant`). -/
def pushParameter (name : Node) (names : List String) (current : Phrase) (l : Lexeme) :
    Except ParseError (Step Statement Node) :=
  if current.isEmpty && !names.isEmpty && separatesParameters l then
    .ok (.next (parameters name names current))
  else
    (current.feed l).bind fun
      | .pending current => .ok (.next (parameters name names current))
      | .finished (.var last parameter) l =>
        let names := names ++ [parameter]
        if l.isNewline then .ok (.done (functionNode name names last))
        else if separatesParameters l then
          .ok (.next (parameters name names (.empty .location)))
        else .error (.unexpected l .functionDeclaration)
      | .finished node _ => .error (.unexpectedKind node "parameter name")

/-- What a lexeme does to the phrase of a slot (in `StatementBuilder::push_significant`). -/
def pushSlot (start : Span) (s : Slot) (phrase : Phrase) (l : Lexeme) :
    Except ParseError (Step Statement Node) :=
  (phrase.feed l).bind fun
    | .pending phrase => .ok (.next (slot start s phrase))
    | .finished node l => s.close start node l

/-- What a lexeme does to a fixed phrase (in `StatementBuilder::push_significant`). -/
def pushFixed (node : Node) (remaining : List String) (optional : Bool) (l : Lexeme) :
    Except ParseError (Step Statement Node) :=
  if l.isNewline && (remaining.isEmpty || optional) then .ok (.done node)
  else
    -- words that may be left out are left out together
    match remaining with
    | word :: rest => expect word l (fixed (node.withSpan (node.span.through l.span)) rest false)
    | [] => .error (.unexpected l .controlFlow)

/-- What a lexeme that is no trivia does to a statement that has begun and takes no text as it stands
(`StatementBuilder::push_significant`). -/
def take (s : Statement) (l : Lexeme) : Except ParseError (Step Statement Node) :=
  match s with
  | bare phrase => pushBare phrase l
  | parameters name names current => pushParameter name names current l
  | slot first s phrase => pushSlot first s phrase l
  | listen first =>
    if l.isNewline then .ok (.done (.input first none))
    else expect "to" l (await first .inputTarget)
  | adjust first up target count last =>
    if l.isNewline then .ok (.done (adjustment first up target count last))
    else if l.kind = .delimiter then .ok (.next s)
    else expect (directionWord up) l (adjust first up target (count + 1) l.span)
  | turn first =>
    match l.word.bind Vocabulary.rounding with
    | some mode => .ok (.next (await first (.turnTarget (some mode))))
    | none => pushSlot first (.turnTarget none) (.empty .location) l
  | rock first target values =>
    (values.push l).bind fun
      | .next values => .ok (.next (rock first target values))
      | .done list =>
        let (values, span) := items list
        .ok (.next (finished (pushNode first target values (some span))))
      | .yield list l =>
        let (values, span) := items list
        endWith (pushNode first target values (some span)) l .push
  | give first =>
    if l.isWord "back" then .ok (.next (await first .giveBack))
    else pushSlot first .giveBack (.empty .value) l
  | fixed node remaining optional => pushFixed node remaining optional l
  | finished node => endWith node l .endOfStatement
  | start _ | poetic .. | verbatim .. => .error (.unexpected l s.construct)

/-- What a lexeme does to a statement (`StatementBuilder::push`). -/
def push (s : Statement) (l : Lexeme) : Except ParseError (Step Statement Node) :=
  match s with
  | start blank => pushStart blank l
  | verbatim target text started last => .ok (pushVerbatim target text started last l)
  | poetic target literal =>
    (literal.push l).map fun
      | .next literal => .next (poetic target literal)
      | .done value | .yield value _ => .done (assignment target value)
  | s => if l.isTrivia then .ok (.next s) else s.take l

/-- What a statement becomes if the source ends at `stop` (`StatementBuilder::finish`). -/
def finish (s : Statement) (stop : Span) : Except ParseError (Option Node) :=
  if s.isStart then .ok none else .error (.unfinished s.construct stop)

/-! ### The last lexeme

A statement reads the end of its line itself. What is around it never gets a lexeme back. -/

theorem absorbs_endWith (node : Node) (l : Lexeme) (within : Construct) :
    Absorbs (endWith node l within) :=
  .ite (.done node) (.error _)

theorem absorbs_expect (word : String) (l : Lexeme) (then_ : Statement) :
    Absorbs (expect word l then_) :=
  .ite (.next then_) (.error _)

theorem absorbs_part (start : Span) (kind : Change) (node : Node) (l : Lexeme) (part : Part) :
    Absorbs (part.close start kind node l) := by
  cases part with
  | source => exact .ite (.map fun _ => .done _) (.ite (.next _) (.ite (.next _) (.error _)))
  | into src => exact .ite (.map fun _ => .done _) (.ite (.next _) (.error _))
  | argument src dest => exact .ite (.map fun _ => .done _) (.error _)

theorem absorbs_close (start : Span) (node : Node) (l : Lexeme) (s : Slot) :
    Absorbs (s.close start node l) := by
  cases s with
  | letTarget | putValue | adjustTarget up => exact absorbs_expect _ _ _
  | turnTarget mode =>
    cases mode with
    | some mode => exact absorbs_endWith _ _ _
    | none =>
      rw [Slot.close]
      split
      · exact .next _
      · exact .error _
  | pushTarget | popSource | giveBack => exact .ite (.next _) (absorbs_endWith _ _ _)
  | change kind part => exact absorbs_part start kind node l part
  | _ => exact absorbs_endWith _ _ _

theorem absorbs_pushSlot (start : Span) (s : Slot) (phrase : Phrase) (l : Lexeme) :
    Absorbs (pushSlot start s phrase l) := by
  refine .bind fun fed => ?_
  cases fed with
  | pending phrase => exact .next _
  | finished node l => exact absorbs_close start node l s

theorem absorbs_pushBare (phrase : Phrase) (l : Lexeme) : Absorbs (pushBare phrase l) := by
  unfold pushBare
  refine .ite (.map fun _ => .next _) (.ite (.map fun _ => .next _) (.ite (.map fun _ => .next _)
    (.bind fun fed => ?_)))
  cases fed with
  | pending phrase => exact .next _
  | finished node l => exact absorbs_endWith node l _

theorem absorbs_pushStart (blank : Bool) (l : Lexeme) : Absorbs (pushStart blank l) := by
  have hline : Absorbs (.ok (if blank then .done (.blank l.span) else .next fresh) :
      Except ParseError (Step Statement Node)) := by
    cases blank with
    | true => exact .done _
    | false => exact .next _
  unfold pushStart
  split
  · exact .next _
  · exact .next _
  · exact hline
  · exact hline
  · split
    · exact .next _
    · exact absorbs_pushBare _ l

theorem absorbs_pushParameter (name : Node) (names : List String) (current : Phrase) (l : Lexeme) :
    Absorbs (pushParameter name names current l) := by
  refine .ite (.next _) (.bind fun fed => ?_)
  split
  · exact .next _
  · exact .ite (.done _) (.ite (.next _) (.error _))
  · exact .error _

theorem absorbs_pushFixed (node : Node) (remaining : List String) (optional : Bool) (l : Lexeme) :
    Absorbs (pushFixed node remaining optional l) := by
  refine .ite (.done node) ?_
  cases remaining with
  | nil => exact .error _
  | cons word rest => exact absorbs_expect _ _ _

theorem absorbs_take (s : Statement) (l : Lexeme) : Absorbs (s.take l) := by
  cases s with
  | bare phrase => exact absorbs_pushBare phrase l
  | parameters name names current => exact absorbs_pushParameter name names current l
  | slot first s phrase => exact absorbs_pushSlot first s phrase l
  | listen first => exact .ite (.done _) (absorbs_expect _ _ _)
  | adjust first up target count last => exact .ite (.done _) (.ite (.next _) (absorbs_expect _ _ _))
  | turn first =>
    rw [take]
    split
    · exact .next _
    · exact absorbs_pushSlot _ _ _ l
  | rock first target values =>
    refine .bind fun step => ?_
    cases step with
    | next values => exact .next _
    | done list => exact .next _
    | yield list l => exact absorbs_endWith _ _ _
  | give first => exact .ite (.next _) (absorbs_pushSlot _ _ _ l)
  | fixed node remaining optional => exact absorbs_pushFixed node remaining optional l
  | finished node => exact absorbs_endWith _ _ _
  | start | poetic | verbatim => exact .error _

/-- **A statement ends with its line**: it hands no lexeme back. -/
theorem absorbs_push (s : Statement) (l : Lexeme) : Absorbs (s.push l) := by
  cases s with
  | start blank => exact absorbs_pushStart blank l
  | verbatim target text started last =>
    rw [push, pushVerbatim]
    split
    · exact .done _
    · exact .next _
  | poetic target literal =>
    refine .map fun step => ?_
    cases step with
    | next literal => exact .next _
    | done value | yield value l => exact .done _
  | _ => exact .ite (.next _) (absorbs_take _ l)

end Statement

end Ballad.Reading
