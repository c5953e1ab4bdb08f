import Ballad.Proofs.Evaluation.Keeping

/-!
# What the rules of the language keep

One lemma for each rule of the language says that two evaluators that coincide on the parts of a node
coincide on the node, as long as an invariant lasts. With one evaluator in both places, the lemmas say
what the rule keeps.

- `Evaluator.Alike I stop X ev ev'`: the two evaluators coincide on names and on the expressions of
  the class `X`.
- `IgnoresTables`, `AllowsAssignment`: what an invariant has to put up with where arrays are changed
  and where variables are assigned to. `Evaluator.Assigns`: it may do with the names that expressions
  of a class are resolved to.
- `Evaluator.Alike.write`, `Evaluator.Alike.call` and so on: the rules for expressions and for the
  statements that have nothing but expressions as parts.
- `Evaluator.agrees_block`, `Evaluator.agrees_nested`, `Evaluator.agrees_loop`,
  `Evaluator.coincides_enter`: the rules for bodies, which are executed in frames of their own.
- `Evaluator.Supplied`: a loop has steps up to the ceiling, or may run out of them.
-/

namespace Ballad

/-- The variables of a call: the parameters of the function with the values that it is called with. -/
def Closure.bind (closure : Closure) (values : List Value) : Bindings :=
  (closure.parameters.zip values).foldl (fun b (name, v) => Association.insert name v b) []

namespace Evaluation

/-- An invariant says nothing about what arrays hold. -/
def IgnoresTables (I : Env → World → Prop) : Prop :=
  ∀ env w ts, I env w → I env { w with store := { w.store with tables := ts } }

/-- An invariant lasts when a variable is assigned to. -/
def AllowsAssignment (I : Env → World → Prop) : Prop :=
  ∀ env w name v, I env w →
    I env { w with store := (w.store.set env.frame name v).setReferent (some name) }

/-- An invariant says nothing about input and output. -/
def IgnoresHost (I : Env → World → Prop) : Prop :=
  ∀ env w inputs said, I env w → I env { w with inputs := inputs, said := said }

section

variable {I : Env → World → Prop} {stop : Halt → Prop}

/-- New arrays keep what does not depend on arrays. -/
theorem IgnoresTables.keeps_newTable (h : IgnoresTables I) (t : Table) :
    Keeps I stop (newTable t) :=
  keeps_updateStore fun env w => h env w _

/-- So do changes of arrays. -/
theorem IgnoresTables.keeps_modifyTable (h : IgnoresTables I) (r : TableRef) (f : Table → Table) :
    Keeps I stop (modifyStore fun s => s.modifyTable r f) :=
  keeps_modifyStore fun env w => h env w _

/-- An assignment keeps what allows assignments. -/
theorem AllowsAssignment.keeps_assign (h : AllowsAssignment I) (name : String) (v : Value) :
    Keeps I stop (assign name v) :=
  fun env w hw => ⟨h env w name v hw, trivial⟩

end

namespace Evaluator

/-- Two evaluators coincide on names, and on the expressions of a class that has with a tree all trees
below it. -/
structure Alike (I : Env → World → Prop) (stop : Halt → Prop) (X : Node → Prop)
    (ev ev' : Evaluator) : Prop where
  halts : ∀ e : Halt, e.IsPlain → stop e
  below : ∀ n, X n → ∀ c ∈ n.children, X c
  resolve : ∀ n, Agrees I stop (ev.resolve n) (ev'.resolve n) fun found =>
    found = none → n.isName = false
  eval : ∀ n, X n → Coincides I stop (ev.eval n) (ev'.eval n)

/-- The variables that expressions of a class are resolved to can be assigned to. -/
def Assigns (I : Env → World → Prop) (stop : Halt → Prop) (X : Node → Prop) (ev : Evaluator) : Prop :=
  ∀ n, X n → Meets I stop (ev.resolve n) fun found =>
    ∀ name ∈ found, ∀ v, Keeps I stop (assign name v)

namespace Alike

variable {I : Env → World → Prop} {stop : Halt → Prop} {X : Node → Prop} {ev ev' : Evaluator}
  (h : Alike I stop X ev ev')

include h

/-- Where all variables can be assigned to. -/
theorem assigns (hassign : AllowsAssignment I) : Assigns I stop X ev := fun n _ =>
  (h.resolve n).meets.imp fun _ _ name _ v => hassign.keeps_assign name v

/-- The values of some nodes. -/
theorem evalAll {nodes : List Node} (hX : ∀ n ∈ nodes, X n) :
    Coincides I stop (ev.evalAll nodes) (ev'.evalAll nodes) := by
  induction nodes with
  | nil => exact agrees_pure trivial
  | cons n ns ih =>
    have hrest := ih fun m hm => hX m (List.mem_cons_of_mem _ hm)
    exact (h.eval n (hX n List.mem_cons_self)).bind fun _ => hrest.bind fun _ => agrees_pure trivial

/-! ### Locations -/

/-- To read a location takes its parts only. -/
theorem tryRead_of_below {node : Node} (hX : node.isLocation = false → X node)
    (hbelow : ∀ c ∈ node.children, X c) :
    Coincides I stop (ev.tryRead node) (ev'.tryRead node) := by
  unfold Evaluator.tryRead
  refine (h.resolve node).bind fun found hfound => ?_
  cases found with
  | some name => exact (keeps_currentFrame.bind fun _ => keeps_inspect _).agrees
  | none =>
    have hname := hfound rfl
    cases node with
    | var | pronoun => cases hname
    | index span target key =>
      exact (h.eval target (hbelow _ (by simp [Node.children]))).bind fun _ =>
        (h.eval key (hbelow _ (by simp [Node.children]))).bind fun _ =>
          (keeps_entry h.halts _ _ _).andThen fun _ => agrees_pure trivial
    | _ => exact (h.eval _ (hX rfl)).bind fun _ => agrees_pure trivial

/-- The value of a location, if the evaluators are alike on its parts. -/
theorem read_of_below {node : Node} (hX : node.isLocation = false → X node)
    (hbelow : ∀ c ∈ node.children, X c) : Coincides I stop (ev.read node) (ev'.read node) := by
  unfold Evaluator.read
  refine (h.tryRead_of_below hX hbelow).bind fun found => ?_
  cases found with
  | some v => exact agrees_pure trivial
  | none => exact Meets.agrees (meets_fail h.halts trivial)

/-- The value of a location, if it has one. -/
theorem tryRead {node : Node} (hX : X node) :
    Coincides I stop (ev.tryRead node) (ev'.tryRead node) :=
  h.tryRead_of_below (fun _ => hX) (h.below node hX)

/-- The value of a location. -/
theorem read {node : Node} (hX : X node) : Coincides I stop (ev.read node) (ev'.read node) :=
  h.read_of_below (fun _ => hX) (h.below node hX)

/-- A value that is taken off an array. -/
theorem pop (htables : IgnoresTables I) {target : Node} (hX : X target) :
    Coincides I stop (ev.pop target) (ev'.pop target) := by
  unfold Evaluator.pop
  refine (h.read hX).bind fun v => Meets.agrees ?_
  split
  · exact (keeps_inspect _).bind fun _ => (htables.keeps_modifyTable _ _).bind fun _ => keeps_pure _
  · exact meets_unfit h.halts _ _ _

/-- The array of a location, which may have to be made. -/
theorem arrayWith (htables : IgnoresTables I) {target : Node} {use : Use}
    {store store' : Value → Eval Unit} (hX : X target)
    (hstore : ∀ v, Coincides I stop (store v) (store' v)) :
    Coincides I stop (ev.arrayWith target use store) (ev'.arrayWith target use store') := by
  have hcreate : Coincides I stop (arrayWith.create store) (arrayWith.create store') :=
    (htables.keeps_newTable _).andThen fun _ => (hstore _).bind fun _ => agrees_pure trivial
  unfold Evaluator.arrayWith
  refine (h.tryRead hX).bind fun found => ?_
  split
  · exact agrees_pure trivial
  · split
    · exact hcreate
    · exact (meets_unfit h.halts _ _ _).agrees
  · exact hcreate

/-- Assigning goes down the targets of the location. -/
theorem write (htables : IgnoresTables I) (hassign : Assigns I stop X ev) {node : Node} (hX : X node)
    (v : Value) : Coincides I stop (ev.write node v) (ev'.write node v) := by
  induction node using Evaluator.write.induct generalizing v with
  | case1 span target key ih =>
    have htarget : X target := h.below _ hX _ (by simp [Node.children])
    have hkey : X key := h.below _ hX _ (by simp [Node.children])
    refine (h.eval key hkey).bind fun _ => (keeps_keyOf h.halts _ _).andThen fun _ => ?_
    refine Coincides.bind (h.arrayWith htables htarget fun v => ih htarget v) fun r => ?_
    exact (htables.keeps_modifyTable _ _).coincides
  | case2 node hnode =>
    rw [Evaluator.write, Evaluator.write]
    · have hresolve : Agrees I stop (ev.resolve node) (ev'.resolve node) _ :=
        ⟨hassign node hX, (h.resolve node).same⟩
      refine hresolve.bind fun found hfound => Meets.agrees ?_
      cases found with
      | some name => exact hfound name rfl v
      | none => exact meets_fail h.halts trivial
    · exact hnode
    · exact hnode

/-! ### Changes in place -/

/-- What a string is split at or joined with. -/
theorem delimiter {argument : Option Node} (hX : ∀ x ∈ argument, X x) :
    Coincides I stop (ev.delimiter argument) (ev'.delimiter argument) := by
  cases argument with
  | none => exact agrees_pure trivial
  | some node =>
    exact (h.eval node (hX node rfl)).bind fun _ => (keeps_asString h.halts _ _ _).coincides

/-- The base of a number that is cast. -/
theorem radix {argument : Option Node} (hX : ∀ x ∈ argument, X x) :
    Coincides I stop (ev.radix argument) (ev'.radix argument) := by
  cases argument with
  | none => exact agrees_pure trivial
  | some node =>
    refine (h.eval node (hX node rfl)).bind fun _ => Meets.agrees ?_
    refine (keeps_asNumber h.halts _ _ _).bind fun n => ?_
    split
    · exact keeps_pure _
    · exact meets_fail h.halts trivial

/-- A string that is split. -/
theorem split (hnew : ∀ t, Keeps I stop (newTable t)) (source : Value) {argument : Option Node}
    (hX : ∀ x ∈ argument, X x) (span : Span) :
    Coincides I stop (ev.split source argument span) (ev'.split source argument span) :=
  (keeps_asString h.halts _ _ _).andThen fun _ => (h.delimiter hX).bind fun _ =>
    (hnew _).andThen fun _ => agrees_pure trivial

/-- An array that is joined. -/
theorem join (source : Value) {argument : Option Node} (hX : ∀ x ∈ argument, X x) (span : Span) :
    Coincides I stop (ev.join source argument span) (ev'.join source argument span) := by
  cases source with
  | array r => exact (h.delimiter hX).bind fun _ => (keeps_inspect _).coincides
  | _ => exact (meets_unfit h.halts _ _ _).agrees

/-- A number or a text that is cast. -/
theorem cast (source : Value) {argument : Option Node} (hX : ∀ x ∈ argument, X x) (span : Span) :
    Coincides I stop (ev.cast source argument span) (ev'.cast source argument span) := by
  unfold Evaluator.cast
  refine (h.radix hX).bind fun r => Meets.agrees ?_
  split
  · split
    · exact keeps_pure _
    · exact meets_unfit h.halts _ _ _
  · split
    · exact keeps_pure _
    · exact meets_fail h.halts trivial
  · exact meets_unfit h.halts _ _ _

/-- A change of a value, which ends with an assignment. -/
theorem change (htables : IgnoresTables I) (hassign : Assigns I stop X ev) (kind : Change)
    {source : Node} {into argument : Option Node} (hsource : X source) (hinto : ∀ x ∈ into, X x)
    (hargument : ∀ x ∈ argument, X x) (span : Span) :
    Coincides I stop (ev.change kind source into argument span)
      (ev'.change kind source into argument span) := by
  have hwrite := h.write htables hassign (Node.getD_of_forall hsource hinto)
  refine (h.eval source hsource).bind fun v => ?_
  cases kind with
  | split => exact (h.split htables.keeps_newTable v hargument span).bind hwrite
  | join => exact (h.join v hargument span).bind hwrite
  | cast => exact (h.cast v hargument span).bind hwrite

/-- Values that are put on top of an array. -/
theorem push (htables : IgnoresTables I) (hassign : Assigns I stop X ev) {target : Node}
    {values : List Node} (htarget : X target) (hvalues : ∀ x ∈ values, X x) :
    Coincides I stop (ev.push target values) (ev'.push target values) := by
  refine (h.evalAll hvalues).bind fun _ => ?_
  refine Coincides.bind ?_ fun r => (htables.keeps_modifyTable _ _).coincides
  exact h.arrayWith htables htarget (h.write htables hassign htarget)

/-- Rounding. -/
theorem round (htables : IgnoresTables I) (hassign : Assigns I stop X ev) {target : Node}
    (htarget : X target) (mode : Rounding) (span : Span) :
    Coincides I stop (ev.round target mode span) (ev'.round target mode span) :=
  (h.read htarget).bind fun _ => (keeps_asNumber h.halts _ _ _).andThen fun _ =>
    h.write htables hassign htarget _

/-! ### Operations -/

/-- An operation, whose right operand may be left out. -/
theorem binary (op : Operator) {left right : Node} (hleft : X left) (hright : X right)
    (span : Span) :
    Coincides I stop (ev.binary op left right span) (ev'.binary op left right span) := by
  unfold Evaluator.binary
  refine (h.eval left hleft).bind fun a => ?_
  split
  · refine (keeps_truth h.halts a span).andThen fun x => ?_
    generalize (if op = .and then !x else x) = decided
    -- the right operand is evaluated only if the left one does not decide
    cases decided with
    | true => exact agrees_pure trivial
    | false =>
      exact (h.eval right hright).bind fun b => (keeps_truth h.halts b span).andThen fun _ =>
        agrees_pure trivial
  · exact (h.eval right hright).bind fun b => (keeps_inspect id).andThen fun s =>
      (keeps_apply h.halts s op a b span).coincides

/-- A negation. -/
theorem negation {operand : Node} (hX : X operand) :
    Coincides I stop (ev.negation operand) (ev'.negation operand) :=
  (h.eval operand hX).bind fun v => (keeps_truth h.halts v _).andThen fun _ => agrees_pure trivial

/-! ### Calls and values -/

/-- The called function is one of the store, so it has the property `A` that `I` promises of those. -/
theorem call {A : Closure → Prop} (hclosure : ∀ env w r, I env w → A (w.store.closure r))
    (henter : ∀ closure values, A closure →
      Coincides I stop (ev.enter closure values) (ev'.enter closure values))
    {callee : Node} {arguments : List Node} (hcallee : X callee) (harguments : ∀ x ∈ arguments, X x)
    (span : Span) :
    Coincides I stop (ev.call callee arguments span) (ev'.call callee arguments span) := by
  unfold Evaluator.call
  refine (h.read hcallee).bind fun v => ?_
  cases v with
  | function r =>
    have hfunction : Meets I stop (inspect fun s => s.closure r) A :=
      meets_inspect fun env w hw => hclosure env w r hw
    refine hfunction.agrees.bind fun closure hA => ?_
    split
    · exact (h.evalAll harguments).bind fun values => henter closure values hA
    · exact Meets.agrees (meets_fail h.halts trivial)
  | _ => exact (meets_unfit h.halts _ _ _).agrees

/-- The value of a node, given its rules for calls, for pops, and for statements. -/
theorem evalNode {node : Node} (hbelow : ∀ c ∈ node.children, X c)
    (hnew : ∀ t, Keeps I stop (newTable t))
    (hcall : ∀ span callee arguments, node = .call span callee arguments →
      Coincides I stop (ev.call callee arguments span) (ev'.call callee arguments span))
    (hpop : ∀ span target, node = .pop span target →
      Coincides I stop (ev.pop target) (ev'.pop target))
    (hexec : node.isValue = false → Agrees I stop (ev.exec node) (ev'.exec node)
      fun flow => Keeps I stop (ofExcept flow.stray)) :
    Coincides I stop (ev.evalNode node) (ev'.evalNode node) := by
  cases node with
  | literal => exact agrees_pure trivial
  | var => exact h.read_of_below nofun hbelow
  | pronoun => exact h.read_of_below nofun hbelow
  | index => exact h.read_of_below nofun hbelow
  | list span items =>
    exact (h.evalAll hbelow).bind fun _ => (hnew _).andThen fun _ => agrees_pure trivial
  | binary span op left right =>
    exact h.binary op (hbelow left (by simp [Node.children])) (hbelow right (by simp [Node.children]))
      span
  | negation span operand => exact h.negation (hbelow operand (by simp [Node.children]))
  | call span callee arguments => exact hcall span callee arguments rfl
  | pop span target => exact hpop span target rfl
  | _ => exact (hexec rfl).bind fun _ hflow => hflow.andThen fun _ => agrees_pure trivial

/-! ### Statements -/

/-- A statement that is not for control, given that its parts are expressions of the class, ends
normally. So does an expression that has a value. -/
theorem execNode (htables : IgnoresTables I) (hassign : Assigns I stop X ev) (hhost : IgnoresHost I)
    (steps : Nat) {node : Node} (hcontrol : node.isControl = false)
    (hvalue : node.isValue → Coincides I stop (ev.eval node) (ev'.eval node))
    (hbelow : ∀ c ∈ node.children, X c) :
    Agrees I stop (ev.execNode steps node) (ev'.execNode steps node) (· = .normal) := by
  have hnormal : ∀ _ : Unit, Agrees I stop (pure Flow.normal) (pure .normal) (· = .normal) :=
    fun _ => agrees_pure rfl
  cases node with
  | assign span target value =>
    exact (h.eval value (hbelow value (by simp [Node.children]))).bind fun v =>
      (h.write htables hassign (hbelow target (by simp [Node.children])) v).bind hnormal
  | input span target =>
    have hnext : Keeps I stop nextInput := fun env w hw => ⟨hhost env w _ w.said hw, trivial⟩
    have hintern : ∀ host, Keeps I stop (updateStore fun s => s.intern host) := by
      intro host
      refine keeps_updateStore fun env w hw => ?_
      obtain ⟨added, hadded⟩ := Store.intern_eq w.store host
      rw [hadded]
      exact htables env w _ hw
    -- the input is taken before the target is looked at
    refine hnext.andThen fun host => (hintern host).andThen fun v => ?_
    cases target with
    | none => exact agrees_pure rfl
    | some target =>
      exact (h.write htables hassign (hbelow target (by simp [Node.children])) v).bind hnormal
  | output span value =>
    have hannounce : ∀ v, Keeps I stop (announce v) := fun v env w hw =>
      ⟨hhost env w w.inputs _ hw, trivial⟩
    exact (h.eval value (hbelow value (by simp [Node.children]))).bind fun v =>
      (hannounce v).andThen hnormal
  | push span target values =>
    have hvalues : ∀ x ∈ values, X x := fun x hx => hbelow x (by simp [Node.children, hx])
    exact (h.push htables hassign (hbelow target (by simp [Node.children])) hvalues).bind hnormal
  | change span kind source into argument =>
    have hinto : ∀ x ∈ into, X x := fun x hx =>
      hbelow x (by simp [Node.children, Option.mem_def.mp hx])
    have hargument : ∀ x ∈ argument, X x := fun x hx =>
      hbelow x (by simp [Node.children, Option.mem_def.mp hx])
    exact (h.change htables hassign kind (hbelow source (by simp [Node.children])) hinto hargument
      span).bind hnormal
  | round span target mode =>
    exact (h.round htables hassign (hbelow target (by simp [Node.children])) mode span).bind hnormal
  | conditional | loop | function | giveBack | breakLoop | continueLoop => cases hcontrol
  | otherwise | blank => exact agrees_pure rfl
  | _ => exact (hvalue rfl).bind fun _ => agrees_pure rfl

end Alike

/-! ### Bodies -/

section

variable {I : Env → World → Prop} {stop : Halt → Prop} {ev ev' : Evaluator} {P Q : Flow → Prop}

/-- The statements of a block, until one ends with a signal. -/
theorem agrees_block (hnormal : P .normal) {nodes : List Node}
    (h : ∀ n ∈ nodes, Agrees I stop (ev.exec n) (ev'.exec n) P) :
    Agrees I stop (ev.block nodes) (ev'.block nodes) P := by
  induction nodes with
  | nil => exact agrees_pure hnormal
  | cons n ns ih =>
    refine (h n List.mem_cons_self).bind fun flow hflow => ?_
    cases flow with
    | normal => exact ih fun m hm => h m (List.mem_cons_of_mem _ hm)
    | _ => exact agrees_pure hflow

/-- A block in a new frame, where something else may have to hold. -/
theorem agrees_nested {kind : FrameKind} {nodes : List Node}
    (h : ∀ env w, I env w → ∃ J, Inner I J env w env.frame kind [] ∧
      Agrees J stop (ev.block nodes) (ev'.block nodes) P) :
    Agrees I stop (ev.nested kind nodes) (ev'.nested kind nodes) P := by
  refine agrees_currentFrame fun frame => agrees_inNew ?_
  rintro env w ⟨hw, rfl⟩
  obtain ⟨J, hinner, hblock⟩ := h env w hw
  exact ⟨J, ⟨hinner.enter, fun w' hw' => ⟨hinner.leave w' hw', rfl⟩⟩, hblock⟩

/-- A branch, whichever is chosen. -/
theorem agrees_conditional (hnormal : P .normal) {condition : Node} {body other : List Node}
    (hcondition : Coincides I stop (ev.eval condition) (ev'.eval condition))
    (hbody : Agrees I stop (ev.nested .conditional body) (ev'.nested .conditional body) P)
    (hother : Agrees I stop (ev.nested .conditional other) (ev'.nested .conditional other) P) :
    Agrees I stop (ev.conditional condition body other) (ev'.conditional condition body other) P := by
  have hchosen : ∀ chosen, Agrees I stop (ev.nested .conditional chosen)
        (ev'.nested .conditional chosen) P →
      Agrees I stop (if chosen.isEmpty then pure .normal else ev.nested .conditional chosen)
        (if chosen.isEmpty then pure .normal else ev'.nested .conditional chosen) P := by
    intro chosen h
    split
    · exact agrees_pure hnormal
    · exact h
  refine hcondition.bind fun v => hchosen _ ?_
  split
  · exact hbody
  · exact hother

/-- The steps of a loop may run out, or the ceiling comes first. -/
def Supplied (I : Env → World → Prop) (stop : Halt → Prop) (steps count : Nat) : Prop :=
  stop .exhausted ∨
    ∃ limit, count ≤ limit ∧ limit < count + steps ∧ ∀ env w, I env w → env.ceiling = some limit

/-- A round that begins is below the ceiling, so there are steps for the next one. -/
theorem Supplied.next {steps count : Nat} (h : Supplied I stop (steps + 1) count) :
    Meets I stop (ceilingAt? count) fun limit =>
      limit = none → Supplied I stop steps (count + 1) := by
  intro env w hw
  refine ⟨hw, fun hnone => ?_⟩
  rcases h with hstop | ⟨limit, hcount, hsteps, hceiling⟩
  · exact .inl hstop
  · rw [hceiling env w hw, Option.filter_some] at hnone
    have hbelow : ¬ limit ≤ count := by
      intro hle
      rw [if_pos (by simpa using hle)] at hnone
      cases hnone
    exact .inr ⟨limit, by omega, by omega, hceiling⟩

/-- A loop takes the signals that are meant for loops, and passes on what is given back. -/
theorem agrees_loop (hstop : ∀ e : Halt, e.IsPlain → stop e) (hnormal : Q .normal)
    (hgive : ∀ v at_, P (.giveBack v at_) → Q (.giveBack v at_)) {condition : Node}
    {body : List Node} (hcondition : Coincides I stop (ev.eval condition) (ev'.eval condition))
    (hbody : Agrees I stop (ev.nested .loop body) (ev'.nested .loop body) P) (goal : Bool)
    (span : Span) {steps count : Nat} (hsteps : Supplied I stop steps count) :
    Agrees I stop (ev.loop condition body goal span steps count)
      (ev'.loop condition body goal span steps count) Q := by
  induction steps generalizing count with
  | zero =>
    rcases hsteps with hexhausted | ⟨limit, hcount, hlimit, -⟩
    · exact (meets_halt hexhausted).agrees
    · omega
  | succ steps ih =>
    refine hcondition.bind fun v => ?_
    split
    · exact agrees_pure hnormal
    · refine hsteps.next.agrees.bind fun limit hnext => ?_
      cases limit with
      | some limit => exact Meets.agrees (meets_fail hstop trivial)
      | none =>
        refine hbody.bind fun flow hflow => ?_
        -- only what is given back gets out of the loop
        cases flow with
        | normal => exact ih (hnext rfl)
        | breakLoop _ => exact agrees_pure hnormal
        | continueLoop _ => exact ih (hnext rfl)
        | giveBack v at_ => exact agrees_pure (hgive v at_ hflow)

/-- A call takes what its function gives back. Any other signal that gets out of the body is stray. -/
theorem coincides_enter {closure : Closure} {values : List Value}
    (h : ∀ env w, I env w → ∃ J, Inner I J env w closure.frame .function (closure.bind values) ∧
      Agrees J stop (ev.block closure.body) (ev'.block closure.body) P)
    (hstray : ∀ flow, P flow → (∀ v at_, flow ≠ .giveBack v at_) →
      Keeps I stop (ofExcept flow.stray)) :
    Coincides I stop (ev.enter closure values) (ev'.enter closure values) := by
  have hbody : Agrees I stop
      (inNew closure.frame .function (closure.bind values) (ev.block closure.body))
      (inNew closure.frame .function (closure.bind values) (ev'.block closure.body)) P :=
    agrees_inNew h
  unfold enter
  dsimp only
  -- the new frame and the body in it are one step
  rw [← bind_assoc, ← bind_assoc]
  refine hbody.bind fun flow hflow => ?_
  cases flow with
  | giveBack v at_ => exact agrees_pure trivial
  | normal => exact (hstray _ hflow nofun).andThen fun _ => agrees_pure trivial
  | breakLoop _ => exact (hstray _ hflow nofun).andThen fun _ => agrees_pure trivial
  | continueLoop _ => exact (hstray _ hflow nofun).andThen fun _ => agrees_pure trivial

end

end Evaluator

end Evaluation

end Ballad
