import Ballad.Evaluation.Evaluator
import Ballad.Proofs.Simulation.Following

/-!
# The rules of the language, side by side

One lemma for each rule of the language says that an evaluator follows another one on a node if it
does on its parts.

- `Evaluator.Follows`: one evaluator follows another one on all nodes.
- `Evaluator.Follows.write`, `Evaluator.Follows.loop` and so on: the rules.
- `evaluator_follows`: the evaluator with fewer steps follows the one with more. Where it may not run
  out of steps, both have the same.
- `runAll_follows`: the same for programs.
-/

namespace Ballad.Evaluation

open Renamed

section

variable {α : Type} [Renamed α] {ρ : Renaming} {cut : Halt → Prop}

/-! ### Values -/

/-- A value that does not fit is described in the same words. -/
theorem follows_unfit (v : Value) (use : Use) (span : Span) :
    Follows ρ cut (unfit v use span : Eval α) (unfit (rename ρ v) use span) :=
  (follows_inspect fun _ _ hs => hs.describe v).bind fun _ => follows_halt _

theorem follows_asNumber (v : Value) (use : Use) (span : Span) :
    Follows ρ cut (asNumber v use span) (asNumber (rename ρ v) use span) := by
  cases v with
  | number n => exact follows_pure n
  | _ => exact follows_unfit _ _ _

theorem follows_asString (v : Value) (use : Use) (span : Span) :
    Follows ρ cut (asString v use span) (asString (rename ρ v) use span) := by
  cases v with
  | string s => exact follows_pure s
  | _ => exact follows_unfit _ _ _

/-- The same values are keys. -/
theorem follows_keyOf (v : Value) (span : Span) :
    Follows ρ cut (keyOf v span) (keyOf (rename ρ v) span) := by
  unfold keyOf
  rw [Key.ofValue?_rename]
  cases Key.ofValue? v with
  | some key => exact follows_pure key
  | none => exact (follows_inspect fun _ _ hs => hs.describe v).bind fun _ => follows_halt _

/-- The character at a position is the same, for positions are not renamed. -/
theorem charAt?_rename (s : String) (index : Value) :
    charAt? s (rename ρ index) = rename ρ (charAt? s index) := by
  cases index with
  | number n =>
    show (n.position?.bind fun p => s.toList[p]?).map _ = Option.map _ (Option.map _ _)
    rw [Option.map_map]
    rfl
  | _ => rfl

/-- An entry of an array or a character of a string. -/
theorem follows_entry (container index : Value) (span : Span) :
    Follows ρ cut (entry container index span)
      (entry (rename ρ container) (rename ρ index) span) := by
  cases container with
  | array r =>
    refine (follows_keyOf index span).bind fun key => ?_
    have hentry : Follows ρ cut (inspect fun s => (s.table r).get? key)
        (inspect fun s => (s.table (rename ρ r)).get? key) := by
      refine follows_inspect fun s s' hs => ?_
      rw [hs.table, Table.get?_rename]
    refine hentry.bind fun found => ?_
    cases found with
    | none => exact follows_pure _
    | some v => exact follows_pure v
  | string s =>
    show Follows ρ cut (entry (.string s) index span) (entry (.string s) (rename ρ index) span)
    unfold entry
    dsimp only
    rw [charAt?_rename]
    cases charAt? s index with
    | some v => exact follows_pure v
    | none => exact (follows_inspect fun _ _ hs => hs.describe index).bind fun _ => follows_halt _
  | _ => exact follows_unfit _ _ _

/-- What pronouns stand for is the same name. -/
theorem follows_resolve (node : Node) : Follows ρ cut (resolve node) (resolve node) := by
  cases node with
  | var span name => exact follows_pure (some name)
  | pronoun span word =>
    have hreferent : Follows ρ cut (inspect Store.referent) (inspect Store.referent) := by
      refine follows_inspect fun s s' hs => ?_
      rw [hs.referent]
      cases s.referent <;> rfl
    refine hreferent.bind fun referent => ?_
    cases referent with
    | some name => exact follows_pure (some name)
    | none => exact follows_halt _
  | _ => exact follows_pure none

/-- The truth of an operand. -/
theorem follows_truth (v : Value) (span : Span) :
    Follows ρ cut (Operation.truth v span) (Operation.truth (rename ρ v) span) := by
  cases v with
  | array r => exact follows_unfit _ _ _
  | function r => exact follows_unfit _ _ _
  | _ => exact follows_pure _

/-- A new array. -/
theorem follows_newTable (t : Table) : Follows ρ cut (newTable t) (newTable (rename ρ t)) :=
  follows_updateStore fun _ _ hs => hs.addTable t

/-- An array is changed alike on both sides. -/
theorem follows_modifyTable (r : TableRef) {f f' : Table → Table}
    (hf : ∀ t, f' (rename ρ t) = rename ρ (f t)) :
    Follows ρ cut (modifyStore fun s => s.modifyTable r f)
      (modifyStore fun s => s.modifyTable (rename ρ r) f') :=
  follows_modifyStore fun _ _ hs => hs.modifyTable r hf

/-- A variable is assigned to alike on both sides. -/
theorem follows_assign (name : String) (v : Value) :
    Follows ρ cut (assign name v) (assign name (rename ρ v)) :=
  follows_currentFrame.bind fun frame =>
    follows_modifyStore fun _ _ hs => (hs.set frame name v).setReferent _

/-! ### Operations -/

instance {ε : Type} : Renamed (Except ε α) := ⟨fun ρ => Except.map (rename ρ)⟩

/-- A result is followed by a result and an error by the same error. -/
theorem follows_ofExcept (result : Except RuntimeError α) :
    Follows ρ cut (ofExcept result) (ofExcept (rename ρ result)) := by
  cases result with
  | ok a => exact follows_pure a
  | error e => exact follows_halt _

/-- A stray signal is the same error. -/
theorem follows_stray (flow : Flow) :
    Follows ρ cut (ofExcept flow.stray) (ofExcept (rename ρ flow).stray) := by
  cases flow with
  | normal => exact follows_pure ()
  | _ => exact follows_halt _

/-- References are compared with one another only. -/
theorem eq_rename (a b : Value) : (rename ρ a).eq (rename ρ b) = a.eq b := by
  cases a with
  | array r =>
    cases b with
    | array q => exact decide_eq_decide.mpr (TableRef.rename_inj ρ).eq_iff
    | _ => rfl
  | function r =>
    cases b with
    | function q => exact decide_eq_decide.mpr (FunctionRef.rename_inj ρ).eq_iff
    | _ => rfl
  | _ => cases b <;> rfl

/-- The operand to blame is the same. -/
theorem offender_rename (op : Operator) (a b : Value) :
    Operation.offender op (rename ρ a) (rename ρ b) = rename ρ (Operation.offender op a b) := by
  cases a with
  | string s =>
    show (if _ then _ else _) = rename ρ (if _ then _ else _)
    split <;> rfl
  | _ => rfl

/-- Operators see references only where they compare them, or describe what does not fit. -/
theorem apply_rename {s s' : Store} (hs : s.Mirrors ρ s') (op : Operator) (a b : Value)
    (span : Span) :
    Operation.apply s' op (rename ρ a) (rename ρ b) span =
      rename ρ (Operation.apply s op a b span) := by
  unfold Operation.apply
  rw [offender_rename, hs.describe, eq_rename]
  cases a with
  | number x =>
    cases b with
    | _ => cases op <;> rfl
  | string x =>
    cases b with
    | _ => cases op <;> rfl
  | _ => cases op <;> rfl

/-- The value of an operation. -/
theorem follows_apply (op : Operator) (a b : Value) (span : Span) :
    Follows ρ cut (do ofExcept (Operation.apply (← inspect id) op a b span))
      (do ofExcept (Operation.apply (← inspect id) op (rename ρ a) (rename ρ b) span)) :=
  (follows_inspect fun _ _ hs => apply_rename hs op a b span).bind follows_ofExcept

end

namespace Evaluator

/-- One evaluator follows another one on all nodes. -/
structure Follows (ρ : Renaming) (cut : Halt → Prop) (ev ev' : Evaluator) : Prop where
  resolve : ∀ n, Evaluation.Follows ρ cut (ev.resolve n) (ev'.resolve n)
  eval : ∀ n, Evaluation.Follows ρ cut (ev.eval n) (ev'.eval n)
  exec : ∀ n, Evaluation.Follows ρ cut (ev.exec n) (ev'.exec n)

namespace Follows

variable {ρ : Renaming} {cut : Halt → Prop} {ev ev' : Evaluator} (h : Follows ρ cut ev ev')

include h

/-- The values of some nodes. -/
theorem evalAll (nodes : List Node) :
    Evaluation.Follows ρ cut (ev.evalAll nodes) (ev'.evalAll nodes) := by
  induction nodes with
  | nil => exact follows_pure []
  | cons n ns ih => exact (h.eval n).bind fun v => ih.bind fun vs => follows_pure (v :: vs)

/-! ### Locations -/

/-- The value of a location, if it has one. -/
theorem tryRead (node : Node) :
    Evaluation.Follows ρ cut (ev.tryRead node) (ev'.tryRead node) := by
  have hvalue : ∀ v : Value, Evaluation.Follows ρ cut (pure (some v)) (pure (some (rename ρ v))) :=
    fun v => follows_pure (some v)
  unfold Evaluator.tryRead
  refine (h.resolve node).bind fun found => ?_
  cases found with
  | some name =>
    exact follows_currentFrame.bind fun frame => follows_inspect fun _ _ hs => hs.get? frame name
  | none =>
    cases node with
    | index span target key =>
      exact (h.eval target).bind fun container => (h.eval key).bind fun index =>
        (follows_entry container index span).bind hvalue
    | _ => exact (h.eval _).bind hvalue

/-- The value of a location. -/
theorem read (node : Node) : Evaluation.Follows ρ cut (ev.read node) (ev'.read node) := by
  refine (h.tryRead node).bind fun found => ?_
  cases found with
  | some v => exact follows_pure v
  | none => exact follows_halt _

/-- The array of a location. A new one gets a new name on both sides. -/
theorem arrayWith (target : Node) (use : Use) {store store' : Value → Eval Unit}
    (hstore : ∀ v, Evaluation.Follows ρ cut (store v) (store' (rename ρ v))) :
    Evaluation.Follows ρ cut (ev.arrayWith target use store)
      (ev'.arrayWith target use store') := by
  have hcreate : Evaluation.Follows ρ cut (arrayWith.create store) (arrayWith.create store') := by
    have hnew : Evaluation.Follows ρ cut (newTable .empty) (newTable (rename ρ .empty)) :=
      follows_newTable .empty
    rw [Table.rename_empty] at hnew
    exact hnew.bind fun r => (hstore (.array r)).bind fun _ => follows_pure r
  refine (h.tryRead target).bind fun found => ?_
  cases found with
  | none => exact hcreate
  | some v =>
    cases v with
    | array r => exact follows_pure r
    | null => exact hcreate
    | mysterious => exact hcreate
    | _ => exact follows_unfit _ _ _

/-- Assigning goes down the targets of a location. -/
theorem write (node : Node) (v : Value) :
    Evaluation.Follows ρ cut (ev.write node v) (ev'.write node (rename ρ v)) := by
  induction node using Evaluator.write.induct generalizing v with
  | case1 span target key ih =>
    refine (h.eval key).bind fun index => (follows_keyOf index span).bind fun k => ?_
    refine (h.arrayWith target .indexing ih).bind fun r => ?_
    exact follows_modifyTable r fun t => Table.set_rename ρ t k v
  | case2 node hnode =>
    rw [Evaluator.write, Evaluator.write]
    · refine (h.resolve node).bind fun found => ?_
      cases found with
      | some name => exact follows_assign name v
      | none => exact follows_halt _
    · exact hnode
    · exact hnode

/-! ### Changes in place -/

theorem delimiter (argument : Option Node) :
    Evaluation.Follows ρ cut (ev.delimiter argument) (ev'.delimiter argument) := by
  cases argument with
  | none => exact follows_pure ""
  | some node => exact (h.eval node).bind fun v => follows_asString v .string node.span

theorem radix (argument : Option Node) :
    Evaluation.Follows ρ cut (ev.radix argument) (ev'.radix argument) := by
  cases argument with
  | none => exact follows_pure 10
  | some node =>
    refine (h.eval node).bind fun v => (follows_asNumber v .cast node.span).bind fun n => ?_
    have hplain : rename ρ n = n := rfl
    rw [hplain]
    cases n.toWord?.filter fun r => 2 ≤ r && r ≤ 36 with
    | some r => exact follows_pure r
    | none => exact follows_halt _

/-- What a split makes is a new array with the same texts. -/
theorem split (source : Value) (argument : Option Node) (span : Span) :
    Evaluation.Follows ρ cut (ev.split source argument span)
      (ev'.split (rename ρ source) argument span) := by
  refine (follows_asString source .string span).bind fun text => ?_
  refine (h.delimiter argument).bind fun d => ?_
  have hpieces : rename ρ ((splitText d text).map Value.string) =
      (splitText d text).map Value.string := by
    show List.map _ (List.map _ _) = _
    rw [List.map_map]
    rfl
  have hnew : Evaluation.Follows ρ cut (newTable _) (newTable _) :=
    follows_newTable (.ofValues ((splitText d text).map .string))
  rw [← Table.ofValues_rename, hpieces] at hnew
  exact hnew.bind fun r => follows_pure (Value.array r)

/-- What a join makes of an array is the same text. -/
theorem join (source : Value) (argument : Option Node) (span : Span) :
    Evaluation.Follows ρ cut (ev.join source argument span)
      (ev'.join (rename ρ source) argument span) := by
  cases source with
  | array r =>
    refine (h.delimiter argument).bind fun d => follows_inspect fun s s' hs => ?_
    have htexts : (s'.table (rename ρ r)).values.map s'.text = (s.table r).values.map s.text := by
      rw [hs.table, Table.values, Table.values, Table.toList_entries_rename]
      rw [List.map_map, List.map_map, List.map_map]
      exact List.map_congr_left fun e _ => hs.text e.2
    exact congrArg (fun texts => Value.string (joinTexts d texts)) htexts
  | _ => exact follows_unfit _ _ _

/-- What a cast makes is the same number or text. -/
theorem cast (source : Value) (argument : Option Node) (span : Span) :
    Evaluation.Follows ρ cut (ev.cast source argument span)
      (ev'.cast (rename ρ source) argument span) := by
  refine (h.radix argument).bind fun r => ?_
  have hplain : rename ρ r = r := rfl
  rw [hplain]
  cases source with
  | string text =>
    have hsource : rename ρ (Value.string text) = .string text := rfl
    rw [hsource]
    dsimp only
    cases castText? text r with
    | some n => exact follows_pure (Value.number n)
    | none => exact follows_unfit _ _ _
  | number n =>
    have hsource : rename ρ (Value.number n) = .number n := rfl
    rw [hsource]
    dsimp only
    cases castNumber? n with
    | some s => exact follows_pure (Value.string s)
    | none => exact follows_halt _
  | _ => exact follows_unfit _ _ _

/-- A change of a value. -/
theorem change (kind : Change) (source : Node) (into argument : Option Node) (span : Span) :
    Evaluation.Follows ρ cut (ev.change kind source into argument span)
      (ev'.change kind source into argument span) := by
  refine (h.eval source).bind fun v => ?_
  cases kind with
  | split => exact (h.split v argument span).bind (h.write _)
  | join => exact (h.join v argument span).bind (h.write _)
  | cast => exact (h.cast v argument span).bind (h.write _)

/-- Values that are put on top of an array. -/
theorem push (target : Node) (values : List Node) :
    Evaluation.Follows ρ cut (ev.push target values) (ev'.push target values) := by
  refine (h.evalAll values).bind fun vs => ?_
  refine (h.arrayWith target .array (h.write target)).bind fun r => ?_
  exact follows_modifyTable r fun t => Table.foldl_push_rename ρ t vs

/-- A value that is taken off an array. -/
theorem pop (target : Node) : Evaluation.Follows ρ cut (ev.pop target) (ev'.pop target) := by
  refine (h.read target).bind fun v => ?_
  cases v with
  | array r =>
    have htop : Evaluation.Follows ρ cut (inspect fun s => (s.table r).top)
        (inspect fun s => (s.table (rename ρ r)).top) := by
      refine follows_inspect fun s s' hs => ?_
      rw [hs.table, Table.top_rename]
    exact htop.bind fun top =>
      (follows_modifyTable r (Table.dropTop_rename ρ)).bind fun _ => follows_pure top
  | _ => exact follows_unfit _ _ _

/-- Rounding. -/
theorem round (target : Node) (mode : Rounding) (span : Span) :
    Evaluation.Follows ρ cut (ev.round target mode span) (ev'.round target mode span) :=
  (h.read target).bind fun v => (follows_asNumber v .rounding span).bind fun _ =>
    h.write target (.number _)

/-! ### Operations -/

/-- Both sides evaluate the right operand, or neither does. -/
theorem binary (op : Operator) (left right : Node) (span : Span) :
    Evaluation.Follows ρ cut (ev.binary op left right span) (ev'.binary op left right span) := by
  unfold Evaluator.binary
  refine (h.eval left).bind fun a => ?_
  split
  · refine (follows_truth a span).bind fun x => ?_
    have hplain : rename ρ x = x := rfl
    rw [hplain]
    generalize (if op = .and then !x else x) = decided
    cases decided with
    | true => exact follows_pure (Value.boolean _)
    | false =>
      exact (h.eval right).bind fun b => (follows_truth b span).bind fun y =>
        follows_pure (Value.boolean (if op = .nor then !y else y))
  · exact (h.eval right).bind fun b => follows_apply op a b span

theorem negation (operand : Node) :
    Evaluation.Follows ρ cut (ev.negation operand) (ev'.negation operand) :=
  (h.eval operand).bind fun v => (follows_truth v operand.span).bind fun x =>
    follows_pure (Value.boolean !x)

/-! ### Bodies -/

/-- The statements of a block, until one ends with a signal. -/
theorem block (nodes : List Node) :
    Evaluation.Follows ρ cut (ev.block nodes) (ev'.block nodes) := by
  induction nodes with
  | nil => exact follows_pure Flow.normal
  | cons n ns ih =>
    refine (h.exec n).bind fun flow => ?_
    cases flow with
    | normal => exact ih
    | breakLoop at_ => exact follows_pure (Flow.breakLoop at_)
    | continueLoop at_ => exact follows_pure (Flow.continueLoop at_)
    | giveBack v at_ => exact follows_pure (Flow.giveBack v at_)

/-- A block in a new frame, which is the counterpart of a new frame. -/
theorem nested (kind : FrameKind) (nodes : List Node) :
    Evaluation.Follows ρ cut (ev.nested kind nodes) (ev'.nested kind nodes) :=
  follows_currentFrame.bind fun parent =>
    (follows_updateStore fun _ _ hs => hs.addFrame parent kind []).bind fun frame =>
      (h.block nodes).within frame

/-- Both sides choose the same branch. -/
theorem conditional (condition : Node) (body other : List Node) :
    Evaluation.Follows ρ cut (ev.conditional condition body other)
      (ev'.conditional condition body other) := by
  have hchosen : ∀ chosen : List Node, Evaluation.Follows ρ cut
      (if chosen.isEmpty then pure Flow.normal else ev.nested .conditional chosen)
      (if chosen.isEmpty then pure Flow.normal else ev'.nested .conditional chosen) := by
    intro chosen
    split
    · exact follows_pure Flow.normal
    · exact h.nested .conditional chosen
  refine (h.eval condition).bind fun v => ?_
  rw [Value.isTruthy_rename]
  exact hchosen _

/-- One more round on either side. -/
theorem loop_succ (condition : Node) (body : List Node) (goal : Bool) (span : Span)
    {steps steps' count : Nat}
    (hnext : Evaluation.Follows ρ cut (ev.loop condition body goal span steps (count + 1))
      (ev'.loop condition body goal span steps' (count + 1))) :
    Evaluation.Follows ρ cut (ev.loop condition body goal span (steps + 1) count)
      (ev'.loop condition body goal span (steps' + 1) count) := by
  refine (h.eval condition).bind fun v => ?_
  rw [Value.isTruthy_rename]
  split
  · exact follows_pure Flow.normal
  · refine follows_ceilingAt? (fun _ => rfl) (fun _ => rfl) ?_
    refine (h.nested .loop body).bind fun flow => ?_
    cases flow with
    | normal => exact hnext
    | breakLoop at_ => exact follows_pure Flow.normal
    | continueLoop at_ => exact hnext
    | giveBack v at_ => exact follows_pure (Flow.giveBack v at_)

/-- A loop with fewer steps follows one with more, if it may run out of them. -/
theorem loop (condition : Node) (body : List Node) (goal : Bool) (span : Span)
    {steps steps' : Nat} (hle : steps' ≤ steps) (hsteps : steps' = steps ∨ cut .exhausted)
    (count : Nat) :
    Evaluation.Follows ρ cut (ev.loop condition body goal span steps count)
      (ev'.loop condition body goal span steps' count) := by
  induction steps generalizing steps' count with
  | zero =>
    obtain rfl : steps' = 0 := by omega
    exact follows_halt _
  | succ steps ih =>
    cases steps' with
    | zero =>
      -- one round of either loop, to see that the first one takes nothing back
      have hcut : cut .exhausted := hsteps.resolve_left (by omega)
      have hround := h.loop_succ condition body goal span (ih (Nat.zero_le _) (.inr hcut) (count + 1))
      exact hround.adds.follows_halt hcut
    | succ steps' =>
      exact h.loop_succ condition body goal span (ih (by omega) (hsteps.imp_left (by omega)) _)

/-! ### Functions -/

omit h in
/-- A function closes over the counterpart of the frame. -/
theorem declare (name : String) (parameters : List String) (body : List Node) :
    Evaluation.Follows ρ cut (Evaluator.declare name parameters body)
      (Evaluator.declare name parameters body) := by
  refine follows_currentFrame.bind fun frame => follows_modifyStore fun s s' hs => ?_
  obtain ⟨href, hadd⟩ := hs.addClosure ⟨name, parameters, body, frame⟩
  have hset := hadd.set frame name (.function (s.addClosure ⟨name, parameters, body, frame⟩).1)
  have hvalue : rename ρ (Value.function (s.addClosure ⟨name, parameters, body, frame⟩).1) =
      .function (s'.addClosure (rename ρ ⟨name, parameters, body, frame⟩)).1 :=
    congrArg Value.function href.symm
  rw [hvalue] at hset
  exact hset

/-- A call binds the parameters in a new frame inside of the counterpart of the frame of the
function. -/
theorem enter (closure : Closure) (values : List Value) :
    Evaluation.Follows ρ cut (ev.enter closure values)
      (ev'.enter (rename ρ closure) (rename ρ values)) := by
  have hbindings : (closure.parameters.zip (rename ρ values)).foldl
        (fun b e => Association.insert e.1 e.2 b) [] =
      rename ρ ((closure.parameters.zip values).foldl
        (fun b e => Association.insert e.1 e.2 b) []) := by
    rw [← Bindings.foldl_insert_rename]
    show List.foldl _ _ (closure.parameters.zip (values.map (rename ρ))) = _
    rw [List.zip_map_right]
    rfl
  have hframe : Evaluation.Follows ρ cut
      (updateStore fun s => s.addFrame closure.frame .function
        ((closure.parameters.zip values).foldl (fun b e => Association.insert e.1 e.2 b) []))
      (updateStore fun s => s.addFrame (rename ρ closure.frame) .function
        ((closure.parameters.zip (rename ρ values)).foldl
          (fun b e => Association.insert e.1 e.2 b) [])) := by
    rw [hbindings]
    exact follows_updateStore fun _ _ hs => hs.addFrame closure.frame .function _
  refine hframe.bind fun frame => ((h.block closure.body).within frame).bind fun flow => ?_
  cases flow with
  | giveBack v at_ => exact follows_pure v
  | normal => exact (follows_stray .normal).bind fun _ => follows_pure Value.null
  | breakLoop at_ => exact (follows_stray (.breakLoop at_)).bind fun _ => follows_pure Value.null
  | continueLoop at_ =>
    exact (follows_stray (.continueLoop at_)).bind fun _ => follows_pure Value.null

/-- Both sides check the number of arguments before they evaluate them. -/
theorem call (callee : Node) (arguments : List Node) (span : Span) :
    Evaluation.Follows ρ cut (ev.call callee arguments span)
      (ev'.call callee arguments span) := by
  refine (h.read callee).bind fun v => ?_
  cases v with
  | function r =>
    refine (follows_inspect fun _ _ hs => hs.closure r).bind fun closure => ?_
    have hchecked : Evaluation.Follows ρ cut
        (if closure.parameters.length = arguments.length then
          ev.evalAll arguments >>= ev.enter closure
        else
          fail (.argumentCount closure.name closure.parameters.length arguments.length) span)
        (if closure.parameters.length = arguments.length then
          ev'.evalAll arguments >>= ev'.enter (rename ρ closure)
        else
          fail (.argumentCount closure.name closure.parameters.length arguments.length) span) := by
      split
      · exact (h.evalAll arguments).bind fun values => h.enter closure values
      · exact follows_halt _
    exact hchecked
  | _ => exact follows_unfit _ _ _

/-! ### Nodes -/

/-- **The rules of expressions follow each other**, if the evaluators of their parts do. -/
theorem evalNode (node : Node) :
    Evaluation.Follows ρ cut (ev.evalNode node) (ev'.evalNode node) := by
  cases node with
  | literal span value => cases value <;> exact follows_pure _
  | var => exact h.read _
  | pronoun => exact h.read _
  | index => exact h.read _
  | list span items =>
    refine (h.evalAll items).bind fun values => ?_
    have hnew : Evaluation.Follows ρ cut (newTable _) (newTable _) :=
      follows_newTable (.ofValues values)
    rw [← Table.ofValues_rename] at hnew
    exact hnew.bind fun r => follows_pure (Value.array r)
  | binary span op left right => exact h.binary op left right span
  | negation span operand => exact h.negation operand
  | call span callee arguments => exact h.call callee arguments span
  | pop span target => exact h.pop target
  | _ =>
    exact (h.exec _).bind fun flow => (follows_stray flow).bind fun _ => follows_pure Value.null

/-- **So do the rules of statements.** A loop may get fewer steps on one side, if running out of them
may cut it short. -/
theorem execNode {steps steps' : Nat} (hle : steps' ≤ steps)
    (hsteps : steps' = steps ∨ cut .exhausted) (node : Node) :
    Evaluation.Follows ρ cut (ev.execNode steps node) (ev'.execNode steps' node) := by
  have hnormal : ∀ u : Unit, Evaluation.Follows ρ cut (pure Flow.normal) (pure .normal) :=
    fun _ => follows_pure Flow.normal
  cases node with
  | assign span target value =>
    exact (h.eval value).bind fun v => (h.write target v).bind hnormal
  | input span target =>
    refine follows_nextInput.bind fun host => ?_
    refine (follows_updateStore fun _ _ hs => hs.intern host).bind fun v => ?_
    cases target with
    | none => exact follows_pure Flow.normal
    | some target => exact (h.write target v).bind hnormal
  | output span value => exact (h.eval value).bind fun v => (follows_announce v).bind hnormal
  | push span target values => exact (h.push target values).bind hnormal
  | change span kind source into argument =>
    exact (h.change kind source into argument span).bind hnormal
  | round span target mode => exact (h.round target mode span).bind hnormal
  | conditional span condition body other => exact h.conditional condition body other
  | loop span condition body goal => exact h.loop condition body goal span hle hsteps 0
  | function span name parameters body => exact (declare name parameters body).bind hnormal
  | giveBack span value => exact (h.eval value).bind fun v => follows_pure (Flow.giveBack v span)
  | breakLoop span => exact follows_pure (Flow.breakLoop span)
  | continueLoop span => exact follows_pure (Flow.continueLoop span)
  | otherwise => exact hnormal ()
  | blank => exact hnormal ()
  | _ => exact (h.eval _).bind fun _ => follows_pure Flow.normal

end Follows

end Evaluator

/-! ### Levels -/

/-- An evaluator with fewer steps follows one with more, if it may run out of them. -/
theorem evaluator_follows {ρ : Renaming} {cut : Halt → Prop} {steps steps' : Nat}
    (hle : steps' ≤ steps) (hsteps : steps' = steps ∨ cut .exhausted) :
    (evaluator steps).Follows ρ cut (evaluator steps') := by
  induction steps generalizing steps' with
  | zero =>
    obtain rfl : steps' = 0 := by omega
    exact ⟨follows_resolve, fun _ => follows_halt _, fun _ => follows_halt _⟩
  | succ steps ih =>
    cases steps' with
    | zero =>
      -- whatever the first one does, it takes nothing back
      have hcut : cut .exhausted := hsteps.resolve_left (by omega)
      have hlevel := ih (Nat.zero_le steps) (.inr hcut)
      refine ⟨follows_resolve, fun n => ?_, fun n => ?_⟩
      · exact (hlevel.evalNode n).adds.follows_halt hcut
      · exact (hlevel.execNode (Nat.zero_le steps) (.inr hcut) n).adds.follows_halt hcut
    | succ steps' =>
      have hsteps' : steps' = steps ∨ cut .exhausted := hsteps.imp_left (by omega)
      have hlevel := ih (by omega) hsteps'
      exact ⟨follows_resolve, hlevel.evalNode, hlevel.execNode (by omega) hsteps'⟩

/-- **So do whole programs.** -/
theorem runAll_follows {ρ : Renaming} {cut : Halt → Prop} {ev ev' : Evaluator}
    (h : ev.Follows ρ cut ev') (nodes : List Node) :
    Follows ρ cut (runAll ev nodes) (runAll ev' nodes) := by
  induction nodes with
  | nil => exact follows_pure ()
  | cons n ns ih => exact (h.exec n).bind fun flow => (follows_stray flow).bind fun _ => ih

end Ballad.Evaluation
