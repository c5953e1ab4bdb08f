import Ballad.Proofs.Evaluation.Lasting

/-!
# Statements that fail

A statement that assigns, says, appends or changes a value does nothing if it fails, because all that
can fail in it comes before the first change.

- `Node.isSimple`, `Node.isEffect`: these statements, and the expressions that may change something.
- `Spared w₀`: nothing has changed since `w₀`, except that there may be new arrays.
- `Atomic I act`: `I` still holds wherever `act` stops. If it comes to its end, anything may have
  happened.
- `Evaluator.Alike.atomic_write`, `Evaluator.Alike.atomic_execNode`: the rules for locations and for
  simple statements.
- `Spared.alike`: expressions that may not change anything only add arrays.
-/

namespace Ballad

namespace Node

/-- Whether a statement assigns, says, appends or changes a value. -/
def isSimple : Node → Bool
  | assign .. | input .. | output .. | push .. | change .. | round .. => true
  | _ => false

/-- Whether an expression calls a function or takes an entry off an array. -/
def isEffect : Node → Bool
  | call .. | pop .. => true
  | _ => false

/-- The inputs that are left after a statement. -/
def inputsLeft (n : Node) (inputs : List HostValue) : List HostValue :=
  match n with
  | input .. => inputs.tail
  | _ => inputs

/-- Simple statements have no blocks. -/
theorem isControl_of_isSimple {n : Node} (h : n.isSimple) : n.isControl = false := by
  cases n <;> first | rfl | exact absurd h (by simp [isSimple])

/-- An expression that does not change anything. -/
def Quiet (n : Node) : Prop :=
  n.Everywhere fun m => m.isValue ∧ m.isEffect = false

/-- What is inside of a quiet expression is quiet. -/
theorem Quiet.below {n : Node} (h : n.Quiet) : ∀ c ∈ n.children, c.Quiet :=
  (everywhere_iff.mp h).2

/-- The parts of a simple statement are quiet if nothing below it has an effect. -/
theorem quiet_of_mem_children {n : Node} (hformed : n.Everywhere Formed) (hsimple : n.isSimple)
    (heffect : n.Everywhere fun m => m.isEffect = false) : ∀ c ∈ n.children, c.Quiet := by
  intro c hc
  have hexpression := expression_of_mem_children hformed (isControl_of_isSimple hsimple) c hc
  exact hexpression.everywhere_isValue.and ((everywhere_iff.mp heffect).2 c hc)

end Node

namespace Evaluation

/-! ### Evaluations that stop -/

/-- `I` still holds wherever an evaluation stops. -/
def Atomic {α : Type} (I : Env → World → Prop) (act : Eval α) : Prop :=
  ∀ env w, I env w → ∀ e w', act env w = .error e w' → I env w'

/-- An evaluation that does not stop. -/
def Total {α : Type} (act : Eval α) : Prop :=
  ∀ env w, ∃ a w', act env w = .ok a w'

section

variable {α β : Type} {I : Env → World → Prop} {stop : Halt → Prop}

/-- What keeps something keeps it when it stops, too. -/
theorem Keeps.atomic {x : Eval α} (hx : Keeps I stop x) : Atomic I x := by
  intro env w hw e w' hrun
  have hkept := hx env w hw
  rw [hrun] at hkept
  exact hkept.1

theorem Total.ne_error {x : Eval α} (hx : Total x) (env : Env) (w : World) (e : Halt) (w' : World) :
    x env w ≠ .error e w' := by
  obtain ⟨a, w₁, hok⟩ := hx env w
  rw [hok]
  exact nofun

/-- What does not stop is atomic. -/
theorem Total.atomic {x : Eval α} (hx : Total x) : Atomic I x :=
  fun env w _ e w' hrun => absurd hrun (hx.ne_error env w e w')

theorem total_pure (a : α) : Total (pure a) :=
  fun _ w => ⟨a, w, rfl⟩

theorem total_modifyStore (f : Store → Store) : Total (modifyStore f) :=
  fun _ _ => ⟨(), _, rfl⟩

/-- Assignments do not stop. -/
theorem total_assign (name : String) (v : Value) : Total (assign name v) :=
  fun _ _ => ⟨(), _, rfl⟩

/-- Nor does output. -/
theorem total_announce (v : Value) : Total (announce v) :=
  fun _ _ => ⟨(), _, rfl⟩

/-- What is done at first may stop, and so may the rest. -/
theorem Keeps.bindAtomic {x : Eval α} {f : α → Eval β} (hx : Keeps I stop x)
    (hf : ∀ a, Atomic I (f a)) : Atomic I (x >>= f) := by
  intro env w hw e w' hrun
  have hkept := hx env w hw
  cases hfirst : x env w with
  | ok a w₁ =>
    rw [hfirst] at hkept
    rw [bind_of_ok hfirst] at hrun
    exact hf a env w₁ hkept.1 e w' hrun
  | error e₁ w₁ =>
    rw [hfirst] at hkept
    rw [bind_of_error hfirst] at hrun
    cases hrun
    exact hkept.1

/-- After the first change, nothing may stop. -/
theorem Atomic.bindTotal {x : Eval α} {f : α → Eval β} (hx : Atomic I x) (hf : ∀ a, Total (f a)) :
    Atomic I (x >>= f) := by
  intro env w hw e w' hrun
  cases hfirst : x env w with
  | ok a w₁ =>
    rw [bind_of_ok hfirst] at hrun
    exact absurd hrun ((hf a).ne_error env w₁ e w')
  | error e₁ w₁ =>
    rw [bind_of_error hfirst] at hrun
    cases hrun
    exact hx env w hw _ _ hfirst

end

/-! ### Locations and statements -/

namespace Evaluator.Alike

variable {I : Env → World → Prop} {stop : Halt → Prop} {X : Node → Prop} {ev : Evaluator}
  (h : Alike I stop X ev ev) (hnew : ∀ t, Keeps I stop (newTable t))

include h hnew

/-- To get at an array is atomic, if to store a new one is. -/
theorem atomic_arrayWith {target : Node} {use : Use} {store : Value → Eval Unit} (hX : X target)
    (hstore : ∀ v, Atomic I (store v)) : Atomic I (ev.arrayWith target use store) := by
  have hcreate : Atomic I (arrayWith.create store) :=
    (hnew _).bindAtomic fun _ => (hstore _).bindTotal fun _ => total_pure _
  unfold Evaluator.arrayWith
  refine (h.tryRead hX).keeps.bindAtomic fun found => ?_
  split
  · exact (total_pure _).atomic
  · split
    · exact hcreate
    · exact Keeps.atomic (meets_unfit h.halts _ _ _)
  · exact hcreate

/-- Assigning to an entry may make arrays all the way down the targets. They are stored from the
innermost target outwards, and none of that can fail once it has begun. -/
theorem atomic_write {node : Node} (hX : X node) (v : Value) : Atomic I (ev.write node v) := by
  induction node using Evaluator.write.induct generalizing v with
  | case1 span target key ih =>
    have htarget : X target := h.below _ hX _ (by simp [Node.children])
    have hkey : X key := h.below _ hX _ (by simp [Node.children])
    refine (h.eval key hkey).keeps.bindAtomic fun _ => ?_
    refine (keeps_keyOf h.halts _ _).bindAtomic fun k => ?_
    refine Atomic.bindTotal ?_ fun r => total_modifyStore _
    exact h.atomic_arrayWith hnew htarget fun v => ih htarget v
  | case2 node hnode =>
    rw [Evaluator.write]
    · refine (h.resolve node).coincides.keeps.bindAtomic fun found => ?_
      split
      · exact (total_assign _ _).atomic
      · exact Keeps.atomic (meets_fail h.halts trivial)
    · exact hnode

/-- So is to push values, for they are all evaluated before. -/
theorem atomic_push {target : Node} {values : List Node} (htarget : X target)
    (hvalues : ∀ x ∈ values, X x) : Atomic I (ev.push target values) := by
  refine (h.evalAll hvalues).keeps.bindAtomic fun _ => ?_
  refine Atomic.bindTotal ?_ fun r => total_modifyStore _
  exact h.atomic_arrayWith hnew htarget (h.atomic_write hnew htarget)

/-- So is a change, whose result is assigned last. -/
theorem atomic_change (kind : Change) {source : Node} {into argument : Option Node}
    (hsource : X source) (hinto : ∀ x ∈ into, X x) (hargument : ∀ x ∈ argument, X x) (span : Span) :
    Atomic I (ev.change kind source into argument span) := by
  have hwrite := h.atomic_write hnew (Node.getD_of_forall hsource hinto)
  refine (h.eval source hsource).keeps.bindAtomic fun v => ?_
  cases kind with
  | split => exact (h.split hnew v hargument span).keeps.bindAtomic hwrite
  | join => exact (h.join v hargument span).keeps.bindAtomic hwrite
  | cast => exact (h.cast v hargument span).keeps.bindAtomic hwrite

/-- So is rounding. -/
theorem atomic_round {target : Node} (htarget : X target) (mode : Rounding) (span : Span) :
    Atomic I (ev.round target mode span) :=
  (h.read htarget).keeps.bindAtomic fun _ => (keeps_asNumber h.halts _ _ _).bindAtomic fun _ =>
    h.atomic_write hnew htarget _

/-- A simple statement that takes no input. -/
theorem atomic_execNode (steps : Nat) {node : Node} (hsimple : node.isSimple)
    (hinput : ∀ span target, node ≠ .input span target) (hX : ∀ c ∈ node.children, X c) :
    Atomic I (ev.execNode steps node) := by
  have hnormal : ∀ _ : Unit, Total (pure Flow.normal) := fun _ => total_pure _
  cases node with
  | assign span target value =>
    refine (h.eval value (hX value (by simp [Node.children]))).keeps.bindAtomic fun v => ?_
    exact (h.atomic_write hnew (hX target (by simp [Node.children])) v).bindTotal hnormal
  | output span value =>
    refine (h.eval value (hX value (by simp [Node.children]))).keeps.bindAtomic fun v => ?_
    exact (total_announce v).atomic.bindTotal hnormal
  | push span target values =>
    have hvalues : ∀ x ∈ values, X x := fun x hx => hX x (by simp [Node.children, hx])
    exact (h.atomic_push hnew (hX target (by simp [Node.children])) hvalues).bindTotal hnormal
  | change span kind source into argument =>
    have hinto : ∀ x ∈ into, X x := fun x hx => hX x (by simp [Node.children, Option.mem_def.mp hx])
    have hargument : ∀ x ∈ argument, X x := fun x hx =>
      hX x (by simp [Node.children, Option.mem_def.mp hx])
    exact (h.atomic_change hnew kind (hX source (by simp [Node.children])) hinto hargument
      span).bindTotal hnormal
  | round span target mode =>
    exact (h.atomic_round hnew (hX target (by simp [Node.children])) mode span).bindTotal hnormal
  | input span target => exact absurd rfl (hinput span target)
  | _ => cases hsimple

end Evaluator.Alike

/-! ### What is spared -/

/-- Nothing has changed since `w₀`, except that there may be new arrays. -/
def Spared (w₀ : World) (_ : Env) (w : World) : Prop :=
  ∃ added, w = { w₀ with store := { w₀.store with tables := w₀.store.tables ++ added } }

theorem Spared.refl (w₀ : World) (env : Env) : Spared w₀ env w₀ :=
  ⟨#[], by rw [Array.append_empty]⟩

/-- Further arrays may be added. -/
theorem Spared.add {w₀ w : World} {env : Env} (h : Spared w₀ env w) (added : Array Table) :
    Spared w₀ env { w with store := { w.store with tables := w.store.tables ++ added } } := by
  obtain ⟨added₁, rfl⟩ := h
  exact ⟨added₁ ++ added, by rw [Array.append_assoc]⟩

/-- New arrays spare everything else. -/
theorem keeps_newTable_spared (w₀ : World) (t : Table) : Keeps (Spared w₀) anyStop (newTable t) := by
  refine keeps_updateStore fun env w hw => ?_
  rw [Store.addTable, Array.push_eq_append]
  exact hw.add #[t]

/-- So do values that are taken in. -/
theorem keeps_intern_spared (w₀ : World) (host : HostValue) :
    Keeps (Spared w₀) anyStop (updateStore fun s => s.intern host) := by
  refine keeps_updateStore fun env w hw => ?_
  obtain ⟨added, hadded⟩ := Store.intern_eq w.store host
  rw [hadded]
  exact hw.add added

/-- Quiet expressions only add arrays. -/
theorem alike_spared (w₀ : World) (steps : Nat) :
    Evaluator.Alike (Spared w₀) anyStop Node.Quiet (evaluator steps) (evaluator steps) := by
  refine evaluator_alike (fun n hn => hn.here.1) (fun n hn => hn.below) (keeps_newTable_spared w₀)
    ?_ ?_ steps
  · intro _ span callee arguments hquiet
    exact absurd hquiet.here.2 nofun
  · intro _ span target hquiet
    exact absurd hquiet.here.2 nofun

/-- An input statement has taken its input whatever happens to it afterwards. -/
theorem spared_of_input {steps : Nat} (span : Span) {target : Option Node} {env : Env} {w w' : World}
    {e : Halt} (hX : ∀ x ∈ target, x.Quiet)
    (hrun : (evaluator steps).execNode steps (.input span target) env w = .error e w') :
    Spared { w with inputs := w.inputs.tail } env w' := by
  have htaken : nextInput env w =
      .ok (w.inputs.headD .null) { w with inputs := w.inputs.tail } := rfl
  rw [Evaluator.execNode, bind_of_ok htaken] at hrun
  refine Keeps.bindAtomic (keeps_intern_spared _ _) (fun v => ?_) env _ (Spared.refl _ env) e w' hrun
  cases target with
  | none => exact (total_pure _).atomic
  | some target =>
    have hwrite := (alike_spared { w with inputs := w.inputs.tail } steps).atomic_write
      (keeps_newTable_spared _) (hX target rfl) v
    exact hwrite.bindTotal fun _ => total_pure _

/-- **A simple statement that fails does nothing**: if no function is called in it and no entry taken
off an array, then after an error all variables in all frames, all functions, what pronouns stand for
and what has been said are as before, and so are all arrays that were there. Only the input that it has
taken is gone. -/
theorem failure_spares_world {steps : Nat} {node : Node} {env : Env} {w w' : World} {e : RuntimeError}
    (hformed : node.Everywhere Node.Formed) (hsimple : node.isSimple)
    (heffect : node.Everywhere fun m => m.isEffect = false)
    (hrun : (evaluator steps).exec node env w = .error (.error e) w') :
    ∃ added, w' = ⟨{ w.store with tables := w.store.tables ++ added }, node.inputsLeft w.inputs,
      w.said⟩ := by
  have hquiet := Node.quiet_of_mem_children hformed hsimple heffect
  cases steps with
  | zero => cases hrun
  | succ steps =>
    by_cases hinput : ∃ span target, node = .input span target
    · obtain ⟨span, target, rfl⟩ := hinput
      exact spared_of_input span (fun x hx => hquiet x (Option.mem_toList.mpr hx)) hrun
    · have hother : ∀ span target, node ≠ .input span target := fun span target heq =>
        hinput ⟨span, target, heq⟩
      have hspared := (alike_spared w steps).atomic_execNode (keeps_newTable_spared w) steps hsimple
        hother hquiet env w (Spared.refl w env) _ w' hrun
      have hleft : node.inputsLeft w.inputs = w.inputs := by
        unfold Node.inputsLeft
        split
        · exact absurd rfl (hother _ _)
        · rfl
      rw [hleft]
      exact hspared

/-- An input that is an array, taken for an entry whose key has no value: the array is there, and
nothing refers to it. -/
theorem failure_spares_world_input : ∃ (node : Node) (w w' : World) (e : RuntimeError),
    node.isSimple ∧ w.inputs.length = 2 ∧
    (evaluator 9).exec node ⟨Store.global, none⟩ w = .error (.error e) w' ∧
    ∃ added, w' = ⟨{ w.store with tables := w.store.tables ++ added }, w.inputs.tail, w.said⟩ := by
  let target : Node := .index .origin (.var .origin "x") (.var .origin "y")
  let w : World := ⟨.empty, [.array [], .null], #[]⟩
  have htarget : ∀ P : Node → Prop, P target → (∀ name, P (.var .origin name)) →
      target.Everywhere P := by
    intro P hhere hvar
    have hleaf : ∀ name, (Node.var .origin name).Everywhere P := fun name => ⟨hvar name, nofun⟩
    exact ⟨hhere, List.forall_mem_cons.mpr ⟨hleaf "x", List.forall_mem_singleton.mpr (hleaf "y")⟩⟩
  have hformed : (Node.input .origin target).Everywhere Node.Formed := by
    refine ⟨fun x hx => ?_, List.forall_mem_singleton.mpr (htarget _ ⟨rfl, rfl⟩ fun _ => trivial)⟩
    cases hx
    rfl
  have heffect : (Node.input .origin target).Everywhere fun m => m.isEffect = false :=
    ⟨rfl, List.forall_mem_singleton.mpr (htarget _ rfl fun _ => rfl)⟩
  have hrun : ∃ e w', (evaluator 9).exec (.input .origin target) ⟨Store.global, none⟩ w =
      .error (.error e) w' := ⟨_, _, rfl⟩
  obtain ⟨e, w', hrun⟩ := hrun
  exact ⟨_, w, w', e, rfl, rfl, hrun, failure_spares_world hformed rfl heffect hrun⟩

end Evaluation

end Ballad
