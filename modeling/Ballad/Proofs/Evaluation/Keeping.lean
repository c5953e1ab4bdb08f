import Ballad.Evaluation.Evaluator
import Ballad.Proofs.Tree

/-!
# What evaluation keeps

A calculus for invariants of evaluation. An evaluation is followed wherever it leads, through its
results and through its stops. Two evaluations can be followed at a time: where an invariant lasts,
evaluations that are put together from the same steps are the same.

- `Meets I stop act post`: `act` keeps `I`, its results satisfy `post`, and it stops only as `stop`
  allows. `Keeps` says nothing about results.
- `Agrees I stop act act' post`: besides, `act'` is the same as `act` wherever `I` holds. `Coincides`
  says nothing about results.
- `Halt.IsStray`: the stops that nothing but a stray signal brings about. `Halt.IsPlain`: the other
  errors. All steps of expressions stop with these only.
- `Inner`: an invariant for a new frame that gives another one back when the frame is left.
-/

namespace Ballad

namespace Store

mutual

/-- Taking a host value into the store adds arrays only. -/
theorem intern_eq (s : Store) : ∀ host : HostValue,
    ∃ added, (s.intern host).2 = { s with tables := s.tables ++ added }
  | .null | .integer _ | .float _ | .string _ | .boolean _ | .mysterious | .function _ =>
    ⟨#[], by rw [Array.append_empty]; rfl⟩
  | .array entries => by
    obtain ⟨added, hadded⟩ := internEntries_eq s .empty entries
    refine ⟨added.push (s.internEntries .empty entries).1, ?_⟩
    rw [intern]
    show ((s.internEntries .empty entries).2.addTable (s.internEntries .empty entries).1).2 = _
    rw [hadded, addTable, Array.append_push]

theorem internEntries_eq (s : Store) (t : Table) : ∀ entries,
    ∃ added, (s.internEntries t entries).2 = { s with tables := s.tables ++ added }
  | [] => ⟨#[], by rw [Array.append_empty]; rfl⟩
  | (key, value) :: rest => by
    obtain ⟨added₁, hkey⟩ := intern_eq s key
    obtain ⟨added₂, hvalue⟩ := intern_eq (s.intern key).2 value
    obtain ⟨added₃, hrest⟩ := internEntries_eq ((s.intern key).2.intern value).2
      (t.set ((s.intern key).2.toKey (s.intern key).1) ((s.intern key).2.intern value).1) rest
    refine ⟨added₁ ++ (added₂ ++ added₃), ?_⟩
    rw [internEntries]
    show (((s.intern key).2.intern value).2.internEntries _ rest).2 = _
    rw [hrest, hvalue, hkey, Array.append_assoc, Array.append_assoc]

end

end Store

namespace Evaluation

/-- The error of a signal that no loop or function takes. -/
def Halt.IsStray : Halt → Prop
  | .error ⟨.stray _, _⟩ => True
  | _ => False

/-- Any other error of the program. To run out of steps is none. -/
def Halt.IsPlain : Halt → Prop
  | .error ⟨.stray _, _⟩ => False
  | .error _ => True
  | .exhausted => False

/-- An evaluation keeps `I`, its results satisfy `post`, and it stops only as `stop` allows. -/
def Meets {α : Type} (I : Env → World → Prop) (stop : Halt → Prop) (act : Eval α)
    (post : α → Prop) : Prop :=
  ∀ env w, I env w →
    match act env w with
    | .ok a w' => I env w' ∧ post a
    | .error h w' => I env w' ∧ stop h

/-- An evaluation keeps `I` and stops only as `stop` allows. -/
def Keeps {α : Type} (I : Env → World → Prop) (stop : Halt → Prop) (act : Eval α) : Prop :=
  Meets I stop act fun _ => True

/-- Two evaluations are the same wherever `I` holds, and meet the same. -/
structure Agrees {α : Type} (I : Env → World → Prop) (stop : Halt → Prop) (act act' : Eval α)
    (post : α → Prop) : Prop where
  meets : Meets I stop act post
  same : ∀ env w, I env w → act' env w = act env w

/-- Two evaluations are the same wherever `I` holds, and keep it. -/
def Coincides {α : Type} (I : Env → World → Prop) (stop : Halt → Prop) (act act' : Eval α) : Prop :=
  Agrees I stop act act' fun _ => True

/-- The world that an evaluation leaves behind, however it ends. -/
def worldAfter {α : Type} (act : Eval α) (env : Env) (w : World) : World :=
  match act env w with
  | .ok _ w' | .error _ w' => w'

section

variable {α β : Type} {I : Env → World → Prop} {stop : Halt → Prop} {P P' : α → Prop}
  {Q : β → Prop}

/-! ### Evaluations one after the other -/

/-- The context that an evaluation leaves behind has the frame from before, however it ends. -/
theorem act_eq (x : Eval α) (env : Env) (w : World) :
    x.act env.ceiling ⟨env.frame, w⟩ = match x env w with
      | .ok a w' => .ok a ⟨env.frame, w'⟩
      | .error e w' => .error e ⟨env.frame, w'⟩ := by
  have hframe := x.restores env.ceiling ⟨env.frame, w⟩
  unfold Eval.run
  cases hact : x.act env.ceiling ⟨env.frame, w⟩ with
  | ok a c =>
    rw [hact] at hframe
    obtain ⟨frame, w'⟩ := c
    obtain rfl : frame = env.frame := hframe
    rfl
  | error e c =>
    rw [hact] at hframe
    obtain ⟨frame, w'⟩ := c
    obtain rfl : frame = env.frame := hframe
    rfl

theorem act_of_ok {x : Eval α} {env : Env} {w w' : World} {a : α} (h : x env w = .ok a w') :
    x.act env.ceiling ⟨env.frame, w⟩ = .ok a ⟨env.frame, w'⟩ := by
  rw [act_eq, h]

theorem act_of_error {x : Eval α} {env : Env} {w w' : World} {e : Halt}
    (h : x env w = .error e w') :
    x.act env.ceiling ⟨env.frame, w⟩ = .error e ⟨env.frame, w'⟩ := by
  rw [act_eq, h]

/-- What follows an evaluation begins in the frame that the evaluation began in. -/
theorem bind_of_ok {x : Eval α} {f : α → Eval β} {env : Env} {w w' : World} {a : α}
    (h : x env w = .ok a w') : (x >>= f) env w = f a env w' := by
  have hbind : (x >>= f).act env.ceiling ⟨env.frame, w⟩ =
      (f a).act env.ceiling ⟨env.frame, w'⟩ := by
    show EStateM.bind (x.act env.ceiling) (fun a => (f a).act env.ceiling) _ = _
    rw [EStateM.bind, act_of_ok h]
  rw [Eval.run, hbind]
  rfl

/-- A stop ends all that would follow. -/
theorem bind_of_error {x : Eval α} {f : α → Eval β} {env : Env} {w w' : World} {e : Halt}
    (h : x env w = .error e w') : (x >>= f) env w = .error e w' := by
  have hbind : (x >>= f).act env.ceiling ⟨env.frame, w⟩ = .error e ⟨env.frame, w'⟩ := by
    show EStateM.bind (x.act env.ceiling) (fun a => (f a).act env.ceiling) _ = _
    rw [EStateM.bind, act_of_error h]
  rw [Eval.run, hbind]

instance : LawfulMonad Eval :=
  LawfulMonad.mk' Eval (fun x => Eval.ext (id_map x.act))
    (fun a f => Eval.ext (pure_bind a fun a => (f a).act))
    fun x f g => Eval.ext (bind_assoc x.act (fun a => (f a).act) fun b => (g b).act)

theorem worldAfter_of_ok {act : Eval α} {env : Env} {w w' : World} {a : α}
    (h : act env w = .ok a w') : worldAfter act env w = w' := by
  unfold worldAfter
  rw [h]

theorem worldAfter_of_error {act : Eval α} {env : Env} {w w' : World} {e : Halt}
    (h : act env w = .error e w') : worldAfter act env w = w' := by
  unfold worldAfter
  rw [h]

/-- The world after two evaluations is the world after the second. -/
theorem worldAfter_bind_of_ok {x : Eval α} {f : α → Eval β} {env : Env} {w w' : World} {a : α}
    (h : x env w = .ok a w') : worldAfter (x >>= f) env w = worldAfter (f a) env w' := by
  unfold worldAfter
  rw [bind_of_ok h]

/-- **Evaluations one after the other**: what the first one keeps is there for the second, whose
results are those of both. -/
theorem Meets.bind {x : Eval α} {f : α → Eval β} (hx : Meets I stop x P)
    (hf : ∀ a, P a → Meets I stop (f a) Q) : Meets I stop (x >>= f) Q := by
  intro env w hw
  have hfirst := hx env w hw
  cases hrun : x env w with
  | ok a w' =>
    rw [hrun] at hfirst
    rw [bind_of_ok hrun]
    exact hf a hfirst.2 env w' hfirst.1
  | error e w' =>
    rw [hrun] at hfirst
    rw [bind_of_error hrun]
    exact hfirst

/-- Less can be said of the results. -/
theorem Meets.imp {x : Eval α} (hx : Meets I stop x P) (h : ∀ a, P a → P' a) :
    Meets I stop x P' := by
  intro env w hw
  have hkept := hx env w hw
  cases hrun : x env w with
  | ok a w' =>
    rw [hrun] at hkept
    exact ⟨hkept.1, h a hkept.2⟩
  | error e w' =>
    rw [hrun] at hkept
    exact hkept

theorem Meets.keeps {x : Eval α} (hx : Meets I stop x P) : Keeps I stop x :=
  hx.imp fun _ _ => trivial

/-- An evaluation whose results do not matter, before another one. -/
theorem Keeps.bind {x : Eval α} {f : α → Eval β} (hx : Keeps I stop x)
    (hf : ∀ a, Meets I stop (f a) Q) : Meets I stop (x >>= f) Q :=
  Meets.bind hx fun a _ => hf a

theorem meets_pure {a : α} (h : P a) : Meets I stop (pure a) P :=
  fun _ _ hw => ⟨hw, h⟩

theorem keeps_pure (a : α) : Keeps I stop (pure a) :=
  meets_pure trivial

/-- A stop that is allowed keeps everything. -/
theorem meets_halt {e : Halt} (h : stop e) : Meets I stop (halt e : Eval α) P :=
  fun _ _ hw => ⟨hw, h⟩

/-! ### Two evaluations at a time -/

/-- An evaluation agrees with itself. -/
theorem Meets.agrees {x : Eval α} (hx : Meets I stop x P) : Agrees I stop x x P :=
  ⟨hx, fun _ _ _ => rfl⟩

theorem Keeps.coincides {x : Eval α} (hx : Keeps I stop x) : Coincides I stop x x :=
  Meets.agrees hx

theorem Coincides.keeps {x y : Eval α} (h : Coincides I stop x y) : Keeps I stop x :=
  h.meets

/-- **Two pairs of evaluations one after the other**: where the first ones are the same, the second
ones begin in the same world. -/
theorem Agrees.bind {x y : Eval α} {f g : α → Eval β} (hx : Agrees I stop x y P)
    (hf : ∀ a, P a → Agrees I stop (f a) (g a) Q) : Agrees I stop (x >>= f) (y >>= g) Q := by
  refine ⟨hx.meets.bind fun a ha => (hf a ha).meets, fun env w hw => ?_⟩
  have hfirst := hx.meets env w hw
  have hsame := hx.same env w hw
  cases hrun : x env w with
  | ok a w' =>
    rw [hrun] at hfirst hsame
    rw [bind_of_ok hrun, bind_of_ok hsame]
    exact (hf a hfirst.2).same env w' hfirst.1
  | error e w' =>
    rw [hrun] at hsame
    rw [bind_of_error hrun, bind_of_error hsame]

theorem Agrees.imp {x y : Eval α} (h : Agrees I stop x y P) (himp : ∀ a, P a → P' a) :
    Agrees I stop x y P' :=
  ⟨h.meets.imp himp, h.same⟩

theorem Agrees.coincides {x y : Eval α} (h : Agrees I stop x y P) : Coincides I stop x y :=
  h.imp fun _ _ => trivial

/-- Two evaluations whose results do not matter, before two others. -/
theorem Coincides.bind {x y : Eval α} {f g : α → Eval β} (hx : Coincides I stop x y)
    (hf : ∀ a, Agrees I stop (f a) (g a) Q) : Agrees I stop (x >>= f) (y >>= g) Q :=
  Agrees.bind hx fun a _ => hf a

/-- Two evaluations that begin with the same step. -/
theorem Keeps.andThen {x : Eval α} {f g : α → Eval β} (hx : Keeps I stop x)
    (hf : ∀ a, Agrees I stop (f a) (g a) Q) : Agrees I stop (x >>= f) (x >>= g) Q :=
  hx.coincides.bind hf

theorem agrees_pure {a : α} (h : P a) : Agrees I stop (pure a) (pure a) P :=
  (meets_pure h).agrees

/-- What an evaluation keeps holds of the world that it leaves behind. -/
theorem Keeps.worldAfter {x : Eval α} (hx : Keeps I stop x) {env : Env} {w : World}
    (hw : I env w) : I env (worldAfter x env w) := by
  have hkept := hx env w hw
  unfold Evaluation.worldAfter
  cases hrun : x env w with
  | ok a w' =>
    rw [hrun] at hkept
    exact hkept.1
  | error e w' =>
    rw [hrun] at hkept
    exact hkept.1

/-! ### The world -/

/-- What the store tells is what every store with `I` tells. -/
theorem meets_inspect {f : Store → α} (h : ∀ env w, I env w → P (f w.store)) :
    Meets I stop (inspect f) P :=
  fun env w hw => ⟨hw, h env w hw⟩

/-- Looking at the store keeps everything. -/
theorem keeps_inspect (f : Store → α) : Keeps I stop (inspect f) :=
  meets_inspect fun _ _ _ => trivial

theorem keeps_currentFrame : Keeps I stop currentFrame :=
  fun _ _ hw => ⟨hw, trivial⟩

/-- What depends on the current frame agrees if it does in each frame. -/
theorem agrees_currentFrame {f g : FrameRef → Eval α}
    (h : ∀ frame, Agrees (fun env w => I env w ∧ env.frame = frame) stop (f frame) (g frame) P) :
    Agrees I stop (currentFrame >>= f) (currentFrame >>= g) P := by
  have hframe : ∀ env w, currentFrame env w = .ok env.frame w := fun _ _ => rfl
  constructor
  · intro env w hw
    have hmeets := (h env.frame).meets env w ⟨hw, rfl⟩
    rw [bind_of_ok (hframe env w)]
    cases hrun : f env.frame env w with
    | ok a w' =>
      rw [hrun] at hmeets
      exact ⟨hmeets.1.1, hmeets.2⟩
    | error e w' =>
      rw [hrun] at hmeets
      exact ⟨hmeets.1.1, hmeets.2⟩
  · intro env w hw
    rw [bind_of_ok (hframe env w), bind_of_ok (hframe env w)]
    exact (h env.frame).same env w ⟨hw, rfl⟩

/-- A change of the store keeps what it is shown to keep. -/
theorem keeps_modifyStore {f : Store → Store}
    (h : ∀ env w, I env w → I env { w with store := f w.store }) : Keeps I stop (modifyStore f) :=
  fun env w hw => ⟨h env w hw, trivial⟩

/-- So does one that tells something. -/
theorem keeps_updateStore {f : Store → α × Store}
    (h : ∀ env w, I env w → I env { w with store := (f w.store).2 }) :
    Keeps I stop (updateStore f) :=
  fun env w hw => ⟨h env w hw, trivial⟩

/-! ### New frames -/

/-- The environment in a new frame. -/
def Env.enter (env : Env) (w : World) (parent : FrameRef) (kind : FrameKind) (bindings : Bindings) :
    Env :=
  { env with frame := (w.store.addFrame parent kind bindings).1 }

/-- The world with a new frame. -/
def World.enter (w : World) (parent : FrameRef) (kind : FrameKind) (bindings : Bindings) : World :=
  { w with store := (w.store.addFrame parent kind bindings).2 }

/-- When a frame is left, at most the referent changes. -/
theorem restoreReferent_eq (frame : FrameRef) (saved : Option String) (w : World) :
    ∃ referent, restoreReferent frame saved w =
      { w with store := w.store.setReferent referent } := by
  unfold restoreReferent
  split
  · split
    · exact ⟨saved, rfl⟩
    · exact ⟨w.store.referent, rfl⟩
  · exact ⟨w.store.referent, rfl⟩

/-- `J` holds when a new frame is entered, and gives `I` back when it is left. -/
structure Inner (I J : Env → World → Prop) (env : Env) (w : World) (parent : FrameRef)
    (kind : FrameKind) (bindings : Bindings) : Prop where
  enter : J (env.enter w parent kind bindings) (w.enter parent kind bindings)
  leave : ∀ w', J (env.enter w parent kind bindings) w' →
    I env (restoreReferent env.frame w.store.referent w')

/-- What `Context::within` does, as seen from outside: afterwards at most the referent has been put
back. -/
theorem within_of_ok {frame : FrameRef} {act : Eval α} {env : Env} {w w' : World} {a : α}
    (h : act { env with frame := frame } w = .ok a w') :
    within frame act env w = .ok a (restoreReferent env.frame w.store.referent w') := by
  have hact := act_of_ok h
  simp only [Eval.run, within, Action.within, hact]
  rfl

/-- The same, if the evaluation stops. -/
theorem within_of_error {frame : FrameRef} {act : Eval α} {env : Env} {w w' : World} {e : Halt}
    (h : act { env with frame := frame } w = .error e w') :
    within frame act env w = .error e (restoreReferent env.frame w.store.referent w') := by
  have hact := act_of_error h
  simp only [Eval.run, within, Action.within, hact]
  rfl

/-- Evaluates in a new frame. -/
def inNew (parent : FrameRef) (kind : FrameKind) (bindings : Bindings) (act : Eval α) : Eval α := do
  let frame ← updateStore fun s => s.addFrame parent kind bindings
  within frame act

/-- A new frame is entered once it has been added. -/
theorem inNew_eq (parent : FrameRef) (kind : FrameKind) (bindings : Bindings) (act : Eval α)
    (env : Env) (w : World) : inNew parent kind bindings act env w =
      within (env.enter w parent kind bindings).frame act env (w.enter parent kind bindings) := by
  have hadd : updateStore (fun s => s.addFrame parent kind bindings) env w =
      .ok (env.enter w parent kind bindings).frame (w.enter parent kind bindings) := rfl
  exact bind_of_ok hadd

/-- An evaluation in a new frame, as seen from outside. -/
theorem inNew_of_ok {parent : FrameRef} {kind : FrameKind} {bindings : Bindings} {act : Eval α}
    {env : Env} {w w' : World} {a : α}
    (h : act (env.enter w parent kind bindings) (w.enter parent kind bindings) = .ok a w') :
    inNew parent kind bindings act env w =
      .ok a (restoreReferent env.frame w.store.referent w') :=
  (inNew_eq parent kind bindings act env w).trans (within_of_ok h)

/-- The same, if the evaluation stops. -/
theorem inNew_of_error {parent : FrameRef} {kind : FrameKind} {bindings : Bindings} {act : Eval α}
    {env : Env} {w w' : World} {e : Halt}
    (h : act (env.enter w parent kind bindings) (w.enter parent kind bindings) = .error e w') :
    inNew parent kind bindings act env w =
      .error e (restoreReferent env.frame w.store.referent w') :=
  (inNew_eq parent kind bindings act env w).trans (within_of_error h)

/-- Evaluations in a new frame agree if, from where they begin, they do as long as something lasts
from which `I` follows again when the frame is left. -/
theorem agrees_inNew {parent : FrameRef} {kind : FrameKind} {bindings : Bindings}
    {act act' : Eval α}
    (h : ∀ env w, I env w → ∃ J, Inner I J env w parent kind bindings ∧
      Agrees J stop act act' P) :
    Agrees I stop (inNew parent kind bindings act) (inNew parent kind bindings act') P := by
  constructor
  · intro env w hw
    obtain ⟨J, hinner, hact⟩ := h env w hw
    have hkept := hact.meets _ _ hinner.enter
    -- the frame is left in the same way, whether the evaluation ends or stops
    cases hrun : act (env.enter w parent kind bindings) (w.enter parent kind bindings) with
    | ok a w' =>
      rw [hrun] at hkept
      rw [inNew_of_ok hrun]
      exact ⟨hinner.leave w' hkept.1, hkept.2⟩
    | error e w' =>
      rw [hrun] at hkept
      rw [inNew_of_error hrun]
      exact ⟨hinner.leave w' hkept.1, hkept.2⟩
  · intro env w hw
    obtain ⟨J, hinner, hact⟩ := h env w hw
    have hsame := hact.same _ _ hinner.enter
    cases hrun : act (env.enter w parent kind bindings) (w.enter parent kind bindings) with
    | ok a w' => rw [inNew_of_ok hrun, inNew_of_ok (hsame.trans hrun)]
    | error e w' => rw [inNew_of_error hrun, inNew_of_error (hsame.trans hrun)]

end

/-! ### Values -/

/-- At every level, names are resolved in the same way. -/
theorem evaluator_resolve (steps : Nat) : (evaluator steps).resolve = resolve := by
  cases steps <;> rfl

/-- An operator has a value, or says which operand does not fit. -/
theorem Operation.apply_cases (s : Store) (op : Operator) (a b : Value) (span : Span) :
    (∃ v, apply s op a b span = .ok v) ∨
    ∃ use, apply s op a b span = .error ⟨.unfit (s.describe (offender op a b)) use, span⟩ := by
  unfold apply
  repeat' split
  all_goals simp

section

variable {α : Type} {I : Env → World → Prop} {stop : Halt → Prop} {P : α → Prop}
  (hstop : ∀ e : Halt, e.IsPlain → stop e)

include hstop

/-- All errors but stray signals are allowed. -/
theorem meets_fail {cause : RuntimeError.Cause} {span : Span}
    (h : (Halt.error ⟨cause, span⟩).IsPlain) : Meets I stop (fail cause span : Eval α) P :=
  meets_halt (hstop _ h)

/-- To describe a value that does not fit keeps everything. -/
theorem meets_unfit (value : Value) (use : Use) (span : Span) :
    Meets I stop (unfit value use span : Eval α) P :=
  (keeps_inspect _).bind fun _ => meets_fail hstop trivial

/-- A value is a number, or does not fit. -/
theorem keeps_asNumber (value : Value) (use : Use) (span : Span) :
    Keeps I stop (asNumber value use span) := by
  unfold asNumber
  split
  · exact keeps_pure _
  · exact meets_unfit hstop _ _ _

theorem keeps_asString (value : Value) (use : Use) (span : Span) :
    Keeps I stop (asString value use span) := by
  unfold asString
  split
  · exact keeps_pure _
  · exact meets_unfit hstop _ _ _

/-- A value is a key, or is no valid index. -/
theorem keeps_keyOf (value : Value) (span : Span) : Keeps I stop (keyOf value span) := by
  unfold keyOf
  split
  · exact keeps_pure _
  · exact (keeps_inspect _).bind fun _ => meets_fail hstop trivial

/-- There is an entry, or the index or what it is looked up in does not fit. -/
theorem keeps_entry (container index : Value) (span : Span) :
    Keeps I stop (entry container index span) := by
  unfold entry
  split
  · exact (keeps_keyOf hstop _ _).bind fun _ => (keeps_inspect _).bind fun _ => keeps_pure _
  · split
    · exact keeps_pure _
    · exact (keeps_inspect _).bind fun _ => meets_fail hstop trivial
  · exact meets_unfit hstop _ _ _

/-- A variable and a pronoun have a name if they are resolved. -/
theorem meets_resolve (node : Node) :
    Meets I stop (resolve node) fun found => found = none → node.isName = false := by
  cases node with
  | var span name => exact meets_pure nofun
  | pronoun span word =>
    refine (keeps_inspect _).bind fun referent => ?_
    cases referent with
    | some name => exact meets_pure nofun
    | none => exact meets_fail hstop trivial
  | _ => exact meets_pure fun _ => rfl

theorem keeps_resolve (node : Node) : Keeps I stop (resolve node) :=
  (meets_resolve hstop node).keeps

/-- A value has a truth, or does not fit. -/
theorem keeps_truth (value : Value) (span : Span) : Keeps I stop (Operation.truth value span) := by
  unfold Operation.truth
  split
  · exact meets_unfit hstop _ _ _
  · exact meets_unfit hstop _ _ _
  · exact keeps_pure _

/-- An operation has a value, or one of its operands does not fit. -/
theorem keeps_apply (s : Store) (op : Operator) (a b : Value) (span : Span) :
    Keeps I stop (ofExcept (Operation.apply s op a b span)) := by
  rcases Operation.apply_cases s op a b span with ⟨v, hv⟩ | ⟨use, huse⟩
  · rw [hv]
    exact keeps_pure v
  · rw [huse]
    exact meets_fail hstop trivial

end

end Evaluation

end Ballad
