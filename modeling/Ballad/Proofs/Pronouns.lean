import Ballad.Proofs.ControlFlow
import Ballad.Proofs.Evaluation.Lasting
import Ballad.Proofs.Frames

/-!
# What pronouns stand for

There is one name that pronouns stand for, and it goes along when the program enters a block or a call
and comes back. It can be seen from where the program is, with one exception: the body of a function
begins with the name that its caller had, and may not see it.

- `Store.activation?`: the call that a frame belongs to.
- `Evaluation.Abides`: the invariant of everything that happens from a point on. In the same call,
  pronouns stand for what can be seen or still for what they stood for at the beginning. In further
  calls, nothing is said about them.
- `Evaluation.NeverAt`: the points at which a run resolves no name.
-/

namespace Ballad

namespace Store

/-- The frame of the call that a frame belongs to, if it belongs to one. -/
def activation? (s : Store) (f : FrameRef) : Option FrameRef :=
  (s.chain f).find? fun g => (s.frame g).kind = .function

/-- The frame of a call exists. -/
theorem has_of_activation? {s : Store} {f g : FrameRef} (h : s.activation? f = some g) : s.Has g := by
  unfold activation? at h
  exact has_of_kind (of_decide_eq_true (List.find?_some h :))

/-- The first of some frames that belongs to a function is not one of `old`, and stays so when frames
that are not in `old` are found to belong to functions. -/
theorem find?_not_old {old : FrameRef → Prop} {p p' : FrameRef → Bool} {g : FrameRef}
    (hkept : ∀ f, p f → p' f) (hold : ∀ f, old f → p' f → p f) :
    ∀ {fs : List FrameRef}, fs.find? p = some g → ¬ old g → ∃ g', fs.find? p' = some g' ∧ ¬ old g'
  | [], h, _ => nomatch h
  | f :: fs, h, hg => by
    rw [List.find?_cons] at h
    by_cases hp : p f
    · rw [hp] at h
      cases h
      exact ⟨g, by rw [List.find?_cons, hkept g hp], hg⟩
    · rw [Bool.eq_false_iff.mpr hp] at h
      by_cases hp' : p' f
      · exact ⟨f, by rw [List.find?_cons, hp'], fun hf => hp (hold f hf hp')⟩
      · obtain ⟨g', hfound, hnew⟩ := find?_not_old hkept hold h hg
        exact ⟨g', by rw [List.find?_cons, Bool.eq_false_iff.mpr hp', hfound], hnew⟩

/-- A frame belongs to a call that `s₀` does not know. -/
def CalledSince (s₀ s : Store) (fs : List FrameRef) : Prop :=
  ∃ g, fs.find? (fun f => (s.frame f).kind = .function) = some g ∧ ¬ s₀.Has g

/-- A call that `s₀` does not know stays unknown to it as the store grows. -/
theorem CalledSince.of_grows {s₀ s s' : Store} {fs : List FrameRef} (h : CalledSince s₀ s fs)
    (hsince : s₀.Grows s) (hgrows : s.Grows s') : CalledSince s₀ s' fs := by
  obtain ⟨g, hfound, hnew⟩ := h
  refine find?_not_old (fun f hf => ?_) (fun f (hold : s₀.Has f) hf => ?_) hfound hnew
  · have hkind := of_decide_eq_true hf
    rw [(hgrows f (has_of_kind hkind)).2.kind]
    exact hf
  · rwa [(hgrows f (hsince f hold).1).2.kind] at hf

end Store

namespace Evaluation

section

variable (s₀ : Store) (f₀ : FrameRef)

/-- Pronouns stand for what can be seen, or for what they stood for in `s₀`, which could not be seen
from `f₀` even then. -/
def Inherits (s : Store) (f : FrameRef) : Prop :=
  s.Refers f ∨ s.referent = s₀.referent ∧ ¬ s₀.Refers f₀

/-- The store has come from `s₀` through `since`, and the current frame is there. If the program is
still in the call that it was in (`own`), pronouns stand for what can be seen or was taken over, and
otherwise the current frame belongs to a call that has been made since. -/
structure Abides (θ : Bool × Store) (env : Env) (w : World) : Prop where
  begun : s₀.Grows θ.2
  since : θ.2.Grows w.store
  has : w.store.Has env.frame
  own : θ.1 = true → Inherits s₀ f₀ w.store env.frame
  foreign : θ.1 = false → s₀.CalledSince w.store (w.store.chain env.frame)

variable {s₀ f₀}

/-- The store has come from `s₀`. -/
theorem Abides.grows {θ : Bool × Store} {env : Env} {w : World} (h : Abides s₀ f₀ θ env w) :
    s₀.Grows w.store :=
  h.begun.trans h.since

/-- As the store grows, only what pronouns stand for has to be looked at. -/
theorem Abides.move {θ : Bool × Store} {env : Env} {w w' : World} (h : Abides s₀ f₀ θ env w)
    (hgrows : w.store.Grows w'.store) (hown : θ.1 = true → Inherits s₀ f₀ w'.store env.frame) :
    Abides s₀ f₀ θ env w' := by
  refine ⟨h.begun, h.since.trans hgrows, (hgrows _ h.has).1, hown, fun hforeign => ?_⟩
  rw [hgrows.chain h.has]
  exact (h.foreign hforeign).of_grows h.grows hgrows

/-- What leaves pronouns alone abides. -/
theorem Abides.of_grows {θ : Bool × Store} {env : Env} {w w' : World} (h : Abides s₀ f₀ θ env w)
    (hgrows : w.store.Grows w'.store) (hreferent : w'.store.referent = w.store.referent) :
    Abides s₀ f₀ θ env w' := by
  refine h.move hgrows fun hown => ?_
  rcases h.own hown with hrefers | ⟨hsame, hunseen⟩
  · exact .inl (hrefers.of_grows hgrows hreferent)
  · exact .inr ⟨hreferent.trans hsame, hunseen⟩

/-- When a frame is left, pronouns stand for what can be seen, or for what they stood for before. -/
theorem Abides.leave {θ : Bool × Store} {env : Env} {w w' : World} (h : Abides s₀ f₀ θ env w)
    (hgrows : w.store.Grows w'.store) :
    Abides s₀ f₀ θ env (restoreReferent env.frame w.store.referent w') := by
  unfold restoreReferent
  split
  next name hname =>
    split
    next => exact h.of_grows hgrows rfl
    next hseen =>
      refine h.move hgrows fun _ => .inl ?_
      rintro n hn
      cases hname.symm.trans hn
      exact Option.isSome_iff_ne_none.mpr fun hnone => hseen (Option.isNone_iff_eq_none.mpr hnone)
  next hname =>
    refine h.move hgrows fun _ => .inl ?_
    rintro n hn
    cases hname.symm.trans hn

/-- A new block belongs to the call that it stands in. -/
theorem Abides.inner_block {θ : Bool × Store} {env : Env} {w : World} (h : Abides s₀ f₀ θ env w)
    {kind : FrameKind} (hkind : kind ≠ .function) :
    Inner (Abides s₀ f₀ θ) (Abides s₀ f₀ (θ.1, w.store)) env w env.frame kind [] := by
  have hgrows := Store.grows_addFrame w.store env.frame kind []
  refine ⟨⟨h.grows, hgrows, Store.has_addFrame_new .., fun hown => ?_, fun hforeign => ?_⟩,
    fun w' hw' => h.leave hw'.since⟩
  · rcases h.own hown with hrefers | hinherited
    · exact .inl (hrefers.addFrame kind [])
    · exact .inr hinherited
  · obtain ⟨g, hfound, hnew⟩ := (h.foreign hforeign).of_grows h.grows hgrows
    refine ⟨g, ?_, hnew⟩
    show List.find? _ (_ :: _) = some g
    unfold Env.enter World.enter
    dsimp only
    rw [List.find?_cons, Store.frame_addFrame_new, decide_eq_false hkind]
    exact hfound

/-- The frame of a call belongs to that call. -/
theorem Abides.inner_call {θ : Bool × Store} {env : Env} {w : World} (h : Abides s₀ f₀ θ env w)
    (parent : FrameRef) (bindings : Bindings) :
    Inner (Abides s₀ f₀ θ) (Abides s₀ f₀ (false, w.store)) env w parent .function bindings := by
  have hgrows := Store.grows_addFrame w.store parent .function bindings
  refine ⟨⟨h.grows, hgrows, Store.has_addFrame_new .., nofun, fun _ => ?_⟩,
    fun w' hw' => h.leave hw'.since⟩
  refine ⟨(w.store.addFrame parent .function bindings).1, ?_, fun hold => ?_⟩
  · show List.find? _ (_ :: _) = _
    unfold Env.enter World.enter
    dsimp only
    rw [List.find?_cons, Store.frame_addFrame_new]
    rfl
  · have hlt : w.store.frames.size < w.store.frames.size := (h.grows _ hold).1
    omega

/-- **Everything that evaluation may do to the store abides**, in each of the ways that it has. -/
theorem lasting_abides : Lasting (Abides s₀ f₀) where
  tables := fun _ _ _ _ h => h.of_grows (Store.Grows.refl _) rfl
  host := fun _ _ _ _ _ h => h.of_grows (Store.Grows.refl _) rfl
  assign := fun _ env w name v h =>
    h.move (Store.grows_set w.store env.frame name v) fun _ => .inl (Store.refers_set h.has name v)
  declare := fun _ env w functions name v h =>
    h.of_grows (Store.grows_set { w.store with functions := functions } env.frame name v) rfl
  block := fun θ _ w _ hkind h => ⟨(θ.1, w.store), h.inner_block hkind⟩
  call := fun _ _ w parent bindings h => ⟨(false, w.store), h.inner_call parent bindings⟩

/-- Every point is the beginning of what follows. -/
theorem abides_begin (env : Env) (w : World) (h : w.store.Has env.frame) :
    Abides w.store env.frame (true, w.store) env w := by
  refine ⟨Store.Grows.refl _, Store.Grows.refl _, h, fun _ => ?_, nofun⟩
  by_cases hrefers : w.store.Refers env.frame
  · exact .inl hrefers
  · exact .inr ⟨rfl, hrefers⟩

end

/-! ### Points of a run -/

/-- A pronoun is resolved to a name that cannot be seen from the current frame. -/
def Dangling (node : Node) (env : Env) (w : World) : Prop :=
  ∃ span word name, node = .pronoun span word ∧ resolve node env w = .ok (some name) w ∧
    w.store.get? env.frame name = none

/-- A run resolves no name at the points of `S`: whatever were done there instead, and be it to stop
with some error, the run would be the same. -/
def NeverAt {α : Type} (S : Node → Env → World → Prop) (steps : Nat) (run : Evaluator → Eval α)
    (env : Env) (w : World) : Prop :=
  ∀ resolve' : Node → Eval (Option String),
    (∀ node env w, ¬ S node env w → resolve' node env w = resolve node env w) →
    run (evaluatorWith resolve' steps) env w = run (evaluator steps) env w

/-- What never comes about somewhere never comes about at fewer places. -/
theorem NeverAt.mono {α : Type} {S S' : Node → Env → World → Prop} {steps : Nat}
    {run : Evaluator → Eval α} {env : Env} {w : World} (h : NeverAt S' steps run env w)
    (hsub : ∀ node env w, S node env w → S' node env w) : NeverAt S steps run env w :=
  fun resolve' hresolve => h resolve' fun node env w hnot =>
    hresolve node env w fun hin => hnot (hsub node env w hin)

/-- A pronoun that stands for a name stands for the referent. -/
theorem referent_of_resolve {span : Span} {word name : String} {env : Env} {w w' : World}
    (h : resolve (.pronoun span word) env w = .ok (some name) w') :
    w.store.referent = some name := by
  have htold : inspect Store.referent env w = .ok w.store.referent w := rfl
  rw [resolve, bind_of_ok htold] at h
  cases hreferent : w.store.referent with
  | none =>
    rw [hreferent] at h
    cases h
  | some n =>
    rw [hreferent] at h
    cases h
    rfl

/-- A pronoun is resolved to a name that cannot be seen, in the call that the program was in at the
beginning, although this is not the name, unseen from the first, that pronouns stood for then. -/
def StraysFrom (s₀ : Store) (f₀ : FrameRef) (node : Node) (env : Env) (w : World) : Prop :=
  Dangling node env w ∧ w.store.activation? env.frame = s₀.activation? f₀ ∧
    ¬ (w.store.referent = s₀.referent ∧ ¬ s₀.Refers f₀)

/-- While this is kept, no pronoun strays. -/
theorem Abides.not_straysFrom {s₀ : Store} {f₀ : FrameRef} {θ : Bool × Store} {env : Env} {w : World}
    (h : Abides s₀ f₀ θ env w) (node : Node) : ¬ StraysFrom s₀ f₀ node env w := by
  rintro ⟨⟨span, word, name, rfl, hresolve, hunseen⟩, hactivation, hnot⟩
  cases hown : θ.1 with
  | true =>
    rcases h.own hown with hrefers | hinherited
    · have hseen := hrefers name (referent_of_resolve hresolve)
      rw [hunseen] at hseen
      cases hseen
    · exact hnot hinherited
  | false =>
    -- the call is a new one, so it is not the one of the beginning
    obtain ⟨g, hfound, hnew⟩ := h.foreign hown
    exact hnew (Store.has_of_activation? (hactivation.symm.trans hfound))

/-- Evaluators that differ only at stray pronouns are alike. -/
theorem coincides_of_straysFrom {s₀ : Store} {f₀ : FrameRef} {resolve' : Node → Eval (Option String)}
    (hresolve : ∀ node env w, ¬ StraysFrom s₀ f₀ node env w →
      resolve' node env w = resolve node env w) (θ : Bool × Store) (n : Node) :
    Coincides (Abides s₀ f₀ θ) anyStop (resolve n) (resolve' n) :=
  ⟨(coincides_resolve θ n).meets, fun env w h => hresolve n env w (h.not_straysFrom n)⟩

/-- **No pronoun strays while a block runs**: what it stands for can be seen, or was taken over. -/
theorem never_strays_block (steps : Nat) (nodes : List Node) (env : Env) (w : World)
    (h : w.store.Has env.frame) :
    NeverAt (StraysFrom w.store env.frame) steps (·.block nodes) env w := by
  intro resolve' hresolve
  have hblock := lasting_abides.block_coincides (coincides_of_straysFrom hresolve) (true, w.store)
    steps nodes
  exact hblock.same env w (abides_begin env w h)

/-- The same of a whole program. -/
theorem never_strays_runAll (steps : Nat) (nodes : List Node) (env : Env) (w : World)
    (h : w.store.Has env.frame) :
    NeverAt (StraysFrom w.store env.frame) steps (runAll · nodes) env w := by
  intro resolve' hresolve
  have hrun := lasting_abides.coincides_runAll (coincides_of_straysFrom hresolve) (true, w.store)
    steps nodes
  exact hrun.same env w (abides_begin env w h)

/-- The context after an evaluation, however that ends. -/
theorem contextAfter_eq {α : Type} (x : Eval α) (env : Env) (w : World) :
    contextAfter (x.act env.ceiling ⟨env.frame, w⟩) = ⟨env.frame, worldAfter x env w⟩ := by
  cases hrun : x env w with
  | ok a w' =>
    rw [act_of_ok hrun, worldAfter_of_ok hrun]
    rfl
  | error e w' =>
    rw [act_of_error hrun, worldAfter_of_error hrun]
    rfl

end Evaluation

/-! ### Sessions -/

/-- The global frame is there, and there is nothing around it. -/
structure Store.Rooted (s : Store) : Prop where
  has : s.Has global
  kind : (s.frame global).kind = .global
  outer : (s.frame global).outer = []

namespace Store

/-- A store without variables is rooted. -/
theorem rooted_empty : empty.Rooted :=
  ⟨by decide, rfl, rfl⟩

/-- No pronoun stands for anything there. -/
theorem refers_empty (f : FrameRef) : empty.Refers f :=
  nofun

/-- A rooted store stays rooted as it grows. -/
theorem Rooted.of_grows {s s' : Store} (h : s.Rooted) (hgrows : s.Grows s') : s'.Rooted := by
  obtain ⟨hhas, hframe⟩ := hgrows global h.has
  exact ⟨hhas, hframe.kind.trans h.kind, hframe.outer.trans h.outer⟩

/-- Without its variables, the global frame is where it was. -/
theorem Rooted.clear {s : Store} (h : s.Rooted) : (s.clear global).Rooted := by
  have hframe := frame_clear_global s global
  rw [if_pos ⟨rfl, h.has⟩] at hframe
  refine ⟨has_clear_global.mpr h.has, ?_, ?_⟩
  · rw [hframe]
    exact h.kind
  · rw [hframe]
    exact h.outer

/-- After all is forgotten, pronouns stand for nothing. -/
theorem refers_clear (s : Store) (f : FrameRef) : (s.clear global).Refers f := by
  rw [clear_global]
  exact nofun

/-- There are no frames around the outermost one. -/
theorem Rooted.chain_global {s : Store} (h : s.Rooted) : s.chain global = [global] := by
  unfold chain
  rw [h.outer]

/-- At the top level, the program is in no call. -/
theorem Rooted.activation?_global {s : Store} (h : s.Rooted) : s.activation? global = none := by
  unfold activation?
  rw [h.chain_global, List.find?_cons, h.kind]
  rfl

/-- What can be seen from the global frame is a global variable. -/
theorem Rooted.owns_global {s : Store} (h : s.Rooted) {name : String}
    (hseen : (s.get? global name).isSome) : s.owns name global := by
  obtain ⟨g, hmem, howns⟩ := isSome_get?_iff.mp hseen
  rw [h.chain_global] at hmem
  cases List.mem_singleton.mp hmem
  exact howns

end Store

namespace Session

open Evaluation

/-- A run leaves a session rooted, with a referent that can be seen. -/
theorem runAll_rooted {s : Session} (hroot : s.store.Rooted)
    (hrefers : s.store.Refers Store.global) (steps : Nat) (nodes : List Node) :
    (worldAfter (runAll (evaluator steps) nodes) s.env s.world).store.Rooted ∧
    (worldAfter (runAll (evaluator steps) nodes) s.env s.world).store.Refers Store.global := by
  have hbegin : Abides s.store Store.global (true, s.store) s.env s.world :=
    abides_begin s.env s.world hroot.has
  have hend := (lasting_abides.keeps_runAll (true, s.store) steps nodes).worldAfter hbegin
  refine ⟨hroot.of_grows hend.grows, ?_⟩
  rcases hend.own rfl with hseen | ⟨-, hunseen⟩
  · exact hseen
  · exact absurd hrefers hunseen

/-- Between runs, pronouns stand for nothing or for a global variable. -/
theorem Reached.rooted {source : String} {s : Session} (h : Reached source s) :
    s.store.Rooted ∧ s.store.Refers Store.global := by
  induction h with
  | fresh inputs ceiling => exact ⟨Store.rooted_empty, Store.refers_empty _⟩
  | @run s _ steps ih =>
    rcases store_run steps s with hstore | ⟨nodes, -, hstore⟩
    · rw [hstore]
      exact ih
    · rw [hstore]
      exact runAll_rooted ih.1 ih.2 steps nodes
  | reset _ ih => exact ⟨ih.1.clear, Store.refers_clear _ _⟩
  | configure _ inputs ceiling ih => exact ih

/-- **Frame and referent are restored**: whatever is done in another frame, the program goes back to the
frame that it was in. So a statement that is executed in some frame leaves the program in that frame,
however it ends, and if pronouns stood for nothing or for what can be seen from there, they do so again.
So at the top level they always stand for nothing or for a global variable. -/
theorem referent_restored (steps : Nat) :
    (∀ (α : Type) (frame : FrameRef) (act : Action α), (act.within frame).Restores) ∧
    (∀ (node : Node) (env : Env) (w : World), w.store.Has env.frame →
      contextAfter (((evaluator steps).exec node).act env.ceiling ⟨env.frame, w⟩) =
        ⟨env.frame, worldAfter ((evaluator steps).exec node) env w⟩ ∧
      (w.store.Refers env.frame →
        (worldAfter ((evaluator steps).exec node) env w).store.Refers env.frame)) ∧
    ∀ (source : String) (s : Session), Reached source s → ∀ (nodes : List Node) (name : String),
      (worldAfter (runAll (evaluator steps) nodes) s.env s.world).store.referent = some name →
      (worldAfter (runAll (evaluator steps) nodes) s.env s.world).store.owns name Store.global := by
  refine ⟨fun α frame act => act.restores_within frame, ?_, ?_⟩
  · intro node env w hhas
    refine ⟨contextAfter_eq _ env w, fun hrefers => ?_⟩
    have hend := (lasting_abides.keeps_exec (true, w.store) steps node).worldAfter
      (abides_begin env w hhas)
    rcases hend.own rfl with hseen | ⟨-, hunseen⟩
    · exact hseen
    · exact absurd hrefers hunseen
  · intro source s hs nodes name hname
    obtain ⟨hroot, hrefers⟩ := hs.rooted
    obtain ⟨hroot', hrefers'⟩ := runAll_rooted hroot hrefers steps nodes
    exact hroot'.owns_global (hrefers' name hname)

/-- An action that goes to another frame and stays there; and a block, in which pronouns come to stand for
one of its variables, and after which they stand for the global one again. -/
theorem referent_restored_block :
    (∃ act : Action Unit, ¬ act.Restores ∧ (act.within ⟨1⟩).Restores) ∧
    ∃ (source : String) (node : Node) (s : Session), Reached source s ∧
    contextAfter (((evaluator 20).exec node).act s.ceiling ⟨Store.global, s.world⟩) =
      ⟨Store.global, worldAfter ((evaluator 20).exec node) s.env s.world⟩ ∧
    (worldAfter ((evaluator 20).exec node) s.env s.world).store.Refers Store.global ∧
    (worldAfter (runAll (evaluator 20) [node]) s.env s.world).store.referent = some "x" ∧
    (worldAfter (runAll (evaluator 20) [node]) s.env s.world).store.owns "x" Store.global := by
  let stray : Action Unit := fun _ c => .ok () { c with frame := ⟨2⟩ }
  have hstray : ¬ stray.Restores := by
    intro hrestores
    have hframe := hrestores none ⟨Store.global, ⟨.empty, [], #[]⟩⟩
    exact absurd hframe (by decide)
  let node : Node := .conditional .origin (.literal .origin (.boolean true))
    [.assign .origin (.var .origin "y") (.pronoun .origin "it")] []
  let s : Session := ((Session.fresh "put 1 into x\n").run 20).2
  have hreached : Reached "put 1 into x\n" s := .run (.fresh [] none) 20
  have hrestored := (referent_restored 20).2.1 node s.env s.world hreached.rooted.1.has
  have hreferent : (worldAfter (runAll (evaluator 20) [node]) s.env s.world).store.referent =
      some "x" := by
    decide +kernel
  exact ⟨⟨stray, hstray, (referent_restored 20).1 Unit ⟨1⟩ stray⟩, _, node, s, hreached, hrestored.1,
    hrestored.2 hreached.rooted.2, hreferent,
    (referent_restored 20).2.2 _ _ hreached [node] "x" hreferent⟩

/-- A function that assigns to a pronoun, called from a block that has assigned to its own variable. -/
def hopeful : String :=
  "Hope takes pain\nlet it be 5\ngive back it\n\nif true\nput 1 into x\nsay Hope taking 2\n"

/-- **Pronouns stand for what can be seen, or for what they stood for when the call began**: outside of
calls, no run resolves a pronoun to a name that cannot be seen. Statements that are executed in any
frame, such as the body of a function in the frame of a call, resolve pronouns to such a name, in the
same call, only if it is the one that pronouns stood for at the beginning, and if it could not be seen
even then. -/
theorem pronouns_seen_or_inherited (steps : Nat) (nodes : List Node) :
    (∀ (source : String) (s : Session), Reached source s →
      NeverAt (fun node env w => Dangling node env w ∧ w.store.activation? env.frame = none) steps
        (runAll · nodes) s.env s.world) ∧
    ∀ (env : Env) (w : World), w.store.Has env.frame →
      NeverAt (StraysFrom w.store env.frame) steps (·.block nodes) env w := by
  constructor
  · intro source s hs
    obtain ⟨hroot, hrefers⟩ := hs.rooted
    have hnever := never_strays_runAll steps nodes s.env s.world hroot.has
    refine hnever.mono ?_
    rintro node env w ⟨hdangling, hactivation⟩
    have htop : s.store.activation? Store.global = none := hroot.activation?_global
    exact ⟨hdangling, hactivation.trans htop.symm, fun hnot => hnot.2 hrefers⟩
  · intro env w hhas
    exact never_strays_block steps nodes env w hhas

/-- A second run, and the body of a function that is called while pronouns stand for a variable that it
cannot see. -/
theorem pronouns_seen_or_inherited_called : ∃ (s : Session) (env : Env) (w : World),
    Reached hopeful s ∧
    NeverAt (fun node env w => Dangling node env w ∧ w.store.activation? env.frame = none) 20
      (runAll · (Program.parse s.source).nodes) s.env s.world ∧
    ¬ w.store.Refers env.frame ∧
    NeverAt (StraysFrom w.store env.frame) 20
      (·.block [.assign .origin (.pronoun .origin "it") (.literal .origin .null)]) env w := by
  have hreached : Reached hopeful _ := .run (.fresh [] none) 20
  refine ⟨_, ⟨⟨2⟩, none⟩, ⟨⟨#[], #[], #[.empty, ⟨.conditional, [("x", .null)], [Store.global]⟩,
    ⟨.function, [], [Store.global]⟩], some "x"⟩, [], #[]⟩, hreached, ?_, ?_, ?_⟩
  · exact (pronouns_seen_or_inherited 20 _).1 _ _ hreached
  · intro hrefers
    exact absurd (hrefers "x" rfl) (by decide)
  · exact (pronouns_seen_or_inherited 20 _).2 _ _ (by decide)

/-- The variable that a node names, where pronouns stand for nothing that cannot be seen. -/
def resolveSeen (node : Node) : Eval (Option String) :=
  match node with
  | .pronoun span word => do
    let frame ← currentFrame
    match (← inspect fun s => s.referent.filter fun name => (s.get? frame name).isSome) with
    | some name => return some name
    | none => fail (.unassigned word) span
  | node => resolve node

/-- Where no pronoun dangles, both ways to resolve it are the same. -/
theorem resolveSeen_eq {node : Node} {env : Env} {w : World} (h : ¬ Dangling node env w) :
    resolveSeen node env w = resolve node env w := by
  cases node with
  | pronoun span word =>
    have hframe : currentFrame env w = .ok env.frame w := rfl
    have htold : inspect Store.referent env w = .ok w.store.referent w := rfl
    have hseen : inspect (fun s => s.referent.filter fun name => (s.get? env.frame name).isSome) env w =
        .ok (w.store.referent.filter fun name => (w.store.get? env.frame name).isSome) w := rfl
    rw [resolveSeen, bind_of_ok hframe, bind_of_ok hseen, resolve, bind_of_ok htold]
    cases hreferent : w.store.referent with
    | none => rfl
    | some name =>
      by_cases hname : (w.store.get? env.frame name).isSome
      · rw [Option.filter_some, if_pos hname]
      · have hdangling : resolve (.pronoun span word) env w = .ok (some name) w := by
          rw [resolve, bind_of_ok htold, hreferent]
          rfl
        exact absurd ⟨span, word, name, rfl, hdangling, Option.not_isSome_iff_eq_none.mp hname⟩ h
  | _ => rfl

/-- A call begins with what pronouns stand for where it is made, so that a function gives a value to
the variable of a block that it cannot see, or rather to its own of that name. -/
theorem pronoun_dangles_in_call :
    ¬ NeverAt Dangling 20 (runAll · (Program.parse hopeful).nodes) ⟨Store.global, none⟩
      ⟨.empty, [], #[]⟩ := by
  intro hnever
  have hsaid : (worldAfter (runAll (evaluator 20) (Program.parse hopeful).nodes)
      ⟨Store.global, none⟩ ⟨.empty, [], #[]⟩).said.size = 1 := by
    decide +kernel
  have hunsaid : (worldAfter (runAll (evaluatorWith resolveSeen 20) (Program.parse hopeful).nodes)
      ⟨Store.global, none⟩ ⟨.empty, [], #[]⟩).said.size = 0 := by
    decide +kernel
  have hsame := hnever resolveSeen fun _ _ _ => resolveSeen_eq
  simp only [worldAfter] at hsame hsaid hunsaid
  rw [hsame, hsaid] at hunsaid
  cases hunsaid

end Session

end Ballad
