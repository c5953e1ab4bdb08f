import Ballad.Proofs.Evaluation.Lasting
import Ballad.Proofs.Simulation.Sessions

/-!
# Programs that always end

Under a ceiling no loop goes on for ever. What is left are calls: a program without calls comes to its
end or stops with an error, from every store and with every input.

- `Node.isCall`: the only node that evaluates trees that do not stand below it.
- `Node.Settles limit steps`: from so many steps on, a node does not run out of them under a ceiling.
- `Node.exists_settles`: a tree without calls settles. The steps that it takes grow with its height,
  and a loop takes no more of them than the ceiling allows.
- `Session.ends_of_callFree`: a program without calls ends.
-/

namespace Ballad

/-- Whether a node is a call. -/
def Node.isCall : Node → Bool
  | call .. => true
  | _ => false

namespace Evaluation

/-- The ceiling of the environment, which never changes. -/
def Capped (limit : Nat) (env : Env) (_ : World) : Prop :=
  env.ceiling = some limit

/-- To stop in any way but for want of steps. -/
def Finished (e : Halt) : Prop :=
  e ≠ .exhausted

theorem Halt.IsPlain.finished {e : Halt} (h : e.IsPlain) : Finished e := by
  rintro rfl
  exact h

section

variable {limit : Nat}

theorem capped_ignoresTables : IgnoresTables (Capped limit) :=
  fun _ _ _ h => h

theorem capped_ignoresHost : IgnoresHost (Capped limit) :=
  fun _ _ _ _ h => h

theorem capped_allowsAssignment : AllowsAssignment (Capped limit) :=
  fun _ _ _ _ h => h

theorem keeps_stray_capped (flow : Flow) : Keeps (Capped limit) Finished (ofExcept flow.stray) := by
  cases flow with
  | normal => exact keeps_pure _
  | _ => exact meets_halt nofun

end

end Evaluation

namespace Node

open Evaluation

/-- From `steps` on, a node does not run out of steps under a ceiling, neither as an expression nor as
a statement. -/
def Settles (limit steps : Nat) (n : Node) : Prop :=
  ∀ more, steps ≤ more →
    Keeps (Capped limit) Finished ((evaluator more).eval n) ∧
    Keeps (Capped limit) Finished ((evaluator more).exec n)

theorem Settles.mono {limit steps more : Nat} {n : Node} (h : n.Settles limit steps)
    (hle : steps ≤ more) : n.Settles limit more :=
  fun _ hmore => h _ (Nat.le_trans hle hmore)

/-- The evaluator on trees that settle. -/
theorem alike_of_settles (limit steps : Nat) :
    Evaluator.Alike (Capped limit) Finished (Everywhere (Settles limit steps)) (evaluator steps)
      (evaluator steps) := by
  have hhalts : ∀ e : Halt, e.IsPlain → Finished e := fun _ h => h.finished
  refine ⟨hhalts, fun n hn => (everywhere_iff.mp hn).2, fun n => ?_, fun n hn => ?_⟩
  · cases steps <;> exact (meets_resolve hhalts n).agrees
  · exact (hn.here steps (Nat.le_refl _)).1.coincides

section

variable {limit steps : Nat} {n : Node}
  (hbelow : ∀ c ∈ n.children, c.Everywhere (Settles limit steps))

include hbelow

/-- One level of evaluation. -/
theorem keeps_evalNode_of_below (hcall : n.isCall = false)
    (hexec : n.isValue = false → Keeps (Capped limit) Finished ((evaluator steps).exec n)) :
    Keeps (Capped limit) Finished ((evaluator steps).evalNode n) := by
  have hev := alike_of_settles limit steps
  refine (hev.evalNode hbelow capped_ignoresTables.keeps_newTable ?_ ?_ ?_).keeps
  · rintro span callee arguments rfl
    cases hcall
  · rintro span target rfl
    exact hev.pop capped_ignoresTables (hbelow target (by simp [children]))
  · intro hvalue
    exact (hexec hvalue).coincides.imp fun flow _ => keeps_stray_capped flow

/-- The body of a block, in a frame of its own. -/
theorem coincides_nested_of_below (kind : FrameKind) (nodes : List Node)
    (hnodes : ∀ c ∈ nodes, c ∈ n.children) :
    Coincides (Capped limit) Finished ((evaluator steps).nested kind nodes)
      ((evaluator steps).nested kind nodes) := by
  refine Evaluator.agrees_nested fun env w hw => ?_
  refine ⟨Capped limit, ⟨hw, fun _ _ => hw⟩, Evaluator.agrees_block trivial fun c hc => ?_⟩
  exact ((hbelow c (hnodes c hc)).here steps (Nat.le_refl _)).2.coincides

/-- One level of execution. A loop has steps up to the ceiling. -/
theorem keeps_execNode_of_below (hlimit : limit < steps)
    (heval : n.isValue → Keeps (Capped limit) Finished ((evaluator steps).eval n)) :
    Keeps (Capped limit) Finished ((evaluator steps).execNode steps n) := by
  have hev := alike_of_settles limit steps
  have hnested := coincides_nested_of_below hbelow
  cases n with
  | conditional span condition body other =>
    have hcondition := hev.eval condition (hbelow condition (by simp [children]))
    exact (Evaluator.agrees_conditional trivial hcondition
      (hnested .conditional body (by simp +contextual [children]))
      (hnested .conditional other (by simp +contextual [children]))).meets
  | loop span condition body goal =>
    have hcondition := hev.eval condition (hbelow condition (by simp [children]))
    have hsupplied : Evaluator.Supplied (Capped limit) Finished steps 0 :=
      .inr ⟨limit, Nat.zero_le _, by omega, fun _ _ hw => hw⟩
    exact (Evaluator.agrees_loop hev.halts trivial (fun _ _ _ => trivial) hcondition
      (hnested .loop body (by simp +contextual [children])) goal span hsupplied).meets
  | function span name parameters body =>
    have hdeclare : Keeps (Capped limit) Finished (Evaluator.declare name parameters body) :=
      fun env w hw => ⟨hw, trivial⟩
    exact hdeclare.bind fun _ => keeps_pure _
  | giveBack span value =>
    exact (hev.eval value (hbelow value (by simp [children]))).keeps.bind fun _ => keeps_pure _
  | breakLoop span => exact keeps_pure _
  | continueLoop span => exact keeps_pure _
  | _ =>
    exact (hev.execNode capped_ignoresTables (hev.assigns capped_allowsAssignment) capped_ignoresHost
      steps rfl (fun hvalue => (heval hvalue).coincides) hbelow).coincides.keeps

/-- A node settles two levels after all that stands below it. -/
theorem settles_of_below (hcall : n.isCall = false) (hlimit : limit < steps) :
    n.Settles limit (steps + 2) := by
  intro more hmore
  obtain ⟨m, rfl⟩ : ∃ m, more = m + 2 := ⟨more - 2, by omega⟩
  have hlater : ∀ k, steps ≤ k → ∀ c ∈ n.children, c.Everywhere (Settles limit k) :=
    fun k hk c hc => (hbelow c hc).imp fun _ h => h.mono hk
  cases hvalue : n.isValue with
  | true =>
    -- an expression is executed by evaluating it, one level down
    have heval : ∀ k, steps ≤ k → Keeps (Capped limit) Finished ((evaluator (k + 1)).eval n) :=
      fun k hk => keeps_evalNode_of_below (hlater k hk) hcall fun h => nomatch hvalue.symm.trans h
    refine ⟨heval (m + 1) (by omega), ?_⟩
    exact keeps_execNode_of_below (hlater (m + 1) (by omega)) (by omega) fun _ => heval m (by omega)
  | false =>
    -- and a statement is evaluated by executing it
    have hexec : ∀ k, steps ≤ k → Keeps (Capped limit) Finished ((evaluator (k + 1)).exec n) :=
      fun k hk => keeps_execNode_of_below (hlater k hk) (by omega) fun h => nomatch hvalue.symm.trans h
    refine ⟨?_, hexec (m + 1) (by omega)⟩
    exact keeps_evalNode_of_below (hlater (m + 1) (by omega)) hcall fun _ => hexec m (by omega)

end

/-- There are enough steps for all of some trees. -/
theorem exists_settles_all {limit : Nat} {nodes : List Node}
    (h : ∀ n ∈ nodes, ∃ steps, n.Everywhere (Settles limit steps)) :
    ∃ steps, ∀ n ∈ nodes, n.Everywhere (Settles limit steps) := by
  induction nodes with
  | nil => exact ⟨0, nofun⟩
  | cons n ns ih =>
    obtain ⟨first, hfirst⟩ := h n List.mem_cons_self
    obtain ⟨rest, hrest⟩ := ih fun m hm => h m (List.mem_cons_of_mem _ hm)
    refine ⟨max first rest, List.forall_mem_cons.mpr ⟨?_, fun m hm => ?_⟩⟩
    · exact hfirst.imp fun _ hsettles => hsettles.mono (Nat.le_max_left _ _)
    · exact (hrest m hm).imp fun _ hsettles => hsettles.mono (Nat.le_max_right _ _)

/-- A tree without calls settles. -/
theorem exists_settles (limit : Nat) {n : Node} (h : n.Everywhere fun m => m.isCall = false) :
    ∃ steps, n.Everywhere (Settles limit steps) := by
  induction h with
  | @intro n hcall _ ih =>
    obtain ⟨steps, hsteps⟩ := exists_settles_all ih
    have hbelow : ∀ more, steps ≤ more → ∀ c ∈ n.children, c.Everywhere (Settles limit more) :=
      fun more hmore c hc => (hsteps c hc).imp fun _ hsettles => hsettles.mono hmore
    refine ⟨steps + limit + 1 + 2, ?_, hbelow _ (by omega)⟩
    exact settles_of_below (hbelow _ (by omega)) hcall (by omega)

end Node

namespace Session

open Evaluation

theorem keeps_runAll_of_settles {limit steps : Nat} {nodes : List Node}
    (h : ∀ n ∈ nodes, n.Everywhere (Node.Settles limit steps)) :
    Keeps (Capped limit) Finished (runAll (evaluator steps) nodes) := by
  induction nodes with
  | nil => exact keeps_pure ()
  | cons n ns ih =>
    have hfirst := ((h n List.mem_cons_self).here steps (Nat.le_refl _)).2
    have hrest := ih fun m hm => h m (List.mem_cons_of_mem _ hm)
    exact hfirst.bind fun flow => (keeps_stray_capped flow).bind fun _ => hrest

theorem runNodes_ne_exhausted {s : Session} {limit steps : Nat} {nodes : List Node}
    (hceiling : s.ceiling = some limit)
    (h : ∀ n ∈ nodes, n.Everywhere (Node.Settles limit steps)) :
    (s.runNodes steps nodes).1.failure ≠ some .exhausted := by
  have hrun := keeps_runAll_of_settles h s.env s.world hceiling
  unfold runNodes
  cases hw : runAll (evaluator steps) nodes s.env s.world with
  | ok _ w => exact nofun
  | error e w =>
    rw [hw] at hrun
    cases e with
    | error e => exact nofun
    | exhausted => exact absurd rfl hrun.2

/-- **The ceiling guarantees an end**: a program without calls comes to its end, or stops with an error,
under every ceiling, from every store and with every input. -/
theorem ends_of_callFree (s : Session) (limit : Nat)
    (h : ∀ n ∈ (Program.parse s.source).nodes, n.Everywhere fun m => m.isCall = false) :
    ∃ report t, ({ s with ceiling := some limit } : Session).Ends report t := by
  obtain ⟨steps, hsteps⟩ := Node.exists_settles_all fun n hn => Node.exists_settles limit (h n hn)
  refine ⟨_, _, ends_run _ steps ?_⟩
  cases hparse : (Program.parse s.source).toExcept with
  | error e =>
    rw [run_of_error (s := { s with ceiling := some limit }) hparse]
    exact nofun
  | ok nodes =>
    rw [run_of_ok (s := { s with ceiling := some limit }) hparse]
    obtain rfl := Parsed.nodes_of_toExcept hparse
    exact runNodes_ne_exhausted rfl hsteps

/-- A loop without an end inside of another one. -/
theorem ends_of_callFree_loops : ∃ source, (Program.parse source).nodes.length = 2 ∧
    (∀ n ∈ (Program.parse source).nodes, n.Everywhere fun m => m.isCall = false) ∧
    ∃ report t, (Session.fresh source [] (some 1000)).Ends report t := by
  have hparse : (Program.parse "X is 1\nwhile true\nuntil false\nbuild X up\n").nodes.length = 2 ∧
      ∀ n ∈ (Program.parse "X is 1\nwhile true\nuntil false\nbuild X up\n").nodes,
        n.Everywhere fun m => m.isCall = false := by
    decide +kernel
  exact ⟨_, hparse.1, hparse.2, ends_of_callFree (.fresh _) 1000 hparse.2⟩

end Session

end Ballad
