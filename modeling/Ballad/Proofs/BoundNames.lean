import Ballad.Proofs.ControlFlow
import Ballad.Proofs.Evaluation.Lasting
import Ballad.Proofs.Frames
import Ballad.Proofs.NormalNames

/-!
# Variables have the names that stand in the program

Nothing that a program does makes up a name. Variables are made for the names in its trees, for the
parameters of its functions and for what pronouns stand for, which is one of these names again. So what
holds of all names in the trees holds of all variables; among other things, variables can be read from
outside, since their names are in normal form.

- `Store.Spells P`: the invariant. All names in a store, also those in its functions, have the property
  `P`.
- `lastingOn_spells`: everything that a program does keeps it, if the names in its trees have `P`.
- `Session.Reached.spells`: it lasts from run to run.
- `Session.global_reads_normal_names`: names are in normal form, in the trees and in the store, and each
  global variable is read under all names that have this normal form.
-/

namespace Ballad

/-- All names in a function, except its own, have a property. -/
def Closure.Spelled (P : String → Prop) (c : Closure) : Prop :=
  (∀ p ∈ c.parameters, P p) ∧ ∀ n ∈ c.body, n.Everywhere (Node.Spelled P)

/-- Binding one name after the other adds no other name. -/
theorem Bindings.isSome_get?_foldl_insert {name : String} (pairs : List (String × Value))
    (b : Bindings)
    (h : ((pairs.foldl (fun b (n, v) => Association.insert n v b) b).get? name).isSome) :
    (b.get? name).isSome ∨ ∃ v, (name, v) ∈ pairs := by
  induction pairs generalizing b with
  | nil => exact .inl h
  | cons pair pairs ih =>
    obtain ⟨n, v⟩ := pair
    rcases ih _ h with hfirst | ⟨u, hu⟩
    · -- the bindings after the first pair: it is its name or an old one
      by_cases hname : name = n
      · exact .inr ⟨v, hname ▸ List.mem_cons_self⟩
      · rw [Bindings.get?_insert, if_neg hname] at hfirst
        exact .inl hfirst
    · exact .inr ⟨u, List.mem_cons_of_mem _ hu⟩

/-- Arguments are bound to parameters. -/
theorem Closure.mem_parameters_of_bind {c : Closure} {values : List Value} {name : String}
    (h : ((c.bind values).get? name).isSome) : name ∈ c.parameters := by
  rcases Bindings.isSome_get?_foldl_insert _ _ h with hnone | ⟨v, hv⟩
  · cases hnone
  · exact (List.of_mem_zip hv).1

namespace Store

/-- All names of variables, the name that pronouns stand for, and all names in functions have a
property. -/
structure Spells (P : String → Prop) (s : Store) : Prop where
  bound : ∀ f name, s.owns name f → P name
  referent : ∀ name ∈ s.referent, P name
  functions : ∀ c ∈ s.functions, c.Spelled P

variable {P : String → Prop} {s : Store}

theorem spells_empty : empty.Spells P where
  bound := by
    rintro ⟨i⟩ name howns
    have hi : i < 1 := has_of_owns howns
    obtain rfl : i = 0 := by omega
    cases howns
  referent _ hname := by cases hname
  functions c hc := absurd hc (Array.not_mem_empty c)

namespace Spells

theorem closure (h : s.Spells P) (r : FunctionRef) : (s.closure r).Spelled P := by
  unfold Store.closure
  cases hr : s.functions[r.index]? with
  | none => exact ⟨fun p hp => absurd hp List.not_mem_nil, fun n hn => absurd hn List.not_mem_nil⟩
  | some c => exact h.functions c (Array.mem_of_getElem? hr)

theorem set (h : s.Spells P) {name : String} (hname : P name) (f : FrameRef) (v : Value) :
    (s.set f name v).Spells P where
  bound := by
    intro g n howns
    rcases (owns_set s f g name n v).mp howns with hold | ⟨rfl, -, -⟩
    · exact h.bound g n hold
    · exact hname
  referent := h.referent
  functions := h.functions

theorem setReferent (h : s.Spells P) {referent : Option String} (hname : ∀ n ∈ referent, P n) :
    (s.setReferent referent).Spells P :=
  ⟨h.bound, hname, h.functions⟩

theorem addFrame (h : s.Spells P) {bindings : Bindings}
    (hbindings : ∀ name, (bindings.get? name).isSome → P name) (parent : FrameRef)
    (kind : FrameKind) : (s.addFrame parent kind bindings).2.Spells P where
  bound := by
    intro f name howns
    by_cases hold : s.Has f
    · unfold owns at howns
      rw [frame_addFrame hold] at howns
      exact h.bound f name howns
    · obtain rfl := eq_new_of_has hold (has_of_owns howns)
      unfold owns at howns
      rw [frame_addFrame_new] at howns
      exact hbindings name howns
  referent := h.referent
  functions := h.functions

theorem addClosure (h : s.Spells P) {c : Closure} (hc : c.Spelled P) :
    (s.addClosure c).2.Spells P where
  bound := h.bound
  referent := h.referent
  functions := by
    intro d hd
    rcases Array.mem_push.mp hd with hd | rfl
    · exact h.functions d hd
    · exact hc

theorem clear (h : s.Spells P) : (s.clear global).Spells P := by
  have hcleared : (s.modifyBindings global fun _ => []).Spells P := by
    refine ⟨fun f name howns => ?_, h.referent, h.functions⟩
    unfold owns at howns
    rw [frame_modifyBindings] at howns
    split at howns
    · cases howns
    · exact h.bound f name howns
  rw [clear_global]
  exact hcleared.setReferent fun _ hname => by cases hname

end Spells

end Store

namespace Evaluation

variable {P : String → Prop}

/-- Leaving a frame lets pronouns stand for a name that they have stood for before. -/
theorem spells_restoreReferent {w w' : World} (h : w.store.Spells P) (h' : w'.store.Spells P)
    (frame : FrameRef) : (restoreReferent frame w.store.referent w').store.Spells P := by
  unfold restoreReferent
  split
  · split
    · exact h'.setReferent h.referent
    · exact h'
  · exact h'

theorem inner_spells {env : Env} {w : World} (h : w.store.Spells P) {bindings : Bindings}
    (hbindings : ∀ name, (bindings.get? name).isSome → P name) (parent : FrameRef)
    (kind : FrameKind) :
    Inner (fun _ w => w.store.Spells P) (fun _ w => w.store.Spells P) env w parent kind bindings :=
  ⟨h.addFrame hbindings parent kind, fun _ h' => spells_restoreReferent h h' env.frame⟩

theorem keeps_assign_spells {name : String} (hname : P name) (v : Value) :
    Keeps (fun _ w => w.store.Spells P) anyStop (assign name v) := by
  intro env w h
  refine ⟨(h.set hname env.frame v).setReferent ?_, trivial⟩
  rintro _ ⟨⟩
  exact hname

/-- A variable is resolved to a name of the tree, and a pronoun to one that it stands for. -/
theorem meets_resolve_spells {n : Node} (hn : n.Spelled P) :
    Meets (fun _ w => w.store.Spells P) anyStop (resolve n) fun found =>
      ∀ name ∈ found, P name := by
  cases n with
  | var span name =>
    refine meets_pure ?_
    rintro _ ⟨⟩
    exact hn
  | pronoun span word =>
    have hreferent : Meets (fun _ w => w.store.Spells P) anyStop (inspect Store.referent)
        fun found => ∀ name ∈ found, P name := meets_inspect fun _ _ h => h.referent
    refine hreferent.bind fun found hfound => ?_
    cases found with
    | some name => exact meets_pure hfound
    | none => exact meets_halt trivial
  | _ => exact meets_pure fun _ hname => by cases hname

theorem keeps_declare_spells {span : Span} {name : String} {parameters : List String}
    {body : List Node} (h : (Node.function span name parameters body).Everywhere (Node.Spelled P)) :
    Keeps (fun _ w => w.store.Spells P) anyStop (Evaluator.declare name parameters body) := by
  obtain ⟨⟨hname, hparameters⟩, hbody⟩ := Node.everywhere_iff.mp h
  refine keeps_currentFrame.bind fun frame => keeps_modifyStore fun _ w hw => ?_
  have hclosure : Closure.Spelled P ⟨name, parameters, body, frame⟩ := ⟨hparameters, hbody⟩
  exact (hw.addClosure hclosure).set hname frame _

/-- **No name is made up.** -/
theorem lastingOn_spells (P : String → Prop) :
    LastingOn (fun n => n.Everywhere (Node.Spelled P)) (Closure.Spelled P)
      (fun (_ : Unit) _ w => w.store.Spells P) where
  below _ h := (Node.everywhere_iff.mp h).2
  body _ h := h.2
  closure _ _ _ r h := h.closure r
  tables _ _ _ _ h := ⟨h.bound, h.referent, h.functions⟩
  host _ _ _ _ _ h := h
  assign _ _ h := (meets_resolve_spells h.here).imp fun _ hfound name hname =>
    keeps_assign_spells (hfound name hname)
  declare _ _ _ _ _ h := keeps_declare_spells h
  block _ env _ kind _ h := ⟨(), inner_spells h (fun _ hname => by cases hname) env.frame kind⟩
  call _ _ _ c _ hc h :=
    ⟨(), inner_spells h (fun name hname => hc.1 name (Closure.mem_parameters_of_bind hname)) c.frame
      .function⟩

end Evaluation

namespace Session

open Evaluation

/-- What holds of the names in the trees of a source holds of all names in its sessions. -/
theorem Reached.spells {P : String → Prop} {source : String} {s : Session}
    (h : ∀ root ∈ (Program.parse source).nodes, root.Everywhere (Node.Spelled P))
    (hs : Reached source s) : s.source = source ∧ s.store.Spells P := by
  induction hs with
  | fresh inputs ceiling => exact ⟨rfl, Store.spells_empty⟩
  | @run s _ steps ih =>
    obtain ⟨rfl, hspells⟩ := ih
    refine ⟨source_run steps s, ?_⟩
    rcases store_run steps s with hstore | ⟨nodes, hparse, hstore⟩
    · rw [hstore]
      exact hspells
    · have hnodes : ∀ n ∈ nodes, n.Everywhere (Node.Spelled P) := by
        rw [← Parsed.nodes_of_toExcept hparse]
        exact h
      rw [hstore]
      exact ((lastingOn_spells P).keeps_runAll () steps hnodes).worldAfter hspells
  | reset _ ih => exact ⟨ih.1, ih.2.clear⟩
  | configure _ inputs ceiling ih => exact ih

/-- **Names are in normal form**: for every source, all names of variables, functions and parameters in
its trees are left as they are by normalisation, which is to say that they consist of words in lower case
with single blanks between them. In every session of the source, the same holds of all variables that
have been made; so each global variable is read under its own name and under every other name with this
normal form. -/
theorem global_reads_normal_names (source : String) :
    (∀ root ∈ (Program.parse source).nodes, root.Everywhere (Node.Spelled fun name =>
      Name.normalize name = name ∧ Name.Normal name)) ∧
    ∀ s, Reached source s → ∀ x v, s.store.get? Store.global x = some v →
      Name.normalize x = x ∧ ∀ text, Name.normalize text = x → s.global text = s.store.unfold v := by
  have htrees := Program.everywhere_normal source
  constructor
  · intro root hroot
    exact (htrees root hroot).imp fun n hn => hn.imp fun name hname => ⟨Name.normal_iff.mp hname, hname⟩
  · intro s hs x v hx
    obtain ⟨f, -, howns⟩ := Store.isSome_get?_iff.mp (Option.isSome_of_eq_some hx)
    refine ⟨Name.normal_iff.mp ((hs.spells htrees).2.bound f x howns), ?_⟩
    rintro text rfl
    rw [global, hx]
    rfl

end Session

end Ballad
