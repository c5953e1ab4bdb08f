import Ballad.Proofs.Arrays.Soundness
import Ballad.Proofs.Evaluation.Keeping
import Ballad.Proofs.Frames

/-!
# Places

A location names a place of the store: a binding of a frame, or an entry of an array. If its targets
and keys are paths, the store alone says which place that is and what is read there. Evaluators do no
more than to look it up, and change nothing on the way.

- `Place`, `Store.at?`, `Store.put`: places, what they hold, and putting a value there.
- `Store.place?`, `Store.peek?`: the place that a path names, and the value that is read there.
- `Looks act env w found`: `act` gives what is `found`, or stops, and changes nothing.
- `looks_tryRead`, `looks_eval`: evaluators read what `Store.peek?` says.
- `Assigned`, `write_path`: they assign to the place that `Store.place?` says, or else to one that was
  not there.
-/

namespace Ballad

/-- A binding of a frame, or an entry of an array. -/
inductive Place where
  | binding (frame : FrameRef) (name : String)
  | entry (table : TableRef) (key : Key)
deriving DecidableEq, Repr

namespace Store

/-- What a place holds. -/
def at? (s : Store) : Place → Option Value
  | .binding f name => (s.frame f).bindings.get? name
  | .entry r key => (s.table r).get? key

/-- Puts a value in a place. Pronouns stand for the variable of a binding afterwards. -/
def put (s : Store) (p : Place) (value : Value) : Store :=
  match p with
  | .binding f name => (s.define f name value).setReferent (some name)
  | .entry r key => s.modifyTable r (·.set key value)

/-- The variable that a node names. -/
def name? (s : Store) : Node → Option String
  | .var _ name => some name
  | .pronoun _ _ => s.referent
  | _ => none

/-- The entry of an array or the character of a string. -/
def entryOf? (s : Store) (container index : Value) : Option Value :=
  match container with
  | .array r => (Key.ofValue? index).map fun key => ((s.table r).get? key).getD .mysterious
  | .string t => Evaluation.charAt? t index
  | _ => none

/-- The value that is read at a path, as seen from a frame. -/
def peek? (s : Store) (f : FrameRef) : Node → Option Value
  | .literal _ v => some (Evaluation.literalValue v)
  | .index _ target key =>
    (s.peek? f target).bind fun container => (s.peek? f key).bind (s.entryOf? container)
  | n => (s.name? n).bind (s.get? f)

/-- The place that a path names, as seen from a frame. -/
def place? (s : Store) (f : FrameRef) : Node → Option Place
  | .index _ target key =>
    match s.peek? f target with
    | some (.array r) => ((s.peek? f key).bind Key.ofValue?).map (.entry r)
    | _ => none
  | n => (s.name? n).bind fun name => (s.owner? f name).map (.binding · name)

variable {s : Store} {f : FrameRef} {n : Node} {name : String} {p : Place} {v : Value}

theorem peek?_of_name? (h : s.name? n = some name) : s.peek? f n = s.get? f name := by
  cases n with
  | var | pronoun => simp only [peek?, h, Option.bind_some]
  | _ => cases h

theorem place?_of_name? (h : s.name? n = some name) :
    s.place? f n = (s.owner? f name).map (.binding · name) := by
  cases n with
  | var | pronoun => simp only [place?, h, Option.bind_some]
  | _ => cases h

/-- A place is named through a variable, or through an array and a key. -/
theorem place?_eq_some (h : s.place? f n = some p) :
    (∃ name g, s.name? n = some name ∧ s.owner? f name = some g ∧ p = .binding g name) ∨
    ∃ span target key r v k, n = .index span target key ∧ s.peek? f target = some (.array r) ∧
      s.peek? f key = some v ∧ Key.ofValue? v = some k ∧ p = .entry r k := by
  cases n with
  | var | pronoun =>
    simp only [place?, Option.bind_eq_some_iff, Option.map_eq_some_iff] at h
    obtain ⟨name, hname, g, howner, rfl⟩ := h
    exact .inl ⟨name, g, hname, howner, rfl⟩
  | index span target key =>
    rw [place?] at h
    split at h
    · rename_i r htarget
      obtain ⟨k, hk, rfl⟩ := Option.map_eq_some_iff.mp h
      obtain ⟨v, hv, hkey⟩ := Option.bind_eq_some_iff.mp hk
      exact .inr ⟨span, target, key, r, v, k, rfl, htarget, hv, hkey, rfl⟩
    · cases h
  | _ => simp [place?, name?] at h

/-- What is read at a path is what the place holds. -/
theorem peek?_of_place? (h : s.place? f n = some p) :
    s.peek? f n = some ((s.at? p).getD .mysterious) := by
  rcases place?_eq_some h with ⟨name, g, hname, howner, rfl⟩ |
    ⟨span, target, key, r, v, k, rfl, htarget, hv, hk, rfl⟩
  · obtain ⟨u, hu⟩ := Option.isSome_iff_exists.mp (owner?_eq_some howner).2
    rw [peek?_of_name? hname, get?_eq_bind_owner?, howner, Option.bind_some, hu, at?, hu]
    rfl
  · rw [peek?, htarget, Option.bind_some, hv, Option.bind_some, entryOf?, hk]
    rfl

/-- A variable is assigned to where it is seen, or else where there was none. -/
theorem set_eq_put (h : s.name? n = some name) (f : FrameRef) (v : Value) :
    ∃ q, (s.set f name v).setReferent (some name) = s.put q v ∧
      (s.place? f n = some q ∨ s.peek? f n = none ∧ s.at? q = none) := by
  refine ⟨.binding ((s.owner? f name).getD f) name, rfl, ?_⟩
  rw [place?_of_name? h, peek?_of_name? h, get?_eq_bind_owner?]
  cases howner : s.owner? f name with
  | some g => exact .inl rfl
  | none =>
    have hfree := List.find?_eq_none.mp howner f List.mem_cons_self
    exact .inr ⟨rfl, Option.not_isSome_iff_eq_none.mp hfree⟩

/-- A place that holds something is there. -/
theorem lt_size_of_get? {r : TableRef} {k : Key} (h : (s.table r).get? k = some v) :
    r.index < s.tables.size := by
  by_cases hr : r.index < s.tables.size
  · exact hr
  · rw [table, Array.getElem?_eq_none (Nat.le_of_not_lt hr), Option.getD_none,
      Table.get?_empty] at h
    cases h

end Store

namespace Evaluation

/-! ### Evaluations that change nothing -/

/-- An evaluation gives what is found, or stops. Either way it changes nothing. -/
def Looks {α : Type} (act : Eval α) (env : Env) (w : World) (found : Option α) : Prop :=
  (∃ a, found = some a ∧ act env w = .ok a w) ∨ ∃ e, act env w = .error e w

section

variable {α β : Type} {env : Env} {w w' : World}

/-- What comes to its end has come to the end of its parts. -/
theorem exists_of_bind_ok {x : Eval α} {f : α → Eval β} {b : β}
    (h : (x >>= f) env w = .ok b w') :
    ∃ a w₁, x env w = .ok a w₁ ∧ f a env w₁ = .ok b w' := by
  cases hx : x env w with
  | ok a w₁ => exact ⟨a, w₁, rfl, by rwa [bind_of_ok hx] at h⟩
  | error e w₁ =>
    rw [bind_of_error hx] at h
    cases h

/-- What looks at something finds it and changes nothing. -/
theorem Looks.of_ok {act : Eval α} {found : Option α} {a : α} (h : Looks act env w found)
    (hrun : act env w = .ok a w') : found = some a ∧ w' = w := by
  rcases h with ⟨b, hfound, hok⟩ | ⟨e, herror⟩
  · cases hok.symm.trans hrun
    exact ⟨hfound, rfl⟩
  · cases herror.symm.trans hrun

/-- One look after the other. -/
theorem Looks.bind {x : Eval α} {f : α → Eval β} {found : Option α} {g : α → Option β}
    (hx : Looks x env w found) (hf : ∀ a, found = some a → Looks (f a) env w (g a)) :
    Looks (x >>= f) env w (found.bind g) := by
  rcases hx with ⟨a, rfl, hok⟩ | ⟨e, herror⟩
  · unfold Looks
    rw [bind_of_ok hok]
    exact hf a rfl
  · exact .inr ⟨e, bind_of_error herror⟩

theorem Looks.imp {act : Eval α} {found found' : Option α} (h : Looks act env w found)
    (himp : ∀ a, found = some a → found' = some a) : Looks act env w found' := by
  rcases h with ⟨a, hfound, hok⟩ | herror
  · exact .inl ⟨a, himp a hfound, hok⟩
  · exact .inr herror

/-- A key is looked at. -/
theorem looks_keyOf (v : Value) (span : Span) : Looks (keyOf v span) env w (Key.ofValue? v) := by
  unfold keyOf
  cases Key.ofValue? v with
  | some key => exact .inl ⟨key, rfl, rfl⟩
  | none => exact .inr ⟨_, rfl⟩

/-- An entry is looked up. -/
theorem looks_entry (container index : Value) (span : Span) :
    Looks (entry container index span) env w (w.store.entryOf? container index) := by
  cases container with
  | array r =>
    show Looks _ env w ((Key.ofValue? index).map _)
    rw [Option.map_eq_bind]
    exact (looks_keyOf index span).bind fun key _ => .inl ⟨_, rfl, rfl⟩
  | string t =>
    unfold entry
    dsimp only
    cases hchar : charAt? t index with
    | some v => exact .inl ⟨v, hchar, rfl⟩
    | none => exact .inr ⟨_, rfl⟩
  | _ => exact .inr ⟨_, rfl⟩

/-- A name is resolved. -/
theorem looks_resolve {n : Node} (hname : n.isName) :
    Looks (resolve n) env w ((w.store.name? n).map some) := by
  cases n with
  | var span name => exact .inl ⟨_, rfl, rfl⟩
  | pronoun span word =>
    have hinspect : inspect Store.referent env w = .ok w.store.referent w := rfl
    show Looks _ env w (w.store.referent.map some)
    cases hreferent : w.store.referent with
    | some name =>
      rw [hreferent] at hinspect
      exact .inl ⟨_, rfl, bind_of_ok hinspect⟩
    | none =>
      rw [hreferent] at hinspect
      exact .inr ⟨_, bind_of_ok hinspect⟩
  | _ => cases hname

/-! ### Reading -/

theorem tryRead_index (steps : Nat) (span : Span) (target key : Node) :
    (evaluator steps).tryRead (.index span target key) = do
      let container ← (evaluator steps).eval target
      let index ← (evaluator steps).eval key
      return some (← entry container index span) := by
  unfold Evaluator.tryRead
  rw [evaluator_resolve]
  rfl

theorem tryRead_var (steps : Nat) (span : Span) (name : String) :
    (evaluator steps).tryRead (.var span name) env w = .ok (w.store.get? env.frame name) w := by
  unfold Evaluator.tryRead
  rw [evaluator_resolve]
  rfl

/-- The value of a path is read there. -/
theorem looks_eval_of_tryRead {n : Node} (hpath : n.isPath)
    (h : ∀ steps, Looks ((evaluator steps).tryRead n) env w (some (w.store.peek? env.frame n)))
    (steps : Nat) : Looks ((evaluator steps).eval n) env w (w.store.peek? env.frame n) := by
  cases steps with
  | zero => exact .inr ⟨_, rfl⟩
  | succ steps =>
    have hread : Looks ((evaluator steps).read n) env w (w.store.peek? env.frame n) := by
      unfold Evaluator.read
      refine (h steps).bind (g := id) fun found _ => ?_
      cases found with
      | some v => exact .inl ⟨v, rfl, rfl⟩
      | none => exact .inr ⟨_, rfl⟩
    cases n with
    | literal span v => exact .inl ⟨_, rfl, rfl⟩
    | var | pronoun | index => exact hread
    | _ => cases hpath

/-- The value of a name is looked up. -/
theorem looks_tryRead_name {n : Node} (hname : n.isName) (steps : Nat) :
    Looks ((evaluator steps).tryRead n) env w (some (w.store.peek? env.frame n)) := by
  unfold Evaluator.tryRead
  rw [evaluator_resolve]
  rcases looks_resolve hname with ⟨found, hfound, hok⟩ | ⟨e, herror⟩
  · obtain ⟨name, hname, rfl⟩ := Option.map_eq_some_iff.mp hfound
    rw [Store.peek?_of_name? hname]
    exact .inl ⟨_, rfl, bind_of_ok hok⟩
  · exact .inr ⟨e, bind_of_error herror⟩

/-- So is that of an atom. -/
theorem looks_tryRead_atom {n : Node} (hatom : n.isAtom) (steps : Nat) :
    Looks ((evaluator steps).tryRead n) env w (some (w.store.peek? env.frame n)) := by
  cases n with
  | literal span v =>
    unfold Evaluator.tryRead
    rw [evaluator_resolve]
    cases steps with
    | zero => exact .inr ⟨_, rfl⟩
    | succ steps => exact .inl ⟨_, rfl, rfl⟩
  | var | pronoun => exact looks_tryRead_name rfl steps
  | _ => cases hatom

/-- **Paths are read off the store.** -/
theorem looks_tryRead {n : Node} (hpath : n.isPath) (steps : Nat) :
    Looks ((evaluator steps).tryRead n) env w (some (w.store.peek? env.frame n)) := by
  induction n using Node.isPath.induct generalizing steps with
  | case1 span target key ih =>
    obtain ⟨htarget, hkey⟩ := Bool.and_eq_true_iff.mp hpath
    have hcontainer := looks_eval_of_tryRead htarget (ih htarget) steps
    have hindex : Looks ((evaluator steps).eval key) env w (w.store.peek? env.frame key) :=
      looks_eval_of_tryRead (Node.isPath_of_isAtom hkey) (looks_tryRead_atom hkey) steps
    have hentry : Looks ((evaluator steps).tryRead (.index span target key)) env w
        ((w.store.peek? env.frame (.index span target key)).map some) := by
      rw [tryRead_index, Option.map_eq_bind, Store.peek?, Option.bind_assoc]
      refine hcontainer.bind fun c _ => ?_
      rw [Option.bind_assoc]
      exact hindex.bind fun i _ => (looks_entry c i span).bind fun v _ => .inl ⟨_, rfl, rfl⟩
    refine hentry.imp ?_
    rintro a ha
    obtain ⟨v, hv, rfl⟩ := Option.map_eq_some_iff.mp ha
    rw [hv]
  | case2 n hn =>
    refine looks_tryRead_atom ?_ steps
    rwa [Node.isPath] at hpath
    exact hn

/-- **So is the value of a path.** -/
theorem looks_eval {n : Node} (hpath : n.isPath) (steps : Nat) :
    Looks ((evaluator steps).eval n) env w (w.store.peek? env.frame n) :=
  looks_eval_of_tryRead hpath (looks_tryRead hpath) steps

/-! ### Writing -/

/-- The array of a path is read there. Only where there is nothing, a new one is made. -/
theorem arrayWith_eq_ok {target : Node} {use : Use} {store : Value → Eval Unit} {steps : Nat}
    {r : TableRef} (hpath : target.isPath)
    (h : (evaluator steps).arrayWith target use store env w = .ok r w') :
    (w.store.peek? env.frame target = some (.array r) ∧ w' = w) ∨
    r = ⟨w.store.tables.size⟩ ∧ (∀ c, w.store.peek? env.frame target = some c → c.isNothing) ∧
      store (.array r) env { w with store := (w.store.addTable .empty).2 } = .ok () w' := by
  obtain ⟨found, w₁, hread, h⟩ := exists_of_bind_ok h
  obtain ⟨hfound, rfl⟩ := (looks_tryRead hpath steps).of_ok hread
  cases Option.some.inj hfound
  have hcreate : Evaluator.arrayWith.create store env w₁ = .ok r w' →
      r = ⟨w₁.store.tables.size⟩ ∧
        store (.array r) env { w₁ with store := (w₁.store.addTable .empty).2 } = .ok () w' := by
    intro hrun
    obtain ⟨r', w₂, hnew, hrun⟩ := exists_of_bind_ok hrun
    cases hnew
    obtain ⟨u, w₃, hstore, hrun⟩ := exists_of_bind_ok hrun
    cases hrun
    exact ⟨rfl, hstore⟩
  cases hpeek : w₁.store.peek? env.frame target with
  | none =>
    rw [hpeek] at h
    obtain ⟨hr, hstore⟩ := hcreate h
    exact .inr ⟨hr, nofun, hstore⟩
  | some c =>
    rw [hpeek] at h
    cases c with
    | array r' =>
      cases h
      exact .inl ⟨rfl, rfl⟩
    | null | mysterious =>
      obtain ⟨hr, hstore⟩ := hcreate h
      exact .inr ⟨hr, fun _ hc => Option.some.inj hc ▸ rfl, hstore⟩
    | _ => cases h

/-- A value has been put in the place `q` that a path names. If nothing can be read there, it is in a
place that was not there, after arrays may have been made for it. -/
def Assigned (path : Node) (v : Value) (env : Env) (w w' : World) (q : Place) : Prop :=
  ∃ s, w' = { w with store := s.put q v } ∧
    (w.store.place? env.frame path = some q ∧ s = w.store ∨
      w.store.peek? env.frame path = none ∧ w.store.at? q = none)

/-- **A path is assigned to in its place.** -/
theorem write_path {node : Node} {v : Value} {steps : Nat} (hpath : node.isPath)
    (h : (evaluator steps).write node v env w = .ok () w') : ∃ q, Assigned node v env w w' q := by
  induction node using Evaluator.write.induct generalizing v w w' with
  | case1 span target key ih =>
    obtain ⟨htarget, hkey⟩ := Bool.and_eq_true_iff.mp hpath
    rw [Evaluator.write] at h
    obtain ⟨u, w₁, hu, hafterKey⟩ := exists_of_bind_ok h
    obtain ⟨hindex, rfl⟩ := (looks_eval (Node.isPath_of_isAtom hkey) steps).of_ok hu
    obtain ⟨k, w₂, hk, hafterArray⟩ := exists_of_bind_ok hafterKey
    obtain ⟨hofValue, rfl⟩ := (looks_keyOf u span).of_ok hk
    obtain ⟨r, w₃, hr, hset⟩ := exists_of_bind_ok hafterArray
    cases hset
    rcases arrayWith_eq_ok htarget hr with ⟨hcontainer, rfl⟩ | ⟨rfl, hnothing, hstore⟩
    · refine ⟨.entry r k, w₃.store, rfl, .inl ⟨?_, rfl⟩⟩
      rw [Store.place?, hcontainer, hindex, Option.bind_some, hofValue]
      rfl
    · -- the array that has been made is not one of those that were there
      obtain ⟨q, s, rfl, -⟩ := ih htarget hstore
      refine ⟨.entry ⟨w₂.store.tables.size⟩ k, s.put q _, rfl, .inr ⟨?_, ?_⟩⟩
      · rw [Store.peek?]
        cases hcontainer : w₂.store.peek? env.frame target with
        | none => rfl
        | some c =>
          have hc := hnothing c hcontainer
          rw [Option.bind_some, hindex, Option.bind_some]
          cases c with
          | null | mysterious => rfl
          | _ => cases hc
      · cases hheld : w₂.store.at? (.entry ⟨w₂.store.tables.size⟩ k) with
        | none => rfl
        | some c => exact absurd (Store.lt_size_of_get? hheld) (Nat.lt_irrefl _)
  | case2 node hnode =>
    have hatom : node.isAtom := by
      rwa [Node.isPath] at hpath
      exact hnode
    rw [Evaluator.write, evaluator_resolve] at h
    · obtain ⟨found, w₁, hresolve, hassign⟩ := exists_of_bind_ok h
      cases hname : node.isName with
      | true =>
        obtain ⟨hfound, rfl⟩ := (looks_resolve hname).of_ok hresolve
        obtain ⟨name, hname, rfl⟩ := Option.map_eq_some_iff.mp hfound
        obtain ⟨q, hput, hq⟩ := Store.set_eq_put hname env.frame v
        refine ⟨q, w₁.store, ?_, hq.imp_left fun hplace => ⟨hplace, rfl⟩⟩
        rw [← hput]
        cases hassign
        rfl
      | false =>
        -- nothing else that is an atom is a location
        cases node with
        | literal span u =>
          cases hresolve
          cases hassign
        | var | pronoun => cases hname
        | _ => cases hatom
    · exact hnode

end

end Evaluation

end Ballad
