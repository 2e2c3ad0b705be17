import Mathlib.Data.List.Perm.Subperm
import NodeShader.Proofs.Pass.Steps

/-!
# Evaluation without a bound

`visitWithin` counts how many more nodes it may enter. The rules of `Ends` do not: they say what
evaluating a node, and fetching its inputs, comes to when the nodes being evaluated are given, and a
derivation is a whole evaluation that ends. `Runs` does the same for a pass. The bound is never what
ends an evaluation, because a node is entered at most once along a path and only if it has a cell:
whatever the graph and the pass, `run` is the one result that the rules derive (`runs_iff`).

The rules also cover evaluations that come to a cycle. What all of them keep is proved of the two
changes they make, values that reach inputs of unfinished nodes and nodes that are completed
(`Runs.invariant_end`).
-/

namespace NodeShader.Pass

variable {C : Type} [Code C]

/-- What is to be done: evaluate a node, or fetch `count` of its inputs from input `i` on. -/
inductive Task where
  | node (id : NodeId)
  | inputs (id : NodeId) (i count : Nat)

/-- A task, begun while the nodes of a path are being evaluated, ends with a result. -/
inductive Ends (g : ShaderGraph) :
    List NodeId → Task → Pass C → Except Cycle Unit × Pass C → Prop
  /-- The pass does not know the node. -/
  | absent {path : List NodeId} {id : NodeId} {p : Pass C} (hcell : p.cell? id = none) :
      Ends g path (.node id) p (.ok (), p)
  /-- That has been done. -/
  | evaluated {path : List NodeId} {id : NodeId} {p : Pass C} {c : Cell C}
      (hcell : p.cell? id = some c) (hdone : c.state.evaluated = true) :
      Ends g path (.node id) p (.ok (), p)
  /-- The node is one of those being evaluated. -/
  | cycle {path : List NodeId} {id : NodeId} {p : Pass C} {c : Cell C}
      (hcell : p.cell? id = some c) (hopen : c.state.evaluated = false) (hpath : id ∈ path) :
      Ends g path (.node id) p (.error ⟨id⟩, p)
  /-- All inputs have their values. -/
  | completed {path : List NodeId} {id : NodeId} {p q : Pass C} {c c' : Cell C}
      (hcell : p.cell? id = some c) (hopen : c.state.evaluated = false) (hpath : id ∉ path)
      (hinputs : Ends g (id :: path) (.inputs id 0 c.state.inputs.length) p (.ok (), q))
      (hcell' : q.cell? id = some c') : Ends g path (.node id) p (.ok (), q.complete c')
  /-- The inputs could not be fetched. -/
  | aborted {path : List NodeId} {id : NodeId} {p q : Pass C} {c : Cell C} {e : Cycle}
      (hcell : p.cell? id = some c) (hopen : c.state.evaluated = false) (hpath : id ∉ path)
      (hinputs : Ends g (id :: path) (.inputs id 0 c.state.inputs.length) p (.error e, q)) :
      Ends g path (.node id) p (.error e, q)
  /-- No input is left. -/
  | filled {path : List NodeId} {id : NodeId} {i : Nat} {p : Pass C} :
      Ends g path (.inputs id i 0) p (.ok (), p)
  /-- Nothing feeds the input, or the memo has the value that does. -/
  | known {path : List NodeId} {id : NodeId} {i count : Nat} {p : Pass C}
      {res : Except Cycle Unit × Pass C}
      (hknown : ∀ out, supplier? g (.input id i) = some out → (p.memo.lookup out).isSome)
      (hrest : Ends g path (.inputs id (i + 1) count)
        (p.mapState id (·.receive i (p.supply g (.input id i)))) res) :
      Ends g path (.inputs id i (count + 1)) p res
  /-- The node that feeds the input is evaluated first. -/
  | asked {path : List NodeId} {id : NodeId} {i count : Nat} {p q : Pass C} {out : Pin}
      {res : Except Cycle Unit × Pass C} (hout : supplier? g (.input id i) = some out)
      (hnew : p.memo.lookup out = none) (hnode : Ends g path (.node out.node) p (.ok (), q))
      (hrest : Ends g path (.inputs id (i + 1) count)
        (q.mapState id (·.receive i (q.supply g (.input id i)))) res) :
      Ends g path (.inputs id i (count + 1)) p res
  /-- The node that feeds the input could not be evaluated. -/
  | refused {path : List NodeId} {id : NodeId} {i count : Nat} {p q : Pass C} {out : Pin} {e : Cycle}
      (hout : supplier? g (.input id i) = some out) (hnew : p.memo.lookup out = none)
      (hnode : Ends g path (.node out.node) p (.error e, q)) :
      Ends g path (.inputs id i (count + 1)) p (.error e, q)

/-- Evaluating nodes in turn and closing the pass ends with a result. -/
inductive Runs (g : ShaderGraph) : List NodeId → Pass C → Except Cycle Unit × Pass C → Prop
  | finished {p : Pass C} : Runs g [] p (.ok (), p.finish)
  | next {id : NodeId} {rest : List NodeId} {p q : Pass C} {res : Except Cycle Unit × Pass C}
      (hnode : Ends g [] (.node id) p (.ok (), q)) (hrest : Runs g rest q res) :
      Runs g (id :: rest) p res
  | stopped {id : NodeId} {rest : List NodeId} {p q : Pass C} {e : Cycle}
      (hnode : Ends g [] (.node id) p (.error e, q)) : Runs g (id :: rest) p (.error e, q)

variable {g : ShaderGraph} {path : List NodeId} {task : Task} {p : Pass C}
  {res res' : Except Cycle Unit × Pass C}

/-! ## There is one result -/

/-- At most one rule applies to a task. -/
theorem Ends.unique (h : Ends g path task p res) (h' : Ends g path task p res') : res = res' := by
  induction h generalizing res' with
  | absent hcell => cases h' <;> simp_all
  | evaluated hcell hdone => cases h' <;> simp_all
  | cycle hcell hopen hpath => cases h' <;> simp_all
  | completed hcell hopen hpath hinputs hcell' ih =>
      cases h' with
      | completed hcell₁ _ _ hinputs₁ hcell₁' =>
          rw [hcell] at hcell₁
          cases hcell₁
          have hsame := ih hinputs₁
          simp only [Prod.mk.injEq, true_and] at hsame
          subst hsame
          rw [hcell'] at hcell₁'
          cases hcell₁'
          rfl
      | aborted hcell₁ _ _ hinputs₁ =>
          rw [hcell] at hcell₁
          cases hcell₁
          exact absurd (ih hinputs₁) (by simp)
      | _ => simp_all
  | aborted hcell hopen hpath hinputs ih =>
      cases h' with
      | completed hcell₁ _ _ hinputs₁ _ =>
          rw [hcell] at hcell₁
          cases hcell₁
          exact absurd (ih hinputs₁) (by simp)
      | aborted hcell₁ _ _ hinputs₁ =>
          rw [hcell] at hcell₁
          cases hcell₁
          exact ih hinputs₁
      | _ => simp_all
  | filled => cases h'; rfl
  | known hknown hrest ih =>
      cases h' with
      | known _ hrest₁ => exact ih hrest₁
      | asked hout hnew | refused hout hnew => exact absurd (hknown _ hout) (by simp [hnew])
  | asked hout hnew hnode hrest ihnode ihrest =>
      cases h' with
      | known hknown => exact absurd (hknown _ hout) (by simp [hnew])
      | asked hout₁ _ hnode₁ hrest₁ =>
          rw [hout] at hout₁
          cases hout₁
          have hsame := ihnode hnode₁
          simp only [Prod.mk.injEq, true_and] at hsame
          subst hsame
          exact ihrest hrest₁
      | refused hout₁ _ hnode₁ =>
          rw [hout] at hout₁
          cases hout₁
          exact absurd (ihnode hnode₁) (by simp)
  | refused hout hnew hnode ih =>
      cases h' with
      | known hknown => exact absurd (hknown _ hout) (by simp [hnew])
      | asked hout₁ _ hnode₁ =>
          rw [hout] at hout₁
          cases hout₁
          exact absurd (ih hnode₁) (by simp)
      | refused hout₁ _ hnode₁ =>
          rw [hout] at hout₁
          cases hout₁
          exact ih hnode₁

theorem Runs.unique {ids : List NodeId} (h : Runs g ids p res) (h' : Runs g ids p res') :
    res = res' := by
  induction h generalizing res' with
  | finished =>
      cases h'
      rfl
  | next hnode hrest ih =>
      cases h' with
      | next hnode₁ hrest₁ =>
          have hsame := hnode.unique hnode₁
          simp only [Prod.mk.injEq, true_and] at hsame
          subst hsame
          exact ih hrest₁
      | stopped hnode₁ => exact absurd (hnode.unique hnode₁) (by simp)
  | stopped hnode =>
      cases h' with
      | next hnode₁ _ => exact absurd (hnode.unique hnode₁) (by simp)
      | stopped hnode₁ => exact hnode.unique hnode₁

/-! ## There is a result -/

/-- The numbers of the nodes that the pass knows. -/
def ids (p : Pass C) : List NodeId := p.cells.map Cell.id

omit [Code C] in
theorem mem_ids_iff {id : NodeId} : id ∈ p.ids ↔ ∃ c, p.cell? id = some c := by
  rw [← Option.isSome_iff_exists, cell?, List.find?_isSome, ids, List.mem_map]
  simp

omit [Code C] in
theorem ids_mapState (p : Pass C) (id : NodeId) (f : NodeState C → NodeState C) :
    (p.mapState id f).ids = p.ids := by
  simp only [ids, mapState, List.map_map]
  refine List.map_congr_left fun c _ => ?_
  simp only [Function.comp_apply]
  split <;> rfl

theorem ids_complete (p : Pass C) (c : Cell C) : (p.complete c).ids = p.ids := by
  rw [ids, cells_complete]
  exact ids_mapState p c.id _

theorem Ends.ids (h : Ends g path task p res) : res.2.ids = p.ids := by
  induction h with
  | absent | evaluated | cycle | filled => rfl
  | completed _ _ _ _ _ ih => exact (ids_complete _ _).trans ih
  | aborted _ _ _ _ ih => exact ih
  | known _ _ ih => exact ih.trans (ids_mapState _ _ _)
  | asked _ _ _ _ ihnode ihrest => exact (ihrest.trans (ids_mapState _ _ _)).trans ihnode
  | refused _ _ _ ih => exact ih

/-- Fetching inputs ends if evaluating nodes does, whatever has become of the cells before. -/
theorem ends_fetchInputs {visit : NodeId → Pass C → Except Cycle Unit × Pass C} (id : NodeId)
    {known : List NodeId}
    (hvisit : ∀ j (q : Pass C), q.ids = known → Ends g path (.node j) q (visit j q)) (count : Nat) :
    ∀ (i : Nat) (p : Pass C), p.ids = known →
      Ends g path (.inputs id i count) p (fetchInputs g visit id i count p) := by
  induction count with
  | zero => exact fun i p _ => .filled
  | succ count ih =>
      intro i p hp
      have hmore : ∀ (q : Pass C) (v : Value C), q.ids = known →
          Ends g path (.inputs id (i + 1) count) (q.mapState id (·.receive i v))
            (fetchInputs g visit id (i + 1) count (q.mapState id (·.receive i v))) :=
        fun q v hq => ih (i + 1) _ ((ids_mapState _ _ _).trans hq)
      cases hout : supplier? g (.input id i) with
      | none =>
          refine .known (by simp [hout]) ?_
          simp only [fetchInputs, demand, supply, hout]
          exact hmore p _ hp
      | some out =>
          cases hmemo : p.memo.lookup out with
          | some v =>
              have hknown : ∀ out', supplier? g (.input id i) = some out' →
                  (p.memo.lookup out').isSome := by
                intro out' hout'
                rw [hout] at hout'
                cases hout'
                rw [hmemo]
                rfl
              refine .known hknown ?_
              simp only [fetchInputs, demand, supply, hout, hmemo, Option.getD_some]
              exact hmore p v hp
          | none =>
              have hnode := hvisit out.node p hp
              cases hres : visit out.node p with
              | mk result q =>
                  rw [hres] at hnode
                  cases result with
                  | error e =>
                      simp only [fetchInputs, demand, hout, hmemo, hres]
                      exact .refused hout hmemo hnode
                  | ok u =>
                      refine .asked hout hmemo hnode ?_
                      simp only [fetchInputs, demand, supply, hout, hmemo, hres]
                      exact hmore q _ (hnode.ids.trans hp)

/-- A bound above the number of cells that are not on the path is never reached. -/
theorem ends_visitWithin (depth : Nat) :
    ∀ (path : List NodeId) (id : NodeId) (p : Pass C), path.Nodup → path ⊆ p.ids →
      p.ids.length < path.length + depth →
      Ends g path (.node id) p (visitWithin g depth path id p) := by
  induction depth with
  | zero =>
      intro path id p hnodup hsub hlength
      -- a path without repetitions is no longer than the list that its nodes come from
      exact absurd (List.subperm_of_subset hnodup hsub).length_le (by omega)
  | succ depth ih =>
      intro path id p hnodup hsub hlength
      unfold visitWithin
      cases hcell : p.cell? id with
      | none => exact .absent hcell
      | some c =>
          dsimp only
          split
          · rename_i hdone
            exact .evaluated hcell hdone
          · rename_i hopen
            have hopen' : c.state.evaluated = false := by simpa using hopen
            split
            · rename_i hpath
              exact .cycle hcell hopen' (by simpa using hpath)
            · rename_i hpath
              have hnew : id ∉ path := by simpa using hpath
              have hid : id ∈ p.ids := mem_ids_iff.mpr ⟨c, hcell⟩
              have hvisit : ∀ j (q : Pass C), q.ids = p.ids → Ends g (id :: path) (.node j) q
                  (visitWithin g depth (id :: path) j q) := by
                intro j q hq
                refine ih (id :: path) j q (List.nodup_cons.mpr ⟨hnew, hnodup⟩) ?_ ?_
                · exact hq ▸ List.cons_subset.mpr ⟨hid, hsub⟩
                · rw [hq, List.length_cons]
                  omega
              have hinputs := ends_fetchInputs id hvisit c.state.inputs.length 0 p rfl
              cases hres : fetchInputs g (visitWithin g depth (id :: path)) id 0
                  c.state.inputs.length p with
              | mk result q =>
                  rw [hres] at hinputs
                  cases result with
                  | error e => exact .aborted hcell hopen' hnew hinputs
                  | ok u =>
                      obtain ⟨c', hcell'⟩ := mem_ids_iff.mp (hinputs.ids ▸ hid)
                      simp only [hcell']
                      exact .completed hcell hopen' hnew hinputs hcell'

theorem ends_evaluateNode (g : ShaderGraph) (id : NodeId) (p : Pass C) :
    Ends g [] (.node id) p (evaluateNode g id p) := by
  refine ends_visitWithin p.depthLimit [] id p List.nodup_nil (List.nil_subset _) ?_
  rw [ids, List.length_map, depthLimit, List.length_nil]
  omega

theorem runs_evaluateAll (ids : List NodeId) :
    ∀ p : Pass C,
      (∀ q, evaluateAll g ids p = (.ok (), q) → Runs g ids p (.ok (), q.finish)) ∧
        ∀ e q, evaluateAll g ids p = (.error e, q) → Runs g ids p (.error e, q) := by
  induction ids with
  | nil =>
      intro p
      refine ⟨fun q h => ?_, fun e q h => absurd h (by simp [evaluateAll])⟩
      cases h
      exact .finished
  | cons id rest ih =>
      intro p
      have hnode := ends_evaluateNode g id p
      unfold evaluateAll
      cases hres : evaluateNode g id p with
      | mk result m =>
          rw [hres] at hnode
          cases result with
          | error e =>
              refine ⟨fun q h => absurd h (by simp), fun e' q h => ?_⟩
              cases h
              exact .stopped hnode
          | ok u =>
              exact ⟨fun q h => .next hnode ((ih m).1 q h), fun e q h => .next hnode ((ih m).2 e q h)⟩

/-- The run of a pass is the one that the rules derive. -/
theorem runs_iff : Runs g (p.roots g) p res ↔ p.run g = res := by
  have hrun : Runs g (p.roots g) p (p.run g) := by
    unfold run
    cases hall : evaluateAll g (p.roots g) p with
    | mk result q =>
        cases result with
        | error e => exact (runs_evaluateAll (p.roots g) p).2 e q hall
        | ok u => exact (runs_evaluateAll (p.roots g) p).1 q hall
  exact ⟨fun h => hrun.unique h, fun h => h ▸ hrun⟩

/-! ## What evaluation keeps -/

/-- The pass knows the node and has not evaluated it. -/
def IsOpen (p : Pass C) (id : NodeId) : Prop := ∃ c, p.cell? id = some c ∧ c.state.evaluated = false

omit [Code C] in
theorem IsOpen.receive {id : NodeId} (h : p.IsOpen id) (i : Nat) (v : Value C) :
    (p.mapState id (·.receive i v)).IsOpen id := by
  obtain ⟨c, hcell, hopen⟩ := h
  exact ⟨_, cell?_mapState_self hcell _, hopen⟩

/-- The node whose inputs are fetched. -/
def Task.owner? : Task → Option NodeId
  | .node _ => none
  | .inputs id _ _ => some id

/-- Inputs are fetched for a node that is being evaluated. -/
def Task.Begun (task : Task) (path : List NodeId) (p : Pass C) : Prop :=
  ∀ id, task.owner? = some id → id ∈ path ∧ p.IsOpen id

omit [Code C] in
theorem Task.begun_node {id : NodeId} : (Task.node id).Begun path p :=
  fun _ h => absurd h (by simp [owner?])

omit [Code C] in
theorem Task.begun_inputs {id : NodeId} {i count : Nat} (hpath : id ∈ path) (hopen : p.IsOpen id) :
    (Task.inputs id i count).Begun path p := by
  intro j hj
  cases hj
  exact ⟨hpath, hopen⟩

/-- The cells of nodes being evaluated stay as they are, but for values that reach their inputs. -/
theorem Ends.cell? (h : Ends g path task p res) {j : NodeId} (hj : j ∈ path)
    (howner : task.owner? ≠ some j) : res.2.cell? j = p.cell? j := by
  induction h with
  | absent | evaluated | cycle | filled => rfl
  | completed hcell hopen hpath hinputs hcell' ih =>
      have hid := id_of_cell? hcell'
      rw [cell?_complete_ne _ fun heq => hpath (hid ▸ heq ▸ hj)]
      exact ih (List.mem_cons_of_mem _ hj) fun heq => hpath (Option.some.inj heq ▸ hj)
  | aborted hcell hopen hpath hinputs ih =>
      exact ih (List.mem_cons_of_mem _ hj) fun heq => hpath (Option.some.inj heq ▸ hj)
  | known _ _ ih =>
      refine (ih hj howner).trans (cell?_mapState_ne ?_ _)
      exact fun heq => howner (congrArg some heq.symm)
  | asked _ _ _ _ ihnode ihrest =>
      have hnode := ihnode hj (by simp [Task.owner?])
      refine ((ihrest hj howner).trans (cell?_mapState_ne ?_ _)).trans hnode
      exact fun heq => howner (congrArg some heq.symm)
  | refused _ _ _ ih => exact ih hj (by simp [Task.owner?])

/-- A node being evaluated stays open while another is asked for. -/
theorem Ends.isOpen {id j : NodeId} (h : Ends g path (.node j) p res) (hpath : id ∈ path)
    (hopen : p.IsOpen id) : res.2.IsOpen id := by
  obtain ⟨c, hcell, hopen⟩ := hopen
  exact ⟨c, (h.cell? hpath (by simp [Task.owner?])).trans hcell, hopen⟩

/-- The node has been evaluated, and this holds of its kind. -/
def Evaluates (p : Pass C) (P : Kind → Prop) (id : NodeId) : Prop :=
  ∃ c, p.cell? id = some c ∧ c.state.evaluated = true ∧ P c.kind

omit [Code C] in
theorem evaluates_receive {id : NodeId} (hopen : p.IsOpen id) (i : Nat) (v : Value C)
    (P : Kind → Prop) (j : NodeId) :
    (p.mapState id (·.receive i v)).Evaluates P j ↔ p.Evaluates P j := by
  obtain ⟨c, hcell, hopen⟩ := hopen
  by_cases hj : j = id
  · subst hj
    constructor
    · rintro ⟨c', hc', hevaluated, -⟩
      rw [cell?_mapState_self hcell] at hc'
      cases hc'
      exact absurd (hopen.symm.trans hevaluated) (by simp)
    · rintro ⟨c', hc', hevaluated, -⟩
      rw [hcell] at hc'
      cases hc'
      exact absurd (hopen.symm.trans hevaluated) (by simp)
  · simp only [Evaluates, cell?_mapState_ne hj]

theorem evaluates_complete {c : Cell C} (hcell : p.cell? c.id = some c)
    (hopen : c.state.evaluated = false) (P : Kind → Prop) (j : NodeId) :
    (p.complete c).Evaluates P j ↔ p.Evaluates P j ∨ j = c.id ∧ P c.kind := by
  by_cases hj : j = c.id
  · subst hj
    constructor
    · rintro ⟨c', hc', -, hd⟩
      rw [cell?_complete_self hcell] at hc'
      cases hc'
      exact .inr ⟨rfl, hd⟩
    · rintro (⟨c', hc', hevaluated, -⟩ | ⟨-, hd⟩)
      · rw [hcell] at hc'
        cases hc'
        exact absurd (hopen.symm.trans hevaluated) (by simp)
      · exact ⟨_, cell?_complete_self hcell, rfl, hd⟩
  · simp only [Evaluates, cell?_complete_ne p hj, hj, false_and, or_false]

section Invariant

variable {I : Pass C → Prop}
  (hreceive : ∀ (p : Pass C) (id : NodeId) (i : Nat) (v : Value C), p.IsOpen id → I p →
    I (p.mapState id (·.receive i v)))
  (hcomplete : ∀ (p : Pass C) (c : Cell C), p.cell? c.id = some c → c.state.evaluated = false →
    I p → I (p.complete c))

include hreceive hcomplete

/-- What the two changes keep, evaluation keeps, and a node whose inputs are fetched stays open. -/
theorem Ends.invariant (h : Ends g path task p res) (hbegun : task.Begun path p) (hp : I p) :
    I res.2 ∧ task.Begun path res.2 := by
  induction h with
  | absent | evaluated | cycle | filled => exact ⟨hp, hbegun⟩
  | completed hcell hopen hpath hinputs hcell' ih =>
      obtain ⟨hq, hbegun'⟩ := ih (Task.begun_inputs List.mem_cons_self ⟨_, hcell, hopen⟩) hp
      obtain ⟨-, c, hsame, hopen'⟩ := hbegun' _ rfl
      rw [hcell'] at hsame
      cases hsame
      have hid := id_of_cell? hcell'
      exact ⟨hcomplete _ _ (hid.symm ▸ hcell') hopen' hq, Task.begun_node⟩
  | aborted hcell hopen hpath hinputs ih =>
      exact ⟨(ih (Task.begun_inputs List.mem_cons_self ⟨_, hcell, hopen⟩) hp).1, Task.begun_node⟩
  | known _ _ ih =>
      obtain ⟨hmem, hopen⟩ := hbegun _ rfl
      exact ih (Task.begun_inputs hmem (hopen.receive _ _)) (hreceive _ _ _ _ hopen hp)
  | asked _ _ hnode _ ihnode ihrest =>
      obtain ⟨hmem, hopen⟩ := hbegun _ rfl
      -- the node that feeds the input has not touched the cells on the path
      have hopen' := hnode.isOpen hmem hopen
      exact ihrest (Task.begun_inputs hmem (hopen'.receive _ _))
        (hreceive _ _ _ _ hopen' (ihnode Task.begun_node hp).1)
  | refused _ _ hnode ih =>
      obtain ⟨hmem, hopen⟩ := hbegun _ rfl
      exact ⟨(ih Task.begun_node hp).1, Task.begun_inputs hmem (hnode.isOpen hmem hopen)⟩

/-- What holds at the start and is kept by the two changes holds when the pass is closed, and when it
has come to a cycle. -/
theorem Runs.invariant_end {ids : List NodeId} (h : Runs g ids p res) (hp : I p) :
    ∃ m : Pass C, I m ∧ (res = (.ok (), m.finish) ∨ ∃ e, res = (.error e, m)) := by
  induction h with
  | finished => exact ⟨_, hp, .inl rfl⟩
  | next hnode _ ih => exact ih (hnode.invariant hreceive hcomplete Task.begun_node hp).1
  | stopped hnode =>
      exact ⟨_, (hnode.invariant hreceive hcomplete Task.begun_node hp).1, .inr ⟨_, rfl⟩⟩

/-- What holds at the start and is kept by the two changes holds when the pass is closed. -/
theorem Runs.invariant {ids : List NodeId} {q : Pass C} (h : Runs g ids p (.ok (), q)) (hp : I p) :
    ∃ m : Pass C, I m ∧ q = m.finish := by
  obtain ⟨m, hm, hend | ⟨e, hend⟩⟩ := h.invariant_end hreceive hcomplete hp
  · exact ⟨m, hm, congrArg Prod.snd hend⟩
  · exact absurd hend (by simp)

end Invariant

end NodeShader.Pass
