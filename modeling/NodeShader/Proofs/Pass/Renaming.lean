import Mathlib.Data.Set.Function
import NodeShader.Proofs.Node.Anonymous
import NodeShader.Proofs.Pass.Cycle

/-!
# Evaluation under a renaming

Two passes over two graphs run in step when a renaming takes the nodes that the one asks for to
those that the other asks for. Then one evaluation is the other, rule by rule (`Ends.renamed`),
while the passes correspond: what they have written is equal, the cells of corresponding nodes agree
in all that evaluation reads, and the memos offer the same values at corresponding outputs. The
renaming is one-to-one on the nodes that are asked for, the live ones. Of other nodes nothing is
said: neither graph needs to have those of the other.
-/

namespace NodeShader

/-! ## Cells that evaluate alike -/

variable {C : Type}

/-- Cells that differ only in what evaluation does not read. Pins of a cell that is still to be
evaluated fit into words. -/
structure Cell.Corresponds (c d : Cell C) : Prop where
  archetype : c.archetype = d.archetype
  kind : c.kind = d.kind
  state : c.state.anonymous = d.state.anonymous
  fits : c.state.evaluated = false →
    c.state.inputs.length ≤ Registry.pinLimit ∧ c.state.outputs.length ≤ Registry.pinLimit

namespace Cell.Corresponds

variable {c d : Cell C}

theorem evaluated (h : c.Corresponds d) : c.state.evaluated = d.state.evaluated :=
  (congrArg NodeState.evaluated h.state :)

theorem length_inputs (h : c.Corresponds d) : c.state.inputs.length = d.state.inputs.length := by
  have hinputs := congrArg (fun s : NodeState C => s.inputs.length) h.state
  simpa [NodeState.anonymous] using hinputs

theorem receive (h : c.Corresponds d) (i : Nat) (v : Value C) :
    ({ c with state := c.state.receive i v } : Cell C).Corresponds
      { d with state := d.state.receive i v } where
  archetype := h.archetype
  kind := h.kind
  state := by rw [NodeState.anonymous_receive, NodeState.anonymous_receive, h.state]
  fits hopen := (Pass.length_inputs_receive c.state i v).symm ▸ h.fits hopen

/-- Cells that evaluate alike have the same outcome, up to the numbers of nodes. -/
theorem outcome [Code C] (h : c.Corresponds d) (stage : Stage) :
    (c.outcome stage).state.anonymous = (d.outcome stage).state.anonymous ∧
      (c.outcome stage).declarations = (d.outcome stage).declarations ∧
      (c.outcome stage).statements = (d.outcome stage).statements := by
  have hforget : ∀ c : Cell C, (c.outcome stage).anonymous =
      ({ c with state := c.state.anonymous } : Cell C).outcome stage := by
    intro c
    simp only [Cell.outcome, NodeState.anonymous_resolve]
    cases c.state.resolve c.archetype c.kind with
    | mk fits s =>
        cases fits with
        | false => rfl
        | true => exact (NodeState.anonymous_evaluate c.kind stage s).symm
  have hsame : (c.outcome stage).anonymous = (d.outcome stage).anonymous := by
    rw [hforget, hforget]
    simp only [Cell.outcome, h.archetype, h.kind, h.state]
  exact ⟨(congrArg Outcome.state hsame :), (congrArg Outcome.declarations hsame :),
    (congrArg Outcome.statements hsame :)⟩

end Cell.Corresponds

/-! ## Passes that correspond -/

namespace Pass

/-- What a pass has written, and what decides how it goes on writing. -/
def written (p : Pass C) : Pass C := { p with cells := [], memo := [], events := [] }

theorem written_finish (p : Pass C) :
    p.finish.written =
      { p.written with
        stats := { p.stats with
          statements := p.body.length
          declarations := p.declarations.length } } := rfl

section Written

variable [Code C]

/-- What a pass starts with, before it looks at the graph. -/
theorem written_start_eq (g : ShaderGraph) (r : Registry) (stage : Stage) (o : Options) :
    (start g r stage o : Pass C).written =
      { stage
        version := o.effectiveVersion
        threshold := o.effectiveThreshold
        cells := [] } := rfl

theorem written_hoist (p : Pass C) (pin : Pin) (o : OutputSlot C) :
    (p.hoist pin o).written =
      { p.written with
        body := p.body ++ [varDeclaration p.nextVar o.value]
        nextVar := p.nextVar + 1
        stats := { p.stats with hoisted := p.stats.hoisted + 1 } } := rfl

theorem written_evaluated (p : Pass C) (c : Cell C) :
    (p.evaluated c).written =
      { p.written with
        declarations := ((c.outcome p.stage).declarations.foldl declare p).declarations
        body := p.body ++ (c.outcome p.stage).statements
        stats := { p.stats with nodes := p.stats.nodes + 1 } } := rfl

end Written

/-- The numbers of the live nodes fit into pins, and so do those they are renamed to, which are as
many. -/
structure Renames (φ : NodeId → NodeId) (live : Set NodeId) : Prop where
  injOn : Set.InjOn φ live
  le : ∀ id ∈ live, id ≤ NodeId.greatest
  le_image : ∀ id ∈ live, φ id ≤ NodeId.greatest

theorem Renames.output_eq_iff {φ : NodeId → NodeId} {live : Set NodeId} (h : Renames φ live)
    {id j : NodeId} (hid : id ∈ live) (hj : j ∈ live) {i k : Nat} (hi : i ≤ Pin.greatestIndex)
    (hk : k ≤ Pin.greatestIndex) :
    Pin.output (φ id) i = .output (φ j) k ↔ Pin.output id i = .output j k := by
  rw [Pin.output_eq_output_iff (h.le_image id hid) (h.le_image j hj) hi hk,
    Pin.output_eq_output_iff (h.le id hid) (h.le j hj) hi hk, h.injOn.eq_iff hid hj]

theorem Renames.notMem_map {φ : NodeId → NodeId} {live : Set NodeId} (h : Renames φ live)
    {path : List NodeId} (hpath : ∀ j ∈ path, j ∈ live) {id : NodeId} (hid : id ∈ live)
    (hnew : id ∉ path) : φ id ∉ path.map φ := by
  intro hmem
  obtain ⟨j, hj, heq⟩ := List.mem_map.mp hmem
  exact hnew (h.injOn (hpath j hj) hid heq ▸ hj)

/-- Two passes have written the same, and where the live nodes are concerned they go on alike. -/
structure Corresponds (φ : NodeId → NodeId) (live : Set NodeId) (p q : Pass C) : Prop where
  written : p.written = q.written
  cells : ∀ id ∈ live, Option.Rel Cell.Corresponds (p.cell? id) (q.cell? (φ id))
  memo : ∀ id ∈ live, ∀ i ≤ Pin.greatestIndex,
    p.memo.lookup (.output id i) = q.memo.lookup (.output (φ id) i)

variable {φ : NodeId → NodeId} {live : Set NodeId} {p q : Pass C}

namespace Corresponds

theorem stage (h : p.Corresponds φ live q) : p.stage = q.stage := (congrArg Pass.stage h.written :)

theorem nextVar (h : p.Corresponds φ live q) : p.nextVar = q.nextVar :=
  (congrArg Pass.nextVar h.written :)

theorem body (h : p.Corresponds φ live q) : p.body = q.body := (congrArg Pass.body h.written :)

theorem declarations (h : p.Corresponds φ live q) : p.declarations = q.declarations :=
  (congrArg Pass.declarations h.written :)

theorem stats (h : p.Corresponds φ live q) : p.stats = q.stats := (congrArg Pass.stats h.written :)

theorem exists_cell (h : p.Corresponds φ live q) {id : NodeId} (hid : id ∈ live) {c : Cell C}
    (hc : p.cell? id = some c) : ∃ d, q.cell? (φ id) = some d ∧ c.Corresponds d := by
  have hcells := h.cells id hid
  rw [hc] at hcells
  generalize q.cell? (φ id) = d? at hcells
  cases hcells with
  | some hcd => exact ⟨_, rfl, hcd⟩

theorem cell?_eq_none (h : p.Corresponds φ live q) {id : NodeId} (hid : id ∈ live)
    (hc : p.cell? id = none) : q.cell? (φ id) = none := by
  have hcells := h.cells id hid
  rw [hc] at hcells
  generalize q.cell? (φ id) = d? at hcells
  cases hcells
  rfl

/-! ### Changes of states -/

theorem mapState (hφ : Renames φ live) (h : p.Corresponds φ live q) {id : NodeId} (hid : id ∈ live)
    {f f' : NodeState C → NodeState C}
    (hf : ∀ c d : Cell C, c.Corresponds d →
      ({ c with state := f c.state } : Cell C).Corresponds { d with state := f' d.state }) :
    (p.mapState id f).Corresponds φ live (q.mapState (φ id) f') := by
  refine ⟨h.written, fun j hj => ?_, h.memo⟩
  by_cases hsame : j = id
  · subst hsame
    cases hc : p.cell? j with
    | none =>
        rw [cell?_mapState, cell?_mapState, hc, h.cell?_eq_none hj hc]
        exact .none
    | some c =>
        obtain ⟨d, hd, hcd⟩ := h.exists_cell hj hc
        rw [cell?_mapState_self hc, cell?_mapState_self hd]
        exact .some (hf c d hcd)
  · have hother : φ j ≠ φ id := fun heq => hsame (hφ.injOn hj hid heq)
    rw [cell?_mapState_ne hsame, cell?_mapState_ne hother]
    exact h.cells j hj

theorem receive (hφ : Renames φ live) (h : p.Corresponds φ live q) {id : NodeId} (hid : id ∈ live)
    (i : Nat) (v : Value C) :
    (p.mapState id (·.receive i v)).Corresponds φ live (q.mapState (φ id) (·.receive i v)) :=
  h.mapState hφ hid fun _ _ hcd => hcd.receive i v

/-! ### Binding outputs -/

/-- Entering one value at corresponding outputs. -/
theorem lookup_cons (hφ : Renames φ live) (h : p.Corresponds φ live q) {id : NodeId}
    (hid : id ∈ live) {i : Nat} (hi : i ≤ Pin.greatestIndex) (v : Value C) :
    ∀ j ∈ live, ∀ k ≤ Pin.greatestIndex,
      ((Pin.output id i, v) :: p.memo).lookup (.output j k) =
        ((Pin.output (φ id) i, v) :: q.memo).lookup (.output (φ j) k) := by
  intro j hj k hk
  have hpins := hφ.output_eq_iff hj hid hk hi
  rw [List.lookup_cons, List.lookup_cons, h.memo j hj k hk]
  by_cases hsame : Pin.output j k = .output id i
  · rw [beq_iff_eq.mpr hsame, beq_iff_eq.mpr (hpins.mpr hsame)]
  · rw [beq_eq_false_iff_ne.mpr hsame, beq_eq_false_iff_ne.mpr (mt hpins.mp hsame)]

variable [Code C]

theorem bind (hφ : Renames φ live) (h : p.Corresponds φ live q) {id : NodeId} (hid : id ∈ live)
    {i : Nat} (hi : i ≤ Pin.greatestIndex) {o o' : OutputSlot C} (ho : o.anonymous = o'.anonymous) :
    (p.bind (.output id i) o).Corresponds φ live (q.bind (.output (φ id) i) o') := by
  have hvalue : o.value = o'.value := (congrArg OutputSlot.value ho :)
  have hflag : o.hoist = o'.hoist := (congrArg OutputSlot.hoist ho :)
  have hfan : min o.fanOut 2 = min o'.fanOut 2 := (congrArg OutputSlot.fanOut ho :)
  have hunused : o.fanOut = 0 ↔ o'.fanOut = 0 := by omega
  have hshared : 1 < o.fanOut ↔ 1 < o'.fanOut := by omega
  have hthreshold : p.threshold = q.threshold := (congrArg Pass.threshold h.written :)
  have hhoisted : p.isHoisted o = q.isHoisted o' := by
    simp only [isHoisted, hshared, hflag, hthreshold, hvalue]
  simp only [Pass.bind, hunused, hvalue, hhoisted]
  split
  · exact h
  · split
    · exact ⟨h.written, h.cells, h.lookup_cons hφ hid hi _⟩
    · refine ⟨?_, h.cells, ?_⟩
      · rw [written_hoist, written_hoist, h.written, h.body, h.nextVar, h.stats, hvalue]
      · have hname := h.lookup_cons hφ hid hi ⟨o.value.ty, Code.verbatim (varName p.nextVar)⟩
        simp only [hoist, ← hvalue, ← h.nextVar]
        exact hname

theorem bindOutputs (hφ : Renames φ live) {id : NodeId} (hid : id ∈ live)
    (os : List (OutputSlot C)) : ∀ (os' : List (OutputSlot C)) (i : Nat) (p q : Pass C),
      os.map OutputSlot.anonymous = os'.map OutputSlot.anonymous →
      i + os.length ≤ Registry.pinLimit → p.Corresponds φ live q →
      (Pass.bindOutputs id i os p).Corresponds φ live (Pass.bindOutputs (φ id) i os' q) := by
  induction os with
  | nil =>
      intro os' i p q hsame hlength h
      rw [List.map_eq_nil_iff.mp hsame.symm]
      exact h
  | cons o rest ih =>
      intro os' i p q hsame hlength h
      cases os' with
      | nil => exact absurd hsame (by simp)
      | cons o' rest' =>
          obtain ⟨ho, hrest⟩ := List.cons.inj hsame
          rw [List.length_cons] at hlength
          have hi : i ≤ Pin.greatestIndex := by simp only [Registry.pinLimit] at hlength; omega
          exact ih rest' (i + 1) _ _ hrest (by omega) (h.bind hφ hid hi ho)

/-! ### Completing nodes -/

theorem complete (hφ : Renames φ live) (h : p.Corresponds φ live q) {id : NodeId} (hid : id ∈ live)
    {c d : Cell C} (hc : p.cell? id = some c) (hd : q.cell? (φ id) = some d) (hcd : c.Corresponds d)
    (hopen : c.state.evaluated = false) :
    (p.complete c).Corresponds φ live (q.complete d) := by
  obtain ⟨hstate, hdeclared, hstatements⟩ := hcd.outcome p.stage
  have hfinished : (p.finished c).anonymous = (q.finished d).anonymous := by
    simp only [finished, ← h.stage]
    exact (congrArg (fun s : NodeState C => { s with evaluated := true }) hstate :)
  have hstates : (p.mapState id fun _ => p.finished c).Corresponds φ live
      (q.mapState (φ id) fun _ => q.finished d) :=
    h.mapState hφ hid fun c' d' hcd' =>
      ⟨hcd'.archetype, hcd'.kind, hfinished, fun hnot => absurd hnot (by simp [finished])⟩
  have hwritten : (p.evaluated c).written = (q.evaluated d).written := by
    rw [written_evaluated, written_evaluated, ← h.stage, hdeclared, hstatements, h.written, h.body,
      h.stats, declarations_foldl_declare _ h.declarations]
  have hevaluated : (p.evaluated c).Corresponds φ live (q.evaluated d) := by
    refine ⟨hwritten, ?_, h.memo⟩
    have hcells := hstates.cells
    simp only [evaluated, cell?, id_of_cell? hc, id_of_cell? hd]
    exact hcells
  have hlength := p.length_outputs_finished c
  have hfits := (hcd.fits hopen).2
  rw [complete_eq, complete_eq, id_of_cell? hc, id_of_cell? hd]
  exact bindOutputs hφ hid _ _ 0 _ _ (congrArg NodeState.outputs hfinished :) (by omega) hevaluated

end Corresponds

/-! ## Evaluation in step -/

/-- Corresponding inputs of live nodes have no supplier, or corresponding ones of live nodes. -/
structure Traces (φ : NodeId → NodeId) (live : Set NodeId) (g g' : ShaderGraph) : Prop
    extends Renames φ live where
  suppliers : ∀ id ∈ live, ∀ i < Registry.pinLimit,
    supplier? g (.input id i) = none ∧ supplier? g' (.input (φ id) i) = none ∨
      ∃ j ∈ live, ∃ k ≤ Pin.greatestIndex, supplier? g (.input id i) = some (.output j k) ∧
        supplier? g' (.input (φ id) i) = some (.output (φ j) k)

/-- The task with its node renamed. -/
def Task.renamed (φ : NodeId → NodeId) : Task → Task
  | .node id => .node (φ id)
  | .inputs id i count => .inputs (φ id) i count

/-- The task is about a live node, and about inputs that fit into pins. -/
def Task.IsLive (live : Set NodeId) : Task → Prop
  | .node id => id ∈ live
  | .inputs id i count => id ∈ live ∧ i + count ≤ Registry.pinLimit

theorem Task.IsLive.lt {id : NodeId} {i count : Nat}
    (h : (Task.inputs id i (count + 1)).IsLive live) : i < Registry.pinLimit := by
  have hcount := h.2
  omega

theorem Task.IsLive.next {id : NodeId} {i count : Nat}
    (h : (Task.inputs id i (count + 1)).IsLive live) :
    (Task.inputs id (i + 1) count).IsLive live := by
  have hcount := h.2
  exact ⟨h.1, by omega⟩

/-- Two results at passes that correspond: both are good, or they name corresponding nodes. -/
inductive Echoes (φ : NodeId → NodeId) (live : Set NodeId) :
    Except Cycle Unit × Pass C → Except Cycle Unit × Pass C → Prop
  | ok {p q : Pass C} (h : p.Corresponds φ live q) : Echoes φ live (.ok (), p) (.ok (), q)
  | error {p q : Pass C} (e : Cycle) (h : p.Corresponds φ live q) :
      Echoes φ live (.error e, p) (.error ⟨φ e.node⟩, q)

variable [Code C] {g g' : ShaderGraph}

theorem Corresponds.supply (ht : Traces φ live g g') (h : p.Corresponds φ live q) {id : NodeId}
    (hid : id ∈ live) {i : Nat} (hi : i < Registry.pinLimit) :
    p.supply g (.input id i) = q.supply g' (.input (φ id) i) := by
  unfold Pass.supply
  rcases ht.suppliers id hid i hi with ⟨hnone, hnone'⟩ | ⟨j, hj, k, hk, hsome, hsome'⟩
  · rw [hnone, hnone']
  · rw [hsome, hsome']
    dsimp only
    rw [h.memo j hj k hk]

/-- The value on offer reaches corresponding inputs. -/
theorem Corresponds.receive_supply (ht : Traces φ live g g') (h : p.Corresponds φ live q)
    {id : NodeId} (hid : id ∈ live) {i : Nat} (hi : i < Registry.pinLimit) :
    (p.mapState id (·.receive i (p.supply g (.input id i)))).Corresponds φ live
      (q.mapState (φ id) (·.receive i (q.supply g' (.input (φ id) i)))) := by
  rw [← h.supply ht hid hi]
  exact h.receive ht.toRenames hid i _

/-- A node whose inputs have been fetched is still open. -/
theorem Ends.isOpen_fetched {path : List NodeId} {id : NodeId} {i count : Nat}
    {res : Except Cycle Unit × Pass C} (h : Ends g path (.inputs id i count) p res)
    (hpath : id ∈ path) (hopen : p.IsOpen id) : res.2.IsOpen id :=
  ((h.invariant (I := fun _ => True) (fun _ _ _ _ _ _ => trivial) (fun _ _ _ _ _ => trivial)
    (Task.begun_inputs hpath hopen) trivial).2 id rfl).2

omit [Code C] in
/-- What feeds a live node is live, and the two memos offer the same there. -/
theorem Traces.exists_supplier (ht : Traces φ live g g') {id : NodeId} (hid : id ∈ live) {i : Nat}
    (hi : i < Registry.pinLimit) {out : Pin} (hout : supplier? g (.input id i) = some out) :
    out.node ∈ live ∧ ∃ out', supplier? g' (.input (φ id) i) = some out' ∧
      out'.node = φ out.node ∧
      ∀ p q : Pass C, p.Corresponds φ live q → p.memo.lookup out = q.memo.lookup out' := by
  rcases ht.suppliers id hid i hi with ⟨hnone, -⟩ | ⟨j, hj, k, hk, hsome, hsome'⟩
  · exact absurd hout (by simp [hnone])
  · rw [hsome] at hout
    cases hout
    rw [Pin.node_output k (ht.le j hj)]
    exact ⟨hj, _, hsome', Pin.node_output k (ht.le_image j hj), fun p q h => h.memo j hj k hk⟩

omit [Code C] in
theorem Corresponds.known (ht : Traces φ live g g') (h : p.Corresponds φ live q) {id : NodeId}
    (hid : id ∈ live) {i : Nat} (hi : i < Registry.pinLimit)
    (hknown : ∀ out, supplier? g (.input id i) = some out → (p.memo.lookup out).isSome) :
    ∀ out, supplier? g' (.input (φ id) i) = some out → (q.memo.lookup out).isSome := by
  intro out hout
  rcases ht.suppliers id hid i hi with ⟨-, hnone⟩ | ⟨j, hj, k, hk, hsome, hsome'⟩
  · exact absurd hout (by simp [hnone])
  · rw [hsome'] at hout
    cases hout
    rw [← h.memo j hj k hk]
    exact hknown _ hsome

/-- Whatever evaluation comes to, the evaluation of the renamed nodes comes to the same. -/
theorem Ends.renamed (ht : Traces φ live g g') {path : List NodeId} {task : Task}
    {res : Except Cycle Unit × Pass C} (h : Ends g path task p res) (hpath : ∀ j ∈ path, j ∈ live)
    (htask : task.IsLive live) (hpq : p.Corresponds φ live q) :
    ∃ res', Ends g' (path.map φ) (task.renamed φ) q res' ∧ Echoes φ live res res' := by
  have hφ := ht.toRenames
  have hcons : ∀ {path : List NodeId} {id : NodeId}, (∀ j ∈ path, j ∈ live) → id ∈ live →
      ∀ j ∈ id :: path, j ∈ live := fun hpath hid => List.forall_mem_cons.mpr ⟨hid, hpath⟩
  -- every rule applies on the other side too, with the renamed node and the corresponding cell
  induction h generalizing q with
  | absent hcell => exact ⟨_, .absent (hpq.cell?_eq_none htask hcell), .ok hpq⟩
  | evaluated hcell hdone =>
      obtain ⟨d, hd, hcd⟩ := hpq.exists_cell htask hcell
      exact ⟨_, .evaluated hd (hcd.evaluated ▸ hdone), .ok hpq⟩
  | cycle hcell hopen hmem =>
      obtain ⟨d, hd, hcd⟩ := hpq.exists_cell htask hcell
      exact ⟨_, .cycle hd (hcd.evaluated ▸ hopen) (List.mem_map_of_mem hmem), .error _ hpq⟩
  | completed hcell hopen hnew hinputs hcell' ih =>
      obtain ⟨d, hd, hcd⟩ := hpq.exists_cell htask hcell
      have hlength := (hcd.fits hopen).1
      obtain ⟨res', hinputs', hechoes⟩ := ih (hcons hpath htask) ⟨htask, by omega⟩ hpq
      rw [hcd.length_inputs] at hinputs'
      obtain ⟨c'', hsame, hopen'⟩ := hinputs.isOpen_fetched List.mem_cons_self ⟨_, hcell, hopen⟩
      rw [hcell'] at hsame
      cases hsame
      cases hechoes with
      | ok hm =>
          obtain ⟨d', hd', hcd'⟩ := hm.exists_cell htask hcell'
          have hnew' := hφ.notMem_map hpath htask hnew
          exact ⟨_, .completed hd (hcd.evaluated ▸ hopen) hnew' hinputs' hd',
            .ok (hm.complete hφ htask hcell' hd' hcd' hopen')⟩
  | aborted hcell hopen hnew hinputs ih =>
      obtain ⟨d, hd, hcd⟩ := hpq.exists_cell htask hcell
      have hlength := (hcd.fits hopen).1
      obtain ⟨res', hinputs', hechoes⟩ := ih (hcons hpath htask) ⟨htask, by omega⟩ hpq
      rw [hcd.length_inputs] at hinputs'
      cases hechoes with
      | error e hm =>
          have hnew' := hφ.notMem_map hpath htask hnew
          exact ⟨_, .aborted hd (hcd.evaluated ▸ hopen) hnew' hinputs', .error _ hm⟩
  | filled => exact ⟨_, .filled, .ok hpq⟩
  | known hknown hrest ih =>
      have hreceived := hpq.receive_supply ht htask.1 htask.lt
      obtain ⟨res', hrest', hechoes⟩ := ih hpath htask.next hreceived
      exact ⟨res', .known (hpq.known ht htask.1 htask.lt hknown) hrest', hechoes⟩
  | asked hout hnew hnode hrest ihnode ihrest =>
      obtain ⟨hlive, out', hout', hnode', hlookup⟩ := ht.exists_supplier htask.1 htask.lt hout
      rw [hlookup _ _ hpq] at hnew
      obtain ⟨res', hproducer, hechoes⟩ := ihnode hpath hlive hpq
      cases hechoes with
      | ok hm =>
          have hreceived := hm.receive_supply ht htask.1 htask.lt
          obtain ⟨res', hrest', hechoes⟩ := ihrest hpath htask.next hreceived
          exact ⟨res', .asked hout' hnew (hnode' ▸ hproducer) hrest', hechoes⟩
  | refused hout hnew hnode ih =>
      obtain ⟨hlive, out', hout', hnode', hlookup⟩ := ht.exists_supplier htask.1 htask.lt hout
      rw [hlookup _ _ hpq] at hnew
      obtain ⟨res', hproducer, hechoes⟩ := ih hpath hlive hpq
      cases hechoes with
      | error e hm => exact ⟨_, .refused hout' hnew (hnode' ▸ hproducer), .error _ hm⟩

omit [Code C] in
theorem Corresponds.finish (h : p.Corresponds φ live q) :
    p.finish.Corresponds φ live q.finish := by
  refine ⟨?_, h.cells, h.memo⟩
  rw [written_finish, written_finish, h.written, h.stats, h.body, h.declarations]

theorem Runs.renamed (ht : Traces φ live g g') {ids : List NodeId}
    {res : Except Cycle Unit × Pass C} (h : Runs g ids p res) (hids : ∀ id ∈ ids, id ∈ live)
    (hpq : p.Corresponds φ live q) :
    ∃ res', Runs g' (ids.map φ) q res' ∧ Echoes φ live res res' := by
  induction h generalizing q with
  | finished => exact ⟨_, .finished, .ok hpq.finish⟩
  | next hnode hrest ih =>
      obtain ⟨hid, hids⟩ := List.forall_mem_cons.mp hids
      obtain ⟨res', hnode', hechoes⟩ := hnode.renamed ht (by simp) hid hpq
      cases hechoes with
      | ok hm =>
          obtain ⟨res', hrest', hechoes⟩ := ih hids hm
          exact ⟨res', .next hnode' hrest', hechoes⟩
  | stopped hnode =>
      obtain ⟨hid, -⟩ := List.forall_mem_cons.mp hids
      obtain ⟨res', hnode', hechoes⟩ := hnode.renamed ht (by simp) hid hpq
      cases hechoes with
      | error e hm => exact ⟨_, .stopped hnode', .error _ hm⟩

end Pass

end NodeShader
