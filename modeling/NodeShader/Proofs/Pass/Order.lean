import Mathlib.Data.Set.Card
import NodeShader.Proofs.Pass.Ends
import NodeShader.Proofs.Pass.Needed

/-!
# The order of evaluation

A pass reports every node that it evaluates. `Accounted` is what the reports of a pass say at any
time: they name the evaluated nodes, each once and after those it draws from, and the pass has
counted them. Every step keeps this. When all roots have been evaluated, a node has been reported
exactly when the stage needs it (`isEvaluated_iff_needs`). The memo grows by outputs of the node that
is completed, which had none in it before, so that no entry takes the place of another.
-/

namespace NodeShader

/-- The node that an event says has been evaluated. -/
def Event.node? : Event → Option NodeId
  | .evaluated id _ _ => some id
  | .hoisted .. | .finished _ => none

namespace Pass

variable {C : Type}

/-- Has the node been evaluated? -/
def IsEvaluated (p : Pass C) : NodeId → Prop := p.Evaluates fun _ => True

/-- The nodes that have been reported as evaluated, in order. -/
def reported (p : Pass C) : List NodeId := p.events.filterMap Event.node?

/-- The outputs that have an entry in the memo. -/
def keys (p : Pass C) : List Pin := p.memo.map Prod.fst

theorem mem_keys_iff {p : Pass C} {pin : Pin} : pin ∈ p.keys ↔ ∃ v, p.memo.lookup pin = some v := by
  rw [← Option.isSome_iff_exists, List.lookup_isSome_iff, keys, List.mem_map]
  simp

variable [Code C] {g : ShaderGraph} {p q : Pass C}

/-! ## Completing a node -/

section Reports

variable {β : Type} {f : Event → Option β} (hf : ∀ pin name fanOut, f (.hoisted pin name fanOut) = none)

include hf

theorem filterMap_events_bind (p : Pass C) (pin : Pin) (o : OutputSlot C) :
    (p.bind pin o).events.filterMap f = p.events.filterMap f := by
  rcases p.bind_cases pin o with ⟨-, h⟩ | ⟨-, ⟨-, h⟩ | ⟨-, h⟩⟩ <;> rw [h]
  · rfl
  · simp [hoist, report, emit, hf]

/-- Completing a node reports its evaluation and variables, and nothing else. -/
theorem filterMap_events_complete (p : Pass C) (c : Cell C) :
    (p.complete c).events.filterMap f = p.events.filterMap f ++
      (f (.evaluated c.id c.archetype.id (p.finished c).overload)).toList := by
  have hevaluated : (p.evaluated c).events.filterMap f = p.events.filterMap f ++
      (f (.evaluated c.id c.archetype.id (p.finished c).overload)).toList :=
    List.filterMap_append
  rw [complete_eq, ← hevaluated]
  refine bindOutputs_invariant
    (I := fun q : Pass C => q.events.filterMap f = (p.evaluated c).events.filterMap f) _ 0 ?_ _ rfl
  intro j o q _ hq
  rw [filterMap_events_bind hf, hq]

end Reports

theorem reported_complete (p : Pass C) (c : Cell C) :
    (p.complete c).reported = p.reported ++ [c.id] :=
  filterMap_events_complete (fun _ _ _ => rfl) p c

theorem keys_bind (p : Pass C) (pin : Pin) (o : OutputSlot C) :
    (p.bind pin o).keys = p.keys ∨ (p.bind pin o).keys = pin :: p.keys := by
  rcases p.bind_cases pin o with ⟨-, h⟩ | ⟨-, ⟨-, h⟩ | ⟨-, h⟩⟩ <;> rw [h]
  · exact .inl rfl
  · exact .inr rfl
  · exact .inr rfl

/-- Outputs that have no entry yet get one at most. -/
theorem nodup_keys_bindOutputs {id : NodeId} (hid : id ≤ NodeId.greatest)
    (os : List (OutputSlot C)) :
    ∀ (i : Nat) (p : Pass C), i + os.length ≤ Registry.pinLimit → p.keys.Nodup →
      (∀ j, i ≤ j → j < Registry.pinLimit → .output id j ∉ p.keys) →
      (bindOutputs id i os p).keys.Nodup := by
  induction os with
  | nil => exact fun _ _ _ h _ => h
  | cons o rest ih =>
      intro i p hlength hnodup hnew
      rw [List.length_cons] at hlength
      have hfirst : .output id i ∉ p.keys := hnew i (Nat.le_refl i) (by omega)
      -- the entry of this output is none of those that come later
      have hother : ∀ j, i + 1 ≤ j → j < Registry.pinLimit → Pin.output id j ≠ .output id i := by
        intro j hj hlt heq
        have := Pin.pack_inj hid (Nat.le_of_lt_succ hlt) (Nat.le_of_lt_succ (Nat.lt_trans hj hlt)) heq
        omega
      refine ih (i + 1) _ (by omega) ?_ fun j hj hlt => ?_
      · rcases keys_bind p (.output id i) o with h | h <;> rw [h]
        · exact hnodup
        · exact List.nodup_cons.mpr ⟨hfirst, hnodup⟩
      · rcases keys_bind p (.output id i) o with h | h <;> rw [h]
        · exact hnew j (by omega) hlt
        · exact List.not_mem_cons_of_ne_of_not_mem (hother j hj hlt) (hnew j (by omega) hlt)

theorem length_outputs_finished (p : Pass C) (c : Cell C) :
    (p.finished c).outputs.length = c.state.outputs.length := by
  have husage := congrArg List.length (c.usage_outcome p.stage)
  simpa [NodeState.usage, finished] using husage

/-- A node that is completed had no output in the memo. -/
theorem nodup_keys_complete (hs : p.Orderly) {c : Cell C} (hcell : p.cell? c.id = some c)
    (hopen : c.state.evaluated = false) (houtputs : c.state.outputs.length ≤ Registry.pinLimit)
    (h : p.keys.Nodup) : (p.complete c).keys.Nodup := by
  have hid := hs.ids _ c hcell
  have hlength := p.length_outputs_finished c
  rw [complete_eq]
  refine nodup_keys_bindOutputs hid _ 0 _ (by omega) h fun j _ _ hmem => ?_
  obtain ⟨v, hv⟩ := mem_keys_iff.mp (show .output c.id j ∈ p.keys from hmem)
  have hsettled := hs.memo _ v hv
  rw [Pin.node_output j hid] at hsettled
  exact absurd (hsettled c hcell) (by simp [hopen])

/-! ## What steps keep -/

/-- Every node has a cell, with the inputs that the node has and no more outputs than there are pins
until it is evaluated. -/
structure Sized (g : ShaderGraph) (p : Pass C) : Prop where
  cells : ∀ n ∈ g.nodes, ∃ c, p.cell? n.id = some c
  inputs : ∀ id c, p.cell? id = some c → c.state.evaluated = false → ∃ n ∈ g.nodes, ∃ e,
    n.id = id ∧ n.node = .expression e ∧ c.state.inputs.length = e.pins.inputs
  outputs : ∀ id c, p.cell? id = some c → c.state.evaluated = false →
    c.state.outputs.length ≤ Registry.pinLimit

theorem Sized.step {root : NodeId} (h : p.Sized g) (hstep : Step g root p q) : q.Sized g := by
  have hcell : ∀ id c', q.cell? id = some c' → c'.state.evaluated = false →
      ∃ c, p.cell? id = some c ∧ c.state.evaluated = false ∧
        c'.state.inputs.length = c.state.inputs.length ∧
        c'.state.outputs.length = c.state.outputs.length := by
    intro id c' hc' hopen'
    cases hstep with
    | receive i hc hopen hready =>
        obtain ⟨c, s, hc, rfl, hsame, hin, hout⟩ := exists_cell_of_receive hc'
        exact ⟨c, hc, hsame ▸ hopen', hin, congrArg List.length hout⟩
    | complete hc hopen hup hfilled =>
        rcases cell_of_complete hc hc' with ⟨-, rfl⟩ | hold
        · exact absurd hopen' (by simp [finished])
        · exact ⟨c', hold, hopen', rfl, rfl⟩
  refine ⟨fun n hn => ?_, fun id c' hc' hopen' => ?_, fun id c' hc' hopen' => ?_⟩
  · obtain ⟨c, hc⟩ := h.cells n hn
    rcases hstep.cell? n.id with hsame | ⟨c₀, s, -, -, hnew, -⟩
    · exact ⟨c, hsame.trans hc⟩
    · exact ⟨_, hnew⟩
  · obtain ⟨c, hc, hopen, hin, -⟩ := hcell id c' hc' hopen'
    rw [hin]
    exact h.inputs id c hc hopen
  · obtain ⟨c, hc, hopen, -, hout⟩ := hcell id c' hc' hopen'
    rw [hout]
    exact h.outputs id c hc hopen

/-- What the reports say: the evaluated nodes, each once and after those it draws from. -/
structure Accounted (g : ShaderGraph) (roots : List NodeId) (p : Pass C) : Prop where
  sized : p.Sized g
  upstream : ∀ id, p.IsEvaluated id → ∃ root ∈ roots, Upstream g root id
  listed : ∀ id, id ∈ p.reported ↔ p.IsEvaluated id
  once : p.reported.Nodup
  counted : p.stats.nodes = p.reported.length
  ordered : ∀ before id after, p.reported = before ++ id :: after →
    ∀ producer, g.DrawsFrom id producer → producer ∈ before
  keys : p.keys.Nodup

theorem supplier?_of_linkInto? {pin : Pin} {l : Link} (h : g.linkInto? pin = some l) :
    supplier? g pin = some l.source := by
  have hin : pin.isInput = true := by
    unfold Graph.linkInto? at h
    split at h
    · assumption
    · exact absurd h (by simp)
  rw [supplier?, if_pos hin, h, Option.map_some]

/-- When the inputs of a node have their values, the nodes it draws from have been reported. -/
theorem Accounted.mem_reported {roots : List NodeId} (hg : g.Consistent) (h : p.Accounted g roots)
    {c : Cell C} (hcell : p.cell? c.id = some c) (hopen : c.state.evaluated = false)
    (hfilled : p.Filled g c c.state.inputs.length) {producer : NodeId}
    (hdraws : g.DrawsFrom c.id producer) : producer ∈ p.reported := by
  obtain ⟨n, hn, e, hid, he, hlength⟩ := h.sized.inputs _ c hcell hopen
  obtain ⟨i, l, hi, hl, rfl⟩ := hg.exists_input hn he (hid ▸ hdraws)
  rw [hid] at hl
  have hi' : i < c.state.inputs.length := hlength ▸ hi
  have hready := (hfilled i _ hi' (List.getElem?_eq_getElem hi')).1
  have hsettled := hready l.source (supplier?_of_linkInto? hl)
  obtain ⟨m, hm, hmid⟩ := hg.exists_producer hdraws
  obtain ⟨d, hd⟩ := h.sized.cells m hm
  rw [hmid] at hd
  exact (h.listed _).mpr ⟨d, hd, hsettled d hd, trivial⟩

theorem Accounted.complete {root : NodeId} {roots : List NodeId} (hg : g.Consistent)
    (hs : p.Orderly) (hroot : root ∈ roots) (h : p.Accounted g roots) {c : Cell C}
    (hcell : p.cell? c.id = some c) (hopen : c.state.evaluated = false)
    (hup : Upstream g root c.id) (hfilled : p.Filled g c c.state.inputs.length) :
    (p.complete c).Accounted g roots := by
  have hevaluated := evaluates_complete hcell hopen (fun _ => True)
  have hnew : c.id ∉ p.reported := by
    intro hmem
    obtain ⟨d, hd, hdone, -⟩ := (h.listed _).mp hmem
    rw [hcell] at hd
    cases hd
    exact absurd (hopen.symm.trans hdone) (by simp)
  refine ⟨h.sized.step (.complete hcell hopen hup hfilled), ?_, ?_, ?_, ?_, ?_, ?_⟩
  · intro id hid
    rcases (hevaluated id).mp hid with hold | ⟨rfl, -⟩
    · exact h.upstream id hold
    · exact ⟨root, hroot, hup⟩
  · intro id
    rw [reported_complete, List.mem_append, List.mem_singleton, h.listed]
    exact ((hevaluated id).trans (or_congr_right (and_iff_left trivial))).symm
  · rw [reported_complete]
    exact List.nodup_append_comm.mpr (List.nodup_cons.mpr ⟨hnew, h.once⟩)
  · rw [reported_complete, (stats_complete p c).1, h.counted, List.length_append,
      List.length_singleton]
  · intro before id after hsplit producer hdraws
    rw [reported_complete] at hsplit
    -- the node is the one just reported, or it was reported before and so were its producers
    rcases List.eq_nil_or_concat after with rfl | ⟨after', x, rfl⟩
    · obtain ⟨rfl, hlast⟩ := List.append_inj' hsplit rfl
      cases hlast
      exact h.mem_reported hg hcell hopen hfilled hdraws
    · rw [List.concat_eq_append, ← List.cons_append, ← List.append_assoc] at hsplit
      obtain ⟨hbefore, -⟩ := List.append_inj' hsplit rfl
      exact h.ordered before id after' hbefore producer hdraws
  · exact nodup_keys_complete hs hcell hopen (h.sized.outputs _ c hcell hopen) h.keys

omit [Code C] in
/-- The report of the end names no node. -/
theorem Accounted.finish {roots : List NodeId} (h : p.Accounted g roots) :
    p.finish.Accounted g roots := by
  have hreported : p.finish.reported = p.reported := by
    simp [reported, Pass.finish, report, Event.node?]
  exact ⟨⟨h.sized.cells, h.sized.inputs, h.sized.outputs⟩, h.upstream,
    fun id => hreported ▸ h.listed id, hreported ▸ h.once, hreported ▸ h.counted,
    hreported ▸ h.ordered, h.keys⟩

theorem Accounted.step {root : NodeId} {roots : List NodeId} (hg : g.Consistent) (hs : p.Orderly)
    (hroot : root ∈ roots) (h : p.Accounted g roots) (hstep : Step g root p q) :
    q.Accounted g roots := by
  have hsized := h.sized.step hstep
  cases hstep with
  | @receive id c i hcell hopen hready =>
      have hevaluated := evaluates_receive (p := p) ⟨c, hcell, hopen⟩ i
        (p.supply g (.input id i)) (fun _ => True)
      exact ⟨hsized, fun j hj => h.upstream j ((hevaluated j).mp hj),
        fun j => (h.listed j).trans (hevaluated j).symm, h.once, h.counted, h.ordered, h.keys⟩
  | complete hcell hopen hup hfilled => exact h.complete hg hs hroot hcell hopen hup hfilled

/-! ## Runs -/

variable {r : Registry} {stage : Stage} {o : Options}

theorem accounted_start (hg : g.IsOver r) (roots : List NodeId) :
    (start g r stage o : Pass C).Accounted g roots := by
  have hnone : ∀ id, ¬ (start g r stage o : Pass C).IsEvaluated id := by
    rintro id ⟨c, hc, hdone, -⟩
    exact absurd ((evaluated_start hc).symm.trans hdone) (by simp)
  refine ⟨⟨fun n hn => exists_cell_start hg hn stage o, ?_, ?_⟩, fun id hid => absurd hid (hnone id),
    fun id => iff_of_false (by simp [reported, start]) (hnone id), List.nodup_nil, rfl,
    by simp [reported, start], List.nodup_nil⟩
  · intro id c hc _
    obtain ⟨n, hn, e, a, he, -, hpins, rfl⟩ := cell_start hg (mem_of_cell? hc)
    have hin : e.pins.inputs = a.inputs.length := congrArg PinCount.inputs hpins
    exact ⟨n, hn, e, id_of_cell? hc, he, by simp [Archetype.freshState, hin]⟩
  · intro id c hc _
    obtain ⟨n, hn, e, a, -, ha, rfl⟩ := mem_cells_start (mem_of_cell? hc)
    simpa [Archetype.freshState] using (hg.registry.archetype_fits ha).2

/-- A finished pass accounts for the nodes it has evaluated, and the roots are among them. -/
theorem accounted_of_run (hg : g.IsOver r)
    (h : (start g r stage o : Pass C).run g = (.ok (), p)) :
    p.Accounted g ((start g r stage o : Pass C).roots g) ∧
      ∀ root ∈ (start g r stage o : Pass C).roots g, p.Settled root := by
  have hg' := hg.reachable.consistent
  obtain ⟨m, ⟨hm, hroots⟩, rfl⟩ := run_induction
    (J := fun done q => q.Accounted g ((start g r stage o : Pass C).roots g) ∧
      ∀ root ∈ done, q.Settled root)
    (fun done root rest p' q hall hs hp hsteps hsettled => by
      have hroot : root ∈ (start g r stage o : Pass C).roots g := hall ▸ by simp
      refine ⟨Steps.invariant (fun _ _ hs hp hstep => hp.step hg' hs hroot hstep) hs hp.1 hsteps, ?_⟩
      intro j hj
      rcases List.mem_append.mp hj with hj | hj
      · exact hsteps.settled (hp.2 j hj)
      · rw [List.mem_singleton] at hj
        exact hj ▸ hsettled)
    (orderly_of_isOver hg stage o) ⟨accounted_start hg _, by simp⟩ h
  exact ⟨hm.finish, hroots⟩

omit [Code C] in
/-- Evaluation reaches everything that the evaluated nodes draw from. -/
theorem Accounted.drawsFrom {roots : List NodeId} (h : p.Accounted g roots)
    {consumer producer : NodeId} (hconsumer : p.IsEvaluated consumer)
    (hdraws : g.DrawsFrom consumer producer) : p.IsEvaluated producer := by
  obtain ⟨before, after, hsplit⟩ := List.append_of_mem ((h.listed consumer).mpr hconsumer)
  refine (h.listed producer).mp ?_
  rw [hsplit]
  exact List.mem_append_left _ (h.ordered before consumer after hsplit producer hdraws)

theorem isEvaluated_iff_needs (hg : g.IsOver r)
    (h : (start g r stage o : Pass C).run g = (.ok (), p)) {id : NodeId} :
    p.IsEvaluated id ↔ g.Needs stage id := by
  obtain ⟨hp, hroots⟩ := accounted_of_run hg h
  constructor
  · intro hid
    exact (exists_root_iff hg).mp (hp.upstream id hid)
  · rintro ⟨root, hroot, hpath⟩
    induction hpath with
    | refl =>
        obtain ⟨c, hc⟩ := hroot.elim fun n hn => hn.2.1 ▸ hp.sized.cells n hn.1
        exact ⟨c, hc, hroots root ((mem_roots_start hg).mpr hroot) c hc, trivial⟩
    | tail _ hdraws ih => exact hp.drawsFrom ih hdraws

/-- Each needed node is evaluated exactly once, producers first. In a finished pass the evaluated
nodes are those that the stage needs; the reports name these, each once and after all nodes it draws
from; the pass has counted them; and no two entries of the memo, which keeps all that were ever made,
are for the same output. -/
theorem evaluates_needed_once (hg : g.IsOver r) (stage : Stage) (o : Options) {p : Pass}
    (h : (start g r stage o : Pass).run g = (.ok (), p)) :
    (∀ id, p.IsEvaluated id ↔ g.Needs stage id) ∧
    (∀ id, id ∈ p.reported ↔ g.Needs stage id) ∧ p.reported.Nodup ∧
    (∀ before id after, p.reported = before ++ id :: after →
      ∀ producer, g.DrawsFrom id producer → producer ∈ before) ∧
    p.stats.nodes = {id | g.Needs stage id}.ncard ∧
    p.keys.Nodup := by
  have hneeds : ∀ id, p.IsEvaluated id ↔ g.Needs stage id := fun _ => isEvaluated_iff_needs hg h
  have hp := (accounted_of_run hg h).1
  have hreported : ∀ id, id ∈ p.reported ↔ g.Needs stage id := fun id => (hp.listed id).trans (hneeds id)
  refine ⟨hneeds, hreported, hp.once, hp.ordered, ?_, hp.keys⟩
  have hset : {id | g.Needs stage id} = (p.reported.toFinset : Set NodeId) := by
    ext id
    simp [hreported]
  rw [hset, Set.ncard_coe_finset, List.toFinset_card_of_nodup hp.once, hp.counted]

theorem evaluates_needed_once_detached :
    Graph.detached.IsOver .builtin ∧ Graph.detached.size = 4 ∧
    ∃ p : Pass, (start .detached .builtin .fragment {} : Pass).run .detached = (.ok (), p) ∧
      p.reported = [1, 4] ∧ p.keys = [.output 1 0] ∧
      {id | Graph.detached.Needs .fragment id}.ncard = 2 ∧ ¬ Graph.detached.Needs .fragment 2 := by
  have hg : Graph.detached.IsOver .builtin := Graph.isBuiltin_detached.isOver
  have hrun : ((start .detached .builtin .fragment {} : Pass).run .detached).1 = .ok () ∧
      ((start .detached .builtin .fragment {} : Pass).run .detached).2.reported = [1, 4] ∧
      ((start .detached .builtin .fragment {} : Pass).run .detached).2.keys = [.output 1 0] ∧
      ((start .detached .builtin .fragment {} : Pass).run .detached).2.stats.nodes = 2 := by
    decide +kernel
  have hall := evaluates_needed_once hg .fragment {} (run_eq_ok hrun.1)
  refine ⟨hg, by decide +kernel, _, run_eq_ok hrun.1, hrun.2.1, hrun.2.2.1, ?_, ?_⟩
  · exact hall.2.2.2.2.1.symm.trans hrun.2.2.2
  · rw [← hall.2.1, hrun.2.1]
    decide

end Pass

end NodeShader
