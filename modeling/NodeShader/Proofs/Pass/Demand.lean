import NodeShader.Proofs.Pass.Cycle
import NodeShader.Proofs.Pass.Evaluator
import NodeShader.Proofs.Pass.Reference

/-!
# Arbitrary demand

A pass can be asked for the value at any pin and for any node, in any order and as often as one likes,
and a caller that recovers from a cycle can go on asking. A call that fails stops halfway: some nodes
have been completed, and some inputs of unfinished nodes have received values. But all that it has done
is take steps (`Ends.steps`), so that whatever steps keep, holds after any calls (`Evaluator.Sound`).

That is enough for a caller to rely on the pass. What was evaluated has no cycle upstream, and a node
with one is never evaluated and fails again. What the memo offers stands for what evaluation from
scratch has there, whichever call put it there, and it is not replaced.
-/

namespace NodeShader

open Relation (ReflTransGen TransGen)

namespace Graph

/-- Some node that the node draws from, directly or through others, draws from itself. -/
def CycleUpstream {α : Type} (g : Graph α) (id : NodeId) : Prop :=
  ∃ j, ReflTransGen g.DrawsFrom id j ∧ TransGen g.DrawsFrom j j

/-- A node with a cycle upstream is a node of the graph. -/
theorem CycleUpstream.exists_node {g : ShaderGraph} (hg : g.Consistent) {id : NodeId}
    (h : g.CycleUpstream id) : ∃ n ∈ g.nodes, n.id = id := by
  have hdraws : ∃ producer, g.DrawsFrom id producer := by
    obtain ⟨j, hpath, hcycle⟩ := h
    rcases hpath.cases_head with rfl | ⟨producer, hfirst, -⟩
    · obtain ⟨producer, hfirst, -⟩ := TransGen.head'_iff.mp hcycle
      exact ⟨producer, hfirst⟩
    · exact ⟨producer, hfirst⟩
  obtain ⟨producer, l, hl, rfl, -⟩ := hdraws
  obtain ⟨-, -, n, hn, hid, -⟩ := hg.targets l hl
  exact ⟨n, hn, hid⟩

end Graph

namespace Pass

section Steps

variable {C : Type} [Code C] {g : ShaderGraph} {root : NodeId} {p q : Pass C}

/-! ## Evaluations that fail take steps too -/

/-- The task is done for something upstream of the root, and the inputs before those that are fetched
have their values. -/
def Task.Supplied (g : ShaderGraph) (root : NodeId) (path : List NodeId) (p : Pass C) : Task → Prop
  | .node id => Upstream g root id
  | .inputs id i count => Upstream g root id ∧ id ∈ path ∧ ∃ c, p.cell? id = some c ∧
      c.state.evaluated = false ∧ c.state.inputs.length = i + count ∧ p.Filled g c i

/-- The node is evaluated, or all its inputs have their values. -/
def Task.Done (g : ShaderGraph) (p : Pass C) : Task → Prop
  | .node id => p.Settled id
  | .inputs id _ _ => ∃ c, p.cell? id = some c ∧ c.state.evaluated = false ∧
      p.Filled g c c.state.inputs.length

/-- A cell that receives what its next input is offered has one input more filled. -/
theorem Filled.receive {id : NodeId} {c : Cell C} {i : Nat} (hfilled : p.Filled g c i)
    (hs : p.Orderly) (hcell : p.cell? id = some c) (hopen : c.state.evaluated = false)
    (hready : p.Ready g (.input id i)) :
    (p.mapState id (·.receive i (p.supply g (.input id i)))).Filled g
      { c with state := c.state.receive i (p.supply g (.input id i)) } (i + 1) := by
  have hstep : Step g id p (p.mapState id (·.receive i (p.supply g (.input id i)))) :=
    .receive i hcell hopen hready
  have hcid := id_of_cell? hcell
  intro j slot hj hslot
  dsimp only at hslot ⊢
  rw [hcid]
  by_cases hij : i = j
  · subst hij
    rw [receive_getElem?_self hslot]
    exact ⟨hstep.ready hready, rfl⟩
  · rw [receive_getElem?_ne hij] at hslot
    have hold := hstep.filled hs hfilled j slot (by omega) hslot
    rwa [hcid] at hold

/-- The next input of a cell can be filled when its producer is settled. -/
theorem Task.Supplied.receive {path : List NodeId} {id : NodeId} {i count : Nat} (hs : p.Orderly)
    (h : (Task.inputs id i (count + 1)).Supplied g root path p) (hready : p.Ready g (.input id i)) :
    Step g root p (p.mapState id (·.receive i (p.supply g (.input id i)))) ∧
      (Task.inputs id (i + 1) count).Supplied g root path
        (p.mapState id (·.receive i (p.supply g (.input id i)))) := by
  obtain ⟨hup, hpath, c, hcell, hopen, hlength, hfilled⟩ := h
  refine ⟨.receive i hcell hopen hready, hup, hpath, _, cell?_mapState_self hcell _, hopen, ?_,
    hfilled.receive hs hcell hopen hready⟩
  rw [length_inputs_receive, hlength]
  omega

/-- What feeds an input is upstream, too. -/
theorem Task.Supplied.feeder {path : List NodeId} {id : NodeId} {i count : Nat} {out : Pin}
    (hs : p.Orderly) (h : (Task.inputs id i (count + 1)).Supplied g root path p)
    (hout : supplier? g (.input id i) = some out) : Upstream g root out.node := by
  obtain ⟨hup, -, c, hcell, hopen, hlength, -⟩ := h
  have hid : id ≤ NodeId.greatest := id_of_cell? hcell ▸ hs.ids id c hcell
  have hinputs := hs.inputs id c hcell hopen
  exact hup.tail (feeds_of_supplier? hid (by omega) hout)

/-- Evaluating another node takes nothing from the inputs that have their values. -/
theorem Task.Supplied.steps {path : List NodeId} {id : NodeId} {i count : Nat} (hs : p.Orderly)
    (h : (Task.inputs id i count).Supplied g root path p) (hsteps : Steps g root p q)
    (hcell : q.cell? id = p.cell? id) : (Task.inputs id i count).Supplied g root path q := by
  obtain ⟨hup, hpath, c, hc, hopen, hlength, hfilled⟩ := h
  exact ⟨hup, hpath, c, hcell.trans hc, hopen, hlength, Steps.filled hs hsteps hfilled⟩

/-- However an evaluation ends, it has taken steps; if it ends well, the task is done. -/
theorem Ends.steps {path : List NodeId} {task : Task} {res : Except Cycle Unit × Pass C}
    (h : Ends g path task p res) (hs : p.Orderly) (htask : task.Supplied g root path p) :
    Steps g root p res.2 ∧ (res.1 = .ok () → task.Done g res.2) := by
  induction h with
  | absent hcell => exact ⟨.refl, fun _ c hc => absurd (hcell.symm.trans hc) (by simp)⟩
  | evaluated hcell hdone =>
      refine ⟨.refl, fun _ c hc => ?_⟩
      cases hcell.symm.trans hc
      exact hdone
  | cycle => exact ⟨.refl, fun h => absurd h (by simp)⟩
  | completed hcell hopen hpath hinputs hcell' ih =>
      obtain ⟨hsteps, hdone⟩ := ih hs ⟨htask, List.mem_cons_self, _, hcell, hopen, by simp,
        fun j slot hj => absurd hj (by omega)⟩
      obtain ⟨c', hc', hopen', hfilled⟩ := hdone rfl
      cases hcell'.symm.trans hc'
      have hid := id_of_cell? hcell'
      subst hid
      refine ⟨hsteps.tail (.complete hcell' hopen' htask hfilled), fun _ c'' hc'' => ?_⟩
      rw [cell?_complete_self hcell'] at hc''
      cases hc''
      rfl
  | aborted hcell hopen hpath hinputs ih =>
      refine ⟨?_, fun h => absurd h (by simp)⟩
      exact (ih hs ⟨htask, List.mem_cons_self, _, hcell, hopen, by simp,
        fun j slot hj => absurd hj (by omega)⟩).1
  | filled =>
      obtain ⟨-, -, c, hcell, hopen, hlength, hfilled⟩ := htask
      exact ⟨.refl, fun _ => ⟨c, hcell, hopen, hlength ▸ hfilled⟩⟩
  | known hknown hrest ih =>
      have hready : Pass.Ready g _ (.input _ _) := fun out hout => by
        obtain ⟨v, hv⟩ := Option.isSome_iff_exists.mp (hknown out hout)
        exact hs.memo out v hv
      obtain ⟨hstep, hnext⟩ := htask.receive hs hready
      obtain ⟨hsteps, hdone⟩ := ih (hstep.orderly hs) hnext
      exact ⟨.head hstep hsteps, hdone⟩
  | @asked _ id i count _ q out _ hout hnew hnode hrest ihnode ihrest =>
      obtain ⟨hsteps, hdone⟩ := ihnode hs (htask.feeder hs hout)
      have hready : q.Ready g (.input id i) := fun out' hout' => by
        cases hout.symm.trans hout'
        exact hdone rfl
      -- the cell whose inputs are fetched is on the path, and so was left alone
      have hq := htask.steps hs hsteps (hnode.cell? htask.2.1 (by simp [Task.owner?]))
      obtain ⟨hstep, hnext⟩ := hq.receive (Steps.orderly hs hsteps) hready
      obtain ⟨hmore, hdone'⟩ := ihrest (hstep.orderly (Steps.orderly hs hsteps)) hnext
      exact ⟨(hsteps.tail hstep).trans hmore, hdone'⟩
  | refused hout hnew hnode ih =>
      exact ⟨(ih hs (htask.feeder hs hout)).1, fun h => absurd h (by simp)⟩

theorem steps_evaluateNode (hs : p.Orderly) (id : NodeId) :
    Steps g id p (evaluateNode g id p).2 ∧
      ((evaluateNode g id p).1 = .ok () → (evaluateNode g id p).2.Settled id) :=
  (ends_evaluateNode g id p).steps hs .refl

omit [Code C] in
theorem depthLimit_eq (p : Pass C) : p.depthLimit = p.cells.length + 1 := rfl

/-- A node that is settled is not evaluated again. -/
theorem evaluateNode_of_settled {id : NodeId} (h : p.Settled id) :
    evaluateNode g id p = (.ok (), p) := by
  rw [evaluateNode, depthLimit_eq, visitWithin]
  cases hcell : p.cell? id with
  | none => rfl
  | some c => simp only [h c hcell, if_true]

/-- The value at a pin is what its supplier offers when its node has been evaluated. -/
theorem evaluate_eq (hs : p.Orderly) {pin out : Pin} (hout : supplier? g pin = some out) :
    evaluate g pin p = match evaluateNode g out.node p with
      | (.error e, q) => (.error e, q)
      | (.ok (), q) => (.ok (q.supply g pin), q) := by
  unfold evaluate demand supply
  simp only [hout]
  cases hmemo : p.memo.lookup out with
  | some v =>
      rw [evaluateNode_of_settled (hs.memo out v hmemo)]
      simp only [hmemo, Option.getD_some]
  | none => rfl

/-- A pin whose supplier is settled has its value, and asking for it changes nothing. -/
theorem evaluate_of_ready (hs : p.Orderly) {pin out : Pin} (hout : supplier? g pin = some out)
    (hready : p.Settled out.node) : evaluate g pin p = (.ok (p.supply g pin), p) := by
  rw [evaluate_eq hs hout, evaluateNode_of_settled hready]

theorem Steps.supply (hs : p.Orderly) (h : Steps g root p q) {pin : Pin} (hpin : p.Ready g pin) :
    q.supply g pin = p.supply g pin := by
  induction h with
  | refl => rfl
  | tail hsteps hstep ih =>
      have hready := fun out hout => Steps.settled hsteps (hpin out hout)
      exact (hstep.supply (Steps.orderly hs hsteps) hready).trans ih

end Steps

/-! ## What every call keeps -/

section Calls

variable {g : ShaderGraph} {stage : Stage} {root : NodeId} {p q : Pass}

theorem Mirrors.step (hg : g.Consistent) (hs : p.Orderly) (hp : p.Prepared g) (h : p.Mirrors g)
    (hstep : Step g root p q) : q.Mirrors g := by
  cases hstep with
  | receive i hcell hopen hready =>
      exact ⟨h.proper, fun l hl hsettled => h.offers l hl (settled_receive hsettled)⟩
  | complete hcell hopen hup hfilled =>
      exact (h.complete hg hs (hp _ _ hcell) hcell hopen hfilled).1

theorem Step.stage_eq (h : Step g root p q) : q.stage = p.stage := by
  cases h with
  | receive => rfl
  | @complete c => exact (stats_complete p c).2

/-- What holds of a pass whatever it has been asked for. -/
structure Sound (g : ShaderGraph) (stage : Stage) (p : Pass) : Prop where
  sameStage : p.stage = stage
  orderly : p.Orderly
  prepared : p.Prepared g
  mirrors : p.Mirrors g
  accounted : ∃ roots, p.Accounted g roots

omit p q in
theorem Accounted.mono {C : Type} {p : Pass C} {roots roots' : List NodeId} (h : p.Accounted g roots)
    (hsub : roots ⊆ roots') : p.Accounted g roots' :=
  { h with
    upstream := fun id hid =>
      let ⟨root, hroot, hup⟩ := h.upstream id hid
      ⟨root, hsub hroot, hup⟩ }

theorem Sound.step (hg : g.Consistent) (h : p.Sound g stage) (hstep : Step g root p q) :
    q.Sound g stage := by
  obtain ⟨roots, hroots⟩ := h.accounted
  have haccounted : p.Accounted g (root :: roots) := hroots.mono (List.subset_cons_self _ _)
  exact
    { sameStage := hstep.stage_eq.trans h.sameStage
      orderly := hstep.orderly h.orderly
      prepared := hstep.prepared h.prepared
      mirrors := h.mirrors.step hg h.orderly h.prepared hstep
      accounted := ⟨_, haccounted.step hg h.orderly List.mem_cons_self hstep⟩ }

theorem Sound.steps (hg : g.Consistent) (h : p.Sound g stage) (hsteps : Steps g root p q) :
    q.Sound g stage := by
  induction hsteps with
  | refl => exact h
  | tail _ hstep ih => exact ih.step hg hstep

theorem sound_start (hg : g.IsBuiltin) (stage : Stage) (o : Options) :
    (start g .builtin stage o : Pass).Sound g stage where
  sameStage := rfl
  orderly := orderly_start hg stage o
  prepared := prepared_start hg stage o
  mirrors := (written_start hg stage o).mirrors
  accounted := ⟨[], accounted_start hg.isOver []⟩

/-! ## Cycles -/

/-- Nothing that has been evaluated has a cycle upstream. -/
theorem Sound.not_cycleUpstream (h : p.Sound g stage) {id : NodeId} (hid : p.IsEvaluated id) :
    ¬ g.CycleUpstream id := by
  rintro ⟨j, hpath, hcycle⟩
  obtain ⟨roots, hroots⟩ := h.accounted
  have hj : p.IsEvaluated j := by
    clear hcycle
    induction hpath with
    | refl => exact hid
    | tail _ hdraws ih => exact hroots.drawsFrom ih hdraws
  exact hroots.not_cycle hj hcycle

/-- Evaluating a node fails exactly when there is a cycle upstream. -/
theorem Sound.evaluateNode_error_iff (hg : g.Consistent) (h : p.Sound g stage) (id : NodeId) :
    (∃ e q, evaluateNode g id p = (.error e, q)) ↔ g.CycleUpstream id := by
  constructor
  · rintro ⟨e, q, herror⟩
    have hends := herror ▸ ends_evaluateNode g id p
    obtain ⟨hup, hcycle⟩ := hends.error ⟨h.orderly.ids, h.orderly.inputs⟩ ⟨.refl, by simp⟩
    have hid : id ≤ NodeId.greatest := by
      cases hcell : p.cell? id with
      | none =>
          have hsettled : p.Settled id := by simp [Settled, hcell]
          have hok := evaluateNode_of_settled (g := g) hsettled
          exact absurd (hok.symm.trans herror) (by simp)
      | some c => exact id_of_cell? hcell ▸ h.orderly.ids id c hcell
    exact ⟨e.node, (upstream_iff hg hid).mp hup,
      transGen_drawsFrom hg (le_of_upstream hid hup) hcycle⟩
  · intro hcycle
    obtain ⟨hsteps, hsettled⟩ := steps_evaluateNode (g := g) h.orderly id
    cases hres : evaluateNode g id p with
    | mk result q =>
        cases result with
        | error e => exact ⟨e, q, rfl⟩
        | ok u =>
            rw [hres] at hsteps hsettled
            have hq := h.steps hg hsteps
            obtain ⟨roots, hroots⟩ := hq.accounted
            obtain ⟨n, hn, rfl⟩ := hcycle.exists_node hg
            obtain ⟨c, hc⟩ := hroots.sized.cells n hn
            exact absurd hcycle (hq.not_cycleUpstream ⟨c, hc, hsettled rfl c hc, trivial⟩)

/-- Asking for a value fails exactly when there is a cycle upstream of its supplier. -/
theorem Sound.evaluate_error_iff (hg : g.Consistent) (h : p.Sound g stage) {pin out : Pin}
    (hout : supplier? g pin = some out) :
    (∃ e q, evaluate g pin p = (.error e, q)) ↔ g.CycleUpstream out.node := by
  rw [← h.evaluateNode_error_iff hg, evaluate_eq h.orderly hout]
  rcases evaluateNode g out.node p with ⟨e | u, q⟩ <;> simp

/-! ## Values -/

/-- No more nodes have been evaluated than there are. -/
theorem Sound.nodes_le (hg : g.Consistent) (h : p.Sound g stage) : p.stats.nodes ≤ g.size := by
  obtain ⟨roots, hroots⟩ := h.accounted
  have hsub : p.reported ⊆ g.ids := by
    intro id hid
    obtain ⟨c, hc, -⟩ := (hroots.listed id).mp hid
    obtain ⟨e, he, -⟩ := (h.prepared id c hc).node
    rw [id_of_cell? hc] at he
    exact List.mem_map.mpr ⟨_, hg.indexed.expression?_eq_some_iff.mp he, rfl⟩
  have hle := (List.subperm_of_subset hroots.once hsub).length_le
  rwa [hroots.counted.symm, Graph.ids, List.length_map] at hle

/-- A value that is asked for stands for what evaluation from scratch has there, and is offered from
then on. -/
theorem Sound.evaluate_ok (hg : g.Consistent) (h : p.Sound g stage) {l : Link} (hl : l ∈ g.links)
    (hcycle : ¬ g.CycleUpstream l.source.node) {pin : Pin} (hout : supplier? g pin = some l.source) :
    ∃ v q, evaluate g pin p = (.ok v, q) ∧ q.Ready g pin ∧ v = q.supply g pin ∧
      ∀ depth, g.size ≤ depth → ∃ o,
        Reference.outcome? g .builtin stage depth l.source.node = some o ∧
        v.ty = (Reference.offer l.source o).ty ∧
        expand (inline q.body).meanings v.code = (Reference.offer l.source o).code := by
  obtain ⟨hsteps, hsettled⟩ := steps_evaluateNode (g := g) h.orderly l.source.node
  have hnode : ¬ ∃ e q, evaluateNode g l.source.node p = (.error e, q) :=
    fun herror => hcycle ((h.evaluateNode_error_iff hg _).mp herror)
  rw [evaluate_eq h.orderly hout]
  rcases hres : evaluateNode g l.source.node p with ⟨e | u, q⟩
  · exact absurd ⟨e, q, hres⟩ hnode
  · rw [hres] at hsteps hsettled
    have hq := h.steps hg hsteps
    have hready : q.Ready g pin := by
      intro out hsupplier
      cases hout.symm.trans hsupplier
      exact hsettled rfl
    refine ⟨_, q, rfl, hready, rfl, fun depth hdepth => ?_⟩
    obtain ⟨o, ho, hrel⟩ := hq.mirrors.offers l hl (hsettled rfl) depth
      ((hq.nodes_le hg).trans hdepth)
    rw [hq.sameStage] at ho
    have hsupply : q.supply g pin = (q.memo.lookup l.source).getD .null := by
      simp only [supply, hout]
    rw [hsupply]
    exact ⟨o, ho, hrel.ty, hrel.code.eq⟩

end Calls

end Pass

namespace Evaluator

variable {g : ShaderGraph} {stage : Stage}

/-- The pass is sound and no node is being evaluated. -/
structure Sound (g : ShaderGraph) (stage : Stage) (s : Evaluator) : Prop where
  idle : s.active = []
  pass : s.pass.Sound g stage

theorem Sound.evaluateNode_eq {s : Evaluator} (h : s.Sound g stage) (id : NodeId) :
    s.evaluateNode g id = holding [] (Pass.evaluateNode g id s.pass) := by
  obtain ⟨active, p⟩ := s
  cases h.idle
  exact Evaluator.evaluateNode_eq id p

theorem Sound.evaluate_eq {s : Evaluator} (h : s.Sound g stage) (pin : Pin) :
    s.evaluate g pin = holding [] (Pass.evaluate g pin s.pass) := by
  obtain ⟨active, p⟩ := s
  cases h.idle
  exact Evaluator.evaluate_eq pin p

/-- A call takes steps, whether or not it comes to a cycle. -/
theorem Sound.steps_after {s : Evaluator} (h : s.Sound g stage) (call : Call) :
    ∃ root, Pass.Steps g root s.pass (s.after g call).pass := by
  cases call with
  | node id =>
      rw [after, h.evaluateNode_eq]
      exact ⟨id, (Pass.steps_evaluateNode h.pass.orderly id).1⟩
  | pin pin =>
      rw [after, h.evaluate_eq]
      cases hout : Pass.supplier? g pin with
      | none => exact ⟨0, by simpa [Pass.evaluate, Pass.demand, hout, holding] using .refl⟩
      | some out =>
          have hsteps := (Pass.steps_evaluateNode (g := g) h.pass.orderly out.node).1
          rw [Pass.evaluate_eq h.pass.orderly hout]
          refine ⟨out.node, ?_⟩
          revert hsteps
          rcases Pass.evaluateNode g out.node s.pass with ⟨e | u, q⟩ <;> exact fun hsteps => hsteps

theorem Sound.after (hg : g.Consistent) {s : Evaluator} (h : s.Sound g stage) (call : Call) :
    (s.after g call).Sound g stage := by
  obtain ⟨root, hsteps⟩ := h.steps_after call
  exact ⟨(active_after s call).trans h.idle, h.pass.steps hg hsteps⟩

theorem Sound.calls (hg : g.Consistent) {s : Evaluator} (h : s.Sound g stage) (calls : List Call) :
    (calls.foldl (Evaluator.after g) s).Sound g stage := by
  induction calls generalizing s with
  | nil => exact h
  | cons call rest ih => exact ih (h.after hg call)

/-- What a pin has been offered it is offered after any other calls. -/
theorem Sound.evaluate_again (hg : g.Consistent) {s : Evaluator} (h : s.Sound g stage)
    {pin out : Pin} (hout : Pass.supplier? g pin = some out) (hready : s.pass.Ready g pin)
    (calls : List Call) :
    (calls.foldl (Evaluator.after g) s).evaluate g pin =
      (.ok (s.pass.supply g pin), calls.foldl (Evaluator.after g) s) := by
  induction calls generalizing s with
  | nil =>
      obtain ⟨active, p⟩ := s
      cases h.idle
      rw [List.foldl_nil, h.evaluate_eq, Pass.evaluate_of_ready h.pass.orderly hout (hready out hout)]
      rfl
  | cons call rest ih =>
      obtain ⟨root, hsteps⟩ := h.steps_after call
      have hsupply := Pass.Steps.supply h.pass.orderly hsteps hready
      have hagain := ih (h.after hg call) fun out' hout' => hsteps.settled (hready out' hout')
      rw [hsupply] at hagain
      exact hagain

/-! ## What a caller can rely on -/

/-- An evaluator that can be asked for anything: no node is being evaluated, and none has been
evaluated twice. What has a cycle upstream fails, and nothing else does. The value at a linked pin
without one stands for what evaluation from scratch has there, and asking for it again, at any time,
gives the same value and changes nothing. -/
structure Reliable (g : ShaderGraph) (stage : Stage) (s : Evaluator) : Prop where
  idle : s.active = []
  once : s.pass.reported.Nodup
  reported : ∀ id, id ∈ s.pass.reported ↔ s.pass.IsEvaluated id
  node : ∀ id, (∃ e t, s.evaluateNode g id = (.error e, t)) ↔ g.CycleUpstream id
  pin : ∀ pin out, Pass.supplier? g pin = some out →
    ((∃ e t, s.evaluate g pin = (.error e, t)) ↔ g.CycleUpstream out.node)
  value : ∀ l ∈ g.links, ¬ g.CycleUpstream l.source.node →
    ∀ pin, pin = l.source ∨ g.linkInto? pin = some l → ∃ v t, s.evaluate g pin = (.ok v, t) ∧
      (∀ depth, g.size ≤ depth → ∃ o,
        Reference.outcome? g .builtin stage depth l.source.node = some o ∧
        v.ty = (Reference.offer l.source o).ty ∧
        expand (inline t.pass.body).meanings v.code = (Reference.offer l.source o).code) ∧
      ∀ later : List Call, (later.foldl (after g) t).evaluate g pin = (.ok v, later.foldl (after g) t)

theorem Sound.reliable (hg : g.Consistent) {s : Evaluator} (h : s.Sound g stage) :
    s.Reliable g stage := by
  obtain ⟨roots, hroots⟩ := h.pass.accounted
  refine ⟨h.idle, hroots.once, hroots.listed, fun id => ?_, fun pin out hout => ?_, ?_⟩
  · rw [← h.pass.evaluateNode_error_iff hg, h.evaluateNode_eq]
    rcases Pass.evaluateNode g id s.pass with ⟨e | u, q⟩ <;> simp [holding]
  · rw [← h.pass.evaluate_error_iff hg hout, h.evaluate_eq]
    rcases Pass.evaluate g pin s.pass with ⟨e | v, q⟩ <;> simp [holding]
  · intro l hl hcycle pin hpin
    have hout : Pass.supplier? g pin = some l.source := by
      rcases hpin with rfl | hlink
      · rw [Pass.supplier?, Pin.isInput_eq_false.mpr (hg.sources l hl).1]
        rfl
      · exact Pass.supplier?_of_linkInto? hlink
    obtain ⟨v, q, hvalue, hready, rfl, hreference⟩ := h.pass.evaluate_ok hg hl hcycle hout
    have hanswer : s.evaluate g pin = (.ok (q.supply g pin), ⟨[], q⟩) := by
      rw [h.evaluate_eq, hvalue]
      rfl
    have hafter : (⟨[], q⟩ : Evaluator).Sound g stage := by
      have hcall := h.after hg (.pin pin)
      rwa [Evaluator.after, hanswer] at hcall
    exact ⟨_, _, hanswer, hreference, hafter.evaluate_again hg hout hready⟩

/-- Whatever an evaluator has been asked for, in whatever order, and however often it has come to a
cycle and was recovered from, it can be asked for anything. -/
theorem reliable_after_calls (hg : g.IsBuiltin) (stage : Stage) (o : Options) (calls : List Call) :
    (calls.foldl (after g) (start g .builtin stage o)).Reliable g stage :=
  have hstart : (start g .builtin stage o : Evaluator).Sound g stage :=
    ⟨rfl, Pass.sound_start hg stage o⟩
  (hstart.calls hg.reachable.consistent calls).reliable hg.reachable.consistent

/-- An answer is given together with the evaluator after it. -/
theorem exists_after_answer {α : Type} {call : α × Evaluator} {answer : α} (h : call.1 = answer) :
    ∃ t, call = (answer, t) := ⟨call.2, Prod.ext h rfl⟩

/-- A sum of a parameter and of another sum, which it feeds. -/
def knotted : ShaderGraph :=
  Graph.sketch ["parameter", "add", "add"]
    [(.output 1 0, .input 2 0), (.output 3 0, .input 2 1), (.output 2 0, .input 3 0)]

/-- The parameter is evaluated on the way to the cycle. It is there afterwards, and the cycle is
noticed again. -/
theorem reliable_knotted :
    knotted.IsBuiltin ∧ ∃ s : Evaluator,
      s = [.node 2].foldl (after knotted) (start knotted .builtin .fragment {}) ∧
      s.active = [] ∧ s.pass.reported = [1] ∧
      (∃ e t, s.evaluateNode knotted 2 = (.error e, t)) ∧
      ∃ t, s.evaluate knotted (.input 2 0) = (.ok ⟨.float, "param"⟩, t) := by
  have hg : knotted.IsBuiltin := Graph.isBuiltin_sketch _ _ (by decide)
  have hfresh := reliable_after_calls hg .fragment {} []
  have hused := reliable_after_calls hg .fragment {} [.node 2]
  have hfirst : ((start knotted .builtin .fragment {} : Evaluator).evaluateNode knotted 2).1 =
      .error ⟨2⟩ := by decide +kernel
  have hcycle : knotted.CycleUpstream 2 := (hfresh.node 2).mp ⟨_, exists_after_answer hfirst⟩
  have hvalue : (([.node 2].foldl (after knotted)
      (start knotted .builtin .fragment {} : Evaluator)).evaluate knotted (.input 2 0)).1 =
        .ok ⟨.float, "param"⟩ := by decide +kernel
  exact ⟨hg, _, rfl, hused.idle, by decide +kernel, (hused.node 2).mpr hcycle,
    exists_after_answer hvalue⟩

end Evaluator

end NodeShader
