import NodeShader.Pass.Compile
import NodeShader.Proofs.Pass.Order

/-!
# Cycles

Evaluation fails when it comes back to a node that is being evaluated. The nodes being evaluated draw
from one another, each from the next, so that a node found among them lies on a cycle of links
upstream of a root (`Ends.error`). A pass that ends well has an order in which producers come first,
and there is none on a cycle. So compiling a stage fails exactly on the graphs that have a cycle
upstream of a root of the stage, and a failed compilation changes nothing on the nodes.
-/

namespace NodeShader

open Relation (ReflTransGen TransGen)

namespace Pass

variable {C : Type} [Code C] {g : ShaderGraph} {p q : Pass C}

/-! ## Where evaluation fails -/

/-- Node numbers and the positions of inputs fit into pins. -/
structure Bounded (p : Pass C) : Prop where
  ids : ∀ id c, p.cell? id = some c → c.id ≤ NodeId.greatest
  inputs : ∀ id c, p.cell? id = some c → c.state.evaluated = false →
    c.state.inputs.length ≤ Registry.pinLimit

omit [Code C] in
theorem Bounded.receive (h : p.Bounded) (id : NodeId) (i : Nat) (v : Value C) :
    (p.mapState id (·.receive i v)).Bounded := by
  refine ⟨fun j c' hc' => ?_, fun j c' hc' hopen => ?_⟩
  · obtain ⟨c, s, hc, rfl, -⟩ := exists_cell_of_receive hc'
    exact h.ids j c hc
  · obtain ⟨c, s, hc, rfl, hsame, hlength, -⟩ := exists_cell_of_receive hc'
    exact hlength ▸ h.inputs j c hc (hsame ▸ hopen)

theorem Bounded.complete (h : p.Bounded) {c : Cell C} (hcell : p.cell? c.id = some c) :
    (p.complete c).Bounded := by
  refine ⟨fun j c' hc' => ?_, fun j c' hc' hopen => ?_⟩
  · rcases cell_of_complete hcell hc' with ⟨-, rfl⟩ | hold
    · exact h.ids _ c hcell
    · exact h.ids j c' hold
  · rcases cell_of_complete hcell hc' with ⟨-, rfl⟩ | hold
    · exact absurd hopen (by simp [finished])
    · exact h.inputs j c' hold hopen

theorem Bounded.ends {path : List NodeId} {id : NodeId} {res : Except Cycle Unit × Pass C}
    (h : p.Bounded) (hnode : Ends g path (.node id) p res) : res.2.Bounded :=
  (hnode.invariant (fun _ id i v _ hp => hp.receive id i v) (fun _ _ hcell _ hp => hp.complete hcell)
    Task.begun_node h).1

/-- Every node of the path draws from the node of the task, and the numbers in it fit into pins. -/
def Task.Follows (g : ShaderGraph) (root : NodeId) (path : List NodeId) : Task → Prop
  | .node id => Upstream g root id ∧ ∀ j ∈ path, TransGen (Feeds g) j id
  | .inputs id i count => Upstream g root id ∧ (∀ j ∈ path, ReflTransGen (Feeds g) j id) ∧
      id ≤ NodeId.greatest ∧ i + count ≤ Registry.pinLimit

theorem Task.Follows.supplier {root id : NodeId} {path : List NodeId} {i count : Nat} {out : Pin}
    (h : (Task.inputs id i (count + 1)).Follows g root path)
    (hout : supplier? g (.input id i) = some out) : (Task.node out.node).Follows g root path := by
  obtain ⟨hup, hpath, hid, hcount⟩ := h
  have hfeeds := feeds_of_supplier? hid (by omega) hout
  exact ⟨hup.tail hfeeds, fun j hj => .tail' (hpath j hj) hfeeds⟩

theorem Task.Follows.next {root id : NodeId} {path : List NodeId} {i count : Nat}
    (h : (Task.inputs id i (count + 1)).Follows g root path) :
    (Task.inputs id (i + 1) count).Follows g root path :=
  ⟨h.1, h.2.1, h.2.2.1, by have := h.2.2.2; omega⟩

omit [Code C] in
theorem Task.Follows.enter {root id : NodeId} {path : List NodeId} {c : Cell C}
    (h : (Task.node id).Follows g root path) (hp : p.Bounded) (hcell : p.cell? id = some c)
    (hopen : c.state.evaluated = false) :
    (Task.inputs id 0 c.state.inputs.length).Follows g root (id :: path) := by
  refine ⟨h.1, fun j hj => ?_, id_of_cell? hcell ▸ hp.ids id c hcell, ?_⟩
  · rcases List.mem_cons.mp hj with rfl | hj
    · exact .refl
    · exact (h.2 j hj).to_reflTransGen
  · rw [Nat.zero_add]
    exact hp.inputs id c hcell hopen

/-- The node at which evaluation fails lies on a cycle upstream of the root. -/
theorem Ends.error {root : NodeId} {path : List NodeId} {task : Task} {e : Cycle}
    (h : Ends g path task p (.error e, q)) (hp : p.Bounded) (hfollows : task.Follows g root path) :
    Upstream g root e.node ∧ TransGen (Feeds g) e.node e.node := by
  generalize hres : ((.error e, q) : Except Cycle Unit × Pass C) = res at h
  induction h with
  | absent | evaluated | completed | filled => cases hres
  | cycle hcell hopen hpath =>
      cases hres
      exact ⟨hfollows.1, hfollows.2 _ hpath⟩
  | aborted hcell hopen hpath hinputs ih =>
      exact ih hp (hfollows.enter hp hcell hopen) hres
  | known hknown hrest ih => exact ih (hp.receive _ _ _) hfollows.next hres
  | asked hout hnew hnode hrest ihnode ihrest =>
      exact ihrest ((hp.ends hnode).receive _ _ _) hfollows.next hres
  | refused hout hnew hnode ih => exact ih hp (hfollows.supplier hout) hres

/-- A run that fails has come to a cycle upstream of one of the nodes it evaluates. -/
theorem Runs.error {ids : List NodeId} {e : Cycle} (h : Runs g ids p (.error e, q)) (hp : p.Bounded) :
    ∃ root ∈ ids, Upstream g root e.node ∧ TransGen (Feeds g) e.node e.node := by
  generalize hres : ((.error e, q) : Except Cycle Unit × Pass C) = res at h
  induction h with
  | finished => cases hres
  | next hnode hrest ih =>
      obtain ⟨root, hroot, hcycle⟩ := ih (hp.ends hnode) hres
      exact ⟨root, List.mem_cons_of_mem _ hroot, hcycle⟩
  | stopped hnode =>
      cases hres
      exact ⟨_, List.mem_cons_self, hnode.error hp ⟨.refl, by simp⟩⟩

/-! ## Orders and cycles -/

omit [Code C] in
/-- Whatever a reported node draws from, through however many others, was reported before it. -/
theorem Accounted.mem_before {roots : List NodeId} (h : p.Accounted g roots) {id j : NodeId}
    (hdraws : TransGen g.DrawsFrom id j) {before after : List NodeId}
    (hsplit : p.reported = before ++ id :: after) : j ∈ before := by
  induction hdraws with
  | single hfirst => exact h.ordered before id after hsplit _ hfirst
  | tail _ hlast ih =>
      obtain ⟨first, rest, rfl⟩ := List.append_of_mem ih
      have hsplit' := hsplit.trans (List.append_assoc _ _ _)
      exact List.mem_append_left _ (h.ordered first _ _ hsplit' _ hlast)

omit [Code C] in
/-- No evaluated node lies on a cycle. -/
theorem Accounted.not_cycle {roots : List NodeId} (h : p.Accounted g roots) {id : NodeId}
    (hid : p.IsEvaluated id) : ¬ TransGen g.DrawsFrom id id := by
  intro hcycle
  obtain ⟨before, after, hsplit⟩ := List.append_of_mem ((h.listed id).mpr hid)
  have hbefore := h.mem_before hcycle hsplit
  have honce := hsplit ▸ h.once
  exact (List.nodup_append.mp honce).2.2 id hbefore id List.mem_cons_self rfl

variable {r : Registry} {stage : Stage} {o : Options}

/-- A run that fails names a node that the stage needs and that lies on a cycle. -/
theorem cycle_of_run_error (hg : g.IsOver r) {e : Cycle}
    (h : (start g r stage o : Pass C).run g = (.error e, q)) :
    g.Needs stage e.node ∧ TransGen g.DrawsFrom e.node e.node := by
  have hs : (start g r stage o : Pass C).Orderly := orderly_of_isOver hg stage o
  obtain ⟨root, hroot, hup, hcycle⟩ := (runs_iff.mpr h).error ⟨hs.ids, hs.inputs⟩
  obtain ⟨n, hn, rfl, -⟩ := (mem_roots_start hg).mp hroot
  have hid := le_of_upstream (NodeId.le_of_isValid (hg.ids n hn)) hup
  exact ⟨(exists_root_iff hg).mp ⟨n.id, hroot, hup⟩,
    transGen_drawsFrom hg.reachable.consistent hid hcycle⟩

/-- A run fails on a graph with a cycle among the nodes that the stage needs. -/
theorem exists_run_error (hg : g.IsOver r) {id : NodeId} (hneeds : g.Needs stage id)
    (hcycle : TransGen g.DrawsFrom id id) :
    ∃ e q, (start g r stage o : Pass C).run g = (.error e, q) := by
  cases hrun : (start g r stage o : Pass C).run g with
  | mk result p =>
      cases result with
      | error e => exact ⟨e, p, rfl⟩
      | ok u =>
          have hid := (isEvaluated_iff_needs hg hrun).mpr hneeds
          exact absurd hcycle ((accounted_of_run hg hrun).1.not_cycle hid)

end Pass

/-! ## Compiling -/

section Compiling

variable {g : ShaderGraph} {r : Registry} {stage : Stage} {o : Options}

/-- When the pass comes to a cycle, compiling reports it and leaves the graph as it was. -/
theorem compileStage_of_run_error {c : Cycle} {q : Pass}
    (h : (Pass.start g r stage o : Pass).run g = (.error c, q)) :
    compileStage g r stage o =
      { outcome := .error (.cycle stage c), graph := g, events := [(stage, q.events)] } := by
  simp only [compileStage, runStage, h]

/-- Compiling fails only when the pass does. -/
theorem exists_run_error_of_compileStage {e : CompileError}
    (h : (compileStage g r stage o).outcome = .error e) :
    ∃ c q, (Pass.start g r stage o : Pass).run g = (.error c, q) := by
  cases hrun : (Pass.start g r stage o : Pass).run g with
  | mk result p =>
      cases result with
      | ok u => exact absurd h (by simp [compileStage, runStage, hrun])
      | error c => exact ⟨c, p, rfl⟩

/-- Compilation ends on every graph and reports exactly the cycles. The rules without a bound derive
one result for the pass, the one that it has; there is a cycle error exactly when a node that the stage
needs lies on a cycle of links; the error names such a node; and there is no other error, and none
that changes the states on the nodes. -/
theorem compileStage_cycle_iff (hg : g.IsOver r) (stage : Stage) (o : Options) :
    (∀ res, Pass.Runs g ((Pass.start g r stage o : Pass).roots g) (Pass.start g r stage o) res ↔
      (Pass.start g r stage o : Pass).run g = res) ∧
    ((∃ c, (compileStage g r stage o).outcome = .error (.cycle stage c)) ↔
      ∃ id, g.Needs stage id ∧ TransGen g.DrawsFrom id id) ∧
    ∀ e, (compileStage g r stage o).outcome = .error e →
      (∃ c, e = .cycle stage c ∧ g.Needs stage c.node ∧ TransGen g.DrawsFrom c.node c.node) ∧
      (compileStage g r stage o).graph = g := by
  refine ⟨fun _ => Pass.runs_iff, ⟨?_, ?_⟩, ?_⟩
  · rintro ⟨c, herror⟩
    obtain ⟨c', q, hrun⟩ := exists_run_error_of_compileStage herror
    exact ⟨c'.node, Pass.cycle_of_run_error hg hrun⟩
  · rintro ⟨id, hneeds, hcycle⟩
    obtain ⟨c, q, hrun⟩ := Pass.exists_run_error (C := String) (o := o) hg hneeds hcycle
    exact ⟨c, by rw [compileStage_of_run_error hrun]⟩
  · intro e herror
    obtain ⟨c, q, hrun⟩ := exists_run_error_of_compileStage herror
    rw [compileStage_of_run_error hrun] at herror ⊢
    cases herror
    exact ⟨⟨c, rfl, Pass.cycle_of_run_error hg hrun⟩, rfl⟩

theorem compileStage_cycle_looped :
    Graph.looped.IsOver .builtin ∧
    (compileStage .looped .builtin .fragment {}).outcome = .error (.cycle .fragment ⟨2⟩) ∧
    (Graph.looped.Needs .fragment 2 ∧ TransGen Graph.looped.DrawsFrom 2 2) ∧
    (compileStage .looped .builtin .vertex {}).outcome.isOk = true ∧
    ¬ ∃ id, Graph.looped.Needs .vertex id ∧ TransGen Graph.looped.DrawsFrom id id := by
  have hg : Graph.looped.IsOver .builtin := Graph.isBuiltin_looped.isOver
  have herror : ((Pass.start .looped .builtin .fragment {} : Pass).run .looped).1 = .error ⟨2⟩ := by
    decide +kernel
  have hfails : (compileStage .looped .builtin .fragment {}).outcome =
      .error (.cycle .fragment ⟨2⟩) := by
    rw [compileStage_of_run_error (Prod.ext herror rfl)]
  have hends : (compileStage .looped .builtin .vertex {}).outcome.isOk = true := by decide +kernel
  obtain ⟨⟨c, hc, hcycle⟩, -⟩ := (compileStage_cycle_iff hg .fragment {}).2.2 _ hfails
  cases hc
  refine ⟨hg, hfails, hcycle, hends, ?_⟩
  rw [← (compileStage_cycle_iff hg .vertex {}).2.1]
  rintro ⟨c, hc⟩
  rw [hc] at hends
  exact absurd hends (by simp [Except.isOk, Except.toBool])

end Compiling

end NodeShader
