import NodeShader.Pass.Compile
import NodeShader.Proofs.Pass.Order

/-!
# What a pass reports

A pass tells its observer of every node that it has evaluated and, at its end, of its counts. A pass
that comes to a cycle has no end, but what it had evaluated by then was reported all the same. So
however a pass ends, and whatever the graph, there is one report for each evaluated node
(`Pass.Tallied`); and the counts are reported once if the pass has ended well, and not otherwise
(`PassRun.WellReported`).
-/

namespace NodeShader

namespace Event

/-- The node that an event says has been evaluated, with its archetype. -/
def evaluation? : Event → Option (NodeId × String)
  | .evaluated id archetype _ => some (id, archetype)
  | .hoisted .. | .finished _ => none

/-- The counts that an event reports. -/
def stats? : Event → Option Stats
  | .finished stats => some stats
  | .evaluated .. | .hoisted .. => none

end Event

namespace Pass

variable {C : Type}

/-- The node has been evaluated, and this is its archetype. -/
def EvaluatedAs (p : Pass C) (archetype : String) (id : NodeId) : Prop :=
  ∃ c, p.cell? id = some c ∧ c.state.evaluated = true ∧ c.archetype.id = archetype

/-- The evaluations that have been reported, in order. -/
def evaluations (p : Pass C) : List (NodeId × String) := p.events.filterMap Event.evaluation?

theorem reported_eq (p : Pass C) : p.reported = p.evaluations.map Prod.fst := by
  rw [evaluations, List.map_filterMap, reported]
  congr 1
  funext e
  cases e <;> rfl

/-- The reports of a pass that goes on: one for each evaluated node, and none of the end. -/
structure Tallied (p : Pass C) : Prop where
  listed : ∀ id archetype, (id, archetype) ∈ p.evaluations ↔ p.EvaluatedAs archetype id
  once : p.reported.Nodup
  counted : p.stats.nodes = p.reported.length
  unfinished : p.events.filterMap Event.stats? = []

/-- An archetype has as many reports as nodes that have been evaluated. -/
theorem Tallied.countP_eq {p : Pass C} (h : p.Tallied) (archetype : String) :
    p.evaluations.countP (·.2 = archetype) = {id | p.EvaluatedAs archetype id}.ncard := by
  have hset : {id | p.EvaluatedAs archetype id} =
      (((p.evaluations.filter (·.2 = archetype)).map Prod.fst).toFinset : Set NodeId) := by
    ext id
    simp [h.listed]
  have hnodup : ((p.evaluations.filter (·.2 = archetype)).map Prod.fst).Nodup := by
    have honce := h.once
    rw [reported_eq] at honce
    exact honce.sublist (List.filter_sublist.map _)
  rw [hset, Set.ncard_coe_finset, List.toFinset_card_of_nodup hnodup, List.length_map,
    List.countP_eq_length_filter]

theorem Tallied.length_evaluations {p : Pass C} (h : p.Tallied) :
    p.evaluations.length = p.stats.nodes := by
  rw [h.counted, reported_eq, List.length_map]

variable [Code C] {p : Pass C}

/-! ## What evaluation keeps -/

theorem tallied_start (g : ShaderGraph) (r : Registry) (stage : Stage) (o : Options) :
    (start g r stage o : Pass C).Tallied where
  listed id archetype := by
    refine iff_of_false (by simp [evaluations, start]) ?_
    rintro ⟨c, hc, hdone, -⟩
    exact absurd ((evaluated_start hc).symm.trans hdone) (by simp)
  once := List.nodup_nil
  counted := rfl
  unfinished := rfl

omit [Code C] in
/-- A value that reaches an input evaluates nothing. -/
theorem Tallied.receive (h : p.Tallied) {id : NodeId} (hopen : p.IsOpen id) (i : Nat) (v : Value C) :
    (p.mapState id (·.receive i v)).Tallied where
  listed j archetype := by
    refine (h.listed j archetype).trans ?_
    obtain ⟨c, hcell, hopen⟩ := hopen
    by_cases hj : j = id
    · subst hj
      simp [EvaluatedAs, cell?_mapState_self hcell, hcell, NodeState.receive, NodeState.mapInput, hopen]
    · simp only [EvaluatedAs, cell?_mapState_ne hj]
  once := h.once
  counted := h.counted
  unfinished := h.unfinished

theorem evaluatedAs_complete {c : Cell C} (hcell : p.cell? c.id = some c)
    (hopen : c.state.evaluated = false) (archetype : String) (j : NodeId) :
    (p.complete c).EvaluatedAs archetype j ↔
      p.EvaluatedAs archetype j ∨ j = c.id ∧ c.archetype.id = archetype := by
  by_cases hj : j = c.id
  · subst hj
    simp [EvaluatedAs, cell?_complete_self hcell, hcell, finished, hopen]
  · simp [EvaluatedAs, cell?_complete_ne p hj, hj]

/-- A node that is completed has not been reported, and is now. -/
theorem Tallied.complete (h : p.Tallied) {c : Cell C} (hcell : p.cell? c.id = some c)
    (hopen : c.state.evaluated = false) : (p.complete c).Tallied := by
  have hevaluations : (p.complete c).evaluations = p.evaluations ++ [(c.id, c.archetype.id)] :=
    filterMap_events_complete (fun _ _ _ => rfl) p c
  have hnew : c.id ∉ p.reported := by
    rw [reported_eq, List.mem_map]
    rintro ⟨⟨id, archetype⟩, hmem, rfl⟩
    obtain ⟨c', hc', hdone, -⟩ := (h.listed _ _).mp hmem
    rw [hcell] at hc'
    cases hc'
    exact absurd (hopen.symm.trans hdone) (by simp)
  refine ⟨fun j archetype => ?_, ?_, ?_, ?_⟩
  · rw [hevaluations, List.mem_append, List.mem_singleton, h.listed,
      evaluatedAs_complete hcell hopen, Prod.mk.injEq, eq_comm (a := archetype)]
  · rw [reported_complete]
    exact List.nodup_append_comm.mpr (List.nodup_cons.mpr ⟨hnew, h.once⟩)
  · rw [reported_complete, (stats_complete p c).1, h.counted, List.length_append,
      List.length_singleton]
  · rw [filterMap_events_complete (fun _ _ _ => rfl), h.unfinished]
    rfl

end Pass

/-! ## Passes that have been run -/

/-- A pass that was run for a stage, to its end or to a cycle. -/
structure PassRun where
  stage : Stage
  completed : Bool
  pass : Pass

namespace PassRun

/-- The pass over a stage of a graph. -/
def of (g : ShaderGraph) (r : Registry) (s : Stage) (o : Options) : PassRun :=
  ⟨s, (runStage g r s o).1.isOk, (runStage g r s o).2⟩

/-- How many nodes of an archetype the pass has evaluated. -/
noncomputable def evaluated (run : PassRun) (archetype : String) : Nat :=
  {id | run.pass.EvaluatedAs archetype id}.ncard

/-- What a pass tells its observer: of each node that it has evaluated, and of its counts if it was
completed. -/
structure WellReported (run : PassRun) : Prop where
  evaluated : ∀ archetype,
    run.pass.evaluations.countP (·.2 = archetype) = run.evaluated archetype
  nodes : run.pass.evaluations.length = run.pass.stats.nodes
  finished : run.pass.events.filterMap Event.stats? =
    if run.completed then [run.pass.stats] else []

/-- The pass was tallied up to its end or its cycle. -/
theorem exists_tallied (g : ShaderGraph) (r : Registry) (s : Stage) (o : Options) :
    ∃ m : Pass, m.Tallied ∧
      (of g r s o = ⟨s, true, m.finish⟩ ∨ of g r s o = ⟨s, false, m⟩) := by
  have hruns := Pass.runs_iff (p := (Pass.start g r s o : Pass)) (g := g).mpr rfl
  obtain ⟨m, hm, hend | ⟨e, hend⟩⟩ := hruns.invariant_end (I := Pass.Tallied)
    (fun _ _ i v hopen h => h.receive hopen i v) (fun _ _ hcell hopen h => h.complete hcell hopen)
    (Pass.tallied_start g r s o)
  · refine ⟨m, hm, .inl ?_⟩
    simp only [of, runStage, hend]
    rfl
  · refine ⟨m, hm, .inr ?_⟩
    simp only [of, runStage, hend]
    rfl

/-- However a pass ends, it has been reported. -/
theorem wellReported_of (g : ShaderGraph) (r : Registry) (s : Stage) (o : Options) :
    (of g r s o).WellReported := by
  obtain ⟨m, hm, hrun | hrun⟩ := exists_tallied g r s o
  · -- The end of a pass is reported after the nodes, which it leaves as they are.
    have hsame : m.finish.evaluations = m.evaluations := by
      simp [Pass.evaluations, Pass.finish, Pass.report, Event.evaluation?]
    rw [hrun]
    refine ⟨fun archetype => ?_, ?_, ?_⟩
    · exact (congrArg _ hsame).trans (hm.countP_eq archetype)
    · exact (congrArg _ hsame).trans hm.length_evaluations
    · simp [Pass.finish, Pass.report, Event.stats?, hm.unfinished]
  · rw [hrun]
    exact ⟨hm.countP_eq, hm.length_evaluations, hm.unfinished⟩

end PassRun

end NodeShader
