import NodeShader.Proofs.Pass.Ends
import NodeShader.Proofs.Pass.Needed

/-!
# Published states

A pass that has run leaves states on the nodes of the graph. Its cells have the numbers of different
nodes, so that each node gets one state at most and the order in which the cells are visited does not
matter (`expression?_publishWhere`). A run adds no cells and takes none away: every expression that
had an archetype when the pass was prepared has a state when it has run (`exists_cell_of_run`).
-/

namespace NodeShader

namespace Graph

variable {α : Type} {g : Graph α}

/-! ## Changing one node -/

theorem Indexed.modify (h : g.Indexed) (id : NodeId) (f : α → α) : (g.modify id f).Indexed := by
  rw [Indexed, ids_modify]
  exact h

theorem Indexed.node?_modify (h : g.Indexed) (id j : NodeId) (f : α → α) :
    (g.modify id f).node? j = (g.node? j).map fun n => if j = id then f n else n := by
  simp only [node?, Graph.modify, List.getElem?_map]
  cases hpos : g.index.position? j with
  | none => rfl
  | some i =>
      have hid : (g.nodes[i]?).map Numbered.id = some j := by
        rw [← List.getElem?_map]
        exact (h j i).mp hpos
      obtain ⟨n, hn, rfl⟩ := Option.map_eq_some_iff.mp hid
      simp only [Option.bind_some, hn, Option.map_some]
      split <;> rfl

theorem Indexed.expression?_modifyExpression {g : ShaderGraph} (h : g.Indexed) (id j : NodeId)
    (f : Expression → Expression) :
    (g.modifyExpression id f).expression? j =
      (g.expression? j).map fun e => if j = id then f e else e := by
  rw [expression?, modifyExpression, h.node?_modify, expression?]
  cases hn : g.node? j with
  | none => rfl
  | some n =>
      simp only [Option.map_some, Option.bind_some]
      cases n with
      | expression e => split <;> rfl
      | foreign name pins => split <;> rfl

/-- The graphs that edits make in which the expressions are instances of archetypes of a registry.
Nodes of other kinds may stand beside them. As for `Graph.IsOver`, that no kind asks for pins which its
archetype lacks is left to `Graph.StaysWithin`. -/
structure BelongsTo (g : ShaderGraph) (r : Registry) : Prop where
  reachable : g.Reachable
  expressions : ∀ n ∈ g.nodes, ∀ e, n.node = .expression e → ∃ a, r.archetype? e.handle = some a

theorem IsOver.belongsTo {g : ShaderGraph} {r : Registry} (h : g.IsOver r) : g.BelongsTo r where
  reachable := h.reachable
  expressions n hn e he := by
    obtain ⟨e', a, he', ha, -⟩ := h.expressions n hn
    cases he.symm.trans he'
    exact ⟨a, ha⟩

end Graph

namespace Pass

variable {g : ShaderGraph}

/-! ## One state for each node -/

/-- Leaves the states of some cells on their nodes. -/
def publishCells (cells : List Cell) (g : ShaderGraph) : ShaderGraph :=
  cells.foldl (fun g c => publishState g c.id c.state) g

theorem publishWhere_eq (test : Cell → Bool) (p : Pass) (g : ShaderGraph) :
    p.publishWhere test g = publishCells (p.cells.filter fun c => c.attached && test c) g := rfl

theorem indexed_publishCells (cells : List Cell) (h : g.Indexed) :
    (publishCells cells g).Indexed := by
  induction cells generalizing g with
  | nil => exact h
  | cons c rest ih => exact ih (h.modify c.id _)

theorem indexed_publish (p : Pass) (h : g.Indexed) : (p.publish g).Indexed :=
  indexed_publishCells _ h

/-- A node keeps what it showed unless one of the cells has its number. -/
theorem expression?_publishCells (cells : List Cell) (h : g.Indexed)
    (hdistinct : (cells.map Cell.id).Nodup) (j : NodeId) :
    (publishCells cells g).expression? j = (g.expression? j).map fun e =>
      { e with published := ((cells.find? (·.id = j)).map Cell.state).or e.published } := by
  induction cells generalizing g with
  | nil =>
      cases he : g.expression? j with
      | none => simpa [publishCells] using he
      | some e => simpa [publishCells] using he
  | cons c rest ih =>
      obtain ⟨hnew, hrest⟩ := List.nodup_cons.mp hdistinct
      have hfirst : (publishState g c.id c.state).expression? j = (g.expression? j).map fun e =>
          if j = c.id then { e with published := some c.state } else e :=
        h.expression?_modifyExpression c.id j _
      have hstep := ih (g := publishState g c.id c.state) (h.modify c.id _) hrest
      rw [publishCells, List.foldl_cons]
      rw [publishCells] at hstep
      rw [hstep, hfirst, Option.map_map]
      congr 1
      funext e
      by_cases hj : c.id = j
      · have hnone : rest.find? (·.id = j) = none := by
          rw [List.find?_eq_none]
          intro d hd hid
          exact hnew (List.mem_map.mpr ⟨d, hd, (of_decide_eq_true hid).trans hj.symm⟩)
        simp [hj, hnone]
      · simp [hj, Ne.symm hj]

theorem find?_filter_of_nodup {cells : List Cell} (h : (cells.map Cell.id).Nodup)
    (test : Cell → Bool) (j : NodeId) :
    (cells.filter test).find? (·.id = j) = (cells.find? (·.id = j)).filter test := by
  induction cells with
  | nil => rfl
  | cons c rest ih =>
      obtain ⟨hnew, hrest⟩ := List.nodup_cons.mp h
      by_cases hj : c.id = j
      · cases htest : test c with
        | true => simp [hj, htest, Option.filter]
        | false =>
            have hnone : rest.find? (·.id = j) = none := by
              rw [List.find?_eq_none]
              intro d hd hid
              exact hnew (List.mem_map.mpr ⟨d, hd, (of_decide_eq_true hid).trans hj.symm⟩)
            simp [hj, htest, ih hrest, hnone, Option.filter]
      · cases htest : test c with
        | true => simp [hj, htest, ih hrest]
        | false => simp [hj, htest, ih hrest]

/-- After a pass has left states on the nodes, a node shows the state of its cell if that was
selected, and what it showed before otherwise. -/
theorem expression?_publishWhere (test : Cell → Bool) {p : Pass} (h : g.Indexed) (hids : p.ids.Nodup)
    (hattached : ∀ c ∈ p.cells, c.attached = true) {j : NodeId} {e : Expression} {c : Cell}
    (he : g.expression? j = some e) (hc : p.cell? j = some c) :
    (p.publishWhere test g).expression? j =
      some { e with published := if test c then some c.state else e.published } := by
  have hsome : p.cells.find? (·.id = j) = some c := hc
  have hsub : (p.cells.filter fun c => c.attached && test c).map Cell.id |>.Nodup :=
    hids.sublist ((List.filter_sublist).map Cell.id)
  rw [publishWhere_eq, expression?_publishCells _ h hsub, he,
    find?_filter_of_nodup hids, hsome, Option.map_some]
  have hc' := hattached c (mem_of_cell? hc)
  cases htest : test c with
  | true => simp [Option.filter, hc', htest]
  | false => simp [Option.filter, hc', htest]

/-! ## The cells of a pass that has run -/

section Cells

variable {C : Type}

/-- Which nodes have cells, and whether these still belong to the graph. -/
def roster (p : Pass C) : List (NodeId × Bool) := p.cells.map fun c => (c.id, c.attached)

theorem ids_eq_roster (p : Pass C) : p.ids = p.roster.map Prod.fst := by
  simp [ids, roster, List.map_map]

theorem roster_mapState (p : Pass C) (id : NodeId) (f : NodeState C → NodeState C) :
    (p.mapState id f).roster = p.roster := by
  simp only [roster, mapState, List.map_map]
  refine List.map_congr_left fun c _ => ?_
  simp only [Function.comp_apply]
  split <;> rfl

variable [Code C]

theorem roster_complete (p : Pass C) (c : Cell C) : (p.complete c).roster = p.roster := by
  rw [roster, cells_complete]
  exact roster_mapState p c.id _

theorem roster_of_run {p q : Pass C} (h : p.run g = (.ok (), q)) : q.roster = p.roster := by
  obtain ⟨m, hm, rfl⟩ := (runs_iff.mpr h).invariant (I := fun q => q.roster = p.roster)
    (fun q id i v _ hq => (roster_mapState q id _).trans hq)
    (fun q c _ _ hq => (roster_complete q c).trans hq) rfl
  exact hm

end Cells

variable {r : Registry} {stage : Stage} {o : Options} {p : Pass}

theorem attached_of_run (h : (start g r stage o).run g = (.ok (), p)) :
    ∀ c ∈ p.cells, c.attached = true := by
  intro c hc
  have hmem : (c.id, c.attached) ∈ (start g r stage o : Pass).roster :=
    roster_of_run h ▸ List.mem_map_of_mem hc
  obtain ⟨d, hd, hsame⟩ := List.mem_map.mp hmem
  obtain ⟨n, -, e, a, -, -, rfl⟩ := mem_cells_start hd
  exact (Prod.mk.inj hsame).2.symm

theorem nodup_ids_start {C : Type} [Code C] (h : g.ids.Nodup) :
    (start g r stage o : Pass C).ids.Nodup := by
  have hids : g.nodes.Pairwise fun m n => m.id ≠ n.id := List.pairwise_map.mp h
  refine List.pairwise_map.mpr (List.Pairwise.filterMap _ ?_ hids)
  intro m n hne c hc d hd hsame
  have hm : c.id = m.id := by
    split at hc
    · obtain ⟨a, -, rfl⟩ := Option.map_eq_some_iff.mp hc
      rfl
    · exact absurd hc (by simp)
  have hn : d.id = n.id := by
    split at hd
    · obtain ⟨a, -, rfl⟩ := Option.map_eq_some_iff.mp hd
      rfl
    · exact absurd hd (by simp)
  exact hne (hm.symm.trans (hsame.trans hn))

theorem nodup_ids_of_run (hg : g.ids.Nodup) (h : (start g r stage o).run g = (.ok (), p)) :
    p.ids.Nodup := by
  rw [ids_eq_roster, roster_of_run h, ← ids_eq_roster]
  exact nodup_ids_start hg

/-- Every expression of the graph has a cell when the pass has run. -/
theorem exists_cell_of_run (hg : g.BelongsTo r) (h : (start g r stage o).run g = (.ok (), p))
    {j : NodeId} {e : Expression} (he : g.expression? j = some e) : ∃ c, p.cell? j = some c := by
  have hmem := hg.reachable.consistent.indexed.expression?_eq_some_iff.mp he
  obtain ⟨a, ha⟩ := hg.expressions _ hmem e rfl
  rw [← mem_ids_iff, ids_eq_roster, roster_of_run h, ← ids_eq_roster, ids, List.mem_map]
  refine ⟨{ id := j, archetype := a, kind := e.kind, state := a.freshState j g }, ?_, rfl⟩
  exact List.mem_filterMap.mpr ⟨_, hmem, by simp only [ha, Option.map_some]⟩

end Pass

end NodeShader
