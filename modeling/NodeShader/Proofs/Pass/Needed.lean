import NodeShader.Proofs.Pass.Prepared

/-!
# What a stage needs

A node draws from the nodes whose links lead to its inputs, and a stage needs the nodes that its roots
draw from, directly or through others. These are properties of a graph and its links. A pass looks
links up by the pins they lead to instead, one input after the other; over the graphs of a registry
the two come to the same (`upstream_iff`), and the roots of a pass are those of the graph
(`mem_roots_start`).
-/

namespace NodeShader

open Relation (ReflTransGen TransGen)

namespace Graph

/-- A link leads from the producer to the consumer. -/
def DrawsFrom {α : Type} (g : Graph α) (consumer producer : NodeId) : Prop :=
  ∃ l ∈ g.links, l.target.node = consumer ∧ l.source.node = producer

/-- The stage starts at this node. -/
def IsRoot (g : ShaderGraph) (stage : Stage) (id : NodeId) : Prop :=
  ∃ n ∈ g.nodes, n.id = id ∧ ∃ e, n.node = .expression e ∧ e.kind.root? = some stage

/-- Links lead from the node to a root of the stage, or it is a root itself. -/
def Needs (g : ShaderGraph) (stage : Stage) (id : NodeId) : Prop :=
  ∃ root, g.IsRoot stage root ∧ ReflTransGen g.DrawsFrom root id

variable {g : ShaderGraph}

theorem Indexed.expression?_eq_some_iff (h : g.Indexed) {id : NodeId} {e : Expression} :
    g.expression? id = some e ↔ ⟨id, .expression e⟩ ∈ g.nodes := by
  rw [← h.node?_eq_some_iff, expression?, Option.bind_eq_some_iff]
  constructor
  · rintro ⟨n, hn, he⟩
    cases n with
    | expression e' => exact Option.some.inj he ▸ hn
    | foreign name pins => exact absurd he (by simp [Node.expression?])
  · exact fun hn => ⟨_, hn, rfl⟩

/-- A node that is drawn from is one of the graph. -/
theorem Consistent.exists_producer (hg : g.Consistent) {consumer producer : NodeId}
    (h : g.DrawsFrom consumer producer) : ∃ n ∈ g.nodes, n.id = producer := by
  obtain ⟨l, hl, -, rfl⟩ := h
  obtain ⟨-, -, n, hn, hid, -⟩ := hg.sources l hl
  exact ⟨n, hn, hid⟩

/-- A node draws from others through inputs that it has. -/
theorem Consistent.exists_input (hg : g.Consistent) {n : Numbered Node} (hn : n ∈ g.nodes)
    {e : Expression} (he : n.node = .expression e) {producer : NodeId}
    (h : g.DrawsFrom n.id producer) :
    ∃ i l, i < e.pins.inputs ∧ g.linkInto? (.input n.id i) = some l ∧ l.source.node = producer := by
  obtain ⟨l, hl, hconsumer, hproducer⟩ := h
  obtain ⟨hdir, hindex, m, hm, hid, hcount⟩ := hg.targets l hl
  have hpin := Pin.eq_input hdir hindex
  have hsame : m = n := hg.eq_of_id hm hn (hid.trans hconsumer)
  have hlt := hcount e.pins (by rw [hsame, he]; rfl)
  rw [hconsumer] at hpin
  refine ⟨l.target.index.toNat, l, ?_, hg.linkInto?_eq_some_iff.mpr ⟨hl, hpin⟩, hproducer⟩
  simp only [PinCount.on] at hlt
  omega

end Graph

namespace Pass

variable {C : Type} [Code C] {g : ShaderGraph} {r : Registry} {stage : Stage} {o : Options}

theorem feeds_iff (hg : g.Consistent) {consumer producer : NodeId}
    (hid : consumer ≤ NodeId.greatest) : Feeds g consumer producer ↔ g.DrawsFrom consumer producer := by
  constructor
  · rintro ⟨i, l, hl, hproducer⟩
    obtain ⟨hmem, htarget⟩ := hg.linkInto?_eq_some_iff.mp hl
    exact ⟨l, hmem, htarget ▸ Pin.node_input i hid, hproducer⟩
  · rintro ⟨l, hl, hconsumer, hproducer⟩
    obtain ⟨hdir, hindex, -⟩ := hg.targets l hl
    have hpin := Pin.eq_input hdir hindex
    rw [hconsumer] at hpin
    exact ⟨_, l, hg.linkInto?_eq_some_iff.mpr ⟨hl, hpin⟩, hproducer⟩

theorem le_of_upstream {root id : NodeId} (hroot : root ≤ NodeId.greatest)
    (h : Upstream g root id) : id ≤ NodeId.greatest := by
  rcases h.cases_tail with rfl | ⟨consumer, -, i, l, -, rfl⟩
  · exact hroot
  · exact l.source.node_le

/-- What a pass finds upstream of a node is what the node draws from. -/
theorem upstream_iff (hg : g.Consistent) {root id : NodeId} (hroot : root ≤ NodeId.greatest) :
    Upstream g root id ↔ ReflTransGen g.DrawsFrom root id := by
  constructor
  · intro h
    induction h with
    | refl => exact .refl
    | tail hpath hfeeds ih =>
        exact ih.tail ((feeds_iff hg (le_of_upstream hroot hpath)).mp hfeeds)
  · intro h
    induction h with
    | refl => exact .refl
    | tail _ hdraws ih => exact ih.tail ((feeds_iff hg (le_of_upstream hroot ih)).mpr hdraws)

theorem transGen_drawsFrom (hg : g.Consistent) {root id : NodeId} (hroot : root ≤ NodeId.greatest)
    (h : TransGen (Feeds g) root id) : TransGen g.DrawsFrom root id := by
  obtain ⟨consumer, hpath, hfeeds⟩ := TransGen.tail'_iff.mp h
  exact .tail' ((upstream_iff hg hroot).mp hpath)
    ((feeds_iff hg (le_of_upstream hroot hpath)).mp hfeeds)

/-- The roots of a pass are those of the graph. -/
theorem mem_roots_start (hg : g.IsOver r) {id : NodeId} :
    id ∈ (start g r stage o : Pass C).roots g ↔ g.IsRoot stage id := by
  rw [roots, List.mem_filter, List.mem_map]
  constructor
  · rintro ⟨-, hroot⟩
    split at hroot
    · rename_i c hc
      obtain ⟨n, hn, e, a, he, -, rfl⟩ := mem_cells_start (mem_of_cell? hc)
      exact ⟨n, hn, id_of_cell? hc, e, he, of_decide_eq_true hroot⟩
    · exact absurd hroot (by simp)
  · rintro ⟨n, hn, rfl, e, he, hroot⟩
    refine ⟨⟨n, hn, rfl⟩, ?_⟩
    obtain ⟨c, hc⟩ := exists_cell_start (C := C) hg hn stage o
    obtain ⟨m, hm, e', a, he', -, rfl⟩ := mem_cells_start (mem_of_cell? hc)
    have hsame : m = n := hg.reachable.consistent.eq_of_id hm hn (id_of_cell? hc)
    rw [hsame, he] at he'
    cases he'
    simp only [hc]
    exact decide_eq_true hroot

/-- The nodes upstream of the roots of a pass are those that the stage needs. -/
theorem exists_root_iff (hg : g.IsOver r) {id : NodeId} :
    (∃ root ∈ (start g r stage o : Pass C).roots g, Upstream g root id) ↔ g.Needs stage id := by
  refine exists_congr fun root => ?_
  rw [mem_roots_start hg]
  refine and_congr_right fun hroot => ?_
  obtain ⟨n, hn, rfl, -⟩ := hroot
  exact upstream_iff hg.reachable.consistent (NodeId.le_of_isValid (hg.ids n hn))

end Pass

end NodeShader
