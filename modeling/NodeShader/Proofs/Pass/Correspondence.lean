import NodeShader.Proofs.Pass.Renaming

/-!
# What a stage does not need cannot be seen in its source

Two graphs may have been made in quite different ways and still ask for the same computation: what a
stage needs of one is what it needs of the other, up to the numbers of the nodes (`Graph.Matches`).
Passes over such graphs start in step under the renaming of the nodes, so that they end in step. So
compiling gives the same source, declarations and counts for both graphs, or comes to a cycle in
both, at corresponding nodes (`compileStage_of_matches`). Numbers of nodes, positions, the order in
which nodes and links were made, nodes that are not needed and those of the other stage do not
matter, and uses of an output only as far as there are none, one or more.
-/

namespace NodeShader

/-! ## Graphs that ask for the same -/

namespace Graph

/-- The nodes that a stage starts at, in the order of the graph. -/
def roots (g : ShaderGraph) (stage : Stage) : List NodeId :=
  (g.nodes.filter fun n => (n.node.expression?.bind fun e => e.kind.root?) = some stage).map
    Numbered.id

/-- A node `e` under the number `id` and a node `e'` under the number `φ id` of another graph are of
one archetype with the same fields. Each input is linked in both graphs or in none, and to
corresponding outputs, and each output is used never, once, or more than once in both. -/
structure SameNode (φ : NodeId → NodeId) (g g' : ShaderGraph) (id : NodeId) (e e' : Expression) :
    Prop where
  handle : e.handle = e'.handle
  kind : e.kind = e'.kind
  inputs : ∀ i < e.pins.inputs,
    (g.linkInto? (.input id i)).map (fun l => (φ l.source.node, l.source.index)) =
      (g'.linkInto? (.input (φ id) i)).map fun l => (l.source.node, l.source.index)
  outputs : ∀ i < e.pins.outputs,
    min (g.fanOut (.output id i)) 2 = min (g'.fanOut (.output (φ id) i)) 2

/-- What a stage needs of one graph is what it needs of another, up to the numbers of the nodes:
these correspond one to one, and the roots do in their order. -/
structure Matches (φ : NodeId → NodeId) (stage : Stage) (g g' : ShaderGraph) : Prop where
  bijOn : Set.BijOn φ {id | g.Needs stage id} {id | g'.Needs stage id}
  roots : (g.roots stage).map φ = g'.roots stage
  nodes : ∀ id, g.Needs stage id →
    ∃ e e', g.expression? id = some e ∧ g'.expression? (φ id) = some e' ∧ SameNode φ g g' id e e'

end Graph

/-! ## Passes over graphs that ask for the same -/

variable {C : Type} {g g' : ShaderGraph} {r : Registry} {stage : Stage} {φ : NodeId → NodeId}

namespace Graph

variable {id : NodeId} {e e' : Expression}

/-- What a stage needs are nodes of the graph. -/
theorem Needs.exists_node (h : g.Needs stage id) (hg : g.Consistent) :
    ∃ n ∈ g.nodes, n.id = id := by
  obtain ⟨root, ⟨n, hn, hid, -⟩, hpath⟩ := h
  rcases hpath.cases_tail with rfl | ⟨consumer, -, hdraws⟩
  · exact ⟨n, hn, hid⟩
  · exact hg.exists_producer hdraws

/-- Nothing leads to an input that a node does not have. -/
theorem Consistent.linkInto?_eq_none (hg : g.Consistent)
    (he : g.expression? id = some e) {i : Nat} (hid : id ≤ NodeId.greatest)
    (hi : i ≤ Pin.greatestIndex) (hmissing : e.pins.inputs ≤ i) :
    g.linkInto? (.input id i) = none := by
  refine Option.eq_none_iff_forall_ne_some.mpr fun l hl => ?_
  obtain ⟨hmem, htarget⟩ := hg.linkInto?_eq_some_iff.mp hl
  obtain ⟨-, -, n, hn, hnode, hcount⟩ := hg.targets l hmem
  rw [htarget] at hnode hcount
  rw [Pin.node_input i hid] at hnode
  have hsame := hg.eq_of_id hn (hg.indexed.expression?_eq_some_iff.mp he) hnode
  have hlt := hcount e.pins (by rw [hsame]; rfl)
  rw [Pin.input, Pin.index_pack .input hid hi] at hlt
  simp only [PinCount.on] at hlt
  omega

theorem IsOver.hasPins (hg : g.IsOver r) (he : g.expression? id = some e) :
    ∃ a, r.archetype? e.handle = some a ∧ e.HasPinsOf a := by
  have hn := hg.reachable.consistent.indexed.expression?_eq_some_iff.mp he
  obtain ⟨e', a, hsame, ha, hpins⟩ := hg.expressions _ hn
  cases hsame
  exact ⟨a, ha, hpins⟩

/-- Corresponding nodes have as many pins. -/
theorem SameNode.pins (h : SameNode φ g g' id e e') (hg : g.IsOver r) (hg' : g'.IsOver r)
    (he : g.expression? id = some e) (he' : g'.expression? (φ id) = some e') :
    e.pins = e'.pins := by
  obtain ⟨a, ha, hpins⟩ := hg.hasPins he
  obtain ⟨a', ha', hpins'⟩ := hg'.hasPins he'
  rw [← h.handle, ha] at ha'
  cases ha'
  exact hpins.trans hpins'.symm

theorem Needs.le (h : g.Needs stage id) (hg : g.IsOver r) : id ≤ NodeId.greatest := by
  obtain ⟨n, hn, rfl⟩ := h.exists_node hg.reachable.consistent
  exact NodeId.le_of_isValid (hg.ids n hn)

/-- The output that a link comes from, by its parts. -/
theorem Consistent.source_eq (hg : g.Consistent) {l : Link} (hl : l ∈ g.links) :
    l.source = .output l.source.node l.source.index.toNat :=
  Pin.eq_output (hg.sources l hl).1 (hg.sources l hl).2.1

/-- Corresponding nodes draw from corresponding ones. -/
theorem SameNode.suppliers (h : SameNode φ g g' id e e') (hg : g.IsOver r) (hg' : g'.IsOver r)
    (he : g.expression? id = some e) (he' : g'.expression? (φ id) = some e')
    (hid : id ≤ NodeId.greatest) (hid' : φ id ≤ NodeId.greatest) {i : Nat}
    (hi : i ≤ Pin.greatestIndex) :
    Pass.supplier? g (.input id i) = none ∧ Pass.supplier? g' (.input (φ id) i) = none ∨
      ∃ j, g.DrawsFrom id j ∧ ∃ k ≤ Pin.greatestIndex,
        Pass.supplier? g (.input id i) = some (.output j k) ∧
        Pass.supplier? g' (.input (φ id) i) = some (.output (φ j) k) := by
  have hc := hg.reachable.consistent
  have hc' := hg'.reachable.consistent
  simp only [Pass.supplier?, Pin.isInput_input hid hi, Pin.isInput_input hid' hi, if_true]
  by_cases hpin : i < e.pins.inputs
  · have hlinks := h.inputs i hpin
    cases hl : g.linkInto? (.input id i) with
    | none =>
        rw [hl] at hlinks
        exact .inl ⟨rfl, by rw [Option.map_eq_none_iff.mp hlinks.symm]; rfl⟩
    | some l =>
        rw [hl] at hlinks
        obtain ⟨l', hl', hends⟩ := Option.map_eq_some_iff.mp hlinks.symm
        obtain ⟨hnode, hindex⟩ := Prod.mk.inj hends
        obtain ⟨hmem, htarget⟩ := hc.linkInto?_eq_some_iff.mp hl
        obtain ⟨hmem', -⟩ := hc'.linkInto?_eq_some_iff.mp hl'
        have hconsumer : l.target.node = id := htarget ▸ Pin.node_input i hid
        refine .inr ⟨l.source.node, ⟨l, hmem, hconsumer, rfl⟩, _, Pin.index_le,
          congrArg some (hc.source_eq hmem), ?_⟩
        rw [hl', ← hnode, ← hindex]
        exact congrArg some (hc'.source_eq hmem')
  · have hmissing : e.pins.inputs ≤ i := Nat.le_of_not_lt hpin
    rw [hc.linkInto?_eq_none he hid hi hmissing, hc'.linkInto?_eq_none he' hid' hi]
    · exact .inl ⟨rfl, rfl⟩
    · exact h.pins hg hg' he he' ▸ hmissing

/-- The renaming takes an evaluation of what the stage needs to the other graph. -/
theorem Matches.traces (hg : g.IsOver r) (hg' : g'.IsOver r) (h : g.Matches φ stage g') :
    Pass.Traces φ {id | g.Needs stage id} g g' where
  injOn := h.bijOn.injOn
  le _ hid := hid.le hg
  le_image _ hid := (h.bijOn.mapsTo hid).le hg'
  suppliers id hid i hi := by
    obtain ⟨e, e', he, he', hsame⟩ := h.nodes id hid
    have hid' := (h.bijOn.mapsTo hid).le hg'
    rcases hsame.suppliers hg hg' he he' (hid.le hg) hid' (Nat.le_of_lt_succ hi) with
      hnone | ⟨j, hdraws, hsome⟩
    · exact .inl hnone
    · obtain ⟨root, hroot, hpath⟩ := hid
      exact .inr ⟨j, ⟨root, hroot, hpath.tail hdraws⟩, hsome⟩

end Graph

namespace Pass

variable [Code C]

theorem cell?_start (hg : g.IsOver r) {id : NodeId} {e : Expression}
    (he : g.expression? id = some e) (stage : Stage) (o : Options) :
    ∃ a, r.archetype? e.handle = some a ∧ e.HasPinsOf a ∧
      (start g r stage o : Pass C).cell? id =
        some { id := id, archetype := a, kind := e.kind, state := a.freshState id g } := by
  have hmem := hg.reachable.consistent.indexed.expression?_eq_some_iff.mp he
  obtain ⟨c, hc⟩ := exists_cell_start (C := C) hg hmem stage o
  obtain ⟨n, hn, e', a, he', ha, hpins, rfl⟩ := cell_start hg (mem_of_cell? hc)
  have hsame := hg.reachable.consistent.eq_of_id hn hmem (id_of_cell? hc)
  subst hsame
  cases he'
  exact ⟨a, ha, hpins, hc⟩

/-- A pass starts at the roots of the graph, in their order. -/
theorem roots_start (hg : g.IsOver r) (o : Options) :
    (start g r stage o : Pass C).roots g = g.roots stage := by
  rw [roots, Graph.roots, List.filter_map]
  congr 1
  refine List.filter_congr fun n hn => ?_
  obtain ⟨e, -, hexp, -⟩ := hg.expressions n hn
  have he : g.expression? n.id = some e := by
    rw [Graph.expression?, hg.reachable.consistent.node?_of_mem hn, hexp]
    rfl
  obtain ⟨a, -, -, hc⟩ := cell?_start (C := C) hg he stage o
  simp only [Function.comp_apply, hc, hexp, Node.expression?, Option.bind_some]
  rfl

theorem corresponds_start (hg : g.IsOver r) (hg' : g'.IsOver r) (h : g.Matches φ stage g')
    (o : Options) :
    (start g r stage o : Pass C).Corresponds φ {id | g.Needs stage id} (start g' r stage o) := by
  refine ⟨by rw [written_start_eq, written_start_eq], fun id hid => ?_, fun _ _ _ _ => rfl⟩
  obtain ⟨e, e', he, he', hsame⟩ := h.nodes id hid
  obtain ⟨a, ha, hpins, hc⟩ := cell?_start (C := C) hg he stage o
  obtain ⟨a', ha', hpins', hc'⟩ := cell?_start (C := C) hg' he' stage o
  rw [← hsame.handle, ha] at ha'
  cases ha'
  rw [hc, hc']
  refine .some ⟨rfl, hsame.kind, a.anonymous_freshState ?_ ?_, fun _ => ?_⟩
  · intro i hi
    have hlinks := congrArg Option.isSome (hsame.inputs i (by rw [hpins]; exact hi))
    simpa using hlinks
  · intro i hi
    exact hsame.outputs i (by rw [hpins]; exact hi)
  · have hfits := hg.registry.archetype_fits ha
    simpa [Archetype.freshState] using hfits

end Pass

/-! ## Comparing graphs -/

/-- Are the built-in kinds the same? Others cannot be compared. -/
def Kind.isSame : Kind → Kind → Bool
  | .scalar x, .scalar y => x = y
  | .vector xs, .vector ys => xs = ys
  | .parameter name, .parameter name' => name = name'
  | .globalVar v declaration, .globalVar v' declaration' => v = v' ∧ declaration = declaration'
  | .binaryOp operator xs, .binaryOp operator' ys => operator = operator' ∧ xs = ys
  | .call function xs, .call function' ys => function = function' ∧ xs = ys
  | .makeVec arity xs, .makeVec arity' ys => arity = arity' ∧ xs = ys
  | .breakVec arity, .breakVec arity' => arity = arity'
  | .vertexOut xs, .vertexOut ys => xs = ys
  | .transform, .transform | .sample, .sample | .append, .append => true
  | .fragmentOut, .fragmentOut | .bridge, .bridge => true
  | _, _ => false

theorem Kind.eq_of_isSame {k k' : Kind} (h : k.isSame k' = true) : k = k' := by
  unfold isSame at h
  split at h <;> simp_all

/-- Are the nodes under a number and under the one it is renamed to the same? -/
def Graph.sameNode (φ : NodeId → NodeId) (g g' : ShaderGraph) (id : NodeId) : Bool :=
  match g.expression? id, g'.expression? (φ id) with
  | some e, some e' =>
    e.kind.isSame e'.kind && decide (e.handle = e'.handle ∧
      (∀ i < e.pins.inputs,
        (g.linkInto? (.input id i)).map (fun l => (φ l.source.node, l.source.index)) =
          (g'.linkInto? (.input (φ id) i)).map fun l => (l.source.node, l.source.index)) ∧
      ∀ i < e.pins.outputs,
        min (g.fanOut (.output id i)) 2 = min (g'.fanOut (.output (φ id) i)) 2)
  | _, _ => false

theorem Graph.exists_of_sameNode {id : NodeId} (h : sameNode φ g g' id = true) :
    ∃ e e', g.expression? id = some e ∧ g'.expression? (φ id) = some e' ∧
      SameNode φ g g' id e e' := by
  unfold sameNode at h
  split at h
  · rename_i e e' he he'
    rw [Bool.and_eq_true, decide_eq_true_eq] at h
    obtain ⟨hkind, hhandle, hinputs, houtputs⟩ := h
    exact ⟨e, e', he, he', hhandle, Kind.eq_of_isSame hkind, hinputs, houtputs⟩
  · exact absurd h (by simp)

/-- Graphs can be compared after passes over them, which report what the stage needs. -/
theorem Graph.matches_of_run (hg : g.IsOver r) (hg' : g'.IsOver r) {o : Options} {p q : Pass}
    (hp : (Pass.start g r stage o : Pass).run g = (.ok (), p))
    (hq : (Pass.start g' r stage o : Pass).run g' = (.ok (), q))
    (hsame : (p.reported.map φ).Perm q.reported) (hroots : (g.roots stage).map φ = g'.roots stage)
    (hnodes : p.reported.all (sameNode φ g g') = true) : g.Matches φ stage g' := by
  have hneeds : ∀ id, id ∈ p.reported ↔ g.Needs stage id := fun id =>
    ((Pass.accounted_of_run hg hp).1.listed id).trans (Pass.isEvaluated_iff_needs hg hp)
  have hneeds' : ∀ id, id ∈ q.reported ↔ g'.Needs stage id := fun id =>
    ((Pass.accounted_of_run hg' hq).1.listed id).trans (Pass.isEvaluated_iff_needs hg' hq)
  have honce : (p.reported.map φ).Nodup := hsame.nodup_iff.mpr (Pass.accounted_of_run hg' hq).1.once
  refine ⟨⟨fun id hid => ?_, fun id hid j hj heq => ?_, fun id hid => ?_⟩, hroots, fun id hid => ?_⟩
  · exact (hneeds' _).mp (hsame.mem_iff.mp (List.mem_map_of_mem ((hneeds id).mpr hid)))
  · exact List.inj_on_of_nodup_map honce ((hneeds id).mpr hid) ((hneeds j).mpr hj) heq
  · obtain ⟨j, hj, rfl⟩ := List.mem_map.mp (hsame.mem_iff.mpr ((hneeds' id).mpr hid))
    exact ⟨j, (hneeds j).mp hj, rfl⟩
  · exact exists_of_sameNode (List.all_eq_true.mp hnodes id ((hneeds id).mpr hid))

namespace Graph

/-- The tinted texture once more, drawn from the end to the beginning, between a constant that the
other stage uses and a sum that nothing uses. -/
def retinted : ShaderGraph :=
  sketch ["out_vertex", "out_fragment", "add", "mul", "scalar", "sample", "texture", "uv",
      "parameter", "add"]
    [(.output 3 0, .input 2 0), (.output 4 0, .input 3 1), (.output 4 0, .input 3 0),
      (.output 4 0, .input 10 0), (.output 9 0, .input 4 1), (.output 6 0, .input 4 0),
      (.output 8 0, .input 6 1), (.output 7 0, .input 6 0), (.output 5 0, .input 1 1)]

theorem isBuiltin_retinted : retinted.IsBuiltin := isBuiltin_sketch _ _ (by decide)

/-- The numbers in `retinted` of the nodes of `tinted`. -/
def retint (id : NodeId) : NodeId := ([0, 9, 8, 7, 6, 4, 3, 2][id.toNat]?).getD 0

theorem matches_retinted : tinted.Matches retint .fragment retinted := by
  have hrun : ((Pass.start .tinted .builtin .fragment {} : Pass).run .tinted).1 = .ok () ∧
      ((Pass.start .tinted .builtin .fragment {} : Pass).run .tinted).2.reported =
        [3, 2, 4, 1, 5, 6, 7] := by
    decide +kernel
  have hrun' : ((Pass.start .retinted .builtin .fragment {} : Pass).run .retinted).1 = .ok () ∧
      ((Pass.start .retinted .builtin .fragment {} : Pass).run .retinted).2.reported =
        [7, 8, 6, 9, 4, 3, 2] := by
    decide +kernel
  refine matches_of_run isBuiltin_tinted.isOver isBuiltin_retinted.isOver (Pass.run_eq_ok hrun.1)
    (Pass.run_eq_ok hrun'.1) ?_ (by decide +kernel) ?_
  · rw [hrun.2, hrun'.2]
    decide
  · rw [hrun.2]
    decide +kernel

end Graph

/-! ## Compiling -/

/-- The source of a stage depends on what the stage needs of the graph and on nothing else. When a
renaming takes what it needs of one graph to what it needs of another, then compiling fails for both
graphs, at corresponding nodes of cycles, or it gives the same source, declarations and counts for
both. -/
theorem compileStage_of_matches (hg : g.IsOver r) (hg' : g'.IsOver r) (h : g.Matches φ stage g')
    (o : Options) :
    (∃ c, (compileStage g r stage o).outcome = .error (.cycle stage c) ∧
      (compileStage g' r stage o).outcome = .error (.cycle stage ⟨φ c.node⟩)) ∨
    ∃ a b, (compileStage g r stage o).outcome = .ok a ∧
      (compileStage g' r stage o).outcome = .ok b ∧
      a.source = b.source ∧ a.declarations = b.declarations ∧ a.stats = b.stats := by
  have hrun : Pass.Runs g (g.roots stage) (Pass.start g r stage o)
      ((Pass.start g r stage o : Pass).run g) := Pass.roots_start hg o ▸ Pass.runs_iff.mpr rfl
  have hroots : ∀ id ∈ g.roots stage, g.Needs stage id := by
    intro id hid
    rw [← Pass.roots_start (C := String) hg o] at hid
    exact ⟨id, (Pass.mem_roots_start hg).mp hid, .refl⟩
  obtain ⟨res, hrun', hechoes⟩ :=
    hrun.renamed (h.traces hg hg') hroots (Pass.corresponds_start hg hg' h o)
  rw [h.roots, ← Pass.roots_start hg' o, Pass.runs_iff] at hrun'
  generalize hres : (Pass.start g r stage o : Pass).run g = res at hechoes
  cases hechoes with
  | error c hm =>
      refine .inl ⟨c, ?_⟩
      rw [compileStage_of_run_error hres, compileStage_of_run_error hrun']
      exact ⟨rfl, rfl⟩
  | @ok p q hm =>
      refine .inr ⟨p.compiled g, q.compiled g', ?_, ?_, ?_, hm.declarations, hm.stats⟩
      · simp only [compileStage, runStage, hres]
      · simp only [compileStage, runStage, hrun']
      · exact (congrArg Pass.source hm.written :)

theorem compileStage_of_matches_retinted :
    Graph.tinted.IsOver .builtin ∧ Graph.retinted.IsOver .builtin ∧
    Graph.tinted.Matches Graph.retint .fragment .retinted ∧
    Graph.tinted.fanOut (.output 5 0) = 2 ∧ Graph.retinted.fanOut (.output 4 0) = 3 ∧
    ∃ a b, (compileStage .tinted .builtin .fragment {}).outcome = .ok a ∧
      (compileStage .retinted .builtin .fragment {}).outcome = .ok b ∧
      a.source = b.source ∧ a.declarations = b.declarations ∧ a.stats = b.stats := by
  have hg : Graph.tinted.IsOver .builtin := Graph.isBuiltin_tinted.isOver
  have hg' : Graph.retinted.IsOver .builtin := Graph.isBuiltin_retinted.isOver
  refine ⟨hg, hg', Graph.matches_retinted, by decide +kernel, by decide +kernel, ?_⟩
  rcases compileStage_of_matches hg hg' Graph.matches_retinted {} with ⟨c, herror, -⟩ | hok
  · have hends : (compileStage .tinted .builtin .fragment {}).outcome.isOk = true := by
      decide +kernel
    rw [herror] at hends
    exact absurd hends (by simp [Except.isOk, Except.toBool])
  · exact hok

end NodeShader
