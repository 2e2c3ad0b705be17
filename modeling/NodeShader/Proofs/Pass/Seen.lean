import NodeShader.Pass.Compile
import NodeShader.Proofs.Node.Fields
import NodeShader.Proofs.Pass.Prepared

/-!
# What a pass sees of a node

A node asks its kind for one number at each input, and has zero where there is none. What stands past
the last input is never asked for, and the text of a number is the same for all that is not a number.
So a pass does the same when each kind is replaced by what is seen of it (`Kind.seen`): every step of
evaluation commutes with that, and so does a run (`Pass.run_seen`). Of the graph itself a pass reads
the numbers of the nodes and the links. Hence graphs in which the same is seen compile to the same
source or fail at the same node (`compileStage_seen`).
-/

namespace NodeShader

open Number (Single)

/-! ## Kinds -/

namespace Kind

/-- The numbers that are seen at the first inputs: zero where a list is too short, and one pattern for
what is not a number. -/
def seenValues (count : Nat) (xs : List Single) : List Single :=
  (List.range count).map fun i => ((xs[i]?).getD .zero).plain

/-- What is seen of a kind at a node with so many inputs. -/
def seen (count : Nat) : Kind → Kind
  | .scalar x => .scalar x.plain
  | .vector xs => .vector (xs.map Single.plain)
  | .binaryOp operator xs => .binaryOp operator (seenValues count xs)
  | .call function xs => .call function (seenValues count xs)
  | .makeVec arity xs => .makeVec arity (seenValues count xs)
  | .vertexOut xs => .vertexOut (seenValues count xs)
  | k => k

theorem seenValues_plain (count : Nat) (xs : List Single) :
    seenValues count (xs.map Single.plain) = seenValues count xs := by
  refine List.map_congr_left fun i _ => ?_
  rw [List.getElem?_map]
  cases xs[i]? with
  | none => rfl
  | some x => exact Single.plain_plain x

/-- Payloads are not seen. -/
theorem seen_plain (count : Nat) (k : Kind) : k.plain.seen count = k.seen count := by
  cases k with
  | scalar x => exact congrArg scalar (Single.plain_plain x)
  | vector xs =>
      refine congrArg vector ?_
      rw [List.map_map]
      exact List.map_congr_left fun x _ => Single.plain_plain x
  | binaryOp operator xs => exact congrArg (binaryOp operator) (seenValues_plain count xs)
  | call function xs => exact congrArg (call function) (seenValues_plain count xs)
  | makeVec arity xs => exact congrArg (makeVec arity) (seenValues_plain count xs)
  | vertexOut xs => exact congrArg vertexOut (seenValues_plain count xs)
  | _ => rfl

end Kind

theorem literalText_plain (x : Single) : literalText x.plain = literalText x := by
  unfold Single.plain
  split
  · rename_i hnan
    unfold Single.isNaN at hnan
    cases hread : x.read with
    | notANumber negative payload =>
        simp only [literalText, hread]
        decide
    | finite negative significand scale => simp [hread] at hnan
    | infinite negative => simp [hread] at hnan
  · rfl

theorem Value.literal_plain (x : Single) : (literal x.plain : Value) = literal x :=
  congrArg (Value.mk .float) (literalText_plain x)

namespace Kind

theorem root?_seen (k : Kind) (count : Nat) : (k.seen count).root? = k.root? := by cases k <;> rfl

/-- At each input stands what is seen there. -/
theorem literal_default?_seen (k : Kind) {count i : Nat} (hi : i < count) :
    (Value.literal (((k.seen count).default? i).getD .zero) : Value) =
      .literal ((k.default? i).getD .zero) := by
  have hvalues : ∀ xs : List Single,
      (Value.literal (((seenValues count xs)[i]?).getD .zero) : Value) =
        .literal ((xs[i]?).getD .zero) := by
    intro xs
    rw [seenValues, List.getElem?_map, List.getElem?_range hi, Option.map_some, Option.getD_some,
      Value.literal_plain]
  cases k with
  | binaryOp _ xs => exact hvalues xs
  | call _ xs => exact hvalues xs
  | makeVec _ xs => exact hvalues xs
  | vertexOut xs => exact hvalues xs
  | _ => rfl

theorem defaultValue_seen (k : Kind) {count i : Nat} (hi : i < count) (requireLink : Bool) (t : Ty) :
    (Resolve.defaultValue (k.seen count) i requireLink t : Value) =
      Resolve.defaultValue k i requireLink t := by
  simp only [Resolve.defaultValue, Value.splat, literal_default?_seen k hi]

theorem applyInputs_seen (k : Kind) {count : Nat} (arity : UInt8) {i : Nat}
    {slots : List InputSlot} (h : i + slots.length ≤ count) (ts : List Ty) :
    Resolve.applyInputs (k.seen count) arity i slots ts = Resolve.applyInputs k arity i slots ts := by
  induction slots generalizing i ts with
  | nil => cases ts <;> rfl
  | cons slot rest ih =>
      cases ts with
      | nil => rfl
      | cons t ts =>
          rw [List.length_cons] at h
          simp only [Resolve.applyInputs, Resolve.applyInput, ih (i := i + 1) (by omega),
            defaultValue_seen k (by omega : i < count)]

/-- Numbers are asked for at the inputs that a node has. -/
theorem resolve_seen {s : NodeState} {count : Nat} (h : s.inputs.length ≤ count) (a : Archetype)
    (k : Kind) : s.resolve a (k.seen count) = s.resolve a k := by
  have hdeclared : s.resolveDeclared (k.seen count) = s.resolveDeclared k := by
    have hinputs : s.inputs.mapIdx (Resolve.declaredInput (k.seen count)) =
        s.inputs.mapIdx (Resolve.declaredInput k) := by
      refine List.mapIdx_eq_mapIdx_iff.mpr fun i hi => ?_
      simp only [Resolve.declaredInput, defaultValue_seen k (Nat.lt_of_lt_of_le hi h)]
    simp only [NodeState.resolveDeclared, hinputs]
  have hinputs : ∀ arity ts, Resolve.applyInputs (k.seen count) arity 0 s.inputs ts =
      Resolve.applyInputs k arity 0 s.inputs ts :=
    fun arity ts => applyInputs_seen k arity (by omega) ts
  simp only [NodeState.resolve, hdeclared, NodeState.applyOverload, hinputs]

theorem evaluate_seen (k : Kind) (count : Nat) (stage : Stage) (s : NodeState) :
    (k.seen count).evaluate stage s = k.evaluate stage s := by
  cases k with
  | scalar x => simp only [seen, evaluate, Value.literal_plain]
  | vector xs =>
      have hliterals : (xs.map Single.plain).map Value.literal =
          xs.map (Value.literal : Single → Value) := by
        rw [List.map_map]
        exact List.map_congr_left fun x _ => Value.literal_plain x
      simp only [seen, evaluate, List.length_map, hliterals]
  | _ => rfl

end Kind

/-! ## Cells and passes -/

/-- The cell with what is seen of its kind. -/
def Cell.seen (c : Cell) : Cell := { c with kind := c.kind.seen c.archetype.inputs.length }

/-- The state has no more inputs than the archetype. -/
def Cell.Fits (c : Cell) : Prop := c.state.inputs.length ≤ c.archetype.inputs.length

theorem Cell.Fits.outcome_seen {c : Cell} (h : c.Fits) (stage : Stage) :
    c.seen.outcome stage = c.outcome stage := by
  simp only [outcome, seen, Kind.resolve_seen h, Kind.evaluate_seen]

namespace Pass

/-- The pass with what is seen of the kinds. -/
def seen (p : Pass) : Pass := { p with cells := p.cells.map Cell.seen }

/-- The states of a pass fit their archetypes. -/
def Fits (p : Pass) : Prop := ∀ id c, p.cell? id = some c → c.Fits

theorem Fits.receive {p : Pass} (h : p.Fits) (id : NodeId) (i : Nat) (v : Value) :
    (p.mapState id (·.receive i v)).Fits := by
  intro j c' hc'
  obtain ⟨c, s, hc, rfl, -, hlength, -⟩ := exists_cell_of_receive hc'
  exact Nat.le_trans (Nat.le_of_eq hlength) (h j c hc)

theorem Fits.complete {p : Pass} (h : p.Fits) {id : NodeId} {c : Cell} (hc : p.cell? id = some c) :
    (p.complete c).Fits := by
  have hid := id_of_cell? hc
  intro j c' hc'
  by_cases hj : j = id
  · subst hj
    rw [cell?_complete_self hc] at hc'
    cases hc'
    exact Nat.le_trans (Nat.le_of_eq (c.length_inputs_outcome p.stage)) (h j c hc)
  · rw [cell?_complete_ne p (hid ▸ hj)] at hc'
    exact h j c' hc'

theorem cell?_seen (p : Pass) (id : NodeId) : p.seen.cell? id = (p.cell? id).map Cell.seen := by
  simp only [cell?, seen, List.find?_map]
  rfl

theorem mapState_seen (p : Pass) (id : NodeId) (f : NodeState → NodeState) :
    p.seen.mapState id f = (p.mapState id f).seen := by
  simp only [mapState, seen, List.map_map]
  congr 1
  refine List.map_congr_left fun c _ => ?_
  by_cases hid : c.id = id
  · have hid' : c.seen.id = id := hid
    simp only [Function.comp_apply, if_pos hid, if_pos hid']
    rfl
  · have hid' : ¬ c.seen.id = id := hid
    simp only [Function.comp_apply, if_neg hid, if_neg hid']

theorem bind_seen (p : Pass) (pin : Pin) (o : OutputSlot) :
    p.seen.bind pin o = (p.bind pin o).seen := by
  have hhoisted : p.seen.isHoisted o = p.isHoisted o := rfl
  simp only [bind, hhoisted]
  split
  · rfl
  · split <;> rfl

theorem bindOutputs_seen (id : NodeId) (i : Nat) (os : List OutputSlot) (p : Pass) :
    bindOutputs id i os p.seen = (bindOutputs id i os p).seen := by
  induction os generalizing i p with
  | nil => rfl
  | cons o rest ih => rw [bindOutputs, bindOutputs, bind_seen, ih]

theorem complete_seen (p : Pass) {c : Cell} (hc : c.Fits) :
    p.seen.complete c.seen = (p.complete c).seen := by
  have hfinished : p.seen.finished c.seen = p.finished c := by
    simp only [finished, hc.outcome_seen]
    rfl
  have hdeclared : ((c.outcome p.stage).declarations.foldl declare p.seen).declarations =
      ((c.outcome p.stage).declarations.foldl declare p).declarations :=
    declarations_foldl_declare _ rfl
  have hevaluated : p.seen.evaluated c.seen = (p.evaluated c).seen := by
    have hstate := p.mapState_seen c.id fun _ => p.finished c
    have hstage : p.seen.stage = p.stage := rfl
    simp only [evaluated, hfinished, hstage, hc.outcome_seen, hdeclared]
    exact congrArg (fun q : Pass => { p.evaluated c with cells := q.cells }) hstate
  rw [complete_eq, complete_eq, hfinished, hevaluated]
  exact bindOutputs_seen _ _ _ _

/-! ## Runs -/

/-- An answer with what is seen of the kinds in the pass beside it. -/
def seenAnswer {α : Type} (a : Except Cycle α × Pass) : Except Cycle α × Pass := (a.1, a.2.seen)

/-- A way to evaluate a node that does the same with what is seen. -/
def VisitsSeen (visit visit' : NodeId → Pass → Except Cycle Unit × Pass) : Prop :=
  ∀ id (p : Pass), p.Fits → visit' id p.seen = seenAnswer (visit id p) ∧ (visit id p).2.Fits

section Recursion

variable {g g' : ShaderGraph} {visit visit' : NodeId → Pass → Except Cycle Unit × Pass}

theorem supplier?_of_links (h : g.links = g'.links) : supplier? g = supplier? g' := by
  funext pin
  simp only [supplier?, Graph.linkInto?, h]

theorem demand_seen (hlinks : g.links = g'.links) (h : VisitsSeen visit visit') (pin : Pin) {p : Pass}
    (hp : p.Fits) : demand g' visit' pin p.seen = seenAnswer (demand g visit pin p) ∧
      (demand g visit pin p).2.Fits := by
  unfold demand
  rw [supplier?_of_links hlinks]
  cases supplier? g' pin with
  | none => exact ⟨rfl, hp⟩
  | some out =>
      have hmemo : p.seen.memo = p.memo := rfl
      simp only [hmemo]
      cases p.memo.lookup out with
      | some v => exact ⟨rfl, hp⟩
      | none =>
          obtain ⟨hvisit, hfits⟩ := h out.node p hp
          simp only [hvisit]
          revert hfits
          rcases visit out.node p with ⟨_ | _, q⟩ <;> exact fun hq => ⟨rfl, hq⟩

theorem fetchInputs_seen (hlinks : g.links = g'.links) (h : VisitsSeen visit visit') (id : NodeId)
    (count : Nat) : ∀ (i : Nat) {p : Pass}, p.Fits →
      fetchInputs g' visit' id i count p.seen = seenAnswer (fetchInputs g visit id i count p) ∧
        (fetchInputs g visit id i count p).2.Fits := by
  induction count with
  | zero => exact fun _ _ hp => ⟨rfl, hp⟩
  | succ count ih =>
      intro i p hp
      obtain ⟨hdemand, hfits⟩ := demand_seen hlinks h (.input id i) hp
      rw [fetchInputs, fetchInputs, hdemand]
      revert hfits
      rcases demand g visit (.input id i) p with ⟨_ | v, q⟩ <;> intro hq
      · exact ⟨rfl, hq⟩
      · simp only [seenAnswer, mapState_seen]
        exact ih (i + 1) (hq.receive id i v)

theorem visitWithin_seen (hlinks : g.links = g'.links) (depth : Nat) : ∀ path : List NodeId,
    VisitsSeen (visitWithin g depth path) (visitWithin g' depth path) := by
  induction depth with
  | zero => exact fun _ _ _ hp => ⟨rfl, hp⟩
  | succ depth ih =>
      intro path id p hp
      rw [visitWithin, visitWithin, cell?_seen]
      cases p.cell? id with
      | none => exact ⟨rfl, hp⟩
      | some c =>
          simp only [Option.map_some, Cell.seen]
          split
          · exact ⟨rfl, hp⟩
          · split
            · exact ⟨rfl, hp⟩
            · obtain ⟨hfetch, hfits⟩ :=
                fetchInputs_seen hlinks (ih (id :: path)) id c.state.inputs.length 0 hp
              rw [hfetch]
              revert hfits
              rcases fetchInputs g (visitWithin g depth (id :: path)) id 0 c.state.inputs.length p
                with ⟨_ | u, q⟩ <;> intro hq
              · exact ⟨rfl, hq⟩
              · simp only [seenAnswer, cell?_seen]
                cases hc : q.cell? id with
                | none => exact ⟨rfl, hq⟩
                | some c =>
                    exact ⟨congrArg (Prod.mk _) (complete_seen q (hq id c hc)), hq.complete hc⟩

theorem evaluateAll_seen (hlinks : g.links = g'.links) (ids : List NodeId) : ∀ {p : Pass}, p.Fits →
    evaluateAll g' ids p.seen = seenAnswer (evaluateAll g ids p) := by
  induction ids with
  | nil => exact fun _ => rfl
  | cons id rest ih =>
      intro p hp
      have hdepth : p.seen.depthLimit = p.depthLimit := by simp [depthLimit, seen]
      obtain ⟨hvisit, hfits⟩ := visitWithin_seen hlinks p.depthLimit [] id p hp
      rw [evaluateAll, evaluateAll, evaluateNode, evaluateNode, hdepth, hvisit]
      revert hfits
      rcases visitWithin g p.depthLimit [] id p with ⟨_ | u, q⟩ <;> intro hq
      · rfl
      · exact ih hq

end Recursion

theorem roots_seen {g g' : ShaderGraph}
    (hids : g.nodes.map Numbered.id = g'.nodes.map Numbered.id) (p : Pass) :
    p.seen.roots g' = p.roots g := by
  unfold roots
  rw [hids]
  refine List.filter_congr fun id _ => ?_
  rw [cell?_seen]
  cases p.cell? id with
  | none => rfl
  | some c =>
      simp only [Option.map_some, Cell.seen, Kind.root?_seen]
      rfl

/-- A run over a graph with the same links between nodes of the same numbers, and with what is seen of
the kinds. -/
theorem run_seen {g g' : ShaderGraph} (hids : g.nodes.map Numbered.id = g'.nodes.map Numbered.id)
    (hlinks : g.links = g'.links) {p : Pass} (hp : p.Fits) :
    p.seen.run g' = seenAnswer (p.run g) := by
  rw [run, run, roots_seen hids, evaluateAll_seen hlinks _ hp]
  rcases evaluateAll g (p.roots g) p with ⟨_ | u, q⟩ <;> rfl

theorem diagnostics_seen {g g' : ShaderGraph}
    (hids : g.nodes.map Numbered.id = g'.nodes.map Numbered.id) (p : Pass) :
    p.seen.diagnostics g' = p.diagnostics g := by
  unfold diagnostics state?
  rw [hids]
  refine List.flatMap_congr fun id _ => ?_
  rw [cell?_seen]
  cases p.cell? id <;> rfl

theorem compiled_seen {g g' : ShaderGraph}
    (hids : g.nodes.map Numbered.id = g'.nodes.map Numbered.id) (p : Pass) :
    p.seen.compiled g' = p.compiled g := by
  simp only [compiled, roots_seen hids, diagnostics_seen hids]
  rfl

theorem fits_start (g : ShaderGraph) (r : Registry) (stage : Stage) (o : Options) :
    (start g r stage o : Pass).Fits := by
  intro id c hc
  obtain ⟨n, e, a, -, -, -, rfl⟩ := mem_cells_start (mem_of_cell? hc)
  simp [Cell.Fits, Archetype.freshState]

end Pass

/-! ## Graphs -/

/-- Two nodes of one archetype of which the same is seen. -/
structure Expression.SeenAs (r : Registry) (e e' : Expression) : Prop where
  handle : e.handle = e'.handle
  kind : ∀ a, r.archetype? e.handle = some a →
    e.kind.seen a.inputs.length = e'.kind.seen a.inputs.length

/-- Two nodes under one number of which the same is seen. -/
def Numbered.SeenAs (r : Registry) (n n' : Numbered Node) : Prop :=
  n.id = n'.id ∧ ∃ e e', n.node = .expression e ∧ n'.node = .expression e' ∧ e.SeenAs r e'

/-- The same numbers in the same order, with nodes of which the same is seen, and the same links. -/
structure Graph.SeenAs (r : Registry) (g g' : ShaderGraph) : Prop where
  nodes : List.Forall₂ (Numbered.SeenAs r) g.nodes g'.nodes
  links : g.links = g'.links

variable {r : Registry} {g g' : ShaderGraph}

theorem Graph.SeenAs.ids (h : g.SeenAs r g') :
    g.nodes.map Numbered.id = g'.nodes.map Numbered.id :=
  map_eq_of_forall₂ (fun _ _ hn => hn.1) h.nodes

/-- The passes over graphs in which the same is seen start with the same to see. -/
theorem Graph.SeenAs.start (h : g.SeenAs r g') (stage : Stage) (o : Options) :
    (Pass.start g r stage o : Pass).seen = (Pass.start g' r stage o).seen := by
  have hfresh : ∀ (a : Archetype) (id : NodeId),
      (a.freshState id g : NodeState) = a.freshState id g' := by
    intro a id
    simp only [Archetype.freshState, Graph.linkInto?, Graph.fanOut, h.links]
  simp only [Pass.start, Pass.seen, hfresh]
  congr 1
  have hnodes := h.nodes
  revert hnodes
  generalize g.nodes = nodes
  generalize g'.nodes = nodes'
  intro hnodes
  induction hnodes with
  | nil => rfl
  | @cons n n' _ _ hn _ ih =>
      obtain ⟨hid, e, e', he, he', hhandle, hkind⟩ := hn
      simp only [List.filterMap_cons, he, he', ← hhandle, hid]
      cases ha : r.archetype? e.handle with
      | none => exact ih
      | some a => simp only [Option.map_some, List.map_cons, ih, Cell.seen, hkind a ha]

/-- Graphs in which the same is seen compile to the same source, or fail at the same node. -/
theorem compileStage_seen (h : g.SeenAs r g') (stage : Stage) (o : Options) :
    (compileStage g' r stage o).outcome = (compileStage g r stage o).outcome := by
  have hrun := Pass.run_seen h.ids h.links (Pass.fits_start g r stage o)
  rw [h.start, Pass.run_seen (g := g') rfl rfl (Pass.fits_start g' r stage o)] at hrun
  unfold compileStage runStage
  revert hrun
  rcases (Pass.start g r stage o : Pass).run g with ⟨e | u, p⟩ <;>
    rcases (Pass.start g' r stage o : Pass).run g' with ⟨e' | u', p'⟩ <;>
    intro hrun <;> obtain ⟨hanswer, hpass⟩ := Prod.mk.inj hrun
  · cases hanswer
    rfl
  · cases hanswer
  · cases hanswer
  · have hcompiled : p'.compiled g' = p.compiled g := by
      rw [← Pass.compiled_seen (g := g') rfl p', hpass, Pass.compiled_seen h.ids]
    exact congrArg Except.ok hcompiled

end NodeShader
