import NodeShader.Proofs.Pass.Prepared
import NodeShader.Proofs.Source.Expansion

/-!
# Sharing does not change the program

`Reference` evaluates a graph without sharing: the producer of every linked input is evaluated
again, with the same rules for resolving and evaluating a node, and no value is kept or named. A pass
evaluates every node once, keeps what is used and names what is used twice, long or flagged. Both
write the same program: the body of a pass, with its variables put back, is what the reference
writes for the roots.

The invariant is `Mirrors`: what the memo offers at the source of a link, with the variables put
back, is what the reference has there. It says nothing of thresholds, flags or numbers of uses, and
so neither does the program.
-/

namespace NodeShader

/-! ## Evaluation from scratch -/

namespace Reference

/-- The state in which a node is evaluated, from the values at its inputs. Nothing is said about the
use of its outputs. -/
def state (g : ShaderGraph) (id : NodeId) (a : Archetype) (values : List Value) : NodeState :=
  { node := id
    inputs := a.inputs.mapIdx fun i pin =>
      { name := pin.name, declared := pin.ty, ty := pin.ty, value := (values[i]?).getD .null,
        link := g.linkInto? (.input id i), requireLink := pin.requireLink }
    outputs := a.outputs.map fun pin =>
      { name := pin.name, declared := pin.ty, ty := pin.ty, value := .null } }

/-- The value that an evaluated node has at an output. -/
def offer (out : Pin) (o : Outcome) : Value :=
  match o.state.outputs[out.index.toNat]? with
  | some slot => Kind.orElse slot.value .null
  | none => .null

/-- The value at input `i` of a node. `produce` evaluates a node. -/
def input? (g : ShaderGraph) (produce : NodeId → Option Outcome) (id : NodeId) (i : Nat) :
    Option Value :=
  match g.linkInto? (.input id i) with
  | none => some .null
  | some l => (produce l.source.node).map (offer l.source)

/-- The values at `count` inputs of a node, from input `i` on. -/
def inputs? (g : ShaderGraph) (produce : NodeId → Option Outcome) (id : NodeId) :
    (i count : Nat) → Option (List Value)
  | _, 0 => some []
  | i, count + 1 =>
    match input? g produce id i, inputs? g produce id (i + 1) count with
    | some v, some vs => some (v :: vs)
    | _, _ => none

/-- The outcome of a node, with all it depends on evaluated from scratch. There is none when that
takes a path of more than `depth` nodes. What is no expression has no outputs. -/
def outcome? (g : ShaderGraph) (r : Registry) (stage : Stage) : (depth : Nat) → NodeId → Option Outcome
  | 0, _ => none
  | depth + 1, id =>
    match g.expression? id with
    | none => some { state := { node := id, inputs := [], outputs := [] } }
    | some e =>
      match r.archetype? e.handle with
      | none => some { state := { node := id, inputs := [], outputs := [] } }
      | some a =>
        (inputs? g (outcome? g r stage depth) id 0 a.inputs.length).map fun values =>
          Cell.outcome { id, archetype := a, kind := e.kind, state := state g id a values } stage

/-- The statements of nodes, one node after the other. -/
def statements? (g : ShaderGraph) (r : Registry) (stage : Stage) (depth : Nat) :
    List NodeId → Option (List String)
  | [] => some []
  | id :: rest =>
    match outcome? g r stage depth id, statements? g r stage depth rest with
    | some o, some more => some (o.statements ++ more)
    | _, _ => none

/-- The body of a stage, written without sharing. -/
def body? (g : ShaderGraph) (r : Registry) (stage : Stage) (depth : Nat) : Option (List String) :=
  statements? g r stage depth ((Pass.start g r stage {} : Pass).roots g)

theorem inputs?_eq_some {g : ShaderGraph} {produce : NodeId → Option Outcome} {id : NodeId}
    {f : Nat → Value} (count : Nat) :
    ∀ i, (∀ j, i ≤ j → j < i + count → input? g produce id j = some (f j)) →
      inputs? g produce id i count = some ((List.range' i count).map f) := by
  induction count with
  | zero => exact fun _ _ => rfl
  | succ count ih =>
      intro i h
      have hrest := ih (i + 1) fun j hj hlt => h j (by omega) (by omega)
      rw [inputs?, h i (by omega) (by omega), hrest]
      rfl

theorem statements?_append {g : ShaderGraph} {r : Registry} {stage : Stage} {depth : Nat}
    {ids : List NodeId} {id : NodeId} {ss : List String} {o : Outcome}
    (hids : statements? g r stage depth ids = some ss)
    (hid : outcome? g r stage depth id = some o) :
    statements? g r stage depth (ids ++ [id]) = some (ss ++ o.statements) := by
  induction ids generalizing ss with
  | nil =>
      cases hids
      simp [statements?, hid]
  | cons first rest ih =>
      rw [statements?] at hids
      split at hids
      · rename_i o' more ho' hmore
        cases hids
        rw [List.cons_append, statements?, ho', ih hmore]
        simp
      · exact absurd hids (by simp)

end Reference

/-! ## What the texts of a pass stand for -/

namespace Pass

/-- In this pass the first text stands for the second. -/
def Means (p : Pass) : String → String → Prop := Expands p.nextVar (inline p.body).meanings

/-- Every name that the body declares is that of a generated variable. -/
def Proper (p : Pass) : Prop := (inline p.body).meanings.IsProper

/-- What was said in one pass still holds in the other, and no statement has been added. -/
structure Extends (p q : Pass) : Prop where
  proper : q.Proper
  means : ∀ s t, p.Means s t → q.Means s t
  statements : inlined q.body = inlined p.body

variable {g : ShaderGraph} {p q r : Pass}

theorem Extends.refl (hp : p.Proper) : p.Extends p := ⟨hp, fun _ _ h => h, rfl⟩

theorem Extends.trans (h : p.Extends q) (h' : q.Extends r) : p.Extends r :=
  ⟨h'.proper, fun s t hst => h'.means s t (h.means s t hst), h'.statements.trans h.statements⟩

theorem means_blank (hp : p.Proper) : p.Means "" "" := Expands.of_isPlain hp (by decide)

/-- What stands for something is kept by every construction that built-in nodes use. -/
theorem respects_means (hp : p.Proper) {c : Cell} (hc : c.Prepared g) :
    Respects c.kind p.Means p.Means p.Means where
  given := hc.isTemplate
  weaken _ _ h := h
  blank := means_blank hp
  literal f := Expands.of_isPlain hp (isPlain_literalText f)
  verbatim s hs := by
    rcases hc.texts s hs with ⟨hpipe, -⟩ | ⟨name, rfl, -⟩
    · have hall : ∀ s ∈ Kind.pipelineTexts, isPlain s = true := by decide
      exact Expands.of_isPlain hp (hall s hpipe)
    · exact Expands.of_isPlain hp (isPlain_identifier name)
  binary operator hop x x' y y' hx hy := Expands.binary (hc.operators operator hop) hx hy
  apply f hf xs xs' hxs := by
    have hall : ∀ f ∈ Kind.vectorNames ++ Reserved.functionNames, isPlain f = true := by
      decide +kernel
    refine Expands.apply hp (hall f ?_) hxs
    rcases List.mem_append.mp hf with hf | hf
    · exact List.mem_append_left _ hf
    · exact hc.heads f hf
  select letter hletter x x' hx := by
    have hall : ∀ s ∈ Kind.swizzles, isPlain s = true := by decide
    exact Expands.select hp (hall letter hletter) hx
  assign target ht x x' hx := by
    have hall : ∀ s ∈ Kind.targets, isPlain s = true := by decide
    exact Expands.assign hp (hall target ht) hx

/-! ## Binding outputs -/

theorem meanings_hoist (p : Pass) (pin : Pin) {o : OutputSlot} (hvalid : o.value.isValid = true)
    (hclear : o.value.ty.isOpaque = false) :
    inline (p.hoist pin o).body =
      { inline p.body with
        meanings := ((varName p.nextVar).toList, expand (inline p.body).meanings o.value.code) ::
          (inline p.body).meanings } :=
  inline_define p.body hvalid hclear p.nextVar o.value.code

theorem extends_hoist (hp : p.Proper) (pin : Pin) {o : OutputSlot} (hvalid : o.value.isValid = true)
    (hclear : o.value.ty.isOpaque = false) : p.Extends (p.hoist pin o) := by
  have hinline := meanings_hoist p pin hvalid hclear
  refine ⟨?_, ?_, ?_⟩
  · rw [Proper, hinline]
    exact Inlining.IsProper.cons hp _ _
  · intro s t hst
    rw [Means, hinline]
    exact Expands.cons hst _
  · rw [inlined, hinline]
    rfl

theorem extends_bind (hp : p.Proper) (pin : Pin) (o : OutputSlot) : p.Extends (p.bind pin o) := by
  rcases p.bind_cases pin o with ⟨-, h⟩ | ⟨hvalid, ⟨-, h⟩ | ⟨hclear, h⟩⟩ <;> rw [h]
  · exact .refl hp
  · exact ⟨hp, fun _ _ h => h, rfl⟩
  · exact extends_hoist hp pin hvalid hclear

theorem extends_bindOutputs (hp : p.Proper) (id : NodeId) (i : Nat) (os : List OutputSlot) :
    p.Extends (bindOutputs id i os p) := by
  refine bindOutputs_invariant (I := p.Extends) os i ?_ p (.refl hp)
  intro j o q _ hq
  exact hq.trans (extends_bind hq.proper _ o)

/-- A used output is offered as what it stands for, and as null when it has no value. -/
theorem offer_bind (hp : p.Proper) {pin : Pin} {o : OutputSlot} {w : Value}
    (hw : o.value.Related p.Means w) (hused : o.fanOut ≠ 0) (hnew : p.memo.lookup pin = none) :
    (((p.bind pin o).memo.lookup pin).getD .null).Related (p.bind pin o).Means
      (Kind.orElse w .null) := by
  have hvalue : o.value.isValid = true → Kind.orElse w .null = w := by
    intro hvalid
    simp [Kind.orElse, ← hw.isValid, hvalid]
  rcases p.bind_cases pin o with ⟨hnone, h⟩ | ⟨hvalid, ⟨-, h⟩ | ⟨hclear, h⟩⟩ <;> rw [h]
  · simp only [hnew, Option.getD_none, Kind.orElse, ← hw.isValid, hnone.resolve_left hused]
    exact ⟨rfl, means_blank hp⟩
  · rw [hvalue hvalid]
    simp only [remember, List.lookup_cons, beq_self_eq_true, Option.getD_some]
    exact hw
  · rw [hvalue hvalid]
    refine ⟨?_, ?_⟩
    · simpa [hoist] using hw.ty
    · have hinline := meanings_hoist p pin hvalid hclear
      rw [Means, hinline]
      simp only [hoist, List.lookup_cons, beq_self_eq_true, Option.getD_some]
      rw [hw.code.eq]
      exact Expands.varName _ _ _

theorem offer_bindOutputs {id : NodeId} (hid : id ≤ NodeId.greatest) (os : List OutputSlot) :
    ∀ (i : Nat) (p : Pass) (ws : List OutputSlot), p.Proper →
      i + os.length ≤ Pin.greatestIndex + 1 →
      List.Forall₂ (OutputSlot.Related p.Means) os ws →
      (∀ j, i ≤ j → j < i + os.length → p.memo.lookup (.output id j) = none) →
      ∀ (j : Nat) (o w : OutputSlot), os[j]? = some o → ws[j]? = some w → o.fanOut ≠ 0 →
        (((bindOutputs id i os p).memo.lookup (.output id (i + j))).getD .null).Related
          (bindOutputs id i os p).Means (Kind.orElse w.value .null) := by
  induction os with
  | nil =>
      intro i p ws hp hlen hws hnew j o w ho
      exact absurd ho (by simp)
  | cons o rest ih =>
      intro i p ws hp hlen hws hnew j o' w' ho' hw' hused
      rw [List.length_cons] at hlen hnew
      obtain ⟨w, ws', hw, hrest, rfl⟩ := List.forall₂_cons_left_iff.mp hws
      have hbind := extends_bind hp (.output id i) o
      cases j with
      | zero =>
          cases ho'
          cases hw'
          have hoffer := offer_bind hp hw.value hused (hnew i (by omega) (by omega))
          have hlater := extends_bindOutputs hbind.proper id (i + 1) rest
          rw [bindOutputs, Nat.add_zero,
            lookup_bindOutputs_of_lt hid (i + 1) (by omega) rest (by omega)]
          exact hoffer.mono hlater.means
      | succ j =>
          have hfresh : ∀ k, i + 1 ≤ k → k < i + 1 + rest.length →
              (p.bind (.output id i) o).memo.lookup (.output id k) = none := by
            intro k hik hk
            have hne : Pin.output id k ≠ .output id i := by
              intro heq
              have := Pin.pack_inj hid (by omega) (by omega) heq
              omega
            rw [lookup_bind_of_ne p o hne]
            exact hnew k (by omega) (by omega)
          have hlater := ih (i + 1) (p.bind (.output id i) o) ws' hbind.proper (by omega)
            (hrest.imp fun a b hab => { hab with value := hab.value.mono hbind.means }) hfresh
            j o' w' ho' hw' hused
          rwa [show i + 1 + j = i + (j + 1) by omega] at hlater

/-! ## The invariant -/

/-- What the memo offers at the source of a link stands for what evaluation from scratch has there.
As many nodes as have been evaluated are as deep as evaluation can go. -/
structure Mirrors (g : ShaderGraph) (p : Pass) : Prop where
  proper : p.Proper
  offers : ∀ l ∈ g.links, p.Settled l.source.node → ∀ depth, p.stats.nodes ≤ depth →
    ∃ o, Reference.outcome? g .builtin p.stage depth l.source.node = some o ∧
      ((p.memo.lookup l.source).getD .null).Related p.Means (Reference.offer l.source o)

/-- The inputs of a node that is ready stand for what evaluation from scratch finds there. -/
theorem Mirrors.input (h : p.Mirrors g) {id : NodeId} {i : Nat} (hid : id ≤ NodeId.greatest)
    (hi : i ≤ Pin.greatestIndex) (hready : p.Ready g (.input id i)) {depth : Nat}
    (hdepth : p.stats.nodes ≤ depth) :
    ∃ w, Reference.input? g (Reference.outcome? g .builtin p.stage depth) id i = some w ∧
      (p.supply g (.input id i)).Related p.Means w := by
  have hin := Pin.isInput_input hid hi
  unfold Reference.input? supply
  unfold Ready at hready
  simp only [supplier?, hin, if_true] at hready ⊢
  cases hl : g.linkInto? (.input id i) with
  | none => exact ⟨.null, rfl, ⟨rfl, means_blank h.proper⟩⟩
  | some l =>
      have hsettled := hready l.source (by rw [hl]; rfl)
      obtain ⟨o, ho, hrel⟩ := h.offers l (Graph.mem_links_of_linkInto? hl) hsettled depth hdepth
      refine ⟨Reference.offer l.source o, ?_, hrel⟩
      dsimp only
      rw [ho]
      rfl

/-- The state in which a node is completed stands for the one it has when evaluated from scratch. -/
theorem Mirrors.state (h : p.Mirrors g) {c : Cell} (hc : c.Prepared g) (hid : c.id ≤ NodeId.greatest)
    (hopen : c.state.evaluated = false) (hfilled : p.Filled g c c.state.inputs.length) {depth : Nat}
    (hdepth : p.stats.nodes ≤ depth) :
    ∃ values, Reference.inputs? g (Reference.outcome? g .builtin p.stage depth) c.id 0
        c.archetype.inputs.length = some values ∧
      c.state.Related p.Means p.Means (Reference.state g c.id c.archetype values) := by
  have hlen := hc.length_inputs_eq hopen
  have hshort := hc.length_inputs hopen
  let f : Nat → Value := fun i =>
    (Reference.input? g (Reference.outcome? g .builtin p.stage depth) c.id i).getD .null
  have hf : ∀ i slot, c.state.inputs[i]? = some slot →
      Reference.input? g (Reference.outcome? g .builtin p.stage depth) c.id i = some (f i) ∧
        slot.value.Related p.Means (f i) := by
    intro i slot hslot
    have hi : i < c.state.inputs.length := (List.getElem?_eq_some_iff.mp hslot).1
    obtain ⟨hready, hvalue⟩ := hfilled i slot hi hslot
    obtain ⟨w, hw, hrel⟩ := h.input hid (by simp only [Pin.greatestIndex]; omega) hready hdepth
    have hfi : f i = w := by simp only [f, hw, Option.getD_some]
    rw [hfi, hvalue]
    exact ⟨hw, hrel⟩
  refine ⟨_, Reference.inputs?_eq_some _ 0 (f := f) ?_, ?_⟩
  · intro i _ hi
    have hi' : i < c.state.inputs.length := by omega
    exact (hf i _ (List.getElem?_eq_getElem hi')).1
  · have hnode : c.state.cleared.node = c.id := by
      rw [hc.state hopen]
      rfl
    have hoverload : c.state.cleared.overload = none := by
      rw [hc.state hopen]
      rfl
    have hinputs : List.Forall₂ (InputSlot.Related p.Means) c.state.inputs
        (Reference.state g c.id c.archetype ((List.range' 0 c.archetype.inputs.length).map f)).inputs := by
      refine List.forall₂_iff_get.mpr ⟨by simp [Reference.state, hlen], ?_⟩
      intro i hi hi'
      have hslot := List.getElem?_eq_getElem hi
      obtain ⟨pin, hpin, heq⟩ := hc.slot hopen hslot
      have hrange : i < c.archetype.inputs.length := hlen ▸ hi
      have hpin' : c.archetype.inputs[i] = pin := by
        rw [List.getElem?_eq_getElem hrange] at hpin
        exact Option.some.inj hpin
      have hvalue := (hf i _ hslot).2
      simp only [List.get_eq_getElem, Reference.state, List.getElem_mapIdx, hpin',
        List.getElem?_map, List.getElem?_range' hrange]
      rw [heq]
      exact ⟨rfl, rfl, rfl, by simpa using hvalue, rfl, rfl, rfl⟩
    have houtputs : List.Forall₂ (OutputSlot.Related p.Means) c.state.outputs
        (Reference.state g c.id c.archetype ((List.range' 0 c.archetype.inputs.length).map f)).outputs := by
      rw [hc.outputs hopen]
      refine List.forall₂_iff_get.mpr ⟨by simp [Reference.state, Archetype.freshState], ?_⟩
      intro i hi hi'
      simp only [List.get_eq_getElem, Reference.state, Archetype.freshState, List.getElem_mapIdx,
        List.getElem_map]
      exact ⟨rfl, rfl, rfl, ⟨rfl, means_blank h.proper⟩⟩
    exact ⟨hnode, hinputs, houtputs, hoverload, hopen⟩

/-- What a completed node does stands for what it does when evaluated from scratch. -/
theorem Mirrors.outcome (h : p.Mirrors g) {c : Cell} (hc : c.Prepared g)
    (hid : c.id ≤ NodeId.greatest) (hopen : c.state.evaluated = false)
    (hfilled : p.Filled g c c.state.inputs.length) {depth : Nat} (hdepth : p.stats.nodes ≤ depth) :
    ∃ o, Reference.outcome? g .builtin p.stage (depth + 1) c.id = some o ∧
      (c.outcome p.stage).Related p.Means p.Means p.Means o := by
  obtain ⟨values, hvalues, hstate⟩ := h.state hc hid hopen hfilled hdepth
  obtain ⟨e, he, harchetype, hkind, -⟩ := hc.node
  let scratch : Cell :=
    { id := c.id, archetype := c.archetype, kind := e.kind,
      state := Reference.state g c.id c.archetype values }
  refine ⟨scratch.outcome p.stage, ?_, ?_⟩
  · simp only [Reference.outcome?, he, harchetype, hvalues, Option.map_some, scratch]
  · exact Cell.outcome_related (d := scratch) (respects_means h.proper hc) rfl hkind.symm hstate
      p.stage

/-- Before its outputs are bound, a completed node has added its statements. -/
theorem inline_evaluated {c : Cell} (hc : c.Prepared g) :
    inline (p.evaluated c).body =
      { inline p.body with
        statements := inlined p.body ++
          (c.outcome p.stage).statements.map (expand (inline p.body).meanings) } :=
  inline_assigns p.body (Cell.statements_outcome hc.isTemplate p.stage).2

theorem map_expand_of_means {ss ts : List String} (h : List.Forall₂ p.Means ss ts) :
    ss.map (expand (inline p.body).meanings) = ts := by
  induction h with
  | nil => rfl
  | cons hst _ ih => rw [List.map_cons, hst.eq, ih]

/-- Completing a node keeps the invariant and adds what the node writes when evaluated from
scratch. -/
theorem Mirrors.complete (hg : g.Consistent) (hs : p.Orderly) (h : p.Mirrors g) {c : Cell}
    (hc : c.Prepared g) (hcell : p.cell? c.id = some c) (hopen : c.state.evaluated = false)
    (hfilled : p.Filled g c c.state.inputs.length) :
    (p.complete c).Mirrors g ∧
      ∀ depth, (p.complete c).stats.nodes ≤ depth →
        ∃ o, Reference.outcome? g .builtin p.stage depth c.id = some o ∧
          inlined (p.complete c).body = inlined p.body ++ o.statements ∧
          (c.kind.root? = none → o.statements = []) := by
  have hid := hs.ids _ c hcell
  have hbody := inline_evaluated (p := p) hc
  obtain ⟨hnodes, hstage⟩ := stats_complete p c
  have hmeans : (p.evaluated c).Means = p.Means := by
    rw [Means, hbody]
    rfl
  have hproper : (p.evaluated c).Proper := by
    rw [Proper, hbody]
    exact h.proper
  have hext : (p.evaluated c).Extends (p.complete c) := by
    rw [complete_eq]
    exact extends_bindOutputs hproper c.id 0 _
  have hgrow : ∀ s t, p.Means s t → (p.complete c).Means s t :=
    fun s t hst => hext.means s t (hmeans ▸ hst)
  have houtcome : ∀ depth, (p.complete c).stats.nodes ≤ depth →
      ∃ o, Reference.outcome? g .builtin p.stage depth c.id = some o ∧
        (c.outcome p.stage).Related p.Means p.Means p.Means o := by
    intro depth hdepth
    obtain ⟨d, rfl⟩ : ∃ d, depth = d + 1 := ⟨depth - 1, by omega⟩
    exact h.outcome hc hid hopen hfilled (by omega)
  refine ⟨⟨hext.proper, ?_⟩, ?_⟩
  · intro l hl hsettled depth hdepth
    rw [hstage]
    by_cases hnode : l.source.node = c.id
    · obtain ⟨o, ho, hrel⟩ := houtcome depth hdepth
      obtain ⟨j, slot, hpin, hindex, hslot, hused⟩ :=
        exists_output_of_link (p := p) hg hc hopen hl hnode
      refine ⟨o, hnode ▸ ho, ?_⟩
      have houtputs : List.Forall₂ (OutputSlot.Related (p.evaluated c).Means)
          (p.finished c).outputs o.state.outputs := hmeans ▸ hrel.state.outputs
      have hlen := houtputs.length_eq
      have hj := (List.getElem?_eq_some_iff.mp hslot).1
      have hshort : (p.finished c).outputs.length ≤ 4 := by
        have := congrArg List.length (usage_finished (p := p) hc hopen)
        simp only [NodeState.usage, List.length_map, List.length_mapIdx] at this
        exact this ▸ hc.length_outputs
      have hnew : ∀ k, (p.evaluated c).memo.lookup (.output c.id k) = none := by
        intro k
        by_contra hsome
        obtain ⟨v, hv⟩ := Option.ne_none_iff_exists'.mp hsome
        have hset := hs.memo _ v hv c (by rw [Pin.node_output k hid]; exact hcell)
        exact absurd hset (by simp [hopen])
      have hoffer := offer_bindOutputs hid (p.finished c).outputs 0 (p.evaluated c) o.state.outputs
        hproper (by simp only [Pin.greatestIndex]; omega) houtputs (fun k _ _ => hnew k) j slot _
        hslot (List.getElem?_eq_getElem (hlen ▸ hj)) hused
      rw [Nat.zero_add, ← complete_eq, ← hpin] at hoffer
      rw [Reference.offer, hindex, List.getElem?_eq_getElem (hlen ▸ hj)]
      exact hoffer
    · obtain ⟨o, ho, hrel⟩ := h.offers l hl (settled_complete hnode hsettled) depth (by omega)
      refine ⟨o, ho, ?_⟩
      rw [lookup_complete_of_ne p hid hnode]
      exact hrel.mono hgrow
  · intro depth hdepth
    obtain ⟨o, ho, hrel⟩ := houtcome depth hdepth
    refine ⟨o, ho, ?_, ?_⟩
    · rw [hext.statements, inlined, hbody]
      exact congrArg (inlined p.body ++ ·) (map_expand_of_means hrel.statements)
    · intro hroot
      have hnone := (Cell.statements_outcome hc.isTemplate p.stage).1 hroot
      exact List.forall₂_nil_left_iff.mp (hnone ▸ hrel.statements)

/-! ## From root to root -/

/-- The body stands for what the roots in `done`, evaluated from scratch, write; no other of the
roots has been evaluated. -/
structure Written (g : ShaderGraph) (stage : Stage) (roots done : List NodeId) (p : Pass) : Prop where
  sameStage : p.stage = stage
  prepared : p.Prepared g
  mirrors : p.Mirrors g
  settled : ∀ id ∈ roots, p.Settled id → id ∈ done
  body : ∀ depth, p.stats.nodes ≤ depth →
    Reference.statements? g .builtin stage depth done = some (inlined p.body)

section Roots

variable {stage : Stage} {roots done : List NodeId} {root : NodeId}

theorem Written.receive (h : Written g stage roots done p) {id : NodeId} {i : Nat} {v : Value}
    (hprep : (p.mapState id (·.receive i v)).Prepared g) :
    Written g stage roots done (p.mapState id (·.receive i v)) where
  sameStage := h.sameStage
  prepared := hprep
  mirrors := ⟨h.mirrors.proper, fun l hl hsettled => h.mirrors.offers l hl (settled_receive hsettled)⟩
  settled id hid hsettled := h.settled id hid (settled_receive hsettled)
  body := h.body

/-- Completing a node that is no root writes nothing; completing a root writes what it writes from
scratch. -/
theorem Written.complete (hg : g.Consistent) (hs : p.Orderly) (h : Written g stage roots done p)
    (hroots : ∀ (c : Cell), c.Prepared g → c.id ∈ roots → c.kind.root? ≠ none) {c : Cell}
    (hcell : p.cell? c.id = some c) (hopen : c.state.evaluated = false)
    (hfilled : p.Filled g c c.state.inputs.length) (hprep : (p.complete c).Prepared g) :
    (c.kind.root? = none → Written g stage roots done (p.complete c)) ∧
      Written g stage roots (done ++ [c.id]) (p.complete c) := by
  have hc := h.prepared _ c hcell
  obtain ⟨hnodes, hstage⟩ := stats_complete p c
  obtain ⟨hmirrors, hwrites⟩ := h.mirrors.complete hg hs hc hcell hopen hfilled
  rw [h.sameStage] at hwrites hstage
  refine ⟨fun hroot => ⟨hstage, hprep, hmirrors, ?_, ?_⟩, hstage, hprep, hmirrors, ?_, ?_⟩
  · intro id hid hsettled
    have hne : id ≠ c.id := by
      rintro rfl
      exact hroots c hc hid hroot
    exact h.settled id hid (settled_complete hne hsettled)
  · intro depth hdepth
    obtain ⟨o, -, hbody, hnone⟩ := hwrites depth hdepth
    rw [hbody, hnone hroot, List.append_nil]
    exact h.body depth (by omega)
  · intro id hid hsettled
    by_cases hne : id = c.id
    · exact List.mem_append_right _ (by simp [hne])
    · exact List.mem_append_left _ (h.settled id hid (settled_complete hne hsettled))
  · intro depth hdepth
    obtain ⟨o, ho, hbody, -⟩ := hwrites depth hdepth
    rw [hbody]
    exact Reference.statements?_append (h.body depth (by omega)) ho

/-- Evaluating the next root adds it to those that are done. -/
theorem Written.steps (hg : g.Consistent) (hs : p.Orderly) (h : Written g stage roots done p)
    (hroots : ∀ (c : Cell), c.Prepared g → c.id ∈ roots → c.kind.root? ≠ none)
    (hopen : ¬ p.Settled root) (hsteps : Steps g root p q) (hq : q.Settled root) :
    Written g stage roots (done ++ [root]) q := by
  -- the root itself is completed once, and everything else upstream of it is no root
  have hinv : (q.Settled root → Written g stage roots (done ++ [root]) q) ∧
      (¬ q.Settled root → Written g stage roots done q) := by
    refine Steps.invariant (I := fun x : Pass =>
      (x.Settled root → Written g stage roots (done ++ [root]) x) ∧
        (¬ x.Settled root → Written g stage roots done x)) ?_ hs
      ⟨fun hset => absurd hset hopen, fun _ => h⟩ hsteps
    intro x y hx hwritten hstep
    have hprepx : x.Prepared g := by
      by_cases hset : x.Settled root
      · exact (hwritten.1 hset).prepared
      · exact (hwritten.2 hset).prepared
    have hprep := Step.prepared hprepx hstep
    cases hstep with
    | @receive id c i hcell hopen' hready =>
        refine ⟨fun hset => (hwritten.1 (settled_receive hset)).receive hprep, fun hset => ?_⟩
        have hset' : ¬ x.Settled root := fun hx' =>
          hset (Step.settled (.receive i hcell hopen' hready : Step g root x _) hx')
        exact (hwritten.2 hset').receive hprep
    | @complete c hcell hopen' hup hfilled =>
        by_cases hid : c.id = root
        · subst hid
          have hset : ¬ x.Settled c.id := fun hx' => by
            have := hx' c hcell
            simp [hopen'] at this
          have hdone := ((hwritten.2 hset).complete hg hx hroots hcell hopen' hfilled hprep).2
          refine ⟨fun _ => hdone, fun hset' => absurd ?_ hset'⟩
          intro c' hc'
          rw [cell?_complete_self hcell] at hc'
          cases hc'
          rfl
        · have hfeeds : ∃ consumer, Feeds g consumer c.id := by
            rcases hup.cases_tail with heq | ⟨consumer, -, hfeeds⟩
            · exact absurd heq hid
            · exact ⟨consumer, hfeeds⟩
          obtain ⟨consumer, hfeeds⟩ := hfeeds
          have hroot := (hprepx _ c hcell).root?_of_feeds hg hfeeds
          refine ⟨fun hset => ?_, fun hset => ?_⟩
          · have hset' := settled_complete (Ne.symm hid) hset
            exact ((hwritten.1 hset').complete hg hx hroots hcell hopen' hfilled hprep).1 hroot
          · have hset' : ¬ x.Settled root := fun hx' =>
              hset (Step.settled (Step.complete hcell hopen' hup hfilled) hx')
            exact ((hwritten.2 hset').complete hg hx hroots hcell hopen' hfilled hprep).1 hroot
  exact hinv.1 hq

end Roots

/-! ## Runs -/

/-- The roots of a pass have cells of a kind at which the stage starts. -/
theorem exists_cell_of_mem_roots {id : NodeId} (h : id ∈ p.roots g) :
    ∃ c, p.cell? id = some c ∧ c.kind.root? = some p.stage := by
  have hroot := (List.mem_filter.mp h).2
  split at hroot
  · rename_i c hc
    exact ⟨c, hc, by simpa using hroot⟩
  · exact absurd hroot (by simp)

theorem written_start (hg : g.IsBuiltin) (stage : Stage) (o : Options) :
    Written g stage ((start g .builtin stage o : Pass).roots g) [] (start g .builtin stage o) where
  sameStage := rfl
  prepared := prepared_start hg stage o
  mirrors := by
    refine ⟨fun w e he => absurd he (by simp [start, inline]), ?_⟩
    intro l hl hsettled
    -- every node of a link has a cell, and no cell is evaluated at the start
    obtain ⟨-, -, n, hn, hid, -⟩ := hg.reachable.consistent.sources l hl
    obtain ⟨c, hc⟩ := exists_cell_start (C := String) hg.isOver hn stage o
    exact absurd (hsettled c (hid ▸ hc)) (by simp [evaluated_start hc])
  settled id hid hsettled := by
    obtain ⟨c, hc, -⟩ := exists_cell_of_mem_roots hid
    exact absurd (hsettled c hc) (by simp [evaluated_start hc])
  body _ _ := rfl

/-- The body of a finished pass stands for what the reference writes. -/
theorem body_eq_of_run (hg : g.IsBuiltin) {stage : Stage} {o : Options}
    (h : (start g .builtin stage o : Pass).run g = (.ok (), p)) {depth : Nat}
    (hdepth : p.stats.nodes ≤ depth) :
    Reference.body? g .builtin stage depth = some (inlined p.body) := by
  have hroots : ∀ c : Cell, c.Prepared g → c.id ∈ (start g .builtin stage o : Pass).roots g →
      c.kind.root? ≠ none := by
    intro c hc hid
    obtain ⟨d, hd, hroot⟩ := exists_cell_of_mem_roots hid
    rw [(hc.same_node (prepared_start hg stage o _ d hd) (id_of_cell? hd).symm).2, hroot]
    simp
  have hdistinct : ((start g .builtin stage o : Pass).roots g).Nodup :=
    hg.reachable.consistent.distinct.filter _
  obtain ⟨m, hm, rfl⟩ := run_induction
    (J := Written g stage ((start g .builtin stage o : Pass).roots g))
    (fun done root rest p' q hall hs hp hsteps hsettled => by
      have hnew : root ∉ done := by
        have := hall ▸ hdistinct
        intro hmem
        exact (List.nodup_append.mp this).2.2 root hmem root (by simp) rfl
      have hmem : root ∈ (start g .builtin stage o : Pass).roots g := hall ▸ by simp
      exact hp.steps hg.reachable.consistent hs hroots (fun hset => hnew (hp.settled root hmem hset))
        hsteps hsettled)
    (orderly_start hg stage o) (written_start hg stage o) h
  exact hm.body depth hdepth

/-- Keeping values and naming them does not change the program. Whatever the options, the body of a
finished pass with its variables put back is what evaluation from scratch writes for the roots, one
after the other; so it is the same for all options. -/
theorem inlined_body_eq_reference (hg : g.IsBuiltin) (stage : Stage) (o : Options)
    (h : (start g .builtin stage o : Pass).run g = (.ok (), p)) :
    (∀ depth, p.stats.nodes ≤ depth →
      Reference.body? g .builtin stage depth = some (inlined p.body)) ∧
    ∀ (o' : Options) (p' : Pass), (start g .builtin stage o' : Pass).run g = (.ok (), p') →
      inlined p'.body = inlined p.body := by
  refine ⟨fun depth => body_eq_of_run hg h, fun o' p' h' => ?_⟩
  have hfirst := body_eq_of_run hg h (Nat.le_max_left p.stats.nodes p'.stats.nodes)
  have hsecond := body_eq_of_run hg h' (Nat.le_max_right p.stats.nodes p'.stats.nodes)
  rw [hfirst] at hsecond
  exact (Option.some.inj hsecond).symm

theorem inlined_body_tinted :
    ∃ p : Pass, (start .tinted .builtin .fragment {} : Pass).run .tinted = (.ok (), p) ∧
      p.stats.hoisted = 4 ∧
      Reference.body? .tinted .builtin .fragment 7 = some (inlined p.body) := by
  obtain ⟨p, hrun, -, -, hnodes, hhoisted⟩ := exists_run_tinted
  refine ⟨p, hrun, hhoisted, ?_⟩
  exact (inlined_body_eq_reference Graph.isBuiltin_tinted .fragment {} hrun).1 7 (Nat.le_of_eq hnodes)

end Pass

end NodeShader
