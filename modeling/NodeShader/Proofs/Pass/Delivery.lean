import NodeShader.Proofs.Node.Supplied
import NodeShader.Proofs.Pass.Demand

/-!
# No link is lost in silence

What reaches an input without a value is replaced by a default, and the code that is written does not
tell. In a pass that found nothing wrong this never happens to a linked input, as long as the nodes
that need all their inputs linked have them linked: what the producer offers is a value, it converts
to the type of the slot, and the slot holds the converted value (`delivers_of_clean_run`).

The argument follows the steps of the pass (`Delivers.step`). A node that is completed finds a value
at every linked input, because its producers have left one at every output that is used; and when
nothing is wrong with it, it leaves a value at each of its own outputs. That it found nothing wrong
so far is known of a pass that found nothing wrong at its end, since what was evaluated stays as it
is (`Step.tidy`).
-/

namespace NodeShader

variable {C : Type} [Code C]

/-! ## One node -/

namespace Cell.Prepared

variable {g : ShaderGraph} {c : Cell C}

theorem supplies (h : c.Prepared g) {signature : List Ty × List Ty}
    (hsig : signature ∈ c.archetype.signatures) : c.kind.supplies c.archetype signature = true := by
  obtain ⟨e, he, hshape, hvar⟩ := h.entry
  have hsupplies := (Catalogue.supplies_of_mem e he).2 signature (hshape.signatures ▸ hsig)
  rw [hvar.supplies, ← hsupplies]
  unfold Kind.supplies Archetype.fillsAll
  simp only [hshape.inputs, hshape.overloads]

theorem link_eq (h : c.Prepared g) (hopen : c.state.evaluated = false) {i : Nat}
    {slot : InputSlot C} (hslot : c.state.inputs[i]? = some slot) :
    slot.link = g.linkInto? (.input c.id i) := by
  obtain ⟨pin, -, heq⟩ := h.slot hopen hslot
  rw [heq]

/-- Only nodes with inputs have signatures to choose from. -/
theorem inputs_ne_nil (h : c.Prepared g) (hsome : c.archetype.overloads ≠ []) :
    c.archetype.inputs ≠ [] := by
  obtain ⟨e, he, hshape, -⟩ := h.entry
  rw [hshape.overloads] at hsome
  rw [hshape.inputs]
  exact (Catalogue.supplies_of_mem e he).1.resolve_left hsome

/-- The signatures have the pins of the state. -/
theorem shape (h : c.Prepared g) (hopen : c.state.evaluated = false) :
    ∀ o ∈ c.archetype.overloads, o.inputs.length = c.state.inputs.length ∧
      o.outputs.length = c.state.outputs.length := by
  intro o ho
  have hlaid := h.laid hopen
  have hregular := List.all_eq_true.mp h.isRegular o ho
  simp only [Bool.and_eq_true, decide_eq_true_eq] at hregular
  rw [hlaid.inputs.length_eq, hlaid.outputs.length_eq]
  exact hregular.1

/-- A node that is clean after its evaluation has resolved: a node that no signature fits has a
problem on its first input. -/
theorem exists_resolved (h : c.Prepared g) (hopen : c.state.evaluated = false) {stage : Stage}
    (hclean : (c.outcome stage).state.IsClean) :
    ∃ s, c.state.resolve c.archetype c.kind = (true, s) ∧ c.outcome stage = c.kind.evaluate stage s := by
  cases hs : c.state.resolve c.archetype c.kind with
  | mk ok s =>
      cases ok with
      | true => exact ⟨s, rfl, by simp only [Cell.outcome, hs]⟩
      | false =>
          have houtcome : (c.outcome stage).state = s := by simp only [Cell.outcome, hs]
          obtain ⟨hsome, hreject⟩ := NodeState.eq_rejectAll_of_resolve hs
          have hlength : 0 < c.state.inputs.length := by
            rw [h.length_inputs_eq hopen]
            exact List.length_pos_iff.mpr (h.inputs_ne_nil hsome)
          have hfirst := (NodeState.refuses_rejectAll c.state).input 0 _
            (List.getElem?_eq_getElem hlength)
          rw [← hreject, ← houtcome] at hfirst
          have hproblem := hclean _ (List.mem_of_getElem? hfirst)
          exact absurd hproblem (by simp [Resolve.noOverloadProblem])

/-- A clean node whose linked inputs have values keeps them, converted to the types of the slots, and
has a value at every output. -/
theorem delivers (h : c.Prepared g) (hopen : c.state.evaluated = false) {stage : Stage}
    (hproper : ∀ slot ∈ c.state.inputs, slot.value.isValid = true → slot.value.ty ∈ properTypes)
    (hfed : c.state.IsFed)
    (hfull : c.kind.needsLinks = true → ∀ slot ∈ c.state.inputs, slot.isLinked = true)
    (hclean : (c.outcome stage).state.IsClean) :
    (c.outcome stage).state.OutputsValid ∧
      ∀ (i : Nat) (slot : InputSlot C), c.state.inputs[i]? = some slot →
        slot.value.isValid = true → ∃ slot', (c.outcome stage).state.inputs[i]? = some slot' ∧
          slot'.link = slot.link ∧ slot.value.ty.converts slot'.ty = true ∧
          slot'.value = slot.value.convert slot'.ty := by
  obtain ⟨s, hs, houtcome⟩ := h.exists_resolved hopen hclean
  rw [houtcome] at hclean ⊢
  have hclean' : s.IsClean := hclean.of_evaluate h.isTemplate
  have hkept : ∀ (i : Nat) (slot : InputSlot C), c.state.inputs[i]? = some slot →
      slot.value.isValid = true → ∃ slot', s.inputs[i]? = some slot' ∧ slot'.link = slot.link ∧
        slot.value.ty.converts slot'.ty = true ∧ slot'.value = slot.value.convert slot'.ty :=
    fun i slot hslot hvalid => NodeState.delivered_of_resolve (h.shape hopen) hs hclean' hslot hvalid
  obtain ⟨signature, hsig, hresolved, hlinks⟩ := (h.laid hopen).resolve judges_proper h.isRegular
    (fun slot hslot hvalid => hproper slot hslot hvalid) hs
  -- a slot is linked after resolving when it was before
  have hlinked : ∀ slot' ∈ s.inputs, ∃ (i : Nat) (slot : InputSlot C), s.inputs[i]? = some slot' ∧
      c.state.inputs[i]? = some slot ∧ slot.isLinked = slot'.isLinked := by
    intro slot' hslot'
    obtain ⟨i, hi⟩ := List.mem_iff_getElem?.mp hslot'
    have hlink := congrArg (fun ls => ls[i]?) (c.state.links_resolve c.archetype c.kind)
    simp only [hs, NodeState.links, List.getElem?_map, hi, Option.map_some] at hlink
    obtain ⟨slot, hslot, heq⟩ := Option.map_eq_some_iff.mp hlink.symm
    exact ⟨i, slot, hi, hslot, by rw [InputSlot.isLinked, InputSlot.isLinked, heq]⟩
  refine ⟨?_, fun i slot hslot hvalid => ?_⟩
  · refine Kind.outputsValid_evaluate (h.supplies hsig) hresolved hlinks ?_ ?_ stage hclean
    · intro slot' hslot' hlink
      obtain ⟨i, slot, hi, hslot, hsame⟩ := hlinked slot' hslot'
      have hvalid := hfed slot (List.mem_of_getElem? hslot) (hsame.trans hlink)
      obtain ⟨slot'', hi', -, hconverts, hvalue⟩ := hkept i slot hslot hvalid
      rw [hi, Option.some.injEq] at hi'
      rw [hi', hvalue]
      exact Value.isValid_convert hvalid hconverts
    · intro hneeds slot' hslot'
      obtain ⟨i, slot, -, hslot, hsame⟩ := hlinked slot' hslot'
      exact hsame.symm.trans (hfull hneeds slot (List.mem_of_getElem? hslot))
  · obtain ⟨slot', hslot', hlink, hconverts, hvalue⟩ := hkept i slot hslot hvalid
    obtain ⟨problem, hevaluated⟩ := NodeState.getElem?_evaluate (k := c.kind) stage hslot'
    exact ⟨_, hevaluated, hlink, hconverts, hvalue⟩

end Cell.Prepared

namespace Pass

variable {g : ShaderGraph} {root : NodeId} {p q : Pass C}

/-! ## What the memo holds -/

/-- Values that are kept have types of the shading language. -/
def ProperMemo (p : Pass C) : Prop := ∀ out v, p.memo.lookup out = some v → v.ty ∈ properTypes

/-- An output that is used and has a value is offered with the type it has. -/
theorem lookup_bind (p : Pass C) (pin : Pin) {o : OutputSlot C} (hused : o.fanOut ≠ 0)
    (hvalid : o.value.isValid = true) :
    ∃ v, (p.bind pin o).memo.lookup pin = some v ∧ v.ty = o.value.ty := by
  rcases p.bind_cases pin o with ⟨hnone, -⟩ | ⟨-, ⟨-, h⟩ | ⟨-, h⟩⟩
  · rcases hnone with hzero | hnull
    · exact absurd hzero hused
    · exact absurd hvalid (by simp [hnull])
  · exact ⟨o.value, by simp [h, remember], rfl⟩
  · exact ⟨⟨o.value.ty, Code.verbatim (varName p.nextVar)⟩, by simp [h, hoist], rfl⟩

theorem lookup_bindOutputs {id : NodeId} (hid : id ≤ NodeId.greatest) (os : List (OutputSlot C)) :
    ∀ (i : Nat) (p : Pass C), i + os.length ≤ Pin.greatestIndex + 1 →
      ∀ (j : Nat) (o : OutputSlot C), os[j]? = some o → o.fanOut ≠ 0 → o.value.isValid = true →
        ∃ v, (bindOutputs id i os p).memo.lookup (.output id (i + j)) = some v ∧
          v.ty = o.value.ty := by
  induction os with
  | nil => intro i p _ j o ho; exact absurd ho (by simp)
  | cons first rest ih =>
      intro i p hlength j o ho hused hvalid
      rw [List.length_cons] at hlength
      cases j with
      | zero =>
          cases ho
          obtain ⟨v, hv, hty⟩ := lookup_bind p (.output id i) hused hvalid
          refine ⟨v, ?_, hty⟩
          rw [bindOutputs, Nat.add_zero,
            lookup_bindOutputs_of_lt hid (i + 1) (by omega) rest (by omega)]
          exact hv
      | succ j =>
          obtain ⟨v, hv, hty⟩ := ih (i + 1) (p.bind (.output id i) first) (by omega) j o ho hused hvalid
          rw [show i + 1 + j = i + (j + 1) by omega] at hv
          exact ⟨v, hv, hty⟩

/-- What is kept when an output is bound is what was kept before or the value of the output. -/
theorem ProperMemo.bind (h : p.ProperMemo) (pin : Pin) {o : OutputSlot C}
    (ho : o.value.isValid = true → o.value.ty ∈ properTypes) : (p.bind pin o).ProperMemo := by
  intro out v hv
  by_cases hout : out = pin
  · subst hout
    rcases p.bind_cases out o with ⟨-, hbind⟩ | ⟨hvalid, ⟨-, hbind⟩ | ⟨-, hbind⟩⟩ <;>
      rw [hbind] at hv
    · exact h out v hv
    · simp only [remember, List.lookup_cons, beq_self_eq_true, Option.some.injEq] at hv
      exact hv ▸ ho hvalid
    · simp only [hoist, List.lookup_cons, beq_self_eq_true, Option.some.injEq] at hv
      exact hv ▸ ho hvalid
  · rw [lookup_bind_of_ne p o hout] at hv
    exact h out v hv

/-- What has reached a node is of a type of the shading language. -/
theorem ProperMemo.inputs (h : p.ProperMemo) {c : Cell C}
    (hfilled : p.Filled g c c.state.inputs.length) :
    ∀ slot ∈ c.state.inputs, slot.value.isValid = true → slot.value.ty ∈ properTypes := by
  intro slot hslot hvalid
  rcases hfilled.value hslot with hnull | ⟨out, hout⟩
  · exact absurd hvalid (by rw [hnull, Value.isValid_null]; simp)
  · exact h out _ hout

theorem ProperMemo.step (hp : p.Prepared g) (h : p.ProperMemo) (hstep : Step g root p q) :
    q.ProperMemo := by
  cases hstep with
  | receive i hcell hopen hready => exact h
  | @complete c hcell hopen hup hfilled =>
      have htyped := ((hp _ c hcell).outcome_typed hopen judges_proper (combines_proper _)
        (fun slot hslot hvalid => h.inputs hfilled slot hslot hvalid) (fun t ht _ _ _ => ht)
        p.stage).2.1
      rw [complete_eq]
      refine bindOutputs_invariant (I := ProperMemo) _ 0 ?_ (p.evaluated c) h
      intro j o p' ho hp'
      exact hp'.bind _ (htyped o (List.mem_of_getElem? ho))

/-! ## The invariant -/

/-- The node has been evaluated without a problem, and if it needs all its inputs linked, they are. -/
structure Tidy (g : ShaderGraph) (c : Cell C) : Prop where
  clean : c.state.IsClean
  linked : c.kind.needsLinks = true → ∀ i < c.archetype.inputs.length,
    ∃ l, g.linkInto? (.input c.id i) = some l

/-- All that has been evaluated is tidy. -/
def IsTidy (g : ShaderGraph) (p : Pass C) : Prop :=
  ∀ id c, p.cell? id = some c → c.state.evaluated = true → Tidy g c

/-- What was evaluated stays as it is. -/
theorem Step.tidy (h : Step g root p q) (hq : q.IsTidy g) : p.IsTidy g := by
  intro id c hc hdone
  rcases h.cell? id with heq | ⟨c', s, hc', hopen, -, -⟩
  · exact hq id c (heq.trans hc) hdone
  · rw [hc, Option.some.injEq] at hc'
    rw [← hc', hdone] at hopen
    exact absurd hopen (by simp)

/-- The producer offers a value at the source of the link, and the slot at its target holds it as a
value of its own type. -/
def Arrives (p : Pass C) (l : Link) (c : Cell C) : Prop :=
  ∃ slot v, c.state.inputs[l.target.index.toNat]? = some slot ∧ slot.link = some l ∧
    p.memo.lookup l.source = some v ∧ v.isValid = true ∧ v.ty.converts slot.ty = true ∧
    slot.value = v.convert slot.ty

/-- Links into evaluated nodes have arrived, and evaluated nodes offer a value at every output from
which a link leads. -/
structure Delivers (g : ShaderGraph) (p : Pass C) : Prop where
  arrives : ∀ l ∈ g.links, ∀ c, p.cell? l.target.node = some c → c.state.evaluated = true →
    p.Arrives l c
  offers : ∀ l ∈ g.links, p.IsEvaluated l.source.node →
    ∃ v, p.memo.lookup l.source = some v ∧ v.isValid = true

/-- A link leads to an input that its consumer has. -/
theorem exists_slot_of_link (hg : g.Consistent) {c : Cell C} (hc : c.Prepared g)
    (hopen : c.state.evaluated = false) {l : Link} (hl : l ∈ g.links) (hnode : l.target.node = c.id) :
    ∃ slot, c.state.inputs[l.target.index.toNat]? = some slot ∧ slot.link = some l ∧
      l.target = .input c.id l.target.index.toNat := by
  obtain ⟨hdir, hindex, n, hn, hid, hcount⟩ := hg.targets l hl
  have hpin := Pin.eq_input hdir hindex
  rw [hnode] at hpin
  obtain ⟨e, he, -, -, hpins⟩ := hc.node
  have hmem := hg.indexed.expression?_eq_some_iff.mp he
  have hsame : n = ⟨c.id, .expression e⟩ := hg.eq_of_id hn hmem (hid.trans hnode)
  have hlt : l.target.index.toNat < c.state.inputs.length := by
    have hbound := hcount e.pins (by rw [hsame]; rfl)
    rw [hpins] at hbound
    simp only [PinCount.on] at hbound
    rw [hc.length_inputs_eq hopen]
    omega
  refine ⟨_, List.getElem?_eq_getElem hlt, ?_, hpin⟩
  rw [hc.link_eq hopen (List.getElem?_eq_getElem hlt)]
  exact hg.linkInto?_eq_some_iff.mpr ⟨hl, hpin⟩

/-- What the memo offers stays on offer. -/
theorem Step.lookup (hs : p.Orderly) (h : Step g root p q) {out : Pin} {v : Value C}
    (hv : p.memo.lookup out = some v) : q.memo.lookup out = some v := by
  cases h with
  | receive => exact hv
  | @complete c hcell hopen hup hfilled =>
      have hne : out.node ≠ c.id := by
        intro heq
        have hdone := hs.memo out v hv c (heq ▸ hcell)
        simp [hopen] at hdone
      rw [lookup_complete_of_ne p (hs.ids _ c hcell) hne]
      exact hv

theorem Arrives.step (hs : p.Orderly) (hstep : Step g root p q) {l : Link} {c : Cell C}
    (h : p.Arrives l c) : q.Arrives l c := by
  obtain ⟨slot, v, hslot, hlink, hv, hvalid, hconverts, hvalue⟩ := h
  exact ⟨slot, v, hslot, hlink, hstep.lookup hs hv, hvalid, hconverts, hvalue⟩

/-- The linked inputs of a node that is completed hold what their producers offer, which are values. -/
theorem Delivers.inputs (hg : g.Consistent) (hsized : p.Sized g) (h : p.Delivers g) {c : Cell C}
    (hc : c.Prepared g) (hopen : c.state.evaluated = false)
    (hfilled : p.Filled g c c.state.inputs.length) {l : Link} (hl : l ∈ g.links)
    (hnode : l.target.node = c.id) :
    ∃ slot, c.state.inputs[l.target.index.toNat]? = some slot ∧ slot.link = some l ∧
      p.memo.lookup l.source = some slot.value ∧ slot.value.isValid = true := by
  obtain ⟨slot, hslot, hlink, hpin⟩ := exists_slot_of_link hg hc hopen hl hnode
  refine ⟨slot, hslot, hlink, ?_⟩
  obtain ⟨hready, hvalue⟩ := hfilled _ slot (List.getElem?_eq_some_iff.mp hslot).1 hslot
  have hsupplier : supplier? g (.input c.id l.target.index.toNat) = some l.source :=
    supplier?_of_linkInto? (hg.linkInto?_eq_some_iff.mpr ⟨hl, hpin⟩)
  have hproducer : p.IsEvaluated l.source.node := by
    obtain ⟨-, -, n, hn, hid, -⟩ := hg.sources l hl
    obtain ⟨d, hd⟩ := hsized.cells n hn
    rw [hid] at hd
    exact ⟨d, hd, hready l.source hsupplier d hd, trivial⟩
  obtain ⟨v, hv, hvalid⟩ := h.offers l hl hproducer
  have hsame : slot.value = v := by
    rw [hvalue, supply, hsupplier]
    simp only [hv, Option.getD_some]
  rw [hsame]
  exact ⟨hv, hvalid⟩

/-- Every linked input of a node that is completed has a value. -/
theorem Delivers.isFed (hg : g.Consistent) (hs : p.Orderly) (hsized : p.Sized g) (h : p.Delivers g)
    {c : Cell C} (hc : c.Prepared g) (hcell : p.cell? c.id = some c)
    (hopen : c.state.evaluated = false) (hfilled : p.Filled g c c.state.inputs.length) :
    c.state.IsFed := by
  intro slot hslot hlinked
  obtain ⟨i, hi⟩ := List.mem_iff_getElem?.mp hslot
  have hid := hs.ids _ c hcell
  have hindex : i ≤ Pin.greatestIndex := by
    have hshort := hc.length_inputs hopen
    have hlt := (List.getElem?_eq_some_iff.mp hi).1
    simp only [Pin.greatestIndex]
    omega
  obtain ⟨l, hl⟩ := Option.isSome_iff_exists.mp hlinked
  obtain ⟨hmem, htarget⟩ := hg.linkInto?_eq_some_iff.mp ((hc.link_eq hopen hi).symm.trans hl)
  obtain ⟨slot', hslot', -, -, hvalid⟩ :=
    h.inputs hg hsized hc hopen hfilled hmem (htarget ▸ Pin.node_input i hid)
  have hsame : l.target.index.toNat = i := by
    rw [htarget, Pin.input, Pin.index_pack .input hid hindex]
    rfl
  rw [hsame, hi, Option.some.injEq] at hslot'
  exact hslot' ▸ hvalid

/-- A node with values at its outputs offers one at the source of every link that comes from it. -/
theorem exists_offer_complete (hg : g.Consistent) {c : Cell C} (hc : c.Prepared g)
    (hid : c.id ≤ NodeId.greatest) (hopen : c.state.evaluated = false)
    (hvalid : (p.finished c).OutputsValid) {l : Link} (hl : l ∈ g.links)
    (hnode : l.source.node = c.id) :
    ∃ v, (p.complete c).memo.lookup l.source = some v ∧ v.isValid = true := by
  obtain ⟨j, o, hpin, -, ho, hused⟩ := exists_output_of_link (p := p) hg hc hopen hl hnode
  have hshort : (p.finished c).outputs.length ≤ Pin.greatestIndex + 1 := by
    have husage := congrArg List.length (usage_finished (p := p) hc hopen)
    simp only [NodeState.usage, List.length_map, List.length_mapIdx] at husage
    have hpins := hc.length_outputs
    simp only [Pin.greatestIndex]
    omega
  have hovalid : o.value.isValid = true := hvalid o (List.mem_of_getElem? ho)
  obtain ⟨v, hv, hty⟩ := lookup_bindOutputs hid (p.finished c).outputs 0 (p.evaluated c)
    (by omega) j o ho hused hovalid
  rw [Nat.zero_add, ← complete_eq, ← hpin] at hv
  exact ⟨v, hv, by rw [Value.isValid, hty]; exact hovalid⟩

/-- A tidy node that is completed has received what its links carry and has values to offer. -/
theorem Delivers.complete (hg : g.Consistent) (hs : p.Orderly) (hsized : p.Sized g)
    (hmemo : p.ProperMemo) (h : p.Delivers g) {c : Cell C} (hc : c.Prepared g)
    (hcell : p.cell? c.id = some c) (hopen : c.state.evaluated = false)
    (hup : Upstream g root c.id) (hfilled : p.Filled g c c.state.inputs.length)
    (htidy : Tidy g { c with state := p.finished c }) : (p.complete c).Delivers g := by
  have hstep : Step g root p (p.complete c) := .complete hcell hopen hup hfilled
  have hfed := h.isFed hg hs hsized hc hcell hopen hfilled
  have hfull : c.kind.needsLinks = true → ∀ slot ∈ c.state.inputs, slot.isLinked = true := by
    intro hneeds slot hslot
    obtain ⟨i, hi⟩ := List.mem_iff_getElem?.mp hslot
    have hlt := (List.getElem?_eq_some_iff.mp hi).1
    rw [hc.length_inputs_eq hopen] at hlt
    obtain ⟨l, hl⟩ := htidy.linked hneeds i hlt
    rw [InputSlot.isLinked, hc.link_eq hopen hi]
    exact Option.isSome_iff_exists.mpr ⟨l, hl⟩
  obtain ⟨hvalid, hkept⟩ := hc.delivers hopen (hmemo.inputs hfilled) hfed hfull htidy.clean
  constructor
  · intro l hl d hd hdone
    rcases cell_of_complete hcell hd with ⟨hnode, rfl⟩ | hold
    · obtain ⟨slot, hslot, hslotLink, hv, hvalue⟩ := h.inputs hg hsized hc hopen hfilled hl hnode
      obtain ⟨slot', hslot', hlink', hconverts, hconverted⟩ := hkept _ slot hslot hvalue
      exact ⟨slot', slot.value, hslot', hlink'.trans hslotLink, hstep.lookup hs hv, hvalue, hconverts,
        hconverted⟩
    · exact (h.arrives l hl d hold hdone).step hs hstep
  · intro l hl hproducer
    by_cases hnode : l.source.node = c.id
    · exact exists_offer_complete hg hc (hs.ids _ c hcell) hopen hvalid hl hnode
    · have hbefore : p.IsEvaluated l.source.node := by
        obtain ⟨d, hd, hdone, -⟩ := hproducer
        rcases cell_of_complete hcell hd with ⟨heq, -⟩ | hold
        · exact absurd heq hnode
        · exact ⟨d, hold, hdone, trivial⟩
      obtain ⟨v, hv, hvalid⟩ := h.offers l hl hbefore
      exact ⟨v, hstep.lookup hs hv, hvalid⟩

theorem Delivers.step (hg : g.Consistent) (hs : p.Orderly) (hp : p.Prepared g) (hsized : p.Sized g)
    (hmemo : p.ProperMemo) (h : p.Delivers g) (hstep : Step g root p q) (hq : q.IsTidy g) :
    q.Delivers g := by
  cases hstep with
  | @receive id c i hcell hopen hready =>
      -- the node that receives a value is not evaluated, and nothing else changes
      have hbefore : ∀ j d, (p.mapState id (·.receive i (p.supply g (.input id i)))).cell? j = some d →
          d.state.evaluated = true → p.cell? j = some d := by
        intro j d hd hdone
        by_cases hj : j = id
        · subst hj
          rw [cell?_mapState_self hcell] at hd
          cases hd
          exact absurd hdone (by simp [NodeState.receive, NodeState.mapInput, hopen])
        · rwa [cell?_mapState_ne hj] at hd
      refine ⟨fun l hl d hd hdone => h.arrives l hl d (hbefore _ d hd hdone) hdone, ?_⟩
      rintro l hl ⟨d, hd, hdone, -⟩
      exact h.offers l hl ⟨d, hbefore _ d hd hdone, hdone, trivial⟩
  | @complete c hcell hopen hup hfilled =>
      have htidy := hq c.id _ (cell?_complete_self hcell) rfl
      exact h.complete hg hs hsized hmemo (hp _ c hcell) hcell hopen hup hfilled htidy

/-! ## Runs -/

theorem delivers_start (g : ShaderGraph) (r : Registry) (stage : Stage) (o : Options) :
    (start g r stage o : Pass C).Delivers g where
  arrives l hl c hc hdone := absurd hdone (by simp [evaluated_start hc])
  offers l hl hproducer := by
    obtain ⟨c, hc, hdone, -⟩ := hproducer
    exact absurd hdone (by simp [evaluated_start hc])

theorem delivers_of_run (hg : g.IsBuiltin) {stage : Stage} {o : Options}
    (h : (start g .builtin stage o : Pass C).run g = (.ok (), p)) :
    p.Orderly ∧ p.Prepared g ∧ (p.IsTidy g → p.Delivers g) := by
  have hg' := hg.reachable.consistent
  obtain ⟨m, ⟨hs, hp, -, -, hm⟩, rfl⟩ := run_invariant
    (I := fun q : Pass C => q.Orderly ∧ q.Prepared g ∧ q.Sized g ∧ q.ProperMemo ∧
      (q.IsTidy g → q.Delivers g))
    (fun root p q hs ⟨_, hp, hsized, hmemo, hdelivers⟩ hstep =>
      ⟨hstep.orderly hs, hstep.prepared hp, hsized.step hstep, hmemo.step hp hstep,
        fun hq => (hdelivers (hstep.tidy hq)).step hg' hs hp hsized hmemo hstep hq⟩)
    (orderly_start hg stage o)
    ⟨orderly_start hg stage o, prepared_start hg stage o, (accounted_start hg.isOver []).sized,
      fun out v hv => absurd hv (by simp [start]), fun _ => delivers_start g .builtin stage o⟩ h
  exact ⟨⟨hs.ids, hs.inputs, hs.memo⟩, hp, fun htidy => ⟨(hm htidy).arrives, (hm htidy).offers⟩⟩

/-- A pass without diagnostics has found nothing wrong with the nodes it has evaluated. -/
theorem isClean_of_diagnostics (hg : g.Consistent) {p : Pass} (hp : p.Prepared g)
    (h : p.diagnostics g = []) {id : NodeId} {c : Cell} (hc : p.cell? id = some c)
    (hdone : c.state.evaluated = true) : c.state.IsClean := by
  obtain ⟨e, he, -⟩ := (hp id c hc).node
  rw [id_of_cell? hc] at he
  have hmem : id ∈ g.nodes.map Numbered.id :=
    List.mem_map.mpr ⟨_, hg.indexed.expression?_eq_some_iff.mp he, rfl⟩
  have hnone := List.flatMap_eq_nil_iff.mp h id hmem
  simp only [state?, hc, Option.map_some, hdone, if_true] at hnone
  exact NodeState.isClean_of_errors hnone

/-- No link is lost in silence. Where a pass has no diagnostics and every evaluated node that appends
or passes on has all its inputs linked, each link into an evaluated node delivers: asking for the pin
gives a value, it converts to the type that the slot was resolved to, and the slot holds the
converted value. -/
theorem delivers_of_clean_run (hg : g.IsBuiltin) (stage : Stage) (o : Options) {p : Pass}
    (hrun : (start g .builtin stage o : Pass).run g = (.ok (), p))
    (hclean : (p.compiled g).diagnostics = [])
    (hlinked : ∀ id e, p.IsEvaluated id → g.expression? id = some e →
      e.kind = .append ∨ e.kind = .bridge →
      ∀ i < e.pins.inputs, ∃ l, g.linkInto? (.input id i) = some l) :
    ∀ l ∈ g.links, p.IsEvaluated l.target.node →
      ∃ c slot v, p.cell? l.target.node = some c ∧
        c.state.inputs[l.target.index.toNat]? = some slot ∧ slot.link = some l ∧
        evaluate g l.target p = (.ok v, p) ∧ v.isValid = true ∧ v.ty.converts slot.ty = true ∧
        slot.value = v.convert slot.ty := by
  have hg' := hg.reachable.consistent
  obtain ⟨hs, hp, hdelivers⟩ := delivers_of_run hg hrun
  have htidy : p.IsTidy g := by
    intro id c hc hdone
    refine ⟨isClean_of_diagnostics hg' hp hclean hc hdone, fun hneeds i hi => ?_⟩
    obtain ⟨e, he, -, hkind, hpins⟩ := (hp id c hc).node
    have hid := id_of_cell? hc
    refine hlinked c.id e (hid ▸ ⟨c, hc, hdone, trivial⟩) he ?_ i (by rw [hpins]; exact hi)
    rw [hkind]
    cases hk : c.kind <;> simp [Kind.needsLinks, hk] at hneeds ⊢
  rintro l hl ⟨c, hc, hdone, -⟩
  obtain ⟨slot, v, hslot, hlink, hv, hvalid, hconverts, hvalue⟩ :=
    (hdelivers htidy).arrives l hl c hc hdone
  refine ⟨c, slot, v, hc, hslot, hlink, ?_, hvalid, hconverts, hvalue⟩
  have hsupplier : supplier? g l.target = some l.source :=
    supplier?_of_linkInto? (hg'.linkInto?_eq_some_iff.mpr ⟨hl, rfl⟩)
  rw [evaluate_of_ready hs hsupplier (hs.memo l.source v hv), supply, hsupplier]
  simp only [hv, Option.getD_some]

theorem delivers_joined : ∃ p : Pass,
    (start .joined .builtin .fragment {} : Pass).run .joined = (.ok (), p) ∧
    (p.compiled .joined).diagnostics = [] ∧
    ∃ c slot v, p.cell? 6 = some c ∧ c.state.inputs[0]? = some slot ∧
      evaluate .joined (.input 6 0) p = (.ok v, p) ∧ v.isValid = true ∧
      slot.value = v.convert slot.ty := by
  have hrun : ((start .joined .builtin .fragment {} : Pass).run .joined).1 = .ok () ∧
      (((start .joined .builtin .fragment {} : Pass).run .joined).2.compiled .joined).diagnostics = [] ∧
      ((((start .joined .builtin .fragment {} : Pass).run .joined).2.cell? 6).any
        (·.state.evaluated)) = true := by
    decide +kernel
  have hlinked : ∀ n ∈ Graph.joined.nodes, (n.node.expression?.all fun e => !e.kind.needsLinks ||
      (List.range e.pins.inputs).all fun i =>
        (Graph.joined.linkInto? (.input n.id i)).isSome) = true := by
    decide +kernel
  have hlast : Link.between (.output 5 0) (.input 6 0) ∈ Graph.joined.links ∧
      (Link.between (.output 5 0) (.input 6 0)).target = .input 6 0 ∧
      (Pin.input 6 0).node = 6 ∧ (Pin.input 6 0).index.toNat = 0 := by
    decide +kernel
  obtain ⟨hok, hclean, hdone⟩ := hrun
  obtain ⟨hmem, htarget, hnode, hindex⟩ := hlast
  obtain ⟨c, hc, hdone⟩ := (Option.any_eq_true _ _).mp hdone
  refine ⟨_, run_eq_ok hok, hclean, ?_⟩
  have hdelivered := delivers_of_clean_run Graph.isBuiltin_joined .fragment {} (run_eq_ok hok) hclean
    (fun id e _ he hkind i hi => by
      have hnodes := Graph.isBuiltin_joined.reachable.consistent.indexed.expression?_eq_some_iff.mp he
      have hneeds : e.kind.needsLinks = true := by
        rcases hkind with hk | hk <;> rw [hk] <;> rfl
      have hall := hlinked _ hnodes
      simp only [Node.expression?, Option.all_some, hneeds, Bool.not_true, Bool.false_or,
        List.all_eq_true, List.mem_range] at hall
      exact Option.isSome_iff_exists.mp (hall i hi))
    _ hmem (by rw [htarget, hnode]; exact ⟨c, hc, hdone, trivial⟩)
  rw [htarget, hnode, hindex] at hdelivered
  obtain ⟨c, slot, v, hc, hslot, -, hv, hvalid, -, hvalue⟩ := hdelivered
  exact ⟨c, slot, v, hc, hslot, hv, hvalid, hvalue⟩

end Pass

end NodeShader
