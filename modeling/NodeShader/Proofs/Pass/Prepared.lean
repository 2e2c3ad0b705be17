import NodeShader.Proofs.Node.Typed
import NodeShader.Proofs.Pass.Steps

/-!
# The cells of a pass

A pass starts with one cell for each node of the graph; over built-in nodes these are cells of
catalogue entries (`Cell.Catalogued`). Until its node is evaluated, a cell differs from the way it
started in the values of its inputs only (`Cell.Prepared`), so that what evaluating it does is a
matter of its archetype, its kind and the values it received. Nodes that feed others have outputs,
and the nodes at which a stage starts have none.
-/

namespace NodeShader

variable {C : Type} [Code C]

/-! ## What kinds of the catalogue write -/

namespace Kind

theorem Variant.root? {k k' : Kind} (h : k.Variant k') : k'.root? = k.root? := by
  cases h <;> rfl

theorem Variant.isTemplate {k k' : Kind} (h : k.Variant k') : k'.isTemplate = k.isTemplate := by
  cases h <;> rfl

theorem Variant.operators {k k' : Kind} (h : k.Variant k') : k'.operators = k.operators := by
  cases h <;> rfl

theorem Variant.heads {k k' : Kind} (h : k.Variant k') : k'.heads = k.heads := by
  cases h with
  | vector hlen => simp only [Kind.heads, hlen]
  | _ => rfl

/-- Texts and declarations of a kind change with the name of a parameter only. -/
theorem Variant.texts {k k' : Kind} (h : k.Variant k') :
    k'.texts = k.texts ∧ k'.declarations = k.declarations ∨
      ∃ old name, k = .parameter old ∧ k' = .parameter name := by
  cases h with
  | parameter a b => exact .inr ⟨a, b, rfl, rfl⟩
  | _ => exact .inl ⟨rfl, rfl⟩

/-- The variables of the pipeline that kinds mention. -/
def pipelineTexts : List String :=
  ["gl_TexCoord[0].xy", "gl_ModelViewProjectionMatrix", "gl_Vertex", "gl_TextureMatrix[0]",
    "gl_MultiTexCoord0", "gl_Color"]

/-- Declares the sampler of textures, or a float under an identifier. -/
def IsUniform (d : String) : Prop :=
  d = uniformText "sampler2D" Catalogue.textureUniform ∨
    ∃ name, d = uniformText "float" (identifier name)

end Kind

/-! ## Cells -/

namespace Cell

/-- Cells of the same archetype and kind in related states have related outcomes. -/
theorem outcome_related {D : Type} [Code D] {R S T : C → D → Prop} {c : Cell C} {d : Cell D}
    (hk : Respects c.kind R S T) (harchetype : c.archetype = d.archetype) (hkind : c.kind = d.kind)
    (h : c.state.Related R S d.state) (stage : Stage) :
    (c.outcome stage).Related R S T (d.outcome stage) := by
  obtain ⟨hok, hstate⟩ := h.resolve hk c.archetype
  unfold outcome
  rw [← harchetype, ← hkind]
  cases hc : c.state.resolve c.archetype c.kind with
  | mk ok s =>
      cases hd : d.state.resolve c.archetype c.kind with
      | mk ok' s' =>
          simp only [hc, hd] at hok hstate
          subst hok
          cases ok with
          | true => exact hstate.evaluate hk stage
          | false => exact ⟨hstate, rfl, .nil⟩

theorem usage_outcome (c : Cell C) (stage : Stage) :
    (c.outcome stage).state.usage = c.state.usage := by
  have hresolve := c.state.usage_resolve c.archetype c.kind
  unfold outcome
  split
  · rename_i s hs
    rw [hs] at hresolve
    rw [NodeState.usage_evaluate, hresolve]
  · rename_i s hs
    rw [hs] at hresolve
    exact hresolve

theorem length_inputs_outcome (c : Cell C) (stage : Stage) :
    (c.outcome stage).state.inputs.length = c.state.inputs.length := by
  have hresolve := c.state.length_inputs_resolve c.archetype c.kind
  unfold outcome
  split
  · rename_i s hs
    rw [hs] at hresolve
    rw [NodeState.length_inputs_evaluate, hresolve]
  · rename_i s hs
    rw [hs] at hresolve
    exact hresolve

theorem length_outputs_outcome (c : Cell C) (stage : Stage) :
    (c.outcome stage).state.outputs.length = c.state.outputs.length := by
  have husage := congrArg List.length (c.usage_outcome stage)
  rwa [NodeState.usage, NodeState.usage, List.length_map, List.length_map] at husage

/-- What a node writes into the body are assignments, and only roots write any. -/
theorem statements_outcome {c : Cell C} (hk : c.kind.isTemplate = false) (stage : Stage) :
    (c.kind.root? = none → (c.outcome stage).statements = []) ∧
      ∀ x ∈ (c.outcome stage).statements,
        ∃ target ∈ Kind.targets, ∃ y, x = Code.assign target y := by
  unfold outcome
  split
  · exact Kind.statements_evaluate hk stage _
  · simp

end Cell

/-- The state without the values that reached its inputs. -/
def NodeState.cleared (s : NodeState C) : NodeState C :=
  { s with inputs := s.inputs.map fun slot => { slot with value := .null } }

theorem NodeState.cleared_receive (s : NodeState C) (i : Nat) (v : Value C) :
    (s.receive i v).cleared = s.cleared := by
  have hmap : ((s.inputs.modify i fun slot => { slot with value := v }).map
      fun slot => { slot with value := (.null : Value C) }) =
        s.inputs.map fun slot => { slot with value := (.null : Value C) } := by
    apply List.ext_getElem?
    intro j
    simp only [List.getElem?_map, List.getElem?_modify]
    cases s.inputs[j]? with
    | none => rfl
    | some slot =>
        simp only [Option.map_eq_map, Option.map_some]
        split <;> rfl
  exact congrArg (fun slots : List (InputSlot C) => { s with inputs := slots }) hmap

theorem Archetype.cleared_freshState (a : Archetype) (id : NodeId) (g : ShaderGraph) :
    (a.freshState id g : NodeState C).cleared = a.freshState id g := by
  have hmap : (a.freshState id g : NodeState C).inputs.map
      (fun slot => { slot with value := (.null : Value C) }) = (a.freshState id g : NodeState C).inputs := by
    apply List.ext_getElem?
    intro i
    simp only [freshState, List.getElem?_map, List.getElem?_mapIdx]
    cases a.inputs[i]? <;> rfl
  exact congrArg (fun slots => { (a.freshState id g : NodeState C) with inputs := slots }) hmap

theorem Archetype.value_freshState {a : Archetype} {id : NodeId} {g : ShaderGraph}
    {slot : InputSlot C} (h : slot ∈ (a.freshState id g : NodeState C).inputs) :
    slot.value = .null := by
  obtain ⟨i, hi, rfl⟩ := List.mem_mapIdx.mp h
  rfl

/-- Outputs are used as the graph and the archetype say. -/
theorem Archetype.usage_freshState (a : Archetype) (id : NodeId) (g : ShaderGraph) :
    (a.freshState id g : NodeState C).usage =
      a.outputs.mapIdx fun i pin => (g.fanOut (.output id i), pin.hoist) := by
  apply List.ext_getElem?
  intro i
  simp only [NodeState.usage, freshState, List.getElem?_map, List.getElem?_mapIdx, Option.map_map]
  rfl

omit [Code C] in
/-- The cell is that of an instance of a catalogue entry. -/
def Cell.Catalogued (c : Cell C) : Prop :=
  ∃ e ∈ Catalogue.registrations, c.archetype.SameShape e.archetype ∧ e.initial.Variant c.kind

namespace Cell.Catalogued

variable {c : Cell C}

omit [Code C] in
theorem isTemplate (h : c.Catalogued) : c.kind.isTemplate = false := by
  obtain ⟨e, he, -, hvar⟩ := h
  have hall : ∀ e ∈ Catalogue.registrations, e.initial.isTemplate = false := by decide
  rw [hvar.isTemplate, hall e he]

omit [Code C] in
/-- What a node declares is the sampler of textures or a float. -/
theorem declarations (h : c.Catalogued) : ∀ d ∈ c.kind.declarations, Kind.IsUniform d := by
  obtain ⟨e, he, -, hvar⟩ := h
  have hall : ∀ e ∈ Catalogue.registrations, ∀ d ∈ e.initial.declarations,
      d = Kind.uniformText "sampler2D" Catalogue.textureUniform ∨
        d = Kind.uniformText "float" (identifier "time") ∨
        d = Kind.uniformText "float" (identifier "param") := by
    decide +kernel
  intro d hd
  rcases hvar.texts with ⟨-, hdecl⟩ | ⟨old, name, -, hname⟩
  · rw [hdecl] at hd
    rcases hall e he d hd with heq | heq | heq
    · exact .inl heq
    · exact .inr ⟨_, heq⟩
    · exact .inr ⟨_, heq⟩
  · rw [hname, Kind.declarations_parameter, List.mem_singleton] at hd
    exact .inr ⟨name, hd⟩

/-- Nodes that declare something accept whatever reaches them. -/
theorem declarations_outcome (h : c.Catalogued) (stage : Stage) :
    (c.outcome stage).declarations = c.kind.declarations := by
  have hbuiltin := h.isTemplate
  obtain ⟨e, he, hshape, hvar⟩ := h
  have hall : ∀ e ∈ Catalogue.registrations,
      e.archetype.overloads = [] ∨ e.initial.declarations = [] := by decide +kernel
  have hnone : ∀ e ∈ Catalogue.registrations, ∀ name, e.initial = .parameter name →
      e.archetype.overloads = [] := by
    intro e he name hname
    rcases hall e he with hempty | hempty
    · exact hempty
    · rw [hname, Kind.declarations_parameter] at hempty
      exact absurd hempty (by simp)
  unfold Cell.outcome
  split
  · exact Kind.declarations_evaluate hbuiltin _ _
  · rename_i s hs
    -- a signature was asked for and did not fit, so there are signatures
    have hne : c.archetype.overloads ≠ [] := by
      intro hnil
      simp [NodeState.resolve, hnil] at hs
    rw [hshape.overloads] at hne
    rcases hvar.texts with ⟨-, hdecl⟩ | ⟨old, name, hold, -⟩
    · rw [hdecl]
      exact ((hall e he).resolve_left hne).symm
    · exact absurd (hnone e he old hold) hne

end Cell.Catalogued

/-- A cell of an instance of a catalogue entry which, while it waits for its evaluation, has changed
in the values of its inputs only. -/
structure Cell.Prepared (g : ShaderGraph) (c : Cell C) : Prop where
  node : ∃ e, g.expression? c.id = some e ∧ Registry.builtin.archetype? e.handle = some c.archetype ∧
    e.kind = c.kind ∧ e.pins = ⟨c.archetype.inputs.length, c.archetype.outputs.length⟩
  entry : c.Catalogued
  state : c.state.evaluated = false → c.state.cleared = c.archetype.freshState c.id g

theorem Archetype.SameShape.signatures {a b : Archetype} (h : a.SameShape b) :
    a.signatures = b.signatures := by
  simp only [Archetype.signatures, h.inputs, h.outputs, h.overloads]

namespace Cell.Prepared

variable {g : ShaderGraph} {c : Cell C}

theorem isTemplate (h : c.Prepared g) : c.kind.isTemplate = false := h.entry.isTemplate

theorem operators (h : c.Prepared g) : ∀ op ∈ c.kind.operators, op ∈ ["+", "-", "*", "/"] := by
  obtain ⟨e, he, -, hvar⟩ := h.entry
  have hall : ∀ e ∈ Catalogue.registrations, ∀ op ∈ e.initial.operators,
      op ∈ ["+", "-", "*", "/"] := by decide
  rw [hvar.operators]
  exact hall e he

theorem heads (h : c.Prepared g) :
    ∀ f ∈ c.kind.heads, f ∈ Kind.vectorNames ++ Reserved.functionNames := by
  obtain ⟨e, he, -, hvar⟩ := h.entry
  have hall : ∀ e ∈ Catalogue.registrations, ∀ f ∈ e.initial.heads,
      f ∈ Kind.vectorNames ++ Reserved.functionNames := by decide
  rw [hvar.heads]
  exact hall e he

/-- What a node mentions are variables of the pipeline or a uniform that it declares. -/
theorem texts (h : c.Prepared g) :
    ∀ s ∈ c.kind.texts, s ∈ Kind.pipelineTexts ∧ c.kind.declarations = [] ∨
      ∃ name, s = identifier name ∧
        ∃ t ∈ properTypes, Kind.uniformText t.text s ∈ c.kind.declarations := by
  obtain ⟨e, he, -, hvar⟩ := h.entry
  have hall : ∀ e ∈ Catalogue.registrations, ∀ s ∈ e.initial.texts,
      s ∈ Kind.pipelineTexts ∧ e.initial.declarations = [] ∨
        (s = identifier s ∨ s = identifier "texture") ∧
          ∃ t ∈ properTypes, Kind.uniformText t.text s ∈ e.initial.declarations := by
    decide +kernel
  intro s hs
  rcases hvar.texts with ⟨htexts, hdecl⟩ | ⟨old, name, -, hname⟩
  · rw [htexts] at hs
    rw [hdecl]
    rcases hall e he s hs with hpipe | ⟨hname | hname, hty⟩
    · exact .inl hpipe
    · exact .inr ⟨s, hname, hty⟩
    · exact .inr ⟨_, hname, hty⟩
  · rw [hname, Kind.texts, List.mem_singleton] at hs
    rw [hname, Kind.declarations_parameter]
    exact .inr ⟨name, hs, .float, by decide, List.mem_singleton.mpr (hs ▸ rfl)⟩

theorem outputs_of_root? (h : c.Prepared g) (hroot : c.kind.root?.isSome) :
    c.archetype.outputs = [] := by
  obtain ⟨e, he, hshape, hvar⟩ := h.entry
  have hall : ∀ e ∈ Catalogue.registrations, e.initial.root?.isSome →
      e.archetype.outputs = [] := by decide
  rw [hshape.outputs]
  exact hall e he (hvar.root? ▸ hroot)

/-- An input slot is that of its pin, but for the value. -/
theorem slot (h : c.Prepared g) (hopen : c.state.evaluated = false) {i : Nat}
    {slot : InputSlot C} (hslot : c.state.inputs[i]? = some slot) :
    ∃ pin, c.archetype.inputs[i]? = some pin ∧
      slot = { name := pin.name, declared := pin.ty, ty := pin.ty, value := slot.value,
               link := g.linkInto? (.input c.id i), requireLink := pin.requireLink } := by
  have hfresh := congrArg (fun s : NodeState C => s.inputs[i]?) (h.state hopen)
  simp only [NodeState.cleared, List.getElem?_map, hslot, Archetype.freshState,
    List.getElem?_mapIdx, Option.map_some] at hfresh
  obtain ⟨pin, hpin, heq⟩ := Option.map_eq_some_iff.mp hfresh.symm
  refine ⟨pin, hpin, ?_⟩
  cases slot
  simp only [InputSlot.mk.injEq] at heq
  obtain ⟨rfl, rfl, rfl, -, rfl, rfl, rfl⟩ := heq
  rfl

theorem outputs (h : c.Prepared g) (hopen : c.state.evaluated = false) :
    c.state.outputs = (c.archetype.freshState c.id g : NodeState C).outputs := by
  rw [← h.state hopen]
  rfl

theorem length_inputs_eq (h : c.Prepared g) (hopen : c.state.evaluated = false) :
    c.state.inputs.length = c.archetype.inputs.length := by
  have hlen := congrArg (fun s : NodeState C => s.inputs.length) (h.state hopen)
  simpa [NodeState.cleared, Archetype.freshState] using hlen

theorem length_inputs (h : c.Prepared g) (hopen : c.state.evaluated = false) :
    c.state.inputs.length ≤ 4 := by
  obtain ⟨e, he, hshape, -⟩ := h.entry
  have hall : ∀ e ∈ Catalogue.registrations, e.archetype.inputs.length ≤ 4 := by decide
  rw [h.length_inputs_eq hopen, hshape.inputs]
  exact hall e he

theorem length_outputs (h : c.Prepared g) : c.archetype.outputs.length ≤ 4 := by
  obtain ⟨e, he, hshape, -⟩ := h.entry
  have hall : ∀ e ∈ Catalogue.registrations, e.archetype.outputs.length ≤ 4 := by decide
  rw [hshape.outputs]
  exact hall e he

/-- The outputs are used as the graph and the archetype say. -/
theorem usage (h : c.Prepared g) (hopen : c.state.evaluated = false) :
    c.state.usage = (c.archetype.freshState c.id g : NodeState C).usage := by
  rw [← h.state hopen]
  rfl

theorem receive (h : c.Prepared g) (i : Nat) (v : Value C) :
    Cell.Prepared g { c with state := c.state.receive i v } where
  node := h.node
  entry := h.entry
  state hopen := (c.state.cleared_receive i v).trans (h.state hopen)

theorem laid (h : c.Prepared g) (hopen : c.state.evaluated = false) :
    c.state.Laid c.archetype := by
  refine ⟨List.forall₂_iff_get.mpr ⟨h.length_inputs_eq hopen, ?_⟩, ?_⟩
  · intro i hi hi'
    obtain ⟨pin, hpin, heq⟩ := h.slot hopen (List.getElem?_eq_getElem hi)
    rw [List.getElem?_eq_getElem hi', Option.some.injEq] at hpin
    simp only [List.get_eq_getElem]
    rw [heq, hpin]
    exact ⟨rfl, rfl⟩
  · rw [h.outputs hopen]
    exact forall₂_mapIdx_left (R := Eq) (fun i pin pin' heq => heq ▸ ⟨rfl, rfl⟩)
      (List.forall₂_same.mpr fun _ _ => rfl)

theorem isRegular (h : c.Prepared g) : c.archetype.isRegular = true := by
  obtain ⟨e, he, hshape, -⟩ := h.entry
  rw [← (Catalogue.fits_of_mem e he).1]
  simp only [Archetype.isRegular, hshape.inputs, hshape.outputs, hshape.overloads]

/-- The kind of the cell fits the signatures of its archetype. -/
theorem fits (h : c.Prepared g) {signature : List Ty × List Ty}
    (hsig : signature ∈ c.archetype.signatures) : c.kind.fits c.archetype signature = true := by
  obtain ⟨e, he, hshape, hvar⟩ := h.entry
  have hfit := (Catalogue.fits_of_mem e he).2 signature (hshape.signatures ▸ hsig)
  rw [hvar.fits, ← hfit]
  unfold Kind.fits
  simp only [hshape.inputs, hshape.overloads]

/-- Evaluating a node keeps types: those of its inputs, as resolved, its outputs and its statements. -/
theorem outcome_typed (h : c.Prepared g) (hopen : c.state.evaluated = false) {J K : C → Ty → Prop}
    (hJ : Judges J) (hK : Combines c.kind J K) (hin : ∀ slot ∈ c.state.inputs, slot.value.Typed J)
    (huniform : ∀ t ∈ properTypes, ∀ name ∈ c.kind.texts,
      Kind.uniformText t.text name ∈ c.kind.declarations → J (Code.verbatim name) t)
    (stage : Stage) :
    (∀ v ∈ (c.outcome stage).state.values, v.Typed J) ∧
      (c.outcome stage).state.OutputsTyped K ∧
      ∀ x ∈ (c.outcome stage).statements, IsTypedAssignment K x := by
  have hlaid := h.laid hopen
  unfold Cell.outcome
  split
  · rename_i s hs
    obtain ⟨signature, hsig, hresolved, hlinks⟩ := hlaid.resolve hJ h.isRegular hin hs
    refine ⟨?_, Kind.evaluate_typed hJ hK (h.fits hsig) hresolved hlinks huniform stage⟩
    rw [NodeState.values_evaluate]
    intro v hv
    obtain ⟨slot, hslot, rfl⟩ := List.mem_map.mp hv
    exact ((List.forall₂_and_left (p := fun slot => slot.value.Typed J) _ _).mp
      (hresolved.inputs.imp fun _ _ hslot => ⟨hslot.typed, hslot⟩)).1 slot hslot
  · rename_i s hs
    -- no signature fits: nothing is left at the inputs, and the outputs stay without values
    obtain ⟨-, rfl⟩ := NodeState.eq_rejectAll_of_resolve hs
    refine ⟨fun v hv => ?_, fun o ho => ?_, by simp⟩
    · rw [NodeState.rejectAll, NodeState.values_fail] at hv
      obtain ⟨slot, hslot, rfl⟩ := List.mem_map.mp hv
      obtain ⟨slot, -, rfl⟩ := List.mem_map.mp hslot
      exact Value.typed_null
    · have hnull := ((List.forall₂_and_left _ _).mp
        (hlaid.outputs.imp fun _ _ ho => ⟨ho.2, ho.1⟩)).1 o ho
      rw [hnull]
      exact Value.typed_null

/-- A link from the node comes from one of its outputs. -/
theorem source_of_link (hg : g.Consistent) (h : c.Prepared g) {l : Link} (hl : l ∈ g.links)
    (hnode : l.source.node = c.id) :
    l.source = .output c.id l.source.index.toNat ∧
      l.source.index.toNat < c.archetype.outputs.length := by
  obtain ⟨hdir, hindex, n, hn, hid, hcount⟩ := hg.sources l hl
  have hpin := Pin.eq_output hdir hindex
  rw [hnode] at hpin hid
  obtain ⟨e, he, -, -, hpins⟩ := h.node
  have hexpr : n.node = .expression e := by
    rw [Graph.expression?, ← hid, hg.node?_of_mem hn, Option.bind_some] at he
    cases hkind : n.node with
    | expression e' =>
        rw [hkind] at he
        exact congrArg Node.expression (Option.some.inj he)
    | foreign => exact absurd he (by simp [hkind, Node.expression?])
  have hlt := hcount e.pins (by rw [hexpr]; rfl)
  rw [hpins] at hlt
  dsimp only [PinCount.on] at hlt
  exact ⟨hpin, by omega⟩

/-- A node that feeds another is no root. -/
theorem root?_of_feeds (hg : g.Consistent) (h : c.Prepared g) {consumer : NodeId}
    (hfeeds : Pass.Feeds g consumer c.id) : c.kind.root? = none := by
  obtain ⟨i, l, hl, hnode⟩ := hfeeds
  have hlt := (h.source_of_link hg (Graph.mem_links_of_linkInto? hl) hnode).2
  by_contra hroot
  have hnil := h.outputs_of_root? (Option.isSome_iff_ne_none.mpr hroot)
  simp [hnil] at hlt

section Pairs

variable {D : Type} [Code D] {d : Cell D}

/-- Cells of one node have the same archetype and kind. -/
theorem same_node (h : c.Prepared g) (hd : d.Prepared g) (hid : c.id = d.id) :
    c.archetype = d.archetype ∧ c.kind = d.kind := by
  obtain ⟨e, he, ha, hkind, -⟩ := h.node
  obtain ⟨e', he', ha', hkind', -⟩ := hd.node
  rw [hid, he'] at he
  cases he
  rw [ha'] at ha
  exact ⟨(Option.some.inj ha).symm, hkind.symm.trans hkind'⟩

/-- Cells of one node that wait for their evaluation differ in what has reached their inputs. -/
theorem related (h : c.Prepared g) (hd : d.Prepared g) (hid : c.id = d.id)
    (hopen : c.state.evaluated = false) (hopen' : d.state.evaluated = false) {R S : C → D → Prop}
    (hblank : S Code.blank Code.blank)
    (hin : ∀ (i : Nat) (slot : InputSlot C) (slot' : InputSlot D),
      c.state.inputs[i]? = some slot → d.state.inputs[i]? = some slot' →
      slot.value.Related R slot'.value) : c.state.Related R S d.state := by
  have hsame := (h.same_node hd hid).1
  have hclear := h.state hopen
  have hclear' := hd.state hopen'
  have hnode : c.state.cleared.node = d.state.cleared.node := by
    rw [hclear, hclear']
    exact hid
  have hoverload : c.state.cleared.overload = d.state.cleared.overload := by
    rw [hclear, hclear']
    rfl
  refine ⟨hnode, ?_, ?_, hoverload, hopen.trans hopen'.symm⟩
  · refine List.forall₂_iff_get.mpr ⟨?_, ?_⟩
    · rw [h.length_inputs_eq hopen, hd.length_inputs_eq hopen', hsame]
    · intro i hi hi'
      have hslot := List.getElem?_eq_getElem hi
      have hslot' := List.getElem?_eq_getElem hi'
      have hvalue := hin i _ _ hslot hslot'
      obtain ⟨pin, hpin, heq⟩ := h.slot hopen hslot
      obtain ⟨pin', hpin', heq'⟩ := hd.slot hopen' hslot'
      rw [hsame, hpin', Option.some.injEq] at hpin
      simp only [List.get_eq_getElem]
      rw [heq, heq', hpin, hid]
      exact ⟨rfl, rfl, rfl, hvalue, rfl, rfl, rfl⟩
  · rw [h.outputs hopen, hd.outputs hopen', hsame]
    exact forall₂_mapIdx (R := Eq)
      (fun i pin pin' heq => heq ▸ ⟨rfl, rfl, rfl, rfl, hblank⟩) (List.forall₂_same.mpr fun _ _ => rfl)

end Pairs

end Cell.Prepared

namespace Pass

/-- Every cell of the pass is prepared. -/
def Prepared (g : ShaderGraph) (p : Pass C) : Prop :=
  ∀ id c, p.cell? id = some c → c.Prepared g

variable {g : ShaderGraph} {p q : Pass C} {root : NodeId}

theorem Step.prepared (hp : p.Prepared g) (h : Step g root p q) : q.Prepared g := by
  intro id c hc
  cases h with
  | @receive id' c' i hcell hopen hready =>
      by_cases hid : id = id'
      · subst hid
        rw [cell?_mapState_self hcell] at hc
        cases hc
        exact (hp id c' hcell).receive i _
      · rw [cell?_mapState_ne hid] at hc
        exact hp id c hc
  | @complete c' hcell hopen hup hfilled =>
      by_cases hid : id = c'.id
      · subst hid
        rw [cell?_complete_self hcell] at hc
        cases hc
        exact ⟨(hp _ c' hcell).node, (hp _ c' hcell).entry, fun h => absurd h (by simp [finished])⟩
      · rw [cell?_complete_ne p hid] at hc
        exact hp id c hc

/-- The outputs of a node that is completed, with the use that the graph and the archetype say they
have. -/
theorem usage_finished {c : Cell C} (hc : c.Prepared g) (hopen : c.state.evaluated = false) :
    (p.finished c).usage =
      c.archetype.outputs.mapIdx fun i pin => (g.fanOut (.output c.id i), pin.hoist) := by
  have houtcome : (p.finished c).usage = (c.outcome p.stage).state.usage := rfl
  rw [houtcome, c.usage_outcome, hc.usage hopen, Archetype.usage_freshState]

/-- A node that uses operators has its outputs stored in variables. -/
theorem hoist_finished {c : Cell C} (hc : c.Prepared g) (hopen : c.state.evaluated = false)
    (hops : c.kind.operators ≠ []) : ∀ o ∈ (p.finished c).outputs, o.hoist = true := by
  obtain ⟨e, he, hshape, hvar⟩ := hc.entry
  have hall : ∀ e ∈ Catalogue.registrations, e.initial.operators ≠ [] →
      ∀ pin ∈ e.archetype.outputs, pin.hoist = true := by decide
  intro o ho
  have hmem : (o.fanOut, o.hoist) ∈ (p.finished c).usage := List.mem_map.mpr ⟨o, ho, rfl⟩
  rw [usage_finished hc hopen, List.mem_mapIdx] at hmem
  obtain ⟨i, hi, heq⟩ := hmem
  rw [← (Prod.mk.inj heq).2]
  exact hall e he (hvar.operators ▸ hops) _ (hshape.outputs ▸ List.getElem_mem hi)

/-- The source of a link from a node is one of its outputs, and it is used. -/
theorem exists_output_of_link (hg : g.Consistent) {c : Cell C} (hc : c.Prepared g)
    (hopen : c.state.evaluated = false) {l : Link} (hl : l ∈ g.links) (hnode : l.source.node = c.id) :
    ∃ j o, l.source = .output c.id j ∧ l.source.index.toNat = j ∧
      (p.finished c).outputs[j]? = some o ∧ o.fanOut ≠ 0 := by
  obtain ⟨hpin, hlt⟩ := hc.source_of_link hg hl hnode
  have husage := usage_finished (p := p) hc hopen
  have hlen : (p.finished c).outputs.length = c.archetype.outputs.length := by
    have := congrArg List.length husage
    simpa [NodeState.usage] using this
  refine ⟨l.source.index.toNat, _, hpin, rfl, List.getElem?_eq_getElem (hlen ▸ hlt), ?_⟩
  have hfan := congrArg (fun us => (us[l.source.index.toNat]?).map Prod.fst) husage
  simp only [NodeState.usage, List.getElem?_map, List.getElem?_mapIdx,
    List.getElem?_eq_getElem (hlen ▸ hlt), List.getElem?_eq_getElem hlt, Option.map_some,
    Option.some.injEq] at hfan
  rw [hfan, ← hpin, Graph.fanOut]
  have hpos : 0 < g.links.countP (·.source = l.source) :=
    List.countP_pos_iff.mpr ⟨l, hl, by simp⟩
  omega

/-! ## The start of a pass -/

theorem mem_cells_start {r : Registry} {stage : Stage} {o : Options} {c : Cell C}
    (h : c ∈ (start g r stage o : Pass C).cells) :
    ∃ n ∈ g.nodes, ∃ e a, n.node = .expression e ∧ r.archetype? e.handle = some a ∧
      c = { id := n.id, archetype := a, kind := e.kind, state := a.freshState n.id g } := by
  simp only [start, List.mem_filterMap] at h
  obtain ⟨n, hn, hc⟩ := h
  refine ⟨n, hn, ?_⟩
  split at hc
  · rename_i e he
    obtain ⟨a, ha, rfl⟩ := Option.map_eq_some_iff.mp hc
    exact ⟨e, a, he, ha, rfl⟩
  · exact absurd hc (by simp)

/-- Cells of instances of built-in archetypes are catalogued. -/
theorem catalogued_of_mem_start (hg : g.IsCatalogued) {stage : Stage} {o : Options} {c : Cell C}
    (h : c ∈ (start g .builtin stage o : Pass C).cells) : c.Catalogued := by
  obtain ⟨n, hn, e, a, he, ha, rfl⟩ := mem_cells_start h
  obtain ⟨entry, hentry, -, hvar⟩ := hg n hn e he
  obtain ⟨e', he', hinit, hshape⟩ := Registry.exists_catalogue_of_get?_builtin hentry
  simp only [Registry.archetype?, hentry, Option.map_some, Option.some.injEq] at ha
  subst ha
  exact ⟨e', he', hshape, hinit ▸ hvar⟩

/-- The cell that a node of the graph starts with. -/
theorem cell_start {r : Registry} (hg : g.IsOver r) {stage : Stage} {o : Options} {c : Cell C}
    (h : c ∈ (start g r stage o : Pass C).cells) :
    ∃ n ∈ g.nodes, ∃ e a, n.node = .expression e ∧ r.archetype? e.handle = some a ∧
      e.HasPinsOf a ∧
      c = { id := n.id, archetype := a, kind := e.kind, state := a.freshState n.id g } := by
  obtain ⟨n, hn, e, a, he, ha, hc⟩ := mem_cells_start h
  obtain ⟨e', a', he', ha', hpins⟩ := hg.expressions n hn
  rw [he] at he'
  cases he'
  rw [ha] at ha'
  cases ha'
  exact ⟨n, hn, e, a, he, ha, hpins, hc⟩

theorem prepared_of_mem_start (hg : g.IsBuiltin) {stage : Stage} {o : Options} {c : Cell C}
    (h : c ∈ (start g .builtin stage o : Pass C).cells) : c.Prepared g := by
  have hentry := catalogued_of_mem_start hg.isCatalogued h
  obtain ⟨n, hn, e, a, he, ha, hpins, rfl⟩ := cell_start hg.isOver h
  refine ⟨⟨e, ?_, ha, rfl, hpins⟩, hentry, fun _ => Archetype.cleared_freshState _ _ _⟩
  rw [Graph.expression?, hg.reachable.consistent.node?_of_mem hn, he]
  rfl

theorem prepared_start (hg : g.IsBuiltin) (stage : Stage) (o : Options) :
    (start g .builtin stage o : Pass C).Prepared g :=
  fun _ _ hc => prepared_of_mem_start hg (mem_of_cell? hc)

/-- Passes over the graphs of a registry start in good order. -/
theorem orderly_of_isOver {r : Registry} (hg : g.IsOver r) (stage : Stage) (o : Options) :
    (start g r stage o : Pass C).Orderly where
  ids id c hc := by
    obtain ⟨n, hn, e, a, -, -, rfl⟩ := mem_cells_start (mem_of_cell? hc)
    exact NodeId.le_of_isValid (hg.ids n hn)
  inputs id c hc _ := by
    obtain ⟨n, -, e, a, -, ha, rfl⟩ := mem_cells_start (mem_of_cell? hc)
    have hfits := (hg.registry.archetype_fits ha).1
    simpa [Archetype.freshState] using hfits
  memo out v hv := absurd hv (by simp [start])

theorem orderly_start (hg : g.IsBuiltin) (stage : Stage) (o : Options) :
    (start g .builtin stage o : Pass C).Orderly := orderly_of_isOver hg.isOver stage o

/-- No node is evaluated before the pass runs. -/
theorem evaluated_start {r : Registry} {stage : Stage} {o : Options} {id : NodeId} {c : Cell C}
    (h : (start g r stage o : Pass C).cell? id = some c) : c.state.evaluated = false := by
  obtain ⟨n, -, e, a, -, -, rfl⟩ := mem_cells_start (mem_of_cell? h)
  rfl

/-- Every node has a cell. -/
theorem exists_cell_start {r : Registry} (hg : g.IsOver r) {n : Numbered Node} (hn : n ∈ g.nodes)
    (stage : Stage) (o : Options) : ∃ c, (start g r stage o : Pass C).cell? n.id = some c := by
  obtain ⟨e, a, he, ha, -⟩ := hg.expressions n hn
  have hcell : ({ id := n.id, archetype := a, kind := e.kind,
                  state := a.freshState n.id g } : Cell C) ∈
      (start g r stage o : Pass C).cells := by
    simp only [start, List.mem_filterMap]
    exact ⟨n, hn, by simp only [he, ha, Option.map_some]⟩
  have hsome : ((start g r stage o : Pass C).cell? n.id).isSome := by
    rw [cell?, List.find?_isSome]
    exact ⟨_, hcell, by simp⟩
  exact Option.isSome_iff_exists.mp hsome

/-- The tinted texture is a graph of which the pass ends, with uniforms and variables. -/
theorem exists_run_tinted :
    ∃ p : Pass, (start .tinted .builtin .fragment {} : Pass).run .tinted = (.ok (), p) ∧
      p.declarations = ["uniform sampler2D _texture;", "uniform float param;"] ∧
      p.body.length = 5 ∧ p.stats.nodes = 7 ∧ p.stats.hoisted = 4 := by
  have hrun : ((start .tinted .builtin .fragment {} : Pass).run .tinted).1 = .ok () ∧
      ((start .tinted .builtin .fragment {} : Pass).run .tinted).2.declarations =
        ["uniform sampler2D _texture;", "uniform float param;"] ∧
      ((start .tinted .builtin .fragment {} : Pass).run .tinted).2.body.length = 5 ∧
      ((start .tinted .builtin .fragment {} : Pass).run .tinted).2.stats.nodes = 7 ∧
      ((start .tinted .builtin .fragment {} : Pass).run .tinted).2.stats.hoisted = 4 := by
    decide +kernel
  exact ⟨_, run_eq_ok hrun.1, hrun.2⟩

end Pass

end NodeShader
