import NodeShader.Proofs.Node.Overloads

/-!
# Nodes whose links deliver

A missing value is seldom a problem: inputs have defaults, and most kinds make do with what they get.
So a value that is lost could be lost in silence. In nodes of the catalogue it is not: if every linked
input has a value and nothing is found wrong, every linked input keeps its value, converted to the
type of its slot (`NodeState.delivered_of_resolve`), and every output has one
(`Kind.outputsValid_evaluate`). Two kinds have nothing to put in the place of an input without a link
and so leave their output without a value; these need all their inputs linked (`Kind.needsLinks`).

`Kind.supplies` says what a kind needs of a signature for this; that every built-in kind has it is
checked entry by entry.
-/

namespace NodeShader

variable {C : Type}

namespace NodeState

/-- No input has a problem. -/
def IsClean (s : NodeState C) : Prop := ∀ slot ∈ s.inputs, slot.problem = ""

/-- Every linked input has a value. -/
def IsFed (s : NodeState C) : Prop :=
  ∀ slot ∈ s.inputs, slot.isLinked = true → slot.value.isValid = true

/-- Every output has a value. -/
def OutputsValid (s : NodeState C) : Prop := ∀ o ∈ s.outputs, o.value.isValid = true

theorem isClean_of_errors {s : NodeState C} (h : s.errors = []) : s.IsClean := by
  intro slot hslot
  obtain ⟨i, hi⟩ := List.mem_iff_getElem?.mp hslot
  rw [errors, List.map_eq_nil_iff, List.filter_eq_nil_iff] at h
  have hslot' := h (slot, i) (List.mem_zipIdx_iff_getElem?.mpr hi)
  simpa using hslot'

/-- A problem that was found stays, unless there is no such input. -/
theorem IsClean.of_fail {s : NodeState C} {i : Nat} {problem : String} (hp : problem ≠ "")
    (h : (s.fail i problem).IsClean) : s.IsClean ∧ s.inputs.length ≤ i := by
  have hlength : s.inputs.length ≤ i := by
    by_contra hlt
    have hslot : (s.fail i problem).inputs[i]? = some { s.inputs[i] with problem } := by
      simp [NodeState.fail, mapInput, List.getElem?_eq_getElem (Nat.not_le.mp hlt)]
    exact hp (h _ (List.mem_of_getElem? hslot))
  have hsame : (s.fail i problem).inputs = s.inputs := by
    simp [NodeState.fail, mapInput, List.modify_eq_self hlength]
  exact ⟨fun slot hslot => h slot (hsame ▸ hslot), hlength⟩

end NodeState

/-! ## Linked inputs -/

theorem Resolve.conversionProblem_ne (source target : Ty) :
    conversionProblem source target ≠ "" := by
  unfold conversionProblem
  intro hempty
  have hchars := congrArg String.toList hempty
  rw [String.toList_append, String.toList_append, String.toList_append] at hchars
  simp at hchars

theorem Ty.converts_self (t : Ty) : t.converts t = true := by
  simp [Ty.converts]

section Inputs

variable [Code C]

theorem Value.convert_self {v : Value C} (h : v.isValid = true) : v.convert v.ty = v := by
  simp [Value.convert, h, Ty.converts_self]

namespace NodeState

variable {a : Archetype} {k : Kind} {s s' : NodeState C}

/-- A value that reached an input is there in the type of the slot, unless it was refused. -/
theorem delivered_of_resolve
    (hshape : ∀ o ∈ a.overloads,
      o.inputs.length = s.inputs.length ∧ o.outputs.length = s.outputs.length)
    (hs : s.resolve a k = (true, s')) (hclean : s'.IsClean) {i : Nat} {slot : InputSlot C}
    (hslot : s.inputs[i]? = some slot) (hvalid : slot.value.isValid = true) :
    ∃ slot', s'.inputs[i]? = some slot' ∧ slot'.link = slot.link ∧
      slot.value.ty.converts slot'.ty = true ∧ slot'.value = slot.value.convert slot'.ty := by
  unfold NodeState.resolve at hs
  split at hs
  · cases hs
    obtain ⟨slot', hslot', hdeclared⟩ := (takesDeclared_resolveDeclared k s).input i slot hslot
    refine ⟨slot', hslot', ?_⟩
    by_cases hany : slot.declared.isValid = true
    · by_cases hconverts : slot.value.ty.converts slot.declared = true
      · have hbrought := hdeclared.converts hvalid hconverts
        have hty : slot'.ty = slot.declared := by rw [hbrought.frame]
        rw [hty]
        exact ⟨by rw [hbrought.frame], hconverts, (hbrought.connected hvalid).1⟩
      · -- a value that does not convert would have left a problem
        have hrefused := hdeclared.refuses hvalid hany (by simpa using hconverts)
        have hproblem : slot'.problem =
            Resolve.conversionProblem slot.value.ty slot.declared := by rw [hrefused]
        exact absurd (hproblem.symm.trans (hclean slot' (List.mem_of_getElem? hslot')))
          (Resolve.conversionProblem_ne _ _)
    · rw [hdeclared.untyped hvalid (by simpa using hany)]
      exact ⟨rfl, Ty.converts_self _, (Value.convert_self hvalid).symm⟩
  · split at hs
    · rename_i j o n hchoose
      cases hs
      obtain ⟨_, -, ho, haccepts, -⟩ := Resolve.choose_eq_some hchoose
      obtain ⟨hin, hout⟩ := hshape o (List.mem_of_getElem? ho)
      obtain ⟨t, slot', ht, hslot', hbrought⟩ :=
        (takesSignature_applyOverload (k := k) (i := j) hin hout haccepts).input i slot hslot
      have hvalue : s.values[i]? = some slot.value := by
        rw [NodeState.values, List.getElem?_map, hslot, Option.map_some]
      have hty : slot'.ty = Resolve.substitute t n := by rw [hbrought.frame]
      refine ⟨slot', hslot', by rw [hbrought.frame], ?_, ?_⟩
      · rw [hty]
        exact haccepts.2 i t slot.value ht hvalue hvalid
      · rw [hty]
        exact (hbrought.connected hvalid).1
    · exact absurd hs (by simp)

/-- Evaluating a node changes nothing about an input but its problem. -/
theorem getElem?_evaluate (stage : Stage) {i : Nat} {slot : InputSlot C}
    (hslot : s.inputs[i]? = some slot) :
    ∃ problem, (k.evaluate stage s).state.inputs[i]? = some { slot with problem } := by
  have hframe := evaluate_frame
    (f := fun s : NodeState C => s.inputs.map fun slot => { slot with problem := "" })
    (fun _ _ _ => rfl) (fun _ _ _ => rfl)
    (fun s j problem => by
      apply List.ext_getElem?
      intro i
      simp only [NodeState.fail, mapInput, List.getElem?_map, List.getElem?_modify]
      cases s.inputs[i]? with
      | none => rfl
      | some slot =>
          simp only [Option.map_eq_map, Option.map_some]
          split <;> rfl) k stage s
  have hi := congrArg (fun slots => slots[i]?) hframe
  simp only [List.getElem?_map, hslot, Option.map_some] at hi
  obtain ⟨slot', hslot', heq⟩ := Option.map_eq_some_iff.mp hi
  refine ⟨slot'.problem, ?_⟩
  rw [hslot']
  cases slot
  cases slot'
  simp_all

end NodeState

end Inputs

/-! ## What kinds need -/

/-- Has the kind nothing to put in the place of an input without a link? -/
def Kind.needsLinks : Kind → Bool
  | .append | .bridge => true
  | _ => false

/-- Does every input without a link get a default? -/
def Archetype.fillsAll (a : Archetype) (types : List Ty) : Bool :=
  !a.overloads.isEmpty && types.all Ty.isGen && a.inputs.all (!·.requireLink)

/-- Do nodes of the kind have a value at every output when their pins have the types of the signature
and nothing is missing at a link? -/
def Kind.supplies (k : Kind) (a : Archetype) (signature : List Ty × List Ty) : Bool :=
  match k with
  | .scalar _ | .vector _ | .parameter _ => signature.2.length = 1
  | .globalVar value _ => value.ty.isValid && signature.2.length = 1
  | .binaryOp .. =>
    a.fillsAll signature.1 && signature.1.length = 2 && signature.2.length = 1 &&
      signature.2.all Ty.isValid
  | .transform =>
    !a.overloads.isEmpty && (signature.1[1]?).any Ty.isGen &&
      a.inputs.map InputPin.requireLink = [true, false] && signature.2.length = 1 &&
      signature.2.all Ty.isValid
  | .call .. => a.fillsAll signature.1 && signature.2.length = 1 && signature.2.all Ty.isValid
  | .sample => signature.2.length = 1 && signature.2.all Ty.isValid
  | .makeVec n _ => n ∈ [(2 : UInt8), 3, 4] && signature.1[0]? = some .float && signature.2.length = 1
  | .breakVec n => n.toNat ≤ 4 && signature.2.length = n.toNat && signature.2.all Ty.isValid
  | .append => signature.1.length = 2 && signature.2.length = 1
  | .bridge => signature.1.length = 1 && signature.2.length = 1
  | .vertexOut _ | .fragmentOut => signature.2 = []
  | .template _ => false

/-- Every built-in kind supplies every signature of its archetype, and only nodes with inputs have
signatures to choose from. -/
theorem Catalogue.supplies_of_mem :
    ∀ e ∈ registrations, (e.archetype.overloads = [] ∨ e.archetype.inputs ≠ []) ∧
      ∀ signature ∈ e.archetype.signatures, e.initial.supplies e.archetype signature = true := by
  decide +kernel

theorem Kind.Variant.supplies {k k' : Kind} (h : k.Variant k') (a : Archetype)
    (signature : List Ty × List Ty) : k'.supplies a signature = k.supplies a signature := by
  cases h <;> rfl

/-! ## Outputs -/

namespace NodeState

variable {s : NodeState C}

theorem outputsValid_set (hlength : s.outputs.length = 1) {v : Value C} (hv : v.isValid = true) :
    (s.set 0 v).OutputsValid := by
  obtain ⟨o, ho⟩ := List.length_eq_one_iff.mp hlength
  simp [OutputsValid, NodeState.set, mapOutput, ho, hv]

theorem outputsValid_setCode (hlength : s.outputs.length = 1)
    (hty : ∀ o ∈ s.outputs, o.ty.isValid = true) (x : C) : (s.setCode 0 x).OutputsValid := by
  obtain ⟨o, ho⟩ := List.length_eq_one_iff.mp hlength
  have ho' : o.ty.isValid = true := hty o (by simp [ho])
  simp [OutputsValid, NodeState.setCode, mapOutput, ho, Value.isValid, ho']

/-- The types of the outputs have a property, and so have those of the values before output `n`. -/
def TypedBefore (P : Ty → Prop) (s : NodeState C) (n : Nat) : Prop :=
  ∀ i o, s.outputs[i]? = some o → P o.ty ∧ (i < n → P o.value.ty)

theorem TypedBefore.mapOutput {P : Ty → Prop} {n : Nat} (h : s.TypedBefore P n)
    {f : OutputSlot C → OutputSlot C}
    (hf : ∀ o, P o.ty → P (f o).ty ∧ P (f o).value.ty) :
    (s.mapOutput n f).TypedBefore P (n + 1) := by
  intro i o ho
  simp only [NodeState.mapOutput, List.getElem?_modify] at ho
  obtain ⟨o', ho', rfl⟩ := Option.map_eq_some_iff.mp ho
  obtain ⟨hty, hvalue⟩ := h i o' ho'
  by_cases hi : n = i
  · simp only [hi, if_true]
    exact ⟨(hf o' hty).1, fun _ => (hf o' hty).2⟩
  · simp only [hi, if_false]
    exact ⟨hty, fun hlt => hvalue (by omega)⟩

end NodeState

section Outputs

variable [Code C] {J : C → Ty → Prop} {strict : Bool} {s : NodeState C}
  {signature : List Ty × List Ty}

/-- The components of a vector, or zeros, are put at the outputs one after the other. -/
theorem NodeState.TypedBefore.components {P : Ty → Prop} {v : Value C} (letters : List String)
    {n : Nat} {s : NodeState C} (h : s.TypedBefore P n) (hfloat : P .float) :
    ((letters.zipIdx n).foldl (fun s (letter, i) =>
      if v.isValid then s.setCode i (Code.select v.code letter)
      else s.set i (.literal .zero)) s).TypedBefore P (n + letters.length) := by
  induction letters generalizing n s with
  | nil => exact h
  | cons letter rest ih =>
      rw [List.zipIdx_cons, List.foldl_cons, List.length_cons, show n + (rest.length + 1) =
        n + 1 + rest.length by omega]
      refine ih ?_
      dsimp only
      split
      · exact h.mapOutput fun o hty => ⟨hty, hty⟩
      · exact h.mapOutput fun o _ => ⟨hfloat, hfloat⟩

namespace NodeState.Resolved

theorem length_outputs (h : s.Resolved J strict signature) :
    s.outputs.length = signature.2.length := h.outputs.length_eq

theorem ty_outputs (h : s.Resolved J strict signature) (hvalid : signature.2.all Ty.isValid = true) :
    ∀ o ∈ s.outputs, o.ty.isValid = true := by
  intro o ho
  obtain ⟨i, hi⟩ := List.mem_iff_getElem?.mp ho
  have hlt : i < signature.2.length := h.length_outputs ▸ (List.getElem?_eq_some_iff.mp hi).1
  rw [h.output (List.getElem?_eq_getElem hlt) o hi]
  exact List.all_eq_true.mp hvalid _ (List.getElem_mem hlt)

/-- An input at a scalar or vector that needs no link has a value. -/
theorem isValid_input (h : s.Resolved J true signature) {pins : List InputPin}
    (hlinks : List.Forall₂ (fun slot pin => slot.requireLink = pin.requireLink) s.inputs pins)
    {i : Nat} {t : Ty} {pin : InputPin} (ht : signature.1[i]? = some t) (hgen : t.isGen = true)
    (hpin : pins[i]? = some pin) (hfree : pin.requireLink = false) :
    (s.input i).isValid = true := by
  obtain ⟨slot, hslot, hresolved, heq⟩ := h.slot ht
  obtain ⟨hi, hslot'⟩ := List.getElem?_eq_some_iff.mp hslot
  obtain ⟨hi', hpin'⟩ := List.getElem?_eq_some_iff.mp hpin
  have hrequire := (List.forall₂_iff_get.mp hlinks).2 i hi hi'
  simp only [List.get_eq_getElem, hslot', hpin', hfree] at hrequire
  rw [heq]
  exact hresolved.filled rfl hrequire hgen

/-- Where every input gets a default, every input has a value. -/
theorem isValid_of_fillsAll {a : Archetype} (h : s.Resolved J (!a.overloads.isEmpty) signature)
    (hlinks : List.Forall₂ (fun slot pin => slot.requireLink = pin.requireLink) s.inputs a.inputs)
    (hfills : a.fillsAll signature.1 = true) : ∀ slot ∈ s.inputs, slot.value.isValid = true := by
  simp only [Archetype.fillsAll, Bool.and_eq_true, List.all_eq_true] at hfills
  obtain ⟨⟨hstrict, hgen⟩, hfree⟩ := hfills
  rw [hstrict] at h
  intro slot hslot
  obtain ⟨i, hi⟩ := List.mem_iff_getElem?.mp hslot
  have hlt := (List.getElem?_eq_some_iff.mp hi).1
  have hlt₁ : i < signature.1.length := h.inputs.length_eq ▸ hlt
  have hlt₂ : i < a.inputs.length := hlinks.length_eq ▸ hlt
  have hvalid := h.isValid_input hlinks (List.getElem?_eq_getElem hlt₁)
    (hgen _ (List.getElem_mem hlt₁)) (List.getElem?_eq_getElem hlt₂)
    (by simpa using hfree _ (List.getElem_mem hlt₂))
  simpa [NodeState.input, hi] using hvalid

end NodeState.Resolved

theorem NodeState.IsFed.input (hfed : s.IsFed) {i : Nat} {slot : InputSlot C}
    (hslot : s.inputs[i]? = some slot) (hlinked : slot.isLinked = true) :
    (s.input i).isValid = true := by
  have hvalid := hfed slot (List.mem_of_getElem? hslot) hlinked
  simpa [NodeState.input, hslot] using hvalid

/-- A float in the first input alone is repeated in every component. -/
theorem isValid_makeVec (h : s.Resolved J strict signature) (hfed : s.IsFed) {n : UInt8}
    (hn : n ∈ [(2 : UInt8), 3, 4]) (hfloat : signature.1[0]? = some .float)
    (hfirst : Kind.onlyFirstLinked s.inputs = true) :
    ((s.input 0).convert (.gen n)).isValid = true := by
  obtain ⟨slot, hslot, hresolved, heq⟩ := h.slot hfloat
  have hlinked : slot.isLinked = true := by
    cases hinputs : s.inputs with
    | nil => simp [hinputs] at hslot
    | cons first rest =>
        simp only [hinputs, Kind.onlyFirstLinked, Bool.and_eq_true] at hfirst
        simp only [hinputs, List.getElem?_cons_zero, Option.some.injEq] at hslot
        exact hslot ▸ hfirst.1
  have hvalid := hfed.input hslot hlinked
  refine Value.isValid_convert hvalid ?_
  rw [heq] at hvalid ⊢
  rw [hresolved.ty rfl hvalid]
  simp only [List.mem_cons, List.not_mem_nil, or_false] at hn
  rcases hn with rfl | rfl | rfl <;> decide

/-- Two values side by side, unless something is found wrong with them. -/
theorem outputsValid_append (hlength : s.inputs.length = 2) (hout : s.outputs.length = 1)
    (hx : (s.input 0).isValid = true) (hy : (s.input 1).isValid = true) (stage : Stage)
    (hclean : (Kind.append.evaluate stage s).state.IsClean) :
    (Kind.append.evaluate stage s).state.OutputsValid := by
  have hnotGen : Kind.appendNotGen ≠ "" := by decide
  have htooWide : Kind.appendTooWide ≠ "" := by decide
  simp only [Kind.evaluate, hx, hy, Bool.not_true, Bool.or_self, Bool.false_eq_true, if_false]
    at hclean ⊢
  cases hm : (s.input 0).ty.arity? with
  | none =>
      simp only [hm] at hclean
      have := (hclean.of_fail hnotGen).2
      omega
  | some m =>
      cases hn : (s.input 1).ty.arity? with
      | none =>
          simp only [hm, hn] at hclean
          have := (hclean.of_fail hnotGen).2
          omega
      | some n =>
          simp only [hm, hn] at hclean ⊢
          by_cases hwide : 4 < m + n
          · rw [if_pos hwide] at hclean
            have hsame : (s.fail 0 Kind.appendTooWide).inputs.length = s.inputs.length := by
              simp [NodeState.fail, NodeState.mapInput]
            have := (hclean.of_fail htooWide).2
            omega
          · rw [if_neg hwide]
            exact NodeState.outputsValid_set hout rfl

/-- When nothing is missing at a link and nothing is found wrong, every output has a value. -/
theorem Kind.outputsValid_evaluate {k : Kind} {a : Archetype}
    (hsupplies : k.supplies a signature = true) (h : s.Resolved J (!a.overloads.isEmpty) signature)
    (hlinks : List.Forall₂ (fun slot pin => slot.requireLink = pin.requireLink) s.inputs a.inputs)
    (hfed : s.IsFed)
    (hfull : k.needsLinks = true → ∀ slot ∈ s.inputs, slot.isLinked = true) (stage : Stage)
    (hclean : (k.evaluate stage s).state.IsClean) : (k.evaluate stage s).state.OutputsValid := by
  have hin := h.inputs.length_eq
  have hout := h.length_outputs
  -- the inputs of a kind that needs links have values
  have hgiven : k.needsLinks = true → ∀ i < s.inputs.length, (s.input i).isValid = true := by
    intro hneeds i hi
    exact hfed.input (List.getElem?_eq_getElem hi) (hfull hneeds _ (List.getElem_mem hi))
  cases k with
  | scalar value =>
      simp only [Kind.supplies, decide_eq_true_eq] at hsupplies
      exact NodeState.outputsValid_set (hout.trans hsupplies) rfl
  | vector values =>
      simp only [Kind.supplies, decide_eq_true_eq] at hsupplies
      exact NodeState.outputsValid_set (hout.trans hsupplies) rfl
  | parameter name =>
      simp only [Kind.supplies, decide_eq_true_eq] at hsupplies
      exact NodeState.outputsValid_set (hout.trans hsupplies) rfl
  | globalVar value declaration =>
      simp only [Kind.supplies, Bool.and_eq_true, decide_eq_true_eq] at hsupplies
      exact NodeState.outputsValid_set (hout.trans hsupplies.2) hsupplies.1
  | binaryOp operator edited =>
      simp only [Kind.supplies, Bool.and_eq_true, decide_eq_true_eq] at hsupplies
      obtain ⟨⟨⟨hfills, htwo⟩, hone⟩, hty⟩ := hsupplies
      have hall := h.isValid_of_fillsAll hlinks hfills
      have hx : (s.input 0).isValid = true := by
        have hlt : 0 < s.inputs.length := by omega
        simpa [NodeState.input, List.getElem?_eq_getElem hlt] using hall _ (List.getElem_mem hlt)
      have hy : (s.input 1).isValid = true := by
        have hlt : 1 < s.inputs.length := by omega
        simpa [NodeState.input, List.getElem?_eq_getElem hlt] using hall _ (List.getElem_mem hlt)
      simp only [Kind.evaluate, hx, hy, Bool.and_self, if_true]
      exact NodeState.outputsValid_setCode (hout.trans hone) (h.ty_outputs hty) _
  | transform =>
      simp only [Kind.supplies, Bool.and_eq_true, decide_eq_true_eq] at hsupplies
      obtain ⟨⟨⟨⟨hstrict, hgen⟩, hrequire⟩, hone⟩, hty⟩ := hsupplies
      rw [hstrict] at h
      -- the vector has a default, so there is one with or without a matrix
      have hvector : (s.input 1).isValid = true := by
        obtain ⟨t, ht, hgen⟩ := Option.any_eq_true _ _ |>.mp hgen
        have hpin := congrArg (fun l => l[1]?) hrequire
        simp only [List.getElem?_map] at hpin
        obtain ⟨pin, hpin, hfree⟩ := Option.map_eq_some_iff.mp hpin
        exact h.isValid_input hlinks ht hgen hpin hfree
      simp only [Kind.evaluate]
      split
      · exact NodeState.outputsValid_setCode (hout.trans hone) (h.ty_outputs hty) _
      · exact NodeState.outputsValid_set (hout.trans hone) hvector
  | call function edited =>
      simp only [Kind.supplies, Bool.and_eq_true, decide_eq_true_eq] at hsupplies
      obtain ⟨⟨hfills, hone⟩, hty⟩ := hsupplies
      have hall : s.inputs.all (·.value.isValid) = true :=
        List.all_eq_true.mpr (h.isValid_of_fillsAll hlinks hfills)
      simp only [Kind.evaluate, hall, if_true]
      exact NodeState.outputsValid_setCode (hout.trans hone) (h.ty_outputs hty) _
  | sample =>
      simp only [Kind.supplies, Bool.and_eq_true, decide_eq_true_eq] at hsupplies
      simp only [Kind.evaluate]
      split
      · exact NodeState.outputsValid_setCode (hout.trans hsupplies.1) (h.ty_outputs hsupplies.2) _
      · exact NodeState.outputsValid_set (hout.trans hsupplies.1) rfl
  | makeVec n edited =>
      simp only [Kind.supplies, Bool.and_eq_true, decide_eq_true_eq] at hsupplies
      obtain ⟨⟨hn, hfloat⟩, hone⟩ := hsupplies
      simp only [Kind.evaluate]
      split
      · rename_i hfirst
        exact NodeState.outputsValid_set (hout.trans hone) (isValid_makeVec h hfed hn hfloat hfirst)
      · exact NodeState.outputsValid_set (hout.trans hone) rfl
  | breakVec n =>
      simp only [Kind.supplies, Bool.and_eq_true, decide_eq_true_eq] at hsupplies
      obtain ⟨⟨hn, hlength⟩, hty⟩ := hsupplies
      have hnone : s.TypedBefore (·.isValid = true) 0 := fun i o ho =>
        ⟨h.ty_outputs hty o (List.mem_of_getElem? ho), fun hi => absurd hi (by omega)⟩
      have hall := hnone.components (v := s.input 0) (Kind.swizzles.take n.toNat) rfl
      have hletters : (Kind.swizzles.take n.toNat).length = n.toNat := by
        rw [List.length_take]
        exact Nat.min_eq_left hn
      have hcount : ((Kind.breakVec n).evaluate stage s).state.outputs.length = n.toNat := by
        have husage := congrArg List.length (NodeState.usage_evaluate (.breakVec n) stage s)
        simp only [NodeState.usage, List.length_map] at husage
        omega
      rw [hletters, Nat.zero_add] at hall
      intro o ho
      obtain ⟨i, hi⟩ := List.mem_iff_getElem?.mp ho
      exact (hall i o hi).2 (hcount ▸ (List.getElem?_eq_some_iff.mp hi).1)
  | append =>
      simp only [Kind.supplies, Bool.and_eq_true, decide_eq_true_eq] at hsupplies
      have htwo : s.inputs.length = 2 := hin.trans hsupplies.1
      exact outputsValid_append htwo (hout.trans hsupplies.2) (hgiven rfl 0 (by omega))
        (hgiven rfl 1 (by omega)) stage hclean
  | bridge =>
      simp only [Kind.supplies, Bool.and_eq_true, decide_eq_true_eq] at hsupplies
      exact NodeState.outputsValid_set (hout.trans hsupplies.2) (hgiven rfl 0 (by omega))
  | vertexOut edited =>
      simp only [Kind.supplies, decide_eq_true_eq] at hsupplies
      have hnil : s.outputs = [] := List.length_eq_zero_iff.mp (by rw [hout, hsupplies]; rfl)
      intro o ho
      exact absurd (show o ∈ s.outputs from ho) (by simp [hnil])
  | fragmentOut =>
      simp only [Kind.supplies, decide_eq_true_eq] at hsupplies
      have hnil : s.outputs = [] := List.length_eq_zero_iff.mp (by rw [hout, hsupplies]; rfl)
      intro o ho
      exact absurd (show o ∈ s.outputs from ho) (by simp [hnil])
  | template t => exact absurd hsupplies (by simp [Kind.supplies])

/-- What is clean after evaluation was clean before: no kind of the catalogue takes a problem back. -/
theorem NodeState.IsClean.of_evaluate {k : Kind} (hk : k.isTemplate = false) {stage : Stage}
    (h : (k.evaluate stage s).state.IsClean) : s.IsClean := by
  have hnotGen : Kind.appendNotGen ≠ "" := by decide
  have htooWide : Kind.appendTooWide ≠ "" := by decide
  cases k with
  | scalar | vector | parameter | globalVar | bridge | vertexOut | fragmentOut => exact h
  | binaryOp | transform | call | sample | makeVec =>
      simp only [Kind.evaluate] at h
      split at h <;> exact h
  | breakVec n =>
      have hsame : ∀ (l : List (String × Nat)) (s' : NodeState C),
          (l.foldl (fun s' x => if (s.input 0).isValid
            then s'.setCode x.2 (Code.select (s.input 0).code x.1)
            else s'.set x.2 (.literal .zero)) s').inputs = s'.inputs := by
        intro l
        induction l with
        | nil => exact fun _ => rfl
        | cons x rest ih =>
            intro s'
            rw [List.foldl_cons, ih]
            split <;> rfl
      intro slot hslot
      exact h slot ((hsame _ s).symm ▸ hslot)
  | append =>
      simp only [Kind.evaluate] at h
      split at h
      · exact h
      · split at h
        · exact (h.of_fail hnotGen).1
        · exact (h.of_fail hnotGen).1
        · split at h
          · exact ((h.of_fail htooWide).1.of_fail htooWide).1
          · exact h
  | template t => exact absurd hk (by simp [Kind.isTemplate])

end Outputs

end NodeShader
