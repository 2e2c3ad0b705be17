import NodeShader.Proofs.Node.Builtin
import NodeShader.Proofs.Source.Rules

/-!
# Evaluation keeps types

A node resolves its inputs to one of the signatures of its archetype and builds its outputs from
them. When every value at its inputs has the type it carries, every value at its outputs has, and
what the ends of the stages assign are colours and positions of four components. The argument does
not depend on what code is: it holds of every judgement that follows the rules (`Judges`), and what
operators make of operands may be judged by another one (`Combines`).

`Archetype.signatures` lists the signatures with their generic slots filled in. `Kind.Fits` says what
a kind needs of a signature to be evaluated by the rules; that every built-in kind fits every
signature of its archetype is checked entry by entry.
-/

namespace NodeShader

variable {C : Type} [Code C] {J K : C → Ty → Prop}

/-! ## Values -/

namespace Value

/-- A value, unless it is null, is code of the type it carries. -/
def Typed (J : C → Ty → Prop) (v : Value C) : Prop := v.isValid = true → J v.code v.ty

omit [Code C] in
theorem Typed.mono (hJK : ∀ x t, J x t → K x t) {v : Value C} (h : v.Typed J) : v.Typed K :=
  fun hvalid => hJK _ _ (h hvalid)

theorem isValid_null : (null : Value C).isValid = false := rfl

theorem typed_null : (null : Value C).Typed J := fun h => absurd h (by simp [isValid_null])

theorem typed_literal (hJ : Judges J) (f : Number.Single) : (literal f : Value C).Typed J :=
  fun _ => hJ.literal f

/-- A float repeated in every component makes a vector. -/
theorem judges_broadcast (hJ : Judges J) {x : C} (hx : J x .float) {t : Ty}
    (ht : t = .vec2 ∨ t = .vec3 ∨ t = .vec4) :
    ∃ n, t = .gen n ∧ J (Code.apply t.text (List.replicate n.toNat x)) t := by
  have hrepeat : ∀ n : Nat, List.Forall₂ J (List.replicate n x) (List.replicate n .float) :=
    forall₂_replicate hx
  rcases ht with rfl | rfl | rfl
  · exact ⟨2, rfl, hJ.apply _ _ _ _ (by decide) (hrepeat 2)⟩
  · exact ⟨3, rfl, hJ.apply _ _ _ _ (by decide) (hrepeat 3)⟩
  · exact ⟨4, rfl, hJ.apply _ _ _ _ (by decide) (hrepeat 4)⟩

theorem Typed.convert (hJ : Judges J) {v : Value C} (hv : v.Typed J) (t : Ty) :
    (v.convert t).Typed J := by
  unfold Value.convert
  split
  · rename_i hconv
    simp only [Bool.and_eq_true] at hconv
    split
    · exact hv
    · rename_i hne
      obtain ⟨hfloat, hcases⟩ := Ty.converts_cases hconv.2 hne
      obtain ⟨n, rfl, hcode⟩ := judges_broadcast hJ (hfloat ▸ hv hconv.1) hcases
      intro _
      simpa [Value.compose] using hcode
  · exact typed_null

theorem ty_convert {v : Value C} {t : Ty} (h : (v.convert t).isValid = true) :
    (v.convert t).ty = t := by
  unfold Value.convert at h ⊢
  by_cases hconv : (v.isValid && v.ty.converts t) = true
  · by_cases heq : v.ty = t
    · rw [if_pos hconv, if_pos heq]
      exact heq
    · rw [if_pos hconv, if_neg heq] at h ⊢
      split at h
      · rfl
      · exact absurd h (by simp [isValid_null])
  · rw [if_neg hconv] at h
    exact absurd h (by simp [isValid_null])

/-- A conversion that is allowed gives a value. -/
theorem isValid_convert {v : Value C} {t : Ty} (hv : v.isValid = true)
    (hconv : v.ty.converts t = true) : (v.convert t).isValid = true := by
  unfold Value.convert
  simp only [hv, hconv, Bool.and_self, if_true]
  split
  · exact hv
  · rename_i hne
    obtain ⟨-, rfl | rfl | rfl⟩ := Ty.converts_cases hconv hne <;> rfl

theorem typed_splat (hJ : Judges J) (f : Number.Single) (t : Ty) : (splat f t : Value C).Typed J :=
  (typed_literal hJ f).convert hJ t

theorem isValid_splat (f : Number.Single) {t : Ty} (hgen : t.isGen = true)
    (ht : t ∈ properTypes) : (splat f t : Value C).isValid = true := by
  refine isValid_convert rfl ?_
  simp only [properTypes, List.mem_cons, List.not_mem_nil, or_false] at ht
  rcases ht with rfl | rfl | rfl | rfl | rfl | rfl | rfl
  · rfl
  · rfl
  · rfl
  · rfl
  all_goals exact absurd hgen (by decide)

end Value

/-! ## Signatures -/

/-- The arities of scalars and vectors. -/
def arities : List UInt8 := [1, 2, 3, 4]

/-- The signatures of an archetype with generic slots filled in: the types of inputs and outputs. -/
def Archetype.signatures (a : Archetype) : List (List Ty × List Ty) :=
  if a.overloads.isEmpty then [(a.inputs.map InputPin.ty, a.outputs.map OutputPin.ty)]
  else a.overloads.flatMap fun o => arities.map fun n =>
    (o.inputs.map (Resolve.substitute · n), o.outputs.map (Resolve.substitute · n))

/-- Every signature has the pins of the archetype, and its inputs are of proper types. -/
def Archetype.isRegular (a : Archetype) : Bool :=
  a.overloads.all fun o =>
    o.inputs.length = a.inputs.length && o.outputs.length = a.outputs.length &&
      o.inputs.all fun t => arities.all fun n => properTypes.contains (Resolve.substitute t n)

/-- An input after resolving, at the type that the signature gives it. Where a signature was chosen
(`strict`), a scalar or vector that needs no link has a value. -/
structure InputSlot.Resolved (J : C → Ty → Prop) (strict : Bool) (slot : InputSlot C) (t : Ty) :
    Prop where
  typed : slot.value.Typed J
  ty : t.isValid = true → slot.value.isValid = true → slot.value.ty = t
  filled : strict = true → slot.requireLink = false → t.isGen = true → slot.value.isValid = true

/-- A state after resolving: inputs as the signature says, outputs of the types it says and without
values. -/
structure NodeState.Resolved (J : C → Ty → Prop) (strict : Bool) (s : NodeState C)
    (signature : List Ty × List Ty) : Prop where
  inputs : List.Forall₂ (InputSlot.Resolved J strict) s.inputs signature.1
  outputs : List.Forall₂ (fun o t => o.ty = t ∧ o.value = .null) s.outputs signature.2

/-- A state before resolving: the pins of the archetype, and outputs without values. -/
structure NodeState.Laid (a : Archetype) (s : NodeState C) : Prop where
  inputs : List.Forall₂ (fun slot pin => slot.declared = pin.ty ∧ slot.requireLink = pin.requireLink)
    s.inputs a.inputs
  outputs : List.Forall₂ (fun o pin => o.declared = pin.ty ∧ o.value = .null) s.outputs a.outputs

/-! ## Resolving -/

namespace Resolve

theorem inferArity_mem (hJ : Judges J) {values : List (Value C)} (h : ∀ v ∈ values, v.Typed J)
    (slots : List Ty) : inferArity slots values ∈ arities := by
  have hone : (1 : UInt8) ∈ arities := by decide
  induction values generalizing slots with
  | nil => cases slots <;> exact hone
  | cons v rest ih =>
      have hrest := ih fun w hw => h w (List.mem_cons_of_mem _ hw)
      cases slots with
      | nil => exact hone
      | cons slot slots =>
          rw [inferArity]
          split
          · exact hrest slots
          · rename_i hused
            simp only [Bool.or_eq_true, Bool.not_eq_eq_eq_not, Bool.not_true, not_or,
              Bool.not_eq_false] at hused
            split
            · rename_i n hn
              have hty : v.ty = .gen n := by
                cases hv : v.ty <;> simp [hv, Ty.arity?] at hn
                rw [hn]
              have hproper := hJ.proper _ _ (h v (by simp) hused.2)
              rw [hty] at hproper
              exact arity_of_proper hproper
            · exact hrest slots

omit [Code C] in
theorem choose_spec {values : List (Value C)} {os : List Overload} {i j : Nat} {o : Overload}
    {n : UInt8} (h : choose values i os = some (j, o, n)) :
    o ∈ os ∧ n = inferArity o.inputs values ∧ accepts n o.inputs values = true := by
  induction os generalizing i with
  | nil => exact absurd h (by simp [choose])
  | cons first rest ih =>
      simp only [choose] at h
      split at h
      · rename_i haccepts
        cases h
        exact ⟨by simp, rfl, haccepts⟩
      · obtain ⟨hmem, hn, haccepts⟩ := ih h
        exact ⟨List.mem_cons_of_mem _ hmem, hn, haccepts⟩

theorem typed_defaultValue (hJ : Judges J) (k : Kind) (i : Nat) (requireLink : Bool) (t : Ty) :
    (defaultValue k i requireLink t : Value C).Typed J := by
  unfold defaultValue
  split
  · exact Value.typed_null
  · exact Value.typed_splat hJ _ t

theorem ty_defaultValue {k : Kind} {i : Nat} {requireLink : Bool} {t : Ty}
    (h : (defaultValue k i requireLink t : Value C).isValid = true) :
    (defaultValue k i requireLink t : Value C).ty = t := by
  unfold defaultValue at h ⊢
  split at h
  · exact absurd h (by simp [Value.isValid_null])
  · rename_i hneeds
    rw [if_neg hneeds]
    exact Value.ty_convert h

theorem declaredInput_resolved (hJ : Judges J) (k : Kind) (i : Nat) {slot : InputSlot C}
    (h : slot.value.Typed J) :
    (declaredInput k i slot).Resolved J false slot.declared := by
  unfold declaredInput
  split
  · exact ⟨typed_defaultValue hJ _ _ _ _, fun _ hvalid => ty_defaultValue hvalid, by simp⟩
  · split
    · rename_i hnone
      exact ⟨h, fun hsome => absurd hsome (by simpa using hnone), by simp⟩
    · split
      · exact ⟨h.convert hJ _, fun _ hvalid => Value.ty_convert hvalid, by simp⟩
      · exact ⟨Value.typed_null, fun _ hvalid => absurd hvalid (by simp [Value.isValid_null]),
          by simp⟩

theorem applyInput_resolved (hJ : Judges J) (k : Kind) (n : UInt8) (i : Nat) {slot : InputSlot C}
    (h : slot.value.Typed J) {t : Ty}
    (haccepts : slot.value.isValid = true → slot.value.ty.converts (substitute t n) = true)
    (ht : substitute t n ∈ properTypes) :
    (applyInput k n i slot t).Resolved J true (substitute t n) := by
  by_cases hvalid : slot.value.isValid = true
  · simp only [applyInput, hvalid, if_true]
    exact ⟨h.convert hJ _, fun _ hv => Value.ty_convert hv,
      fun _ _ _ => Value.isValid_convert hvalid (haccepts hvalid)⟩
  · simp only [applyInput, hvalid, if_false, Bool.false_eq_true]
    refine ⟨typed_defaultValue hJ _ _ _ _, fun _ hv => ty_defaultValue hv, ?_⟩
    intro _ hlink hgen
    dsimp only at hlink ⊢
    simp only [defaultValue, hlink, hgen, Bool.not_true, Bool.or_self, Bool.false_eq_true, if_false]
    exact Value.isValid_splat _ hgen ht

theorem applyInputs_resolved (hJ : Judges J) (k : Kind) (n : UInt8) (slots : List (InputSlot C)) :
    ∀ (i : Nat) (ts : List Ty), ts.length = slots.length →
      (∀ slot ∈ slots, slot.value.Typed J) →
      accepts n ts (slots.map InputSlot.value) = true →
      (∀ t ∈ ts, substitute t n ∈ properTypes) →
      List.Forall₂ (InputSlot.Resolved J true) (applyInputs k n i slots ts)
        (ts.map (substitute · n)) := by
  induction slots with
  | nil =>
      intro i ts hlen _ _ _
      rw [List.length_nil, List.length_eq_zero_iff] at hlen
      subst hlen
      exact .nil
  | cons slot rest ih =>
      intro i ts hlen htyped haccepts hproper
      cases ts with
      | nil => exact absurd hlen (by simp)
      | cons t ts =>
          simp only [List.map_cons, accepts, Bool.and_eq_true, Bool.or_eq_true,
            Bool.not_eq_eq_eq_not, Bool.not_true] at haccepts
          refine .cons (applyInput_resolved hJ k n i (htyped slot (by simp)) ?_
            (hproper t (by simp))) ?_
          · intro hvalid
            exact haccepts.1.resolve_left (by simp [hvalid])
          · exact ih (i + 1) ts (by simpa using hlen)
              (fun s hs => htyped s (List.mem_cons_of_mem _ hs)) haccepts.2
              fun t ht => hproper t (List.mem_cons_of_mem _ ht)

theorem applyOutputs_resolved (n : UInt8) (os : List (OutputSlot C)) :
    ∀ ts : List Ty, ts.length = os.length → (∀ o ∈ os, o.value = .null) →
      List.Forall₂ (fun o t => o.ty = t ∧ o.value = .null) (applyOutputs n os ts)
        (ts.map (substitute · n)) := by
  induction os with
  | nil =>
      intro ts hlen _
      rw [List.length_nil, List.length_eq_zero_iff] at hlen
      subst hlen
      exact .nil
  | cons o rest ih =>
      intro ts hlen hnull
      cases ts with
      | nil => exact absurd hlen (by simp)
      | cons t ts =>
          exact .cons ⟨rfl, hnull o (by simp)⟩ (ih ts (by simpa using hlen)
            fun o ho => hnull o (List.mem_cons_of_mem _ ho))

end Resolve

omit [Code C] in
/-- Changing the slots of one side by position keeps lists in step. -/
theorem forall₂_mapIdx_left {α β γ : Type} {R : α → β → Prop} {S : γ → β → Prop} {f : Nat → α → γ}
    (hf : ∀ i a b, R a b → S (f i a) b) {l : List α} {l' : List β} (h : List.Forall₂ R l l') :
    List.Forall₂ S (l.mapIdx f) l' := by
  induction h generalizing f with
  | nil => exact .nil
  | cons hab _ ih =>
      rw [List.mapIdx_cons]
      exact .cons (hf 0 _ _ hab) (ih fun i => hf (i + 1))

theorem Resolve.requireLink_declaredInput (k : Kind) (i : Nat) (slot : InputSlot C) :
    (declaredInput k i slot).requireLink = slot.requireLink := by
  unfold declaredInput
  split
  · rfl
  · split
    · rfl
    · split <;> rfl

theorem Resolve.requireLink_applyInputs (k : Kind) (n : UInt8) {pins : List InputPin}
    {slots : List (InputSlot C)}
    (h : List.Forall₂ (fun slot pin => slot.requireLink = pin.requireLink) slots pins) (i : Nat)
    (ts : List Ty) :
    List.Forall₂ (fun (slot : InputSlot C) (pin : InputPin) => slot.requireLink = pin.requireLink)
      (applyInputs k n i slots ts) pins := by
  induction h generalizing i ts with
  | nil => cases ts <;> exact .nil
  | cons hslot hrest ih =>
      cases ts with
      | nil => exact .cons hslot hrest
      | cons t ts => exact .cons hslot (ih (i + 1) ts)

/-- A state that resolves has the types of one of the signatures. -/
theorem NodeState.Laid.resolve (hJ : Judges J) {a : Archetype} {s s' : NodeState C} (h : s.Laid a)
    (ha : a.isRegular = true) {k : Kind} (htyped : ∀ slot ∈ s.inputs, slot.value.Typed J)
    (hs : s.resolve a k = (true, s')) :
    ∃ signature ∈ a.signatures, s'.Resolved J (!a.overloads.isEmpty) signature ∧
      List.Forall₂ (fun slot pin => slot.requireLink = pin.requireLink) s'.inputs a.inputs := by
  unfold NodeState.resolve at hs
  split at hs
  · rename_i hempty
    cases hs
    refine ⟨(a.inputs.map InputPin.ty, a.outputs.map OutputPin.ty),
      by simp [Archetype.signatures, hempty], ⟨?_, ?_⟩, ?_⟩
    · have hslots := (List.forall₂_and_left _ _).mpr ⟨htyped, h.inputs⟩
      refine List.forall₂_map_right_iff.mpr (forall₂_mapIdx_left ?_ hslots)
      rintro i slot pin ⟨hslot, hty, -⟩
      have hresolved := Resolve.declaredInput_resolved hJ k i hslot
      rw [hty] at hresolved
      simpa [hempty] using hresolved
    · refine List.forall₂_map_left_iff.mpr (List.forall₂_map_right_iff.mpr (h.outputs.imp ?_))
      exact fun o pin ho => ⟨ho.1, ho.2⟩
    · refine forall₂_mapIdx_left ?_ h.inputs
      intro i slot pin hslot
      rw [Resolve.requireLink_declaredInput]
      exact hslot.2
  · rename_i hempty
    split at hs
    · rename_i j o n hchoose
      cases hs
      obtain ⟨hmem, hn, haccepts⟩ := Resolve.choose_spec hchoose
      have hvalues : ∀ v ∈ s.values, v.Typed J := by
        intro v hv
        obtain ⟨slot, hslot, rfl⟩ := List.mem_map.mp hv
        exact htyped slot hslot
      have hn' : n ∈ arities := hn ▸ Resolve.inferArity_mem hJ hvalues _
      have hregular := List.all_eq_true.mp ha o hmem
      simp only [Bool.and_eq_true, decide_eq_true_eq, List.all_eq_true, List.contains_iff_mem]
        at hregular
      obtain ⟨⟨hlenIn, hlenOut⟩, hproper⟩ := hregular
      refine ⟨(o.inputs.map (Resolve.substitute · n), o.outputs.map (Resolve.substitute · n)), ?_,
        ⟨?_, ?_⟩, ?_⟩
      · simp only [Archetype.signatures, hempty, if_false, List.mem_flatMap, List.mem_map,
          Bool.false_eq_true]
        exact ⟨o, hmem, n, hn', rfl⟩
      · have hstrict : (!a.overloads.isEmpty) = true := by simpa using hempty
        rw [hstrict]
        exact Resolve.applyInputs_resolved hJ k n s.inputs 0 o.inputs
          (hlenIn.trans h.inputs.length_eq.symm) htyped haccepts fun t ht => hproper t ht n hn'
      · refine Resolve.applyOutputs_resolved n s.outputs o.outputs
          (hlenOut.trans h.outputs.length_eq.symm) ?_
        exact ((List.forall₂_and_left _ _).mp (h.outputs.imp fun o pin ho => ⟨ho.2, ho.1⟩)).1
      · exact Resolve.requireLink_applyInputs k n (h.inputs.imp fun _ _ hslot => hslot.2) 0 _
    · exact absurd hs (by simp)

/-! ## What kinds need -/

/-- Can nodes of the kind be evaluated by the rules when their pins have the types of the
signature? -/
def Kind.fits (k : Kind) (a : Archetype) (signature : List Ty × List Ty) : Bool :=
  match k with
  | .scalar _ | .parameter _ | .append | .bridge => true
  | .vector values => values.length ∈ [2, 3, 4]
  | .globalVar value declaration =>
    pipelineType? value.code = some value.ty ||
      declaration = uniformText value.ty.text value.code && properTypes.contains value.ty
  | .binaryOp operator _ =>
    match signature with
    | ([x, y], [z]) => x.isValid && y.isValid && binaryType? operator x y = some z
    | _ => false
  | .transform =>
    match signature with
    | ([m, v], [z]) =>
      m.isValid && v.isGen && binaryType? "*" m v = some z && !a.overloads.isEmpty &&
        a.inputs.map InputPin.requireLink = [true, false]
    | _ => false
  | .call function _ =>
    match signature with
    | (args, [z]) => args.all Ty.isValid && applyType? function args = some z
    | _ => false
  | .sample => signature = ([.sampler, .vec2], [.vec4])
  | .makeVec n _ => n ∈ [(2 : UInt8), 3, 4] && signature.1 = List.replicate n.toNat .float
  | .breakVec n => n ∈ [(2 : UInt8), 3, 4] && signature = ([.gen n], List.replicate n.toNat .float)
  | .vertexOut _ => signature.1 = [.vec3, .float]
  | .fragmentOut => signature.1 = [.vec4]
  | .template _ => false

/-- Every built-in kind fits every signature of its archetype. -/
theorem Catalogue.fits_of_mem :
    ∀ e ∈ registrations, e.archetype.isRegular = true ∧
      ∀ signature ∈ e.archetype.signatures, e.initial.fits e.archetype signature = true := by
  decide +kernel

theorem Kind.Variant.fits {k k' : Kind} (h : k.Variant k') (a : Archetype)
    (signature : List Ty × List Ty) : k'.fits a signature = k.fits a signature := by
  cases h with
  | vector hlen => simp only [Kind.fits, hlen]
  | _ => rfl

/-! ## Evaluating -/

namespace NodeState

/-- Every output has the type it carries. -/
def OutputsTyped (J : C → Ty → Prop) (s : NodeState C) : Prop := ∀ o ∈ s.outputs, o.value.Typed J

omit [Code C] in
theorem mem_outputs_mapOutput {s : NodeState C} {i : Nat} {f : OutputSlot C → OutputSlot C}
    {o : OutputSlot C} (h : o ∈ (s.mapOutput i f).outputs) :
    o ∈ s.outputs ∨ ∃ o', s.outputs[i]? = some o' ∧ o = f o' := by
  obtain ⟨j, hj⟩ := List.mem_iff_getElem?.mp h
  simp only [mapOutput, List.getElem?_modify] at hj
  cases ho : s.outputs[j]? with
  | none => simp [ho] at hj
  | some o' =>
      by_cases hij : i = j
      · subst hij
        simp only [ho, if_true, Option.map_eq_map, Option.map_some, Option.some.injEq] at hj
        exact .inr ⟨o', ho, hj.symm⟩
      · simp only [ho, hij, if_false, Option.map_eq_map, Option.map_some, Option.some.injEq] at hj
        exact .inl (hj ▸ List.mem_of_getElem? ho)

omit [Code C] in
theorem OutputsTyped.set {s : NodeState C} (h : s.OutputsTyped J) (i : Nat) {v : Value C}
    (hv : v.Typed J) : (s.set i v).OutputsTyped J := by
  intro o ho
  rcases mem_outputs_mapOutput ho with ho | ⟨o', -, rfl⟩
  · exact h o ho
  · exact hv

omit [Code C] in
theorem OutputsTyped.setCode {s : NodeState C} (h : s.OutputsTyped J) (i : Nat) {x : C}
    (hx : ∀ o, s.outputs[i]? = some o → J x o.ty) : (s.setCode i x).OutputsTyped J := by
  intro o ho
  rcases mem_outputs_mapOutput ho with ho | ⟨o', ho', rfl⟩
  · exact h o ho
  · exact fun _ => hx o' ho'

variable {strict : Bool} {s : NodeState C} {signature : List Ty × List Ty}

theorem Resolved.outputsTyped (h : s.Resolved J strict signature) : s.OutputsTyped K := by
  have hnull := ((List.forall₂_and_left _ _).mp (h.outputs.imp fun _ _ ho => ⟨ho.2, ho.1⟩)).1
  intro o ho
  rw [hnull o ho]
  exact Value.typed_null

theorem Resolved.typed_input (h : s.Resolved J strict signature) (i : Nat) : (s.input i).Typed J := by
  have htyped := ((List.forall₂_and_left (p := fun slot => slot.value.Typed J) _ _).mp
    (h.inputs.imp fun _ _ hslot => ⟨hslot.typed, hslot⟩)).1
  unfold NodeState.input
  cases hslot : s.inputs[i]? with
  | none => exact Value.typed_null
  | some slot => exact htyped slot (List.mem_of_getElem? hslot)

/-- The slot at a place of the signature. -/
theorem Resolved.slot (h : s.Resolved J strict signature) {i : Nat} {t : Ty}
    (ht : signature.1[i]? = some t) :
    ∃ slot, s.inputs[i]? = some slot ∧ slot.Resolved J strict t ∧ s.input i = slot.value := by
  have hi := (List.getElem?_eq_some_iff.mp ht).1
  have hi' : i < s.inputs.length := h.inputs.length_eq ▸ hi
  have hslot := (List.forall₂_iff_get.mp h.inputs).2 i hi' hi
  simp only [List.get_eq_getElem] at hslot
  rw [List.getElem?_eq_getElem hi, Option.some.injEq] at ht
  rw [ht] at hslot
  refine ⟨s.inputs[i], List.getElem?_eq_getElem hi', hslot, ?_⟩
  simp [NodeState.input, List.getElem?_eq_getElem hi']

/-- A value at an input with a type of its own. -/
theorem Resolved.judges_input (h : s.Resolved J strict signature) {i : Nat} {t : Ty}
    (ht : signature.1[i]? = some t) (hvalid : t.isValid = true)
    (hv : (s.input i).isValid = true) : J (s.input i).code t := by
  obtain ⟨slot, -, hslot, heq⟩ := h.slot ht
  rw [heq] at hv ⊢
  have hty := hslot.ty hvalid hv
  exact hty ▸ hslot.typed hv

/-- A value at an input, or else one that is given. -/
theorem Resolved.judges_orElse (h : s.Resolved J strict signature) {i : Nat} {t : Ty}
    (ht : signature.1[i]? = some t) (hvalid : t.isValid = true) {w : Value C} (hw : J w.code t) :
    J (Kind.orElse (s.input i) w).code t := by
  unfold Kind.orElse
  split
  · rename_i hv
    exact h.judges_input ht hvalid hv
  · exact hw

theorem Resolved.output (h : s.Resolved J strict signature) {i : Nat} {t : Ty}
    (ht : signature.2[i]? = some t) : ∀ o, s.outputs[i]? = some o → o.ty = t := by
  intro o ho
  have hi := (List.getElem?_eq_some_iff.mp ht).1
  have hi' : i < s.outputs.length := h.outputs.length_eq ▸ hi
  have hslot := (List.forall₂_iff_get.mp h.outputs).2 i hi' hi
  simp only [List.get_eq_getElem] at hslot
  rw [List.getElem?_eq_getElem hi, Option.some.injEq] at ht
  rw [List.getElem?_eq_getElem hi', Option.some.injEq] at ho
  rw [← ho, ← ht]
  exact hslot.1

end NodeState

section Evaluation

variable {strict : Bool} {s : NodeState C} {signature : List Ty × List Ty}

/-! ### Judgements about the code of outputs -/

/-- Two values side by side. -/
theorem judges_append (hJ : Judges J) {x y : C} {m n : UInt8} (hx : J x (.gen m)) (hy : J y (.gen n))
    (hfit : ¬ 4 < m + n) : J (Code.apply (Ty.gen (m + n)).text [x, y]) (.gen (m + n)) := by
  have hall : (arities.all fun m => arities.all fun n => 4 < m + n ||
      applyType? (Ty.gen (m + n)).text [.gen m, .gen n] == some (.gen (m + n))) = true := by decide
  have hm := arity_of_proper (hJ.proper _ _ hx)
  have hn := arity_of_proper (hJ.proper _ _ hy)
  have htype : applyType? (Ty.gen (m + n)).text [.gen m, .gen n] = some (.gen (m + n)) := by
    simpa [hfit] using List.all_eq_true.mp (List.all_eq_true.mp hall m hm) n hn
  exact hJ.apply _ _ _ _ htype (.cons hx (.cons hy .nil))

/-- Literals side by side. -/
theorem judges_vector (hJ : Judges J) {fs : List Number.Single} (hlen : fs.length ∈ [2, 3, 4]) :
    J (Code.apply (Ty.gen (UInt8.ofNat fs.length)).text
      ((fs.map Value.literal).map fun v : Value C => v.code)) (.gen (UInt8.ofNat fs.length)) := by
  have hargs : List.Forall₂ J ((fs.map Value.literal).map fun v : Value C => v.code)
      (List.replicate fs.length .float) := by
    clear hlen
    induction fs with
    | nil => exact .nil
    | cons f rest ih => exact .cons (hJ.literal f) ih
  have hall : ∀ n ∈ [2, 3, 4], applyType? (Ty.gen (UInt8.ofNat n)).text (List.replicate n .float) =
      some (.gen (UInt8.ofNat n)) := by decide
  exact hJ.apply _ _ _ _ (hall _ hlen) hargs

omit [Code C] in
/-- Valid inputs are the arguments of a call. -/
theorem judges_inputs {slots : List (InputSlot C)} {ts : List Ty}
    (h : List.Forall₂ (InputSlot.Resolved J strict) slots ts)
    (hvalid : ∀ slot ∈ slots, slot.value.isValid = true) (hts : ∀ t ∈ ts, t.isValid = true) :
    List.Forall₂ J (slots.map (·.value.code)) ts := by
  induction h with
  | nil => exact .nil
  | @cons slot t _ _ hslot _ ih =>
      have hv := hvalid slot (by simp)
      have hcode := hslot.typed hv
      rw [hslot.ty (hts t (by simp)) hv] at hcode
      exact .cons hcode (ih (fun s hs => hvalid s (List.mem_cons_of_mem _ hs))
        fun t ht => hts t (List.mem_cons_of_mem _ ht))

/-- Floats side by side make a vector. -/
theorem judges_makeVec (hJ : Judges J) {n : UInt8} (hn : n ∈ [(2 : UInt8), 3, 4])
    (hsig : signature.1 = List.replicate n.toNat .float) (h : s.Resolved J strict signature) :
    J (Code.apply (Ty.gen n).text
      ((List.range n.toNat).map fun i => (Kind.orElse (s.input i) (.literal .zero)).code))
      (.gen n) := by
  have hargs : List.Forall₂ J
      ((List.range n.toNat).map fun i => (Kind.orElse (s.input i) (.literal .zero)).code)
      ((List.range n.toNat).map fun _ => Ty.float) := by
    refine List.forall₂_map_left_iff.mpr (List.forall₂_map_right_iff.mpr
      (List.forall₂_same.mpr fun i hi => ?_))
    have hlt : i < n.toNat := List.mem_range.mp hi
    exact h.judges_orElse (by rw [hsig]; simp [hlt]) rfl (hJ.literal .zero)
  simp only [List.mem_cons, List.not_mem_nil, or_false] at hn
  rcases hn with rfl | rfl | rfl <;> exact hJ.apply _ _ _ _ (by decide) hargs

/-! ### Outputs kind by kind -/

theorem outputsTyped_binaryOp {operator : String} {edited : List Number.Single}
    (hK : Combines (.binaryOp operator edited) J K) {x y z : Ty} (hx : x.isValid = true)
    (hy : y.isValid = true) (hz : binaryType? operator x y = some z)
    (h : s.Resolved J strict ([x, y], [z])) (stage : Stage) :
    ((Kind.binaryOp operator edited).evaluate stage s).state.OutputsTyped K := by
  simp only [Kind.evaluate]
  split
  · rename_i hvalid
    simp only [Bool.and_eq_true] at hvalid
    refine h.outputsTyped.setCode 0 fun o ho => ?_
    rw [h.output rfl o ho]
    exact hK.binary _ (by simp [Kind.operators]) _ _ _ _ _ hz (h.judges_input rfl hx hvalid.1)
      (h.judges_input rfl hy hvalid.2)
  · exact h.outputsTyped

/-- Without a matrix the vector is passed on; it has a default, so there is one whenever there is a
matrix. -/
theorem outputsTyped_transform (hK : Combines .transform J K) {m v z : Ty} (hm : m.isValid = true)
    (hv : v.isGen = true) (hz : binaryType? "*" m v = some z) {pins : List InputPin}
    (hrequire : pins.map InputPin.requireLink = [true, false])
    (hlinks : List.Forall₂ (fun slot pin => slot.requireLink = pin.requireLink) s.inputs pins)
    (h : s.Resolved J true ([m, v], [z])) (stage : Stage) :
    (Kind.transform.evaluate stage s).state.OutputsTyped K := by
  simp only [Kind.evaluate]
  split
  · rename_i hmatrix
    have hvector : (s.input 1).isValid = true := by
      obtain ⟨slot, hslot, hresolved, heq⟩ := h.slot (i := 1) rfl
      have hlink : slot.requireLink = false := by
        have hmap : s.inputs.map InputSlot.requireLink = pins.map InputPin.requireLink :=
          List.forall₂_eq_eq_eq ▸
            List.forall₂_map_left_iff.mpr (List.forall₂_map_right_iff.mpr hlinks)
        have hone := congrArg (fun l => l[1]?) (hmap.trans hrequire)
        simpa [hslot] using hone
      rw [heq]
      exact hresolved.filled rfl hlink hv
    have hgen : v.isValid = true := by
      cases v <;> first | rfl | exact absurd hv (by simp [Ty.isGen])
    refine h.outputsTyped.setCode 0 fun o ho => ?_
    rw [h.output rfl o ho]
    exact hK.binary _ (by simp [Kind.operators]) _ _ _ _ _ hz (h.judges_input rfl hm hmatrix)
      (h.judges_input rfl hgen hvector)
  · exact h.outputsTyped.set 0 ((h.typed_input 1).mono hK.weaken)

theorem outputsTyped_call (hJ : Judges J) {function : String} {edited : List Number.Single}
    {args : List Ty} {z : Ty} (hargs : ∀ t ∈ args, t.isValid = true)
    (hz : applyType? function args = some z) (h : s.Resolved J strict (args, [z])) (stage : Stage) :
    ((Kind.call function edited).evaluate stage s).state.OutputsTyped J := by
  simp only [Kind.evaluate]
  split
  · rename_i hvalid
    refine h.outputsTyped.setCode 0 fun o ho => ?_
    rw [h.output rfl o ho]
    exact hJ.apply _ _ _ _ hz (judges_inputs h.inputs (List.all_eq_true.mp hvalid) hargs)
  · exact h.outputsTyped

theorem outputsTyped_sample (hJ : Judges J) (h : s.Resolved J strict ([.sampler, .vec2], [.vec4]))
    (stage : Stage) : (Kind.sample.evaluate stage s).state.OutputsTyped J := by
  simp only [Kind.evaluate]
  split
  · rename_i htexture
    refine h.outputsTyped.setCode 0 fun o ho => ?_
    rw [h.output rfl o ho]
    refine hJ.apply _ _ [.sampler, .vec2] _ (by decide) (.cons ?_ (.cons ?_ .nil))
    · exact h.judges_input rfl rfl htexture
    · exact h.judges_orElse rfl rfl (hJ.pipeline _ _ (by decide))
  · exact h.outputsTyped.set 0 (Value.typed_splat hJ _ _)

theorem outputsTyped_makeVec (hJ : Judges J) {n : UInt8} {edited : List Number.Single}
    (hn : n ∈ [(2 : UInt8), 3, 4]) (hsig : signature.1 = List.replicate n.toNat .float)
    (h : s.Resolved J strict signature) (stage : Stage) :
    ((Kind.makeVec n edited).evaluate stage s).state.OutputsTyped J := by
  simp only [Kind.evaluate]
  split
  · exact h.outputsTyped.set 0 ((h.typed_input 0).convert hJ _)
  · refine h.outputsTyped.set 0 fun _ => ?_
    simp only [Value.compose, List.map_map]
    exact judges_makeVec hJ hn hsig h

/-- Splitting a vector gives floats. -/
theorem outputsTyped_breakVec (hJ : Judges J) {n : UInt8} (hn : n ∈ [(2 : UInt8), 3, 4])
    (h : s.Resolved J strict ([.gen n], List.replicate n.toNat .float)) (stage : Stage) :
    ((Kind.breakVec n).evaluate stage s).state.OutputsTyped J := by
  have hfloat : ∀ o ∈ s.outputs, o.ty = .float := by
    intro o ho
    obtain ⟨i, hi⟩ := List.mem_iff_getElem?.mp ho
    have hlt : i < n.toNat := by
      have hlen := h.outputs.length_eq
      rw [List.length_replicate] at hlen
      exact hlen ▸ (List.getElem?_eq_some_iff.mp hi).1
    exact h.output (by simp [hlt]) o hi
  have hletters : ∀ letter ∈ Kind.swizzles.take n.toNat,
      letter ∈ Kind.swizzles ∧ selectType? (.gen n) letter = some .float := by
    simp only [List.mem_cons, List.not_mem_nil, or_false] at hn
    rcases hn with rfl | rfl | rfl <;> decide
  -- all outputs are floats, and stay so while they are set one after the other
  have hfold : ∀ (l : List (String × Nat)) (s' : NodeState C),
      (∀ x ∈ l, x.1 ∈ Kind.swizzles.take n.toNat) → s'.OutputsTyped J →
      (∀ o ∈ s'.outputs, o.ty = .float) →
      (l.foldl (fun s' (x : String × Nat) =>
        if (s.input 0).isValid then s'.setCode x.2 (Code.select (s.input 0).code x.1)
        else s'.set x.2 (.literal .zero)) s').OutputsTyped J := by
    intro l
    induction l with
    | nil => exact fun _ _ ht _ => ht
    | cons x rest ih =>
        intro s' hl ht hf
        rw [List.foldl_cons]
        refine ih _ (fun y hy => hl y (List.mem_cons_of_mem _ hy)) ?_ ?_
        · split
          · rename_i hv
            obtain ⟨hmem, hselect⟩ := hletters x.1 (hl x (by simp))
            refine ht.setCode x.2 fun o ho => ?_
            rw [hf o (List.mem_of_getElem? ho)]
            refine hJ.select _ _ _ _ hmem hselect (h.judges_input rfl rfl hv)
          · exact ht.set x.2 (Value.typed_literal hJ _)
        · intro o ho
          split at ho
          · rcases NodeState.mem_outputs_mapOutput ho with ho | ⟨o', ho', rfl⟩
            · exact hf o ho
            · exact hf o' (List.mem_of_getElem? ho')
          · rcases NodeState.mem_outputs_mapOutput ho with ho | ⟨o', ho', rfl⟩
            · exact hf o ho
            · rfl
  refine hfold _ s ?_ h.outputsTyped hfloat
  rintro ⟨letter, i⟩ hmem
  exact List.fst_mem_of_mem_zipIdx hmem

theorem outputsTyped_append (hJ : Judges J) (h : s.Resolved J strict signature) (stage : Stage) :
    (Kind.append.evaluate stage s).state.OutputsTyped J := by
  have harity : ∀ {t : Ty} {n : UInt8}, t.arity? = some n → t = .gen n := by
    intro t n hn
    cases t <;> simp [Ty.arity?] at hn
    rw [hn]
  simp only [Kind.evaluate]
  split
  · exact h.outputsTyped
  · rename_i hvalid
    simp only [Bool.or_eq_true, Bool.not_eq_eq_eq_not, Bool.not_true, not_or,
      Bool.not_eq_false] at hvalid
    split
    · exact h.outputsTyped
    · exact h.outputsTyped
    · rename_i m n hm hn
      split
      · exact h.outputsTyped
      · rename_i hfit
        refine h.outputsTyped.set 0 fun _ => ?_
        have hx := h.typed_input 0 hvalid.1
        have hy := h.typed_input 1 hvalid.2
        rw [harity hm] at hx
        rw [harity hn] at hy
        exact judges_append hJ hx hy hfit

/-- A fixed variable is one of the pipeline or declared. -/
theorem judges_globalVar (hJ : Judges J) {value : Value} {declaration : String} {a : Archetype}
    (hfits : (Kind.globalVar value declaration).fits a signature = true)
    (huniform : ∀ t ∈ properTypes, ∀ name ∈ (Kind.globalVar value declaration).texts,
      Kind.uniformText t.text name ∈ (Kind.globalVar value declaration).declarations →
      J (Code.verbatim name) t) : J (Code.verbatim value.code) value.ty := by
  simp only [Kind.fits, Bool.or_eq_true, decide_eq_true_eq, Bool.and_eq_true,
    List.contains_iff_mem] at hfits
  rcases hfits with hpipe | ⟨hdecl, hproper⟩
  · exact hJ.pipeline _ _ hpipe
  · refine huniform value.ty hproper value.code (by simp [Kind.texts]) ?_
    have hne : Kind.uniformText value.ty.text value.code ≠ "" := by
      intro hempty
      have := congrArg String.toList hempty
      simp [Kind.uniformText] at this
    simp [Kind.declarations, hdecl, hne]

/-! ### Statements -/

/-- An assignment of four components to a variable of the pipeline. -/
def IsTypedAssignment (J : C → Ty → Prop) (x : C) : Prop :=
  ∃ target ∈ Kind.targets, ∃ y, x = Code.assign target y ∧ J y .vec4

theorem statements_vertexOut (hJ : Judges J) {edited : List Number.Single}
    (hK : Combines (.vertexOut edited) J K) (hsig : signature.1 = [.vec3, .float])
    (h : s.Resolved J strict signature) (stage : Stage) :
    ∀ x ∈ ((Kind.vertexOut edited).evaluate stage s).statements, IsTypedAssignment K x := by
  have hcolor : J (Kind.orElse (s.input 0) (.splat .half .vec3)).code .vec3 := by
    refine h.judges_orElse (t := .vec3) (by rw [hsig]; rfl) rfl ?_
    exact Value.typed_splat hJ .half .vec3 rfl
  have halpha : J (Kind.orElse (s.input 1) (.literal .one)).code .float :=
    h.judges_orElse (by rw [hsig]; rfl) rfl (hJ.literal .one)
  have htimes : ∀ m v, pipelineType? m = some .mat4 → pipelineType? v = some .vec4 →
      K (Code.binary "*" (Code.verbatim m) (Code.verbatim v)) .vec4 := fun m v hm hv =>
    hK.binary _ (by simp [Kind.operators]) _ _ .mat4 .vec4 _ (by decide) (hJ.pipeline m _ hm)
      (hJ.pipeline v _ hv)
  simp only [Kind.evaluate, List.mem_cons, List.not_mem_nil, or_false]
  rintro x (rfl | rfl | rfl)
  · exact ⟨_, by simp [Kind.targets], _, rfl, hK.weaken _ _
      (hJ.apply _ _ [.vec3, .float] _ (by decide) (.cons hcolor (.cons halpha .nil)))⟩
  · exact ⟨_, by simp [Kind.targets], _, rfl, htimes _ _ (by decide) (by decide)⟩
  · exact ⟨_, by simp [Kind.targets], _, rfl, htimes _ _ (by decide) (by decide)⟩

theorem statements_fragmentOut (hJ : Judges J) (hsig : signature.1 = [.vec4])
    (h : s.Resolved J strict signature) (stage : Stage) :
    ∀ x ∈ (Kind.fragmentOut.evaluate stage s).statements, IsTypedAssignment J x := by
  simp only [Kind.evaluate, List.mem_cons, List.not_mem_nil, or_false]
  rintro x rfl
  refine ⟨_, by simp [Kind.targets], _, rfl, ?_⟩
  exact h.judges_orElse (by rw [hsig]; rfl) rfl (hJ.pipeline _ _ (by decide))

omit [Code C] in
theorem NodeState.OutputsTyped.mono (hJK : ∀ x t, J x t → K x t) (h : s.OutputsTyped J) :
    s.OutputsTyped K := fun o ho => (h o ho).mono hJK

theorem IsTypedAssignment.mono (hJK : ∀ x t, J x t → K x t) {x : C} (h : IsTypedAssignment J x) :
    IsTypedAssignment K x := by
  obtain ⟨target, ht, y, hx, hy⟩ := h
  exact ⟨target, ht, y, hx, hJK _ _ hy⟩

/-- Evaluating a node of a kind that fits keeps types. -/
theorem Kind.evaluate_typed (hJ : Judges J) {k : Kind} (hK : Combines k J K) {a : Archetype}
    (hfits : k.fits a signature = true) (h : s.Resolved J (!a.overloads.isEmpty) signature)
    (hlinks : List.Forall₂ (fun slot pin => slot.requireLink = pin.requireLink) s.inputs a.inputs)
    (huniform : ∀ t ∈ properTypes, ∀ name ∈ k.texts, Kind.uniformText t.text name ∈ k.declarations →
      J (Code.verbatim name) t) (stage : Stage) :
    (k.evaluate stage s).state.OutputsTyped K ∧
      ∀ x ∈ (k.evaluate stage s).statements, IsTypedAssignment K x := by
  have hout : s.OutputsTyped K := h.outputsTyped
  have hset : ∀ {v : Value C}, v.Typed J → (s.set 0 v).OutputsTyped K :=
    fun hv => hout.set 0 (hv.mono hK.weaken)
  obtain ⟨ins, outs⟩ := signature
  -- only operators give results that are judged otherwise than operands
  cases k with
  | scalar value => exact ⟨hset (Value.typed_literal hJ value), by simp [Kind.evaluate]⟩
  | vector values =>
      have hlen : values.length ∈ [2, 3, 4] := by simpa [Kind.fits] using hfits
      exact ⟨hset fun _ => judges_vector hJ hlen, by simp [Kind.evaluate]⟩
  | parameter name =>
      refine ⟨hset fun _ => ?_, by simp [Kind.evaluate]⟩
      exact huniform .float (by decide) _ (by simp [Kind.texts])
        (by simp [Kind.declarations_parameter, Ty.text])
  | globalVar value declaration =>
      exact ⟨hset fun _ => judges_globalVar hJ hfits huniform, by simp [Kind.evaluate]⟩
  | binaryOp operator edited =>
      refine ⟨?_, by simp [Kind.evaluate]⟩
      simp only [Kind.fits] at hfits
      split at hfits
      · rename_i x y z heq
        cases heq
        simp only [Bool.and_eq_true, decide_eq_true_eq] at hfits
        exact outputsTyped_binaryOp hK hfits.1.1 hfits.1.2 hfits.2 h stage
      · exact absurd hfits (by simp)
  | transform =>
      refine ⟨?_, by simp [Kind.evaluate]⟩
      simp only [Kind.fits] at hfits
      split at hfits
      · rename_i m v z heq
        cases heq
        simp only [Bool.and_eq_true, decide_eq_true_eq] at hfits
        obtain ⟨⟨⟨⟨hm, hv⟩, hz⟩, hstrict⟩, hrequire⟩ := hfits
        rw [hstrict] at h
        exact outputsTyped_transform hK hm hv hz hrequire hlinks h stage
      · exact absurd hfits (by simp)
  | call function edited =>
      refine ⟨?_, by simp [Kind.evaluate]⟩
      simp only [Kind.fits] at hfits
      split at hfits
      · rename_i args z heq
        cases heq
        simp only [Bool.and_eq_true, decide_eq_true_eq, List.all_eq_true] at hfits
        exact (outputsTyped_call hJ hfits.1 hfits.2 h stage).mono hK.weaken
      · exact absurd hfits (by simp)
  | sample =>
      refine ⟨?_, by simp [Kind.evaluate]⟩
      have hsig : (ins, outs) = ([Ty.sampler, .vec2], [Ty.vec4]) := by
        simpa [Kind.fits] using hfits
      cases hsig
      exact (outputsTyped_sample hJ h stage).mono hK.weaken
  | makeVec n edited =>
      refine ⟨?_, by simp [Kind.evaluate]⟩
      simp only [Kind.fits, Bool.and_eq_true, decide_eq_true_eq] at hfits
      exact (outputsTyped_makeVec hJ hfits.1 hfits.2 h stage).mono hK.weaken
  | breakVec n =>
      refine ⟨?_, by simp [Kind.evaluate]⟩
      simp only [Kind.fits, Bool.and_eq_true, decide_eq_true_eq] at hfits
      obtain ⟨hn, hsig⟩ := hfits
      cases hsig
      exact (outputsTyped_breakVec hJ hn h stage).mono hK.weaken
  | append => exact ⟨(outputsTyped_append hJ h stage).mono hK.weaken, by simp [Kind.evaluate]⟩
  | vertexOut edited =>
      exact ⟨hout, statements_vertexOut hJ hK (by simpa [Kind.fits] using hfits) h stage⟩
  | fragmentOut =>
      have hsig : ins = [Ty.vec4] := by simpa [Kind.fits] using hfits
      exact ⟨hout, fun x hx => (statements_fragmentOut hJ hsig h stage x hx).mono hK.weaken⟩
  | bridge => exact ⟨hset (h.typed_input 0), by simp [Kind.evaluate]⟩
  | template t => exact absurd hfits (by simp [Kind.fits])

end Evaluation

end NodeShader
