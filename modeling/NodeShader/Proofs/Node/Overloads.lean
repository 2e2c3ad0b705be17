import NodeShader.Proofs.Node.Typed

/-!
# Which signature is taken

Resolving tries the signatures of an archetype one after another and works on the slots as it goes.
Read from outside, it is a choice: a signature accepts the connected inputs (`Overload.Accepts`) when
each of them converts to its slot, generic slots being read at one arity (`Resolve.SharesArity`); the
first signature that accepts is taken, and if none does the node has no values.

* `Resolve.sharesArity_iff`, `Overload.accepts_iff`: the loops over slots compute the relations.
* `Resolve.choose_eq_some`, `Resolve.choose_eq_none`: the search stops at the first acceptance.
* `NodeState.resolve_spec`: what resolving answers and what it leaves in every slot.
-/

namespace NodeShader

variable {C : Type}

/-! ## Signatures that accept -/

namespace Resolve

/-- Input `i` is a scalar or vector of arity `n` on a generic slot. -/
def IsGenericAt (slots : List Ty) (values : List (Value C)) (i : Nat) (n : UInt8) : Prop :=
  ∃ t v, slots[i]? = some t ∧ t.isValid = false ∧ values[i]? = some v ∧ v.ty = .gen n

/-- The arity at which generic slots are read: that of the first scalar or vector on one of them, and
one when there is none. -/
def SharesArity (slots : List Ty) (values : List (Value C)) (n : UInt8) : Prop :=
  (∃ i, IsGenericAt slots values i n ∧ ∀ j < i, ∀ m, ¬IsGenericAt slots values j m) ∨
    n = 1 ∧ ∀ i m, ¬IsGenericAt slots values i m

end Resolve

/-- Every connected input converts to its slot of the signature, with generic slots read at arity
`n`. -/
def Overload.Accepts (o : Overload) (values : List (Value C)) (n : UInt8) : Prop :=
  Resolve.SharesArity o.inputs values n ∧
    ∀ (i : Nat) (t : Ty) (v : Value C), o.inputs[i]? = some t → values[i]? = some v →
      v.isValid = true → v.ty.converts (Resolve.substitute t n) = true

namespace Resolve

theorem not_isGenericAt_of_nil_left (values : List (Value C)) (i : Nat) (n : UInt8) :
    ¬IsGenericAt [] values i n := by
  rintro ⟨t, v, ht, -⟩
  exact absurd ht (by simp)

theorem not_isGenericAt_of_nil_right (slots : List Ty) (i : Nat) (n : UInt8) :
    ¬IsGenericAt slots ([] : List (Value C)) i n := by
  rintro ⟨t, v, -, -, hv, -⟩
  exact absurd hv (by simp)

theorem isGenericAt_cons_zero {t : Ty} {slots : List Ty} {v : Value C} {values : List (Value C)}
    {n : UInt8} : IsGenericAt (t :: slots) (v :: values) 0 n ↔ t.isValid = false ∧ v.ty = .gen n := by
  simp [IsGenericAt]

theorem isGenericAt_cons_succ {t : Ty} {slots : List Ty} {v : Value C} {values : List (Value C)}
    {i : Nat} {n : UInt8} :
    IsGenericAt (t :: slots) (v :: values) (i + 1) n ↔ IsGenericAt slots values i n := by
  simp [IsGenericAt]

/-- Where the first slot says nothing about the arity, the others do. -/
theorem SharesArity.cons {t : Ty} {slots : List Ty} {v : Value C} {values : List (Value C)}
    {n : UInt8} (hfirst : ∀ m, ¬(t.isValid = false ∧ v.ty = .gen m))
    (h : SharesArity slots values n) : SharesArity (t :: slots) (v :: values) n := by
  rcases h with ⟨i, hi, hleast⟩ | ⟨hone, hnone⟩
  · refine .inl ⟨i + 1, isGenericAt_cons_succ.mpr hi, fun j hj m => ?_⟩
    cases j with
    | zero => exact fun hgen => hfirst m (isGenericAt_cons_zero.mp hgen)
    | succ j => exact fun hgen => hleast j (by omega) m (isGenericAt_cons_succ.mp hgen)
  · refine .inr ⟨hone, fun i m => ?_⟩
    cases i with
    | zero => exact fun hgen => hfirst m (isGenericAt_cons_zero.mp hgen)
    | succ i => exact fun hgen => hnone i m (isGenericAt_cons_succ.mp hgen)

theorem sharesArity_inferArity (slots : List Ty) (values : List (Value C)) :
    SharesArity slots values (inferArity slots values) := by
  induction slots generalizing values with
  | nil => exact .inr ⟨rfl, not_isGenericAt_of_nil_left values⟩
  | cons t slots ih =>
      cases values with
      | nil => exact .inr ⟨rfl, not_isGenericAt_of_nil_right _⟩
      | cons v values =>
          rw [inferArity]
          split
          · rename_i hskip
            refine (ih values).cons fun m hgen => ?_
            rw [Value.isValid, hgen.1, hgen.2] at hskip
            exact absurd hskip (by simp [Ty.isValid])
          · rename_i hused
            simp only [Bool.or_eq_true, Bool.not_eq_eq_eq_not, Bool.not_true, not_or,
              Bool.not_eq_true, Bool.not_eq_false] at hused
            split
            · rename_i n hn
              have hty : v.ty = .gen n := by
                cases hv : v.ty <;> simp [hv, Ty.arity?] at hn
                rw [hn]
              exact .inl ⟨0, isGenericAt_cons_zero.mpr ⟨hused.1, hty⟩, fun j hj => by omega⟩
            · rename_i hn
              refine (ih values).cons fun m hgen => ?_
              simp [hgen.2, Ty.arity?] at hn

theorem IsGenericAt.unique {slots : List Ty} {values : List (Value C)} {i : Nat} {m n : UInt8}
    (hm : IsGenericAt slots values i m) (hn : IsGenericAt slots values i n) : m = n := by
  obtain ⟨_, v, -, -, hv, hvm⟩ := hm
  obtain ⟨_, w, -, -, hw, hwn⟩ := hn
  rw [hv, Option.some.injEq] at hw
  rw [← hw, hvm] at hwn
  exact Ty.gen.inj hwn

theorem SharesArity.unique {slots : List Ty} {values : List (Value C)} {m n : UInt8}
    (hm : SharesArity slots values m) (hn : SharesArity slots values n) : m = n := by
  rcases hm with ⟨i, hi, hileast⟩ | ⟨rfl, hmnone⟩
  · rcases hn with ⟨j, hj, hjleast⟩ | ⟨-, hnnone⟩
    · rcases Nat.lt_trichotomy i j with hij | rfl | hji
      · exact absurd hi (hjleast i hij m)
      · exact hi.unique hj
      · exact absurd hj (hileast j hji n)
    · exact absurd hi (hnnone i m)
  · rcases hn with ⟨j, hj, -⟩ | ⟨rfl, -⟩
    · exact absurd hj (hmnone j n)
    · rfl

/-- The inferred arity is the one that generic slots share. -/
theorem sharesArity_iff {slots : List Ty} {values : List (Value C)} {n : UInt8} :
    SharesArity slots values n ↔ n = inferArity slots values := by
  constructor
  · intro h
    exact h.unique (sharesArity_inferArity slots values)
  · rintro rfl
    exact sharesArity_inferArity slots values

theorem accepts_eq_true_iff {n : UInt8} {slots : List Ty} {values : List (Value C)} :
    accepts n slots values = true ↔ ∀ (i : Nat) (t : Ty) (v : Value C), slots[i]? = some t →
      values[i]? = some v → v.isValid = true → v.ty.converts (substitute t n) = true := by
  induction slots generalizing values with
  | nil => simp [accepts]
  | cons t slots ih =>
      cases values with
      | nil => simp [accepts]
      | cons v values =>
          rw [accepts, Bool.and_eq_true, ih]
          constructor
          · rintro ⟨hfirst, hrest⟩ i t' v' ht hv hvalid
            cases i with
            | zero =>
                simp only [List.getElem?_cons_zero, Option.some.injEq] at ht hv
                subst ht hv
                simpa [hvalid] using hfirst
            | succ i => exact hrest i t' v' (by simpa using ht) (by simpa using hv) hvalid
          · intro h
            refine ⟨?_, fun i t' v' ht hv => h (i + 1) t' v' (by simpa using ht) (by simpa using hv)⟩
            by_cases hvalid : v.isValid = true
            · simp [h 0 t v rfl rfl hvalid]
            · simp [hvalid]

end Resolve

theorem Overload.accepts_iff {o : Overload} {values : List (Value C)} {n : UInt8} :
    o.Accepts values n ↔ n = Resolve.inferArity o.inputs values ∧
      Resolve.accepts n o.inputs values = true := by
  rw [Overload.Accepts, Resolve.sharesArity_iff, Resolve.accepts_eq_true_iff]

namespace Resolve

/-- The search stops at the first signature that accepts. -/
theorem choose_eq_some {values : List (Value C)} {os : List Overload} {start j : Nat} {o : Overload}
    {n : UInt8} (h : choose values start os = some (j, o, n)) :
    ∃ i, j = start + i ∧ os[i]? = some o ∧ o.Accepts values n ∧
      ∀ i' < i, ∀ o' m, os[i']? = some o' → ¬o'.Accepts values m := by
  induction os generalizing start with
  | nil => exact absurd h (by simp [choose])
  | cons first rest ih =>
      simp only [choose] at h
      split at h
      · rename_i haccepts
        cases h
        exact ⟨0, rfl, rfl, Overload.accepts_iff.mpr ⟨rfl, haccepts⟩, fun i' hi' => by omega⟩
      · rename_i hrejects
        obtain ⟨i, hj, ho, haccepts, hleast⟩ := ih h
        refine ⟨i + 1, by omega, by simpa using ho, haccepts, fun i' hi' o' m ho' => ?_⟩
        cases i' with
        | zero =>
            simp only [List.getElem?_cons_zero, Option.some.injEq] at ho'
            subst ho'
            intro hfirst
            obtain ⟨rfl, hfirst⟩ := Overload.accepts_iff.mp hfirst
            exact hrejects hfirst
        | succ i' => exact hleast i' (by omega) o' m (by simpa using ho')

theorem choose_eq_none {values : List (Value C)} {os : List Overload} {start : Nat}
    (h : choose values start os = none) : ∀ o ∈ os, ∀ n, ¬o.Accepts values n := by
  induction os generalizing start with
  | nil => simp
  | cons first rest ih =>
      simp only [choose] at h
      split at h
      · exact absurd h (by simp)
      · rename_i hrejects
        refine List.forall_mem_cons.mpr ⟨fun n hfirst => ?_, ih h⟩
        obtain ⟨rfl, hfirst⟩ := Overload.accepts_iff.mp hfirst
        exact hrejects hfirst

variable [Code C]

/-! ## Slots, one by one -/

theorem length_applyInputs (k : Kind) (n : UInt8) (start : Nat) (slots : List (InputSlot C))
    (ts : List Ty) : (applyInputs k n start slots ts).length = slots.length := by
  induction slots generalizing start ts with
  | nil => cases ts <;> rfl
  | cons slot slots ih =>
      cases ts with
      | nil => rfl
      | cons t ts => simp [applyInputs, ih]

theorem getElem?_applyInputs (k : Kind) (n : UInt8) (start : Nat) {slots : List (InputSlot C)}
    {ts : List Ty} {j : Nat} {slot : InputSlot C} {t : Ty} (hslot : slots[j]? = some slot)
    (ht : ts[j]? = some t) :
    (applyInputs k n start slots ts)[j]? = some (applyInput k n (start + j) slot t) := by
  induction slots generalizing start ts j with
  | nil => exact absurd hslot (by simp)
  | cons first slots ih =>
      cases ts with
      | nil => exact absurd ht (by simp)
      | cons t₀ ts =>
          cases j with
          | zero =>
              simp only [List.getElem?_cons_zero, Option.some.injEq] at hslot ht
              subst hslot ht
              rfl
          | succ j =>
              have hrest := ih (start + 1) (by simpa using hslot) (by simpa using ht)
              simpa [applyInputs, Nat.add_assoc, Nat.add_comm 1 j] using hrest

omit [Code C] in
theorem length_applyOutputs (n : UInt8) (os : List (OutputSlot C)) (ts : List Ty) :
    (applyOutputs n os ts).length = os.length := by
  induction os generalizing ts with
  | nil => cases ts <;> rfl
  | cons o os ih =>
      cases ts with
      | nil => rfl
      | cons t ts => simp [applyOutputs, ih]

omit [Code C] in
theorem getElem?_applyOutputs (n : UInt8) {os : List (OutputSlot C)} {ts : List Ty} {j : Nat}
    {o : OutputSlot C} {t : Ty} (ho : os[j]? = some o) (ht : ts[j]? = some t) :
    (applyOutputs n os ts)[j]? = some { o with ty := substitute t n } := by
  induction os generalizing ts j with
  | nil => exact absurd ho (by simp)
  | cons first os ih =>
      cases ts with
      | nil => exact absurd ht (by simp)
      | cons t₀ ts =>
          cases j with
          | zero =>
              simp only [List.getElem?_cons_zero, Option.some.injEq] at ho ht
              subst ho ht
              rfl
          | succ j => simpa [applyOutputs] using ih (by simpa using ho) (by simpa using ht)

end Resolve

variable [Code C]

/-- Input `j` at a type: the value it had is converted, and without one it has a default of the type,
if the type is a scalar or vector and the input does not need a link. -/
structure InputSlot.IsBroughtTo (k : Kind) (j : Nat) (slot slot' : InputSlot C) (t : Ty) : Prop where
  frame : slot' = { slot with ty := t, value := slot'.value }
  connected : slot.value.isValid = true →
    slot'.value = slot.value.convert t ∧ slot'.value.isValid = true ∧ slot'.value.ty = t
  unconnected : slot.value.isValid = false →
    slot'.value = if t.isGen = true ∧ slot.requireLink = false
      then .splat ((k.default? j).getD .zero) t else .null

theorem Resolve.defaultValue_eq (k : Kind) (j : Nat) (requireLink : Bool) (t : Ty) :
    (defaultValue k j requireLink t : Value C) = if t.isGen = true ∧ requireLink = false
      then .splat ((k.default? j).getD .zero) t else .null := by
  unfold defaultValue
  cases requireLink <;> cases t.isGen <;> rfl

theorem InputSlot.isBroughtTo_applyInput {k : Kind} {n : UInt8} {j : Nat} {slot : InputSlot C}
    {t : Ty} (haccepts : slot.value.isValid = true →
      slot.value.ty.converts (Resolve.substitute t n) = true) :
    slot.IsBroughtTo k j (Resolve.applyInput k n j slot t) (Resolve.substitute t n) where
  frame := rfl
  connected hvalid := by
    have hconverted := Value.isValid_convert hvalid (haccepts hvalid)
    simp only [Resolve.applyInput, hvalid, if_true]
    exact ⟨trivial, hconverted, Value.ty_convert hconverted⟩
  unconnected hinvalid := by
    simp only [Resolve.applyInput, hinvalid, Bool.false_eq_true, if_false]
    exact Resolve.defaultValue_eq k j slot.requireLink _

/-- Input `j` by its declared type alone. An input of any type has the type of its value; a value that
does not convert is dropped, and the input says why. -/
structure InputSlot.IsDeclaredAs (k : Kind) (j : Nat) (slot slot' : InputSlot C) : Prop where
  unconnected : slot.value.isValid = false → slot.IsBroughtTo k j slot' slot.declared
  untyped : slot.value.isValid = true → slot.declared.isValid = false →
    slot' = { slot with ty := slot.value.ty }
  converts : slot.value.isValid = true → slot.value.ty.converts slot.declared = true →
    slot.IsBroughtTo k j slot' slot.declared
  refuses : slot.value.isValid = true → slot.declared.isValid = true →
    slot.value.ty.converts slot.declared = false →
    slot' = { slot with
      ty := .none, value := .null,
      problem := Resolve.conversionProblem slot.value.ty slot.declared }

/-- Nothing converts to the type of pins that take any type. -/
theorem Ty.isValid_of_converts {source target : Ty} (hsource : source.isValid = true)
    (h : source.converts target = true) : target.isValid = true := by
  cases source <;> cases target <;> simp_all [Ty.converts, Ty.isValid]

theorem InputSlot.isDeclaredAs_declaredInput (k : Kind) (j : Nat) (slot : InputSlot C) :
    slot.IsDeclaredAs k j (Resolve.declaredInput k j slot) where
  unconnected hinvalid := by
    rw [Resolve.declaredInput, if_pos (by simp [hinvalid])]
    exact ⟨rfl, fun hvalid => absurd hvalid (by simp [hinvalid]),
      fun _ => Resolve.defaultValue_eq k j slot.requireLink slot.declared⟩
  untyped hvalid hany := by
    rw [Resolve.declaredInput, if_neg (by simp [hvalid]), if_pos (by simp [hany])]
  converts hvalid hconverts := by
    have hdeclared := Ty.isValid_of_converts hvalid hconverts
    have hconverted := Value.isValid_convert hvalid hconverts
    rw [Resolve.declaredInput, if_neg (by simp [hvalid]), if_neg (by simp [hdeclared]),
      if_pos hconverts]
    exact ⟨rfl, fun _ => ⟨rfl, hconverted, Value.ty_convert hconverted⟩,
      fun hinvalid => absurd hvalid (by simp [hinvalid])⟩
  refuses hvalid hdeclared hconverts := by
    rw [Resolve.declaredInput, if_neg (by simp [hvalid]), if_neg (by simp [hdeclared]),
      if_neg (by simp [hconverts])]

namespace NodeState

/-- The state with the values that reach its inputs. -/
def given (s : NodeState C) (values : List (Value C)) : NodeState C :=
  { s with inputs := List.zipWith (fun slot v => { slot with value := v }) s.inputs values }

/-- The second state is the first at signature `o`, which stands at position `i`, with every generic
slot on either side read at the one arity `n`. -/
structure TakesSignature (k : Kind) (s s' : NodeState C) (i : Nat) (o : Overload) (n : UInt8) :
    Prop where
  frame : s' = { s with overload := some i, inputs := s'.inputs, outputs := s'.outputs }
  length_inputs : s'.inputs.length = s.inputs.length
  length_outputs : s'.outputs.length = s.outputs.length
  input : ∀ (j : Nat) (slot : InputSlot C), s.inputs[j]? = some slot →
    ∃ t slot', o.inputs[j]? = some t ∧ s'.inputs[j]? = some slot' ∧
      slot.IsBroughtTo k j slot' (Resolve.substitute t n)
  output : ∀ (j : Nat) (out : OutputSlot C), s.outputs[j]? = some out →
    ∃ t, o.outputs[j]? = some t ∧
      s'.outputs[j]? = some { out with ty := Resolve.substitute t n }

/-- The second state is the first without values and with the problem on its first input. -/
structure Refuses (s s' : NodeState C) : Prop where
  frame : s' = { s with overload := none, inputs := s'.inputs }
  length_inputs : s'.inputs.length = s.inputs.length
  input : ∀ (j : Nat) (slot : InputSlot C), s.inputs[j]? = some slot →
    s'.inputs[j]? = some { slot with
      value := .null
      problem := if j = 0 then Resolve.noOverloadProblem else slot.problem }

/-- The second state is the first with every slot at its declared type, each input by itself. -/
structure TakesDeclared (k : Kind) (s s' : NodeState C) : Prop where
  frame : s' = { s with inputs := s'.inputs, outputs := s'.outputs }
  length_inputs : s'.inputs.length = s.inputs.length
  input : ∀ (j : Nat) (slot : InputSlot C), s.inputs[j]? = some slot →
    ∃ slot', s'.inputs[j]? = some slot' ∧ slot.IsDeclaredAs k j slot'
  outputs : s'.outputs = s.outputs.map fun out => { out with ty := out.declared }

omit [Code C] in
theorem values_given {s : NodeState C} {values : List (Value C)}
    (hlen : values.length = s.inputs.length) : (s.given values).values = values := by
  refine List.ext_getElem (by simp [NodeState.values, given, hlen]) fun i _ _ => ?_
  simp [NodeState.values, given]

theorem takesSignature_applyOverload {k : Kind} {s : NodeState C} {i : Nat} {o : Overload}
    {n : UInt8} (hin : o.inputs.length = s.inputs.length)
    (hout : o.outputs.length = s.outputs.length) (haccepts : o.Accepts s.values n) :
    s.TakesSignature k (s.applyOverload k i o n) i o n where
  frame := rfl
  length_inputs := Resolve.length_applyInputs k n 0 s.inputs o.inputs
  length_outputs := Resolve.length_applyOutputs n s.outputs o.outputs
  input j slot hslot := by
    obtain ⟨hj, -⟩ := List.getElem?_eq_some_iff.mp hslot
    have ht : o.inputs[j]? = some o.inputs[j] := List.getElem?_eq_getElem (by omega)
    have hvalue : s.values[j]? = some slot.value := by
      rw [NodeState.values, List.getElem?_map, hslot, Option.map_some]
    have hinput := Resolve.getElem?_applyInputs k n 0 hslot ht
    rw [Nat.zero_add] at hinput
    exact ⟨_, _, ht, hinput,
      InputSlot.isBroughtTo_applyInput fun hvalid => haccepts.2 j _ _ ht hvalue hvalid⟩
  output j out hj := by
    obtain ⟨hlt, -⟩ := List.getElem?_eq_some_iff.mp hj
    have ht : o.outputs[j]? = some o.outputs[j] := List.getElem?_eq_getElem (by omega)
    exact ⟨_, ht, Resolve.getElem?_applyOutputs n hj ht⟩

theorem refuses_rejectAll (s : NodeState C) : s.Refuses s.rejectAll where
  frame := rfl
  length_inputs := by simp [rejectAll, NodeState.fail, mapInput]
  input j slot hslot := by
    simp only [rejectAll, NodeState.fail, mapInput, List.getElem?_modify, List.getElem?_map, hslot,
      Option.map_some]
    by_cases hj : j = 0
    · simp [hj]
    · simp [hj, Ne.symm hj]

theorem takesDeclared_resolveDeclared (k : Kind) (s : NodeState C) :
    s.TakesDeclared k (s.resolveDeclared k) where
  frame := rfl
  length_inputs := by simp [resolveDeclared]
  input j slot hslot :=
    ⟨_, by rw [resolveDeclared, List.getElem?_mapIdx, hslot, Option.map_some],
      InputSlot.isDeclaredAs_declaredInput k j slot⟩
  outputs := rfl

/-- Resolving the values that reach a node of a registered archetype. With signatures, the answer is
whether one of them accepts; the first that does is taken, and if there is none the node is left
without values. Without signatures every slot has its declared type. -/
theorem resolve_spec {r : Registry} (hr : r.Reachable) {handle : Handle} {a : Archetype}
    (ha : r.archetype? handle = some a) (k : Kind) (id : NodeId) (g : ShaderGraph)
    (values : List (Value C)) (hlen : values.length = a.inputs.length) (s s' : NodeState C)
    (found : Bool) (hs : s = (a.freshState id g).given values) (hs' : s.resolve a k = (found, s')) :
    (a.overloads ≠ [] →
      (found = true ↔ ∃ o ∈ a.overloads, ∃ n, o.Accepts values n) ∧
      (found = true → ∃ i o n, a.overloads[i]? = some o ∧ o.Accepts values n ∧
        (∀ i' < i, ∀ o' m, a.overloads[i']? = some o' → ¬o'.Accepts values m) ∧
        s.TakesSignature k s' i o n) ∧
      (found = false → s.Refuses s')) ∧
    (a.overloads = [] → found = true ∧ s.TakesDeclared k s') := by
  have hinputs : s.inputs.length = a.inputs.length := by
    simp [hs, given, Archetype.freshState, hlen]
  have houtputs : s.outputs.length = a.outputs.length := by
    simp [hs, given, Archetype.freshState]
  have hvalues : s.values = values := by
    rw [hs]
    exact values_given (by simp [Archetype.freshState, hlen])
  rw [resolve] at hs'
  constructor
  · intro hsome
    rw [if_neg (by simpa using hsome), hvalues] at hs'
    cases hchoice : Resolve.choose values 0 a.overloads with
    | none =>
        have hnone := Resolve.choose_eq_none hchoice
        simp only [hchoice, Prod.mk.injEq] at hs'
        obtain ⟨rfl, rfl⟩ := hs'
        refine ⟨⟨fun h => absurd h (by simp), ?_⟩, fun h => absurd h (by simp),
          fun _ => refuses_rejectAll s⟩
        rintro ⟨o, ho, n, haccepts⟩
        exact absurd haccepts (hnone o ho n)
    | some choice =>
        obtain ⟨i, o, n⟩ := choice
        obtain ⟨i, rfl, ho, haccepts, hleast⟩ := Resolve.choose_eq_some hchoice
        have hmem := List.mem_of_getElem? ho
        have hshape := hr.shape ha o hmem
        simp only [hchoice, Prod.mk.injEq] at hs'
        obtain ⟨rfl, rfl⟩ := hs'
        rw [Nat.zero_add]
        refine ⟨⟨fun _ => ⟨o, hmem, n, haccepts⟩, fun _ => rfl⟩,
          fun _ => ⟨i, o, n, ho, haccepts, hleast, ?_⟩, fun h => absurd h (by simp)⟩
        exact takesSignature_applyOverload (hshape.1.trans hinputs.symm)
          (hshape.2.trans houtputs.symm) (hvalues ▸ haccepts)
  · intro hnone
    rw [if_pos (by simp [hnone]), Prod.mk.injEq] at hs'
    obtain ⟨rfl, rfl⟩ := hs'
    exact ⟨rfl, takesDeclared_resolveDeclared k s⟩

/-- A float before a vector: adding takes a signature, though not its first one, which reads both
slots at the arity of the float. -/
theorem resolve_spec_add :
    let a := (Catalogue.operator "add" "Add" "+" .zero).archetype
    let values : List Value := [⟨.float, "x"⟩, ⟨.vec3, "y"⟩]
    let s := (a.freshState 1 .empty).given values
    (s.resolve a .append).1 = true ∧
      ∃ i o n, a.overloads[i]? = some o ∧ o.Accepts values n ∧ i ≠ 0 ∧
        s.TakesSignature .append (s.resolve a .append).2 i o n := by
  intro a values s
  have ha : Registry.builtin.archetype? 4 = some a := by decide +kernel
  have hspec :=
    (resolve_spec Registry.reachable_builtin ha .append 1 .empty values rfl s _ _ rfl rfl).1
      (by decide)
  have hfirst : ¬∃ n, (⟨[.none, .none], [.none]⟩ : Overload).Accepts values n := by
    rintro ⟨n, h⟩
    obtain ⟨rfl, h⟩ := Overload.accepts_iff.mp h
    exact absurd h (by decide)
  have hfound : (s.resolve a .append).1 = true :=
    hspec.1.mpr ⟨⟨[.float, .none], [.none]⟩, by decide, 3, Overload.accepts_iff.mpr (by decide)⟩
  obtain ⟨i, o, n, ho, haccepts, -, htakes⟩ := hspec.2.1 hfound
  refine ⟨hfound, i, o, n, ho, haccepts, ?_, htakes⟩
  rintro rfl
  cases ho
  exact hfirst ⟨n, haccepts⟩

end NodeState

end NodeShader
