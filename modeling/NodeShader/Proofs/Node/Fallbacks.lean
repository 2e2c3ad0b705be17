import NodeShader.Proofs.Node.Supplied

/-!
# Nodes that make do with what reaches them

A node without signatures takes each of its inputs by itself. A value that is missing is replaced by
a default, and one that does not convert is dropped. Most kinds of such nodes then put something of
their own in the place of what they lack, so every output has a value of its declared type, whatever
reached the inputs (`Kind.answers_iff`).

There is one gap. A vector that is made of its first input alone repeats that input, and it does not
ask whether a value is left to repeat. When one was dropped, the output has none
(`Kind.losesOutput`). A vector that is made of several inputs has zeros in such places.
-/

namespace NodeShader

variable {C : Type}

/-! ## Answers -/

namespace NodeState

/-- Every output has a value of the type that its pin declares. -/
def Answers (s : NodeState C) (a : Archetype) : Prop :=
  List.Forall₂ (fun o pin => o.value.isValid = true ∧ o.value.ty = pin.ty) s.outputs a.outputs

/-- Every output has the type that its pin declares. -/
def IsDeclared (s : NodeState C) (a : Archetype) : Prop :=
  List.Forall₂ (fun o pin => o.ty = pin.ty) s.outputs a.outputs

variable [Code C] {s : NodeState C} {a : Archetype} {t : Ty}

theorem Laid.isDeclared (h : s.Laid a) (k : Kind) : (s.resolveDeclared k).IsDeclared a :=
  List.forall₂_map_left_iff.mpr (h.outputs.imp fun _ _ ho => ho.1)

/-- The slot at a pin. -/
theorem Laid.input (h : s.Laid a) {i : Nat} {pin : InputPin} (hpin : a.inputs[i]? = some pin) :
    ∃ slot, s.inputs[i]? = some slot ∧ slot.declared = pin.ty ∧
      slot.requireLink = pin.requireLink := by
  obtain ⟨hi, hget⟩ := List.getElem?_eq_some_iff.mp hpin
  have hi' : i < s.inputs.length := h.inputs.length_eq ▸ hi
  have hslot := (List.forall₂_iff_get.mp h.inputs).2 i hi' hi
  simp only [List.get_eq_getElem, hget] at hslot
  exact ⟨s.inputs[i], List.getElem?_eq_getElem hi', hslot⟩

omit [Code C] in
/-- The one output of a node. -/
theorem IsDeclared.single (h : s.IsDeclared a) (ha : a.outputs.map OutputPin.ty = [t]) :
    ∃ o pin, s.outputs = [o] ∧ a.outputs = [pin] ∧ o.ty = t ∧ pin.ty = t := by
  obtain ⟨pin, hpins, hpin⟩ := List.map_eq_singleton_iff.mp ha
  unfold IsDeclared at h
  rw [hpins] at h
  obtain ⟨o, rest, hty, hnil, houtputs⟩ := List.forall₂_cons_right_iff.mp h
  rw [List.forall₂_nil_right_iff.mp hnil] at houtputs
  exact ⟨o, pin, houtputs, hpins, hty.trans hpin, hpin⟩

omit [Code C] in
/-- A value answers at the one output if it has the type of the pin. -/
theorem IsDeclared.answers_set (h : s.IsDeclared a) (ha : a.outputs.map OutputPin.ty = [t])
    (v : Value C) : (s.set 0 v).Answers a ↔ v.isValid = true ∧ v.ty = t := by
  obtain ⟨o, pin, houtputs, hpins, -, hpin⟩ := h.single ha
  simp [Answers, NodeState.set, mapOutput, houtputs, hpins, hpin]

omit [Code C] in
/-- Code answers at the one output: it has the type that the output has. -/
theorem IsDeclared.answers_setCode (h : s.IsDeclared a) (ha : a.outputs.map OutputPin.ty = [t])
    (ht : t.isValid = true) (x : C) : (s.setCode 0 x).Answers a := by
  obtain ⟨o, pin, houtputs, hpins, hty, hpin⟩ := h.single ha
  simp [Answers, NodeState.setCode, mapOutput, houtputs, hpins, Value.isValid, hty, hpin, ht]

end NodeState

/-! ## Vectors from floats -/

theorem Ty.converts_float {t : Ty} : t.converts .float = true ↔ t = .float := by
  cases t <;> simp [Ty.converts]

/-- Which inputs are linked is all that counts. -/
theorem Kind.onlyFirstLinked_eq (slots : List (InputSlot C)) :
    onlyFirstLinked slots =
      match slots.map InputSlot.link with
      | [] => false
      | first :: rest => first.isSome && rest.all (!·.isSome) := by
  cases slots with
  | nil => rfl
  | cons slot rest =>
      simp [onlyFirstLinked, InputSlot.isLinked, Function.comp_def]

variable [Code C] {s : NodeState C} {a : Archetype}

theorem Kind.onlyFirstLinked_resolveDeclared (k : Kind) (s : NodeState C) :
    onlyFirstLinked (s.resolveDeclared k).inputs = onlyFirstLinked s.inputs := by
  have hlinks : (s.resolveDeclared k).inputs.map InputSlot.link = s.inputs.map InputSlot.link := by
    apply List.ext_getElem?
    intro i
    simp only [NodeState.resolveDeclared, List.getElem?_map, List.getElem?_mapIdx, Option.map_map]
    congr 1
    funext slot
    exact NodeState.link_declaredInput k i slot
  rw [onlyFirstLinked_eq, onlyFirstLinked_eq, hlinks]

theorem NodeState.input_resolveDeclared (k : Kind) {i : Nat} {slot : InputSlot C}
    (h : s.inputs[i]? = some slot) :
    s.input i = slot.value ∧ (s.resolveDeclared k).input i = (Resolve.declaredInput k i slot).value := by
  simp [NodeState.input, NodeState.resolveDeclared, h]

/-- At an input for floats that needs no link there is a float, unless something else was dropped. -/
theorem Resolve.declaredInput_float (k : Kind) (i : Nat) {slot : InputSlot C}
    (hfloat : slot.declared = .float) (hfree : slot.requireLink = false) :
    if slot.value.isValid = true ∧ slot.value.ty ≠ .float then
      (declaredInput k i slot).value = .null
    else (declaredInput k i slot).value.isValid = true ∧
      (declaredInput k i slot).value.ty = .float := by
  have hspec := InputSlot.isDeclaredAs_declaredInput k i slot
  split
  · rename_i hdropped
    have hconverts : slot.value.ty.converts slot.declared = false := by
      rw [hfloat, Bool.eq_false_iff]
      exact fun h => hdropped.2 (Ty.converts_float.mp h)
    rw [hspec.refuses hdropped.1 (by rw [hfloat]; rfl) hconverts]
  · rename_i hkept
    by_cases hvalid : slot.value.isValid = true
    · have hty : slot.value.ty = .float := by
        by_contra hne
        exact hkept ⟨hvalid, hne⟩
      have hbrought := hspec.converts hvalid (by rw [hfloat]; exact Ty.converts_float.mpr hty)
      rw [← hfloat]
      exact (hbrought.connected hvalid).2
    · rw [(hspec.unconnected (by simpa using hvalid)).unconnected (by simpa using hvalid), hfloat,
        if_pos ⟨rfl, hfree⟩]
      exact ⟨rfl, rfl⟩

/-! ## What kinds need -/

/-- Do nodes of the kind have what they put in the place of an input, at the types that the pins
declare? -/
def Kind.recovers (k : Kind) (a : Archetype) : Bool :=
  match k with
  | .scalar _ | .parameter _ => a.outputs.map OutputPin.ty = [.float]
  | .vector values => a.outputs.map OutputPin.ty = [.gen (UInt8.ofNat values.length)]
  | .globalVar value _ => value.ty.isValid && a.outputs.map OutputPin.ty = [value.ty]
  | .sample => a.outputs.map OutputPin.ty = [.vec4]
  | .makeVec n _ =>
    n ∈ [(2 : UInt8), 3, 4] && a.outputs.map OutputPin.ty = [.gen n] &&
      (a.inputs[0]?).any fun pin => pin.ty = .float && !pin.requireLink
  | .breakVec n => n.toNat ≤ 4 && a.outputs.map OutputPin.ty = List.replicate n.toNat .float
  | _ => false

theorem Kind.Variant.recovers {k k' : Kind} (h : k.Variant k') (a : Archetype) :
    k'.recovers a = k.recovers a := by
  cases h with
  | vector hlen => simp only [Kind.recovers, hlen]
  | _ => rfl

/-- Every built-in kind recovers that has outputs and no signatures, but for the two that pass their
inputs on. -/
theorem Registry.recovers_of_mem :
    ∀ e ∈ builtin.entries, e.archetype.outputs ≠ [] → e.archetype.overloads = [] →
      e.archetype.id ∉ ["append", "bridge"] → e.initial.recovers e.archetype = true := by
  decide +kernel

/-! ## Evaluating -/

/-- Is the output to be made of one value, and was that value dropped? -/
def Kind.losesOutput (k : Kind) (s : NodeState C) : Prop :=
  match k with
  | .makeVec .. =>
    onlyFirstLinked s.inputs = true ∧ (s.input 0).isValid = true ∧ (s.input 0).ty ≠ .float
  | _ => False

/-- A vector has its components, or its one value in all of them, unless that was dropped. -/
theorem answers_makeVec {n : UInt8} {edited : List Number.Single} (hs : s.Laid a)
    (hrecovers : (Kind.makeVec n edited).recovers a = true) (stage : Stage) :
    ((Kind.makeVec n edited).evaluate stage (s.resolveDeclared (.makeVec n edited))).state.Answers a ↔
      ¬ (Kind.makeVec n edited).losesOutput s := by
  simp only [Kind.recovers, Bool.and_eq_true, decide_eq_true_eq] at hrecovers
  obtain ⟨⟨hn, houtputs⟩, hinput⟩ := hrecovers
  have hdeclared := hs.isDeclared (.makeVec n edited)
  simp only [Kind.evaluate, Kind.onlyFirstLinked_resolveDeclared]
  by_cases hfirst : Kind.onlyFirstLinked s.inputs = true
  · -- the first input, as it was and as it was resolved
    obtain ⟨pin, hpin, hfloat⟩ := (Option.any_eq_true _ _).mp hinput
    simp only [Bool.and_eq_true, decide_eq_true_eq, Bool.not_eq_eq_eq_not, Bool.not_true] at hfloat
    obtain ⟨slot, hslot, hty, hlink⟩ := hs.input hpin
    obtain ⟨hbefore, hafter⟩ := NodeState.input_resolveDeclared (.makeVec n edited) hslot
    have hspec := Resolve.declaredInput_float (.makeVec n edited) 0 (hty.trans hfloat.1)
      (hlink.trans hfloat.2)
    rw [if_pos hfirst, hdeclared.answers_set houtputs, hafter]
    simp only [Kind.losesOutput, hfirst, hbefore, true_and]
    split at hspec
    · rename_i hdropped
      rw [hspec]
      exact iff_of_false (fun h => absurd h.1 (by simp [Value.convert, Value.isValid_null]))
        (not_not_intro hdropped)
    · rename_i hkept
      have hconverts : (Resolve.declaredInput (.makeVec n edited) 0 slot).value.ty.converts (.gen n) =
          true := by
        rw [hspec.2]
        simp only [List.mem_cons, List.not_mem_nil, or_false] at hn
        rcases hn with rfl | rfl | rfl <;> decide
      have hvalid := Value.isValid_convert hspec.1 hconverts
      exact iff_of_true ⟨hvalid, Value.ty_convert hvalid⟩ hkept
  · rw [if_neg hfirst, hdeclared.answers_set houtputs]
    refine iff_of_true ⟨rfl, rfl⟩ ?_
    exact fun hloses => hfirst hloses.1

/-- The components of a vector have the type of floats, and so have the zeros that stand in for them. -/
theorem answers_breakVec {n : UInt8} (hs : s.Laid a)
    (hrecovers : (Kind.breakVec n).recovers a = true) (stage : Stage) :
    ((Kind.breakVec n).evaluate stage (s.resolveDeclared (.breakVec n))).state.Answers a := by
  simp only [Kind.recovers, Bool.and_eq_true, decide_eq_true_eq] at hrecovers
  obtain ⟨hn, houtputs⟩ := hrecovers
  have hpins : ∀ i (hi : i < a.outputs.length), a.outputs[i].ty = .float := by
    intro i hi
    refine List.eq_of_mem_replicate (n := n.toNat) (houtputs ▸ ?_)
    exact List.mem_map_of_mem (List.getElem_mem hi)
  have hlength : a.outputs.length = n.toNat := by
    simpa using congrArg List.length houtputs
  have hdeclared := hs.isDeclared (.breakVec n)
  have hnone : (s.resolveDeclared (.breakVec n)).TypedBefore (· = .float) 0 := by
    intro i o ho
    obtain ⟨hi, rfl⟩ := List.getElem?_eq_some_iff.mp ho
    have hi' : i < a.outputs.length := hdeclared.length_eq ▸ hi
    exact ⟨((List.forall₂_iff_get.mp hdeclared).2 i hi hi').trans (hpins i hi'),
      fun hlt => absurd hlt (Nat.not_lt_zero i)⟩
  have hletters : (Kind.swizzles.take n.toNat).length = n.toNat := by
    rw [List.length_take]
    exact Nat.min_eq_left hn
  have hall := hnone.components (v := (s.resolveDeclared (.breakVec n)).input 0)
    (Kind.swizzles.take n.toNat) rfl
  rw [hletters, Nat.zero_add] at hall
  -- evaluation leaves as many outputs as there were
  have hcount : ((Kind.breakVec n).evaluate stage (s.resolveDeclared (.breakVec n))).state.outputs.length =
      a.outputs.length := by
    have husage := congrArg List.length
      (NodeState.usage_evaluate (.breakVec n) stage (s.resolveDeclared (.breakVec n)))
    simp only [NodeState.usage, List.length_map] at husage
    exact husage.trans hdeclared.length_eq
  refine List.forall₂_iff_get.mpr ⟨hcount, fun i hi hi' => ?_⟩
  have hvalue := (hall i _ (List.getElem?_eq_getElem hi)).2 (by omega)
  exact ⟨congrArg Ty.isValid hvalue, hvalue.trans (hpins i hi').symm⟩

/-- Whatever reached the inputs, every output has a value of its declared type, unless it was to be
made of one value and that was dropped. -/
theorem Kind.answers_iff {k : Kind} (hs : s.Laid a) (hrecovers : k.recovers a = true)
    (stage : Stage) :
    (k.evaluate stage (s.resolveDeclared k)).state.Answers a ↔ ¬ k.losesOutput s := by
  have hdeclared := hs.isDeclared k
  cases k with
  | scalar value =>
      simp only [Kind.recovers, decide_eq_true_eq] at hrecovers
      exact iff_of_true ((hdeclared.answers_set hrecovers _).mpr ⟨rfl, rfl⟩) not_false
  | vector values =>
      simp only [Kind.recovers, decide_eq_true_eq] at hrecovers
      exact iff_of_true ((hdeclared.answers_set hrecovers _).mpr ⟨rfl, rfl⟩) not_false
  | parameter name =>
      simp only [Kind.recovers, decide_eq_true_eq] at hrecovers
      exact iff_of_true ((hdeclared.answers_set hrecovers _).mpr ⟨rfl, rfl⟩) not_false
  | globalVar value declaration =>
      simp only [Kind.recovers, Bool.and_eq_true, decide_eq_true_eq] at hrecovers
      exact iff_of_true ((hdeclared.answers_set hrecovers.2 _).mpr ⟨hrecovers.1, rfl⟩)
        not_false
  | sample =>
      simp only [Kind.recovers, decide_eq_true_eq] at hrecovers
      refine iff_of_true ?_ not_false
      simp only [Kind.evaluate]
      split
      · exact hdeclared.answers_setCode hrecovers rfl _
      · exact (hdeclared.answers_set hrecovers _).mpr ⟨rfl, rfl⟩
  | makeVec n edited => exact answers_makeVec hs hrecovers stage
  | breakVec n => exact iff_of_true (answers_breakVec hs hrecovers stage) not_false
  | binaryOp | transform | call | append | vertexOut | fragmentOut | bridge | template =>
      exact absurd hrecovers (by simp [Kind.recovers])

/-- A built-in node with outputs and without signatures, other than those that append values or pass
them on, resolves whatever reached its inputs, whatever its fields are and whichever inputs are
linked. Every output then has a value of its declared type, unless the node makes a vector of its
first input alone and what reached it was no float. -/
theorem Registry.answers_builtin_iff {handle : Handle} {e : Registration}
    (he : builtin.get? handle = some e) (houtputs : e.archetype.outputs ≠ [])
    (hoverloads : e.archetype.overloads = []) (hid : e.archetype.id ∉ ["append", "bridge"])
    {k : Kind} (hk : e.initial.Variant k) {s : NodeState C} (hs : s.Laid e.archetype)
    (stage : Stage) :
    (s.resolve e.archetype k).1 = true ∧
      ((k.evaluate stage (s.resolve e.archetype k).2).state.Answers e.archetype ↔
        ¬ k.losesOutput s) := by
  have hrecovers : k.recovers e.archetype = true :=
    (hk.recovers e.archetype).trans
      (recovers_of_mem e (List.mem_of_getElem? he) houtputs hoverloads hid)
  have hresolve : s.resolve e.archetype k = (true, s.resolveDeclared k) := by
    rw [NodeState.resolve, if_pos (by simp [hoverloads])]
  rw [hresolve]
  exact ⟨rfl, Kind.answers_iff hs hrecovers stage⟩

/-! ## A vector of a vector -/

/-- The built-in nodes that make vectors of three components. -/
def Registry.vectorMaker : Registration where
  archetype :=
    { id := "make_vec3", category := "Value", title := "Make Vec3"
      inputs := ["X", "Y", "Z"].map fun name => { name, ty := .float, editable := true }
      outputs := [{ name := "out", ty := .vec3 }] }
  initial := .makeVec 3 [.zero, .zero, .zero]

theorem Registry.get?_vectorMaker : builtin.get? 30 = some vectorMaker := by
  with_unfolding_all rfl

/-- A vector has reached the first input, where floats go. The second input is linked or not, but
nothing has reached it. -/
def Registry.fedVector (second : Bool) : NodeState :=
  let link : Link := .between (.output 2 0) (.input 1 0)
  { node := 1
    inputs :=
      [{ name := "X", declared := .float, ty := .float, value := ⟨.vec3, "v"⟩, link := some link },
        { name := "Y", declared := .float, ty := .float, value := .null,
          link := if second then some link else none },
        { name := "Z", declared := .float, ty := .float, value := .null }]
    outputs := [{ name := "out", declared := .vec3, ty := .vec3, value := .null }] }

theorem Registry.laid_fedVector (second : Bool) :
    (fedVector second).Laid vectorMaker.archetype where
  inputs := .cons ⟨rfl, rfl⟩ (.cons ⟨rfl, rfl⟩ (.cons ⟨rfl, rfl⟩ .nil))
  outputs := .cons ⟨rfl, rfl⟩ .nil

/-- With a second link there are zeros in the place of what was dropped. -/
theorem Registry.answers_fedVector :
    ((vectorMaker.initial.evaluate .fragment
      ((fedVector true).resolve vectorMaker.archetype vectorMaker.initial).2).state.Answers
        vectorMaker.archetype) := by
  have hall := answers_builtin_iff get?_vectorMaker (by decide) rfl (by decide) (.same _)
    (laid_fedVector true) .fragment
  refine hall.2.mpr ?_
  rintro ⟨hfirst, -⟩
  exact absurd hfirst (by decide)

/-- Without it the node resolves, but its output has no value. -/
theorem Registry.not_answers_fedVector :
    builtin.get? 30 = some vectorMaker ∧ vectorMaker.archetype.outputs ≠ [] ∧
      vectorMaker.archetype.overloads = [] ∧
      vectorMaker.archetype.id ∉ ["append", "bridge"] ∧
      (fedVector false).Laid vectorMaker.archetype ∧
      ((fedVector false).resolve vectorMaker.archetype vectorMaker.initial).1 = true ∧
      ¬ (vectorMaker.initial.evaluate .fragment
        ((fedVector false).resolve vectorMaker.archetype vectorMaker.initial).2).state.Answers
          vectorMaker.archetype := by
  refine ⟨get?_vectorMaker, by decide, rfl, by decide, laid_fedVector false, rfl, fun hall => ?_⟩
  refine (Kind.answers_iff (laid_fedVector false) (by decide) .fragment).mp hall ?_
  exact ⟨rfl, rfl, by decide⟩

end NodeShader
