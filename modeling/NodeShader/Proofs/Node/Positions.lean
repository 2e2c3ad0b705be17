import NodeShader.Proofs.Node.Overloads

/-!
# Slots by position

A node's slots are filled and resolved by loops that count pins, or the types of a signature, and reach
for the slot with the same number. The loops of this module do so with every access checked: one that
asks for a slot that is not there has no answer but the position it asked for. They are the functions
on whole lists as long as there is a slot for every number.

* `Positions.updateEach_eq_ok`, `Positions.inferArity_eq`, `Positions.accepts_eq`: the loops.
* `Positions.freshState_eq`: a state has the slots that it fills, whatever the archetype.
* `Positions.resolve_eq`: signatures that have the shape of the state ask for no other slots.
-/

namespace NodeShader

/-- A position past the end. -/
structure OutOfRange where
  position : Nat
  length : Nat
  deriving DecidableEq, Repr

namespace Positions

open Resolve

/-! ## Checked loops -/

section Lists

variable {α β : Type}

/-- What stands at a position. -/
def read (xs : List α) (i : Nat) : Except OutOfRange α :=
  match xs[i]? with
  | some x => .ok x
  | none => .error ⟨i, xs.length⟩

/-- Changes what stands at a position. -/
def update (xs : List α) (i : Nat) (f : α → α) : Except OutOfRange (List α) := do
  let x ← read xs i
  return xs.set i (f x)

/-- Changes the slots from position `i` on, one for each entry of a list. -/
def updateEach (f : Nat → β → α → α) : Nat → List β → List α → Except OutOfRange (List α)
  | _, [], slots => .ok slots
  | i, x :: rest, slots => do
    let slots ← update slots i (f i x)
    updateEach f (i + 1) rest slots

end Lists

variable {C : Type}

/-- The arity at which generic slots are read. Values on other slots are not asked for. -/
def inferArity (inputs : List (InputSlot C)) : Nat → List Ty → Except OutOfRange UInt8
  | _, [] => .ok 1
  | i, t :: ts =>
    if t.isValid then inferArity inputs (i + 1) ts
    else do
      let slot ← read inputs i
      match if slot.value.isValid then slot.value.ty.arity? else none with
      | some n => return n
      | none => inferArity inputs (i + 1) ts

/-- Does every connected input convert to its slot? The first that does not ends the loop. -/
def accepts (arity : UInt8) (inputs : List (InputSlot C)) : Nat → List Ty → Except OutOfRange Bool
  | _, [] => .ok true
  | i, t :: ts => do
    let slot ← read inputs i
    if !slot.value.isValid || slot.value.ty.converts (substitute t arity) then
      accepts arity inputs (i + 1) ts
    else return false

/-- The first signature that accepts the values. -/
def choose (inputs : List (InputSlot C)) :
    Nat → List Overload → Except OutOfRange (Option (Nat × Overload × UInt8))
  | _, [] => .ok none
  | i, o :: rest => do
    let arity ← inferArity inputs 0 o.inputs
    if ← accepts arity inputs 0 o.inputs then return some (i, o, arity)
    else choose inputs (i + 1) rest

section Slots

variable [Code C]

/-- Resolves by declared types. -/
def resolveDeclared (s : NodeState C) (k : Kind) : Except OutOfRange (NodeState C) := do
  let inputs ← updateEach (fun i _ => declaredInput k i) 0 s.inputs s.inputs
  let outputs ← updateEach (fun _ _ out => { out with ty := out.declared }) 0 s.outputs s.outputs
  return { s with inputs, outputs }

/-- Resolves by a chosen signature. -/
def applyOverload (s : NodeState C) (k : Kind) (i : Nat) (o : Overload) (arity : UInt8) :
    Except OutOfRange (NodeState C) := do
  let inputs ← updateEach (fun i t slot => applyInput k arity i slot t) 0 o.inputs s.inputs
  let outputs ←
    updateEach (fun _ t out => { out with ty := substitute t arity }) 0 o.outputs s.outputs
  return { s with overload := some i, inputs, outputs }

/-- Says on the first input, if there is one, why the node has no values, and drops them. -/
def rejectAll (s : NodeState C) : Except OutOfRange (NodeState C) := do
  let failed ←
    if s.inputs.isEmpty then .ok s.inputs
    else update s.inputs 0 fun slot => { slot with problem := noOverloadProblem }
  let inputs ← updateEach (fun _ _ slot => { slot with value := .null }) 0 failed failed
  return { s with overload := none, inputs }

/-- Types and converts every slot. -/
def resolve (s : NodeState C) (a : Archetype) (k : Kind) :
    Except OutOfRange (Bool × NodeState C) :=
  if a.overloads.isEmpty then return (true, ← resolveDeclared s k)
  else do
    match ← choose s.inputs 0 a.overloads with
    | some (i, o, arity) => return (true, ← applyOverload s k i o arity)
    | none => return (false, ← rejectAll s)

/-- A slot with nothing in it. -/
def blankInput : InputSlot C := { name := "", declared := .none, ty := .none, value := .null }

@[inherit_doc blankInput]
def blankOutput : OutputSlot C := { name := "", declared := .none, ty := .none, value := .null }

/-- Fills the slot of input `i`. -/
def fillInput (g : ShaderGraph) (id : NodeId) (i : Nat) (pin : InputPin) (slot : InputSlot C) :
    InputSlot C :=
  { slot with
    name := pin.name, declared := pin.ty, ty := pin.ty, value := .null,
    requireLink := pin.requireLink, link := g.linkInto? (.input id i) }

/-- Fills the slot of output `i`. -/
def fillOutput (g : ShaderGraph) (id : NodeId) (i : Nat) (pin : OutputPin) (slot : OutputSlot C) :
    OutputSlot C :=
  { slot with
    name := pin.name, declared := pin.ty, ty := pin.ty, value := .null, hoist := pin.hoist,
    fanOut := g.fanOut (.output id i) }

/-- Makes as many blank slots as the archetype has pins and fills them one by one. -/
def freshState (a : Archetype) (id : NodeId) (g : ShaderGraph) :
    Except OutOfRange (NodeState C) := do
  let inputs ← updateEach (fillInput g id) 0 a.inputs (List.replicate a.inputs.length blankInput)
  let outputs ←
    updateEach (fillOutput g id) 0 a.outputs (List.replicate a.outputs.length blankOutput)
  return { node := id, inputs, outputs }

end Slots

/-! ## In range -/

section Lists

variable {α β : Type}

theorem read_eq {xs : List α} {i : Nat} (h : i < xs.length) : read xs i = .ok xs[i] := by
  rw [read, List.getElem?_eq_getElem h]

theorem update_append (pre : List α) (x : α) (rest : List α) (f : α → α) :
    update (pre ++ x :: rest) pre.length f = .ok (pre ++ f x :: rest) := by
  rw [update, read_eq (by simp)]
  simp [bind, Except.bind, pure, Except.pure]

/-- What a loop leaves behind what it has passed. -/
theorem updateEach_append (f : Nat → β → α → α) (pre : List α) {xs : List β} {slots : List α}
    (h : xs.length = slots.length) :
    updateEach f pre.length xs (pre ++ slots) =
      .ok (pre ++ (xs.zip slots).mapIdx fun i p => f (pre.length + i) p.1 p.2) := by
  induction xs generalizing pre slots with
  | nil =>
      obtain rfl := List.length_eq_zero_iff.mp h.symm
      rfl
  | cons x xs ih =>
      cases slots with
      | nil => exact absurd h (by simp)
      | cons slot slots =>
          have hrest := ih (pre ++ [f pre.length x slot]) (Nat.succ.inj h)
          rw [updateEach, update_append]
          simpa [bind, Except.bind, List.mapIdx_cons, Nat.add_assoc, Nat.add_comm 1] using hrest

/-- A loop over as many entries as there are slots changes each of them once. -/
theorem updateEach_eq_ok {f : Nat → β → α → α} {xs : List β} {slots slots' : List α}
    (h : xs.length = slots.length) (h' : slots'.length = slots.length)
    (heach : ∀ i x slot, xs[i]? = some x → slots[i]? = some slot →
      slots'[i]? = some (f i x slot)) :
    updateEach f 0 xs slots = .ok slots' := by
  have hloop := updateEach_append f [] h
  simp only [List.length_nil, List.nil_append, Nat.zero_add] at hloop
  rw [hloop]
  refine congrArg Except.ok (List.ext_getElem (by simp [h, h']) fun i hi hi' => ?_)
  have hslot : i < slots.length := h' ▸ hi'
  have hx : i < xs.length := h ▸ hslot
  have hsome := heach i xs[i] slots[i] (List.getElem?_eq_getElem hx) (List.getElem?_eq_getElem hslot)
  rw [List.getElem?_eq_getElem hi', Option.some.injEq] at hsome
  simp [hsome]

end Lists

theorem inferArity_eq {inputs : List (InputSlot C)} {i : Nat} {ts : List Ty}
    (h : i + ts.length ≤ inputs.length) :
    inferArity inputs i ts = .ok (Resolve.inferArity ts ((inputs.drop i).map InputSlot.value)) := by
  induction ts generalizing i with
  | nil => rfl
  | cons t ts ih =>
      rw [List.length_cons] at h
      have hi : i < inputs.length := by omega
      rw [List.drop_eq_getElem_cons hi, List.map_cons, inferArity, Resolve.inferArity,
        ih (by omega), read_eq hi]
      cases t.isValid with
      | true => rfl
      | false =>
          cases hvalid : inputs[i].value.isValid with
          | false => simp [bind, Except.bind, hvalid]
          | true =>
              cases harity : inputs[i].value.ty.arity? <;>
                simp [bind, Except.bind, pure, Except.pure, hvalid, harity]

theorem accepts_eq {arity : UInt8} {inputs : List (InputSlot C)} {i : Nat} {ts : List Ty}
    (h : i + ts.length ≤ inputs.length) :
    accepts arity inputs i ts =
      .ok (Resolve.accepts arity ts ((inputs.drop i).map InputSlot.value)) := by
  induction ts generalizing i with
  | nil => rfl
  | cons t ts ih =>
      rw [List.length_cons] at h
      have hi : i < inputs.length := by omega
      rw [List.drop_eq_getElem_cons hi, List.map_cons, accepts, Resolve.accepts, ih (by omega),
        read_eq hi]
      simp only [bind, Except.bind]
      split
      · rename_i haccepts
        rw [haccepts, Bool.true_and]
      · rename_i haccepts
        rw [Bool.not_eq_true] at haccepts
        rw [haccepts, Bool.false_and]
        rfl

theorem choose_eq {inputs : List (InputSlot C)} {i : Nat} {os : List Overload}
    (h : ∀ o ∈ os, o.inputs.length = inputs.length) :
    choose inputs i os = .ok (Resolve.choose (inputs.map InputSlot.value) i os) := by
  induction os generalizing i with
  | nil => rfl
  | cons o rest ih =>
      obtain ⟨ho, hrest⟩ := List.forall_mem_cons.mp h
      have hfits : 0 + o.inputs.length ≤ inputs.length := by omega
      rw [choose, Resolve.choose, inferArity_eq hfits, List.drop_zero]
      simp only [bind, Except.bind]
      rw [accepts_eq hfits, List.drop_zero]
      dsimp only
      split
      · rfl
      · exact ih hrest

variable [Code C]

/-- A state has the slots that are filled. -/
theorem freshState_eq (a : Archetype) (id : NodeId) (g : ShaderGraph) :
    freshState a id g = .ok (a.freshState id g : NodeState C) := by
  have hinputs : updateEach (fillInput g id) 0 a.inputs
      (List.replicate a.inputs.length blankInput) = .ok (a.freshState id g : NodeState C).inputs := by
    refine updateEach_eq_ok (by simp) (by simp [Archetype.freshState]) fun i pin slot hpin hslot => ?_
    obtain ⟨hi, rfl⟩ := List.getElem?_eq_some_iff.mp hslot
    simp [Archetype.freshState, fillInput, blankInput, hpin]
  have houtputs : updateEach (fillOutput g id) 0 a.outputs
      (List.replicate a.outputs.length blankOutput) =
        .ok (a.freshState id g : NodeState C).outputs := by
    refine updateEach_eq_ok (by simp) (by simp [Archetype.freshState]) fun i pin slot hpin _ => ?_
    simp [Archetype.freshState, fillOutput, hpin]
  simp only [freshState, hinputs, houtputs, bind, Except.bind]
  rfl

theorem resolveDeclared_eq (s : NodeState C) (k : Kind) :
    resolveDeclared s k = .ok (s.resolveDeclared k) := by
  have hinputs : updateEach (fun i _ => declaredInput k i) 0 s.inputs s.inputs =
      .ok (s.resolveDeclared k).inputs := by
    refine updateEach_eq_ok rfl (by simp [NodeState.resolveDeclared]) fun i _ slot _ hslot => ?_
    simp [NodeState.resolveDeclared, hslot]
  have houtputs : updateEach (fun _ _ out => { out with ty := out.declared }) 0 s.outputs s.outputs =
      .ok (s.resolveDeclared k).outputs := by
    refine updateEach_eq_ok rfl (by simp [NodeState.resolveDeclared]) fun i _ out _ hout => ?_
    simp [NodeState.resolveDeclared, hout]
  simp only [resolveDeclared, hinputs, houtputs, bind, Except.bind]
  rfl

theorem applyOverload_eq {s : NodeState C} {o : Overload} (k : Kind) (i : Nat) (arity : UInt8)
    (hin : o.inputs.length = s.inputs.length) (hout : o.outputs.length = s.outputs.length) :
    applyOverload s k i o arity = .ok (s.applyOverload k i o arity) := by
  have hinputs : updateEach (fun i t slot => applyInput k arity i slot t) 0 o.inputs s.inputs =
      .ok (applyInputs k arity 0 s.inputs o.inputs) := by
    refine updateEach_eq_ok hin (length_applyInputs k arity 0 _ _) fun j t slot ht hslot => ?_
    have happly := getElem?_applyInputs k arity 0 hslot ht
    rwa [Nat.zero_add] at happly
  have houtputs : updateEach (fun _ t out => { out with ty := substitute t arity }) 0 o.outputs
      s.outputs = .ok (applyOutputs arity s.outputs o.outputs) :=
    updateEach_eq_ok hout (length_applyOutputs arity _ _) fun _ _ _ ht hout =>
      getElem?_applyOutputs arity hout ht
  simp only [applyOverload, hinputs, houtputs, bind, Except.bind]
  rfl

/-- Values can be dropped before the problem is noted or after. -/
theorem rejectAll_eq (s : NodeState C) : rejectAll s = .ok s.rejectAll := by
  have hdrop (slots : List (InputSlot C)) :
      updateEach (fun _ _ slot => { slot with value := .null }) 0 slots slots =
        .ok (slots.map fun slot => { slot with value := .null }) := by
    refine updateEach_eq_ok rfl (by simp) fun i _ slot _ hslot => ?_
    simp [hslot]
  cases hinputs : s.inputs with
  | nil =>
      simp [rejectAll, NodeState.rejectAll, NodeState.fail, NodeState.mapInput, hinputs, hdrop, bind,
        Except.bind, pure, Except.pure]
  | cons first rest =>
      have hfail := update_append [] first rest
        fun slot => { slot with problem := noOverloadProblem }
      simp only [List.nil_append, List.length_nil] at hfail
      simp [rejectAll, NodeState.rejectAll, NodeState.fail, NodeState.mapInput, hinputs, hfail, hdrop,
        bind, Except.bind, pure, Except.pure]

/-- Signatures that have the shape of the state ask for the slots that it has. -/
theorem resolve_eq {s : NodeState C} {a : Archetype} (k : Kind)
    (h : ∀ o ∈ a.overloads, o.inputs.length = s.inputs.length ∧ o.outputs.length = s.outputs.length) :
    resolve s a k = .ok (s.resolve a k) := by
  rw [resolve, NodeState.resolve]
  split
  · rw [resolveDeclared_eq]
    rfl
  · rw [choose_eq fun o ho => (h o ho).1]
    simp only [bind, Except.bind, ← NodeState.values.eq_def]
    cases hchoice : Resolve.choose s.values 0 a.overloads with
    | none =>
        rw [rejectAll_eq]
        rfl
    | some choice =>
        obtain ⟨i, o, arity⟩ := choice
        obtain ⟨j, -, ho, -⟩ := choose_eq_some hchoice
        obtain ⟨hin, hout⟩ := h o (List.mem_of_getElem? ho)
        dsimp only
        rw [applyOverload_eq k i arity hin hout]
        rfl

-- a signature with one slot more asks for a second input
example : resolve (C := String) { node := 1, inputs := [blankInput], outputs := [] }
    { id := "neg", overloads := [⟨[.float, .float], []⟩] } .append = .error ⟨1, 1⟩ := rfl

end Positions

end NodeShader
