import NodeShader.Node.Archetype
import NodeShader.Node.Kind

/-!
# Resolving signatures

Before a node is evaluated its inputs are brought to the types of a signature. The signatures of the
archetype are tried in order; the first to which every connected input converts is taken. Generic
slots of a signature share one arity, that of the first connected scalar or vector on a generic
slot. Without signatures each input converts to its declared type by itself.
-/

namespace NodeShader

namespace Resolve

variable {C : Type} [Code C]

/-- The value of an input without a link: the kind's number, or zero, as the type of the slot. Inputs
that need a link, and types that are not scalars or vectors, have none. -/
def defaultValue (k : Kind) (i : Nat) (requireLink : Bool) (t : Ty) : Value C :=
  if requireLink || !t.isGen then .null
  else .splat ((k.default? i).getD .zero) t

/-- The text of a failed conversion. -/
def conversionProblem (source target : Ty) : String :=
  "cannot convert from " ++ source.text ++ " to " ++ target.text

/-- The text when no signature fits. -/
def noOverloadProblem : String := "no compatible overload found"

/-- Brings one input to its declared type. -/
def declaredInput (k : Kind) (i : Nat) (slot : InputSlot C) : InputSlot C :=
  if !slot.value.isValid then
    { slot with
      ty := slot.declared, value := defaultValue k i slot.requireLink slot.declared }
  else if !slot.declared.isValid then { slot with ty := slot.value.ty }
  else if slot.value.ty.converts slot.declared then
    { slot with ty := slot.declared, value := slot.value.convert slot.declared }
  else
    { slot with
      ty := .none, value := .null,
      problem := conversionProblem slot.value.ty slot.declared }

/-- The slot's type with a generic slot read as a vector of the given arity. -/
def substitute (slot : Ty) (arity : UInt8) : Ty := if slot.isValid then slot else .gen arity

/-- The arity of the first connected scalar or vector on a generic slot, else one. -/
def inferArity : List Ty → List (Value C) → UInt8
  | slot :: slots, v :: values =>
    if slot.isValid || !v.isValid then inferArity slots values
    else match v.ty.arity? with
      | some n => n
      | none => inferArity slots values
  | _, _ => 1

/-- Does every connected input convert to its slot? -/
def accepts (arity : UInt8) : List Ty → List (Value C) → Bool
  | slot :: slots, v :: values =>
    (!v.isValid || v.ty.converts (substitute slot arity)) && accepts arity slots values
  | _, _ => true

/-- The first signature that accepts the values, with its position, counted from `i`, and its
arity. -/
def choose (values : List (Value C)) : Nat → List Overload → Option (Nat × Overload × UInt8)
  | _, [] => none
  | i, o :: rest =>
    let arity := inferArity o.inputs values
    if accepts arity o.inputs values then some (i, o, arity) else choose values (i + 1) rest

/-- Brings one input to the type of its slot. -/
def applyInput (k : Kind) (arity : UInt8) (i : Nat) (slot : InputSlot C) (t : Ty) :
    InputSlot C :=
  let t := substitute t arity
  { slot with
    ty := t
    value :=
      if slot.value.isValid then slot.value.convert t else defaultValue k i slot.requireLink t }

/-- Brings the inputs, counted from `i`, to the types of a signature. -/
def applyInputs (k : Kind) (arity : UInt8) :
    Nat → List (InputSlot C) → List Ty → List (InputSlot C)
  | i, slot :: slots, t :: ts => applyInput k arity i slot t :: applyInputs k arity (i + 1) slots ts
  | _, slots, [] => slots
  | _, [], _ => []

/-- Gives the outputs the types of a signature. -/
def applyOutputs (arity : UInt8) : List (OutputSlot C) → List Ty → List (OutputSlot C)
  | slot :: slots, t :: ts => { slot with ty := substitute t arity } :: applyOutputs arity slots ts
  | slots, [] => slots
  | [], _ => []

end Resolve

namespace NodeState

open Resolve

variable {C : Type} [Code C]

/-- The values that reached the inputs. -/
def values (s : NodeState C) : List (Value C) := s.inputs.map InputSlot.value

/-- Resolves by declared types. -/
def resolveDeclared (s : NodeState C) (k : Kind) : NodeState C :=
  { s with
    inputs := s.inputs.mapIdx (declaredInput k)
    outputs := s.outputs.map fun o => { o with ty := o.declared } }

/-- Resolves by a chosen signature. -/
def applyOverload (s : NodeState C) (k : Kind) (i : Nat) (o : Overload) (arity : UInt8) :
    NodeState C :=
  { s with
    overload := some i
    inputs := applyInputs k arity 0 s.inputs o.inputs
    outputs := applyOutputs arity s.outputs o.outputs }

/-- Leaves the node without values and says why on its first input. -/
def rejectAll (s : NodeState C) : NodeState C :=
  let cleared : NodeState C :=
    { s with overload := none, inputs := s.inputs.map fun slot => { slot with value := .null } }
  cleared.fail 0 noOverloadProblem

/-- Types and converts every slot. The answer is false when no signature fits; the node then has no
values. -/
def resolve (s : NodeState C) (a : Archetype) (k : Kind) : Bool × NodeState C :=
  if a.overloads.isEmpty then (true, s.resolveDeclared k)
  else
    match choose s.values 0 a.overloads with
    | some (i, o, arity) => (true, s.applyOverload k i o arity)
    | none => (false, s.rejectAll)

end NodeState

end NodeShader
