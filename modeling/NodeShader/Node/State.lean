import NodeShader.Graph.Pin
import NodeShader.Shader.Value
import NodeShader.Text.Quoted

/-!
# Evaluation states

What one pass knows about one node: the type and value of every pin, the signature that was chosen
and the problems found on the way.
-/

namespace NodeShader

structure InputSlot (C : Type := String) where
  name : String
  declared : Ty
  ty : Ty
  value : Value C
  link : Option Link := none
  requireLink : Bool := false
  /-- The problem with this input; empty when there is none. -/
  problem : String := ""
  deriving DecidableEq, Repr, Inhabited

structure OutputSlot (C : Type := String) where
  name : String
  declared : Ty
  ty : Ty
  value : Value C
  fanOut : Nat := 0
  hoist : Bool := false
  deriving DecidableEq, Repr, Inhabited

structure NodeState (C : Type := String) where
  node : NodeId
  inputs : List (InputSlot C)
  outputs : List (OutputSlot C)
  overload : Option Nat := none
  evaluated : Bool := false
  deriving DecidableEq, Repr, Inhabited

def InputSlot.isLinked {C : Type} (s : InputSlot C) : Bool := s.link.isSome

/-- A problem on an input pin of a node. -/
structure SlotError where
  pin : Pin
  name : String
  problem : String
  deriving DecidableEq, Repr

def SlotError.message (e : SlotError) : String :=
  "node " ++ e.pin.node.text ++ " input " ++ Text.quote e.name ++ ": " ++ e.problem

namespace NodeState

variable {C : Type}

/-- The value of input `i`; null past the last one. -/
def input [Code C] (s : NodeState C) (i : Nat) : Value C := (s.inputs[i]?.map InputSlot.value).getD .null

/-- Changes output `i`. -/
def mapOutput (s : NodeState C) (i : Nat) (f : OutputSlot C → OutputSlot C) : NodeState C :=
  { s with outputs := s.outputs.modify i f }

/-- Changes input `i`. -/
def mapInput (s : NodeState C) (i : Nat) (f : InputSlot C → InputSlot C) : NodeState C :=
  { s with inputs := s.inputs.modify i f }

/-- Stores a value on output `i`. A valid value also fixes the type of the output. -/
def set (s : NodeState C) (i : Nat) (v : Value C) : NodeState C :=
  s.mapOutput i fun o => { o with value := v, ty := if v.isValid then v.ty else o.ty }

/-- Stores source code on output `i`, of the type the output has. -/
def setCode (s : NodeState C) (i : Nat) (code : C) : NodeState C :=
  s.mapOutput i fun o => { o with value := ⟨o.ty, code⟩ }

/-- Stores the value that reached input `i`. -/
def receive (s : NodeState C) (i : Nat) (v : Value C) : NodeState C :=
  s.mapInput i fun slot => { slot with value := v }

/-- Records a problem with input `i`. -/
def fail (s : NodeState C) (i : Nat) (problem : String) : NodeState C :=
  s.mapInput i fun slot => { slot with problem }

/-- The problems on the inputs, in order. -/
def errors (s : NodeState C) : List SlotError :=
  (s.inputs.zipIdx.filter fun (slot, _) => slot.problem ≠ "").map fun (slot, i) =>
    ⟨.input s.node i, slot.name, slot.problem⟩

end NodeState

end NodeShader
