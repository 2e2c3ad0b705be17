import NodeShader.Graph.Basic
import NodeShader.Node.Registry

/-!
# Nodes of a shader graph

Most nodes are expressions: instances of an archetype. A graph can hold other nodes too, which have
pins at most and are passed over when code is generated.
-/

namespace NodeShader

/-- Where a node stands in an editor. -/
structure Position where
  x : Number.Single := .zero
  y : Number.Single := .zero
  deriving DecidableEq, Repr, Inhabited

/-- An instance of an archetype. -/
structure Expression where
  handle : Handle
  kind : Kind
  pins : PinCount
  position : Position := {}
  /-- What the last pass found out about the node. -/
  published : Option NodeState := none
  deriving Repr, Inhabited

/-- The node with its fields taken from a record. -/
def Expression.load (e : Expression) (r : Record) : Except FieldError Expression := do
  return { e with kind := ← e.kind.load r }

inductive Node where
  | expression (e : Expression)
  /-- A node of another kind, known by the name of its type. -/
  | foreign (typeName : String) (pins : Option PinCount)
  deriving Repr, Inhabited

namespace Node

def expression? : Node → Option Expression
  | .expression e => some e
  | .foreign .. => none

instance : CountsPins Node where
  pinCount?
    | .expression e => some e.pins
    | .foreign _ pins => pins

end Node

abbrev ShaderGraph := Graph Node

namespace Graph

/-- The expression with a number. -/
def expression? (g : ShaderGraph) (id : NodeId) : Option Expression :=
  (g.node? id).bind Node.expression?

/-- Changes the expression with a number. -/
def modifyExpression (g : ShaderGraph) (id : NodeId) (f : Expression → Expression) : ShaderGraph :=
  g.modify id fun
    | .expression e => .expression (f e)
    | n => n

end Graph

namespace Registry

/-- A new node of a registered archetype. -/
def instantiate? (r : Registry) (h : Handle) : Option Expression :=
  (r.get? h).map fun e =>
    { handle := h, kind := e.initial,
      pins := ⟨e.archetype.inputs.length, e.archetype.outputs.length⟩ }

/-- A new node by the identifier of its archetype. -/
def create (r : Registry) (id : String) : Except UnknownArchetype Expression :=
  match (r.lookup? id).bind r.instantiate? with
  | some e => .ok e
  | none => .error ⟨id, r.suggest id⟩

end Registry

/-- The state of a node before a pass: links and fan-outs as they are in the graph, and no values. -/
def Archetype.freshState {C : Type} [Code C] (a : Archetype) (id : NodeId) (g : ShaderGraph) :
    NodeState C :=
  { node := id
    inputs := a.inputs.mapIdx fun i pin =>
      { name := pin.name, declared := pin.ty, ty := pin.ty, value := .null,
        link := g.linkInto? (.input id i), requireLink := pin.requireLink }
    outputs := a.outputs.mapIdx fun i pin =>
      { name := pin.name, declared := pin.ty, ty := pin.ty, value := .null,
        fanOut := g.fanOut (.output id i), hoist := pin.hoist } }

end NodeShader
