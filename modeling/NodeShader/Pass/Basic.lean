import NodeShader.Node.Expression
import NodeShader.Node.Resolve
import NodeShader.Shader.Version

/-!
# Passes

A pass generates the source of one stage. It starts at the stage's roots and asks for values through
the links, so that a node is evaluated when its first consumer asks for it and at most once. Values
used more than once, long values and values flagged by their archetype are stored in variables; the
others are written where they are used.
-/

namespace NodeShader

/-- What the caller asks for. A version of zero and a threshold below one stand for the defaults. -/
structure Options where
  version : Version := .v120
  threshold : Int := 15
  deriving DecidableEq, Repr, Inhabited

namespace Options

def defaultThreshold : Nat := 15

/-- The version that is written. -/
def effectiveVersion (o : Options) : Version := if o.version.major = 0 then .v120 else o.version

/-- The length from which a value is stored in a variable. -/
def effectiveThreshold (o : Options) : Nat :=
  if o.threshold ≤ 0 then defaultThreshold else o.threshold.toNat

end Options

/-- Counts of a pass. The last two are known when the pass is finished. -/
structure Stats where
  nodes : Nat := 0
  hoisted : Nat := 0
  statements : Nat := 0
  declarations : Nat := 0
  deriving DecidableEq, Repr, Inhabited

/-- What happens during a pass. -/
inductive Event where
  | evaluated (id : NodeId) (archetype : String) (overload : Option Nat)
  | hoisted (pin : Pin) (name : String) (fanOut : Nat)
  | finished (stats : Stats)
  deriving DecidableEq, Repr

/-- One node of a pass. -/
structure Cell (C : Type := String) where
  id : NodeId
  archetype : Archetype
  kind : Kind
  state : NodeState C
  /-- Is it still a node of the graph? -/
  attached : Bool := true
  /-- Is the state shown on the node? What the pass finds out later then shows there too. -/
  shown : Bool := false
  deriving Repr, Inhabited

/-- Resolves and evaluates a node whose inputs have their values. -/
def Cell.outcome {C : Type} [Code C] (c : Cell C) (stage : Stage) : Outcome C :=
  match c.state.resolve c.archetype c.kind with
  | (true, s) => c.kind.evaluate stage s
  | (false, s) => { state := s }

structure Pass (C : Type := String) where
  stage : Stage
  version : Version
  threshold : Nat
  cells : List (Cell C)
  /-- The values of outputs that have been evaluated and are used. -/
  memo : List (Pin × Value C) := []
  declarations : List String := []
  body : List C := []
  /-- The number of the next variable. -/
  nextVar : Nat := 0
  stats : Stats := {}
  events : List Event := []
  deriving Repr, Inhabited

/-- Evaluation came back to a node that it had not finished. -/
structure Cycle where
  node : NodeId
  deriving DecidableEq, Repr

def Cycle.message (c : Cycle) : String := "cycle through node " ++ c.node.text

namespace Pass

variable {C : Type}

/-- Prepares a pass: every expression gets a fresh state from the links of the graph. -/
def start [Code C] (g : ShaderGraph) (r : Registry) (stage : Stage) (o : Options) : Pass C :=
  { stage
    version := o.effectiveVersion
    threshold := o.effectiveThreshold
    cells := g.nodes.filterMap fun n =>
      match n.node with
      | .expression e =>
        (r.archetype? e.handle).map fun a =>
          { id := n.id, archetype := a, kind := e.kind, state := a.freshState n.id g }
      | .foreign .. => none }

def cell? (p : Pass C) (id : NodeId) : Option (Cell C) := p.cells.find? (·.id = id)

/-- The state of a node. -/
def state? (p : Pass C) (id : NodeId) : Option (NodeState C) := (p.cell? id).map Cell.state

/-- Changes the state of a node. -/
def mapState (p : Pass C) (id : NodeId) (f : NodeState C → NodeState C) : Pass C :=
  { p with
    cells := p.cells.map fun c => if c.id = id then { c with state := f c.state } else c }

/-- Adds a global declaration, once. -/
def declare (p : Pass C) (declaration : String) : Pass C :=
  if p.declarations.contains declaration then p
  else { p with declarations := p.declarations ++ [declaration] }

/-- Adds a statement to the body. -/
def emit (p : Pass C) (statement : C) : Pass C := { p with body := p.body ++ [statement] }

def report (p : Pass C) (e : Event) : Pass C := { p with events := p.events ++ [e] }

def remember (p : Pass C) (pin : Pin) (v : Value C) : Pass C := { p with memo := (pin, v) :: p.memo }

/-- The name of a variable. -/
def varName (n : Nat) : String := "var" ++ Number.natText n

variable [Code C]

/-- The declaration of a variable. -/
def varDeclaration (n : Nat) (v : Value C) : C := Code.define v.ty (varName n) v.code

/-- Is the value of an output stored in a variable? -/
def isHoisted (p : Pass C) (o : OutputSlot C) : Bool :=
  1 < o.fanOut || o.hoist || p.threshold ≤ Code.size o.value.code

/-- Stores the value of an output in the next variable. -/
def hoist (p : Pass C) (pin : Pin) (o : OutputSlot C) : Pass C :=
  let name := varName p.nextVar
  let p' := (p.emit (varDeclaration p.nextVar o.value)).report (.hoisted pin name o.fanOut)
  { p' with
    nextVar := p.nextVar + 1
    stats := { p.stats with hoisted := p.stats.hoisted + 1 }
    memo := (pin, ⟨o.value.ty, Code.verbatim name⟩) :: p.memo }

/-- Makes an output available to its consumers. Unused and null outputs are not kept; opaque values
are never stored in a variable. -/
def bind (p : Pass C) (pin : Pin) (o : OutputSlot C) : Pass C :=
  if o.fanOut = 0 || !o.value.isValid then p
  else if o.value.ty.isOpaque || !p.isHoisted o then p.remember pin o.value
  else p.hoist pin o

/-- Makes the outputs of a node, counted from `i`, available. -/
def bindOutputs (id : NodeId) : Nat → List (OutputSlot C) → Pass C → Pass C
  | _, [], p => p
  | i, o :: rest, p => bindOutputs id (i + 1) rest (p.bind (.output id i) o)

/-- Finishes a node whose inputs have their values. -/
def complete (p : Pass C) (c : Cell C) : Pass C :=
  let out := c.outcome p.stage
  let done := { out.state with evaluated := true }
  let p := out.declarations.foldl declare p
  let p := out.statements.foldl emit p
  let p := p.mapState c.id fun _ => done
  let p := { p with stats := { p.stats with nodes := p.stats.nodes + 1 } }
  let p := p.report (.evaluated c.id c.archetype.id done.overload)
  bindOutputs c.id 0 done.outputs p

end Pass

end NodeShader
