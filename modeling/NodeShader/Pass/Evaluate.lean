import NodeShader.Pass.Basic

/-!
# Demand

Values are asked for pin by pin. An input pin has the value of the output that feeds it; an output
has the value its node puts there, and the node is evaluated first if it has not been. Asking for a
node that is being evaluated is a cycle. What was emitted before a cycle was noticed stays, and so do
the values that had reached the inputs of the nodes left unfinished.
-/

namespace NodeShader.Pass

variable {C : Type} [Code C]

/-- The output that supplies a pin: the one linked to an input, or the output itself. -/
def supplier? (g : ShaderGraph) (pin : Pin) : Option Pin :=
  if pin.isInput then (g.linkInto? pin).map Link.source else some pin

/-- The value at a pin. `visit` evaluates a node unless that has been done. -/
def demand (g : ShaderGraph) (visit : NodeId → Pass C → Except Cycle Unit × Pass C) (pin : Pin)
    (p : Pass C) : Except Cycle (Value C) × Pass C :=
  match supplier? g pin with
  | none => (.ok .null, p)
  | some out =>
    match p.memo.lookup out with
    | some v => (.ok v, p)
    | none =>
      match visit out.node p with
      | (.error c, p) => (.error c, p)
      | (.ok (), p) => (.ok ((p.memo.lookup out).getD .null), p)

/-- Fetches `count` inputs of a node, from input `i` on. -/
def fetchInputs (g : ShaderGraph) (visit : NodeId → Pass C → Except Cycle Unit × Pass C)
    (id : NodeId) : (i count : Nat) → Pass C → Except Cycle Unit × Pass C
  | _, 0, p => (.ok (), p)
  | i, count + 1, p =>
    match demand g visit (.input id i) p with
    | (.error c, p) => (.error c, p)
    | (.ok v, p) => fetchInputs g visit id (i + 1) count (p.mapState id (·.receive i v))

/-- Evaluates a node unless that has been done. `path` holds the nodes being evaluated, and `depth`
says how many more can be entered before one must come back. -/
def visitWithin (g : ShaderGraph) :
    (depth : Nat) → (path : List NodeId) → NodeId → Pass C → Except Cycle Unit × Pass C
  | 0, _, id, p => (.error ⟨id⟩, p)
  | depth + 1, path, id, p =>
    match p.cell? id with
    | none => (.ok (), p)
    | some c =>
      if c.state.evaluated then (.ok (), p)
      else if path.contains id then (.error ⟨id⟩, p)
      else
        match fetchInputs g (visitWithin g depth (id :: path)) id 0 c.state.inputs.length p with
        | (.error c, p) => (.error c, p)
        | (.ok (), p) =>
          match p.cell? id with
          | some c => (.ok (), p.complete c)
          | none => (.ok (), p)

/-- A path that visits no node twice is no longer than this. -/
def depthLimit {C : Type} (p : Pass C) : Nat := p.cells.length + 1

/-- Evaluates a node unless that has been done. -/
def evaluateNode (g : ShaderGraph) (id : NodeId) (p : Pass C) : Except Cycle Unit × Pass C :=
  visitWithin g p.depthLimit [] id p

/-- The value at a pin. -/
def evaluate (g : ShaderGraph) (pin : Pin) (p : Pass C) : Except Cycle (Value C) × Pass C :=
  demand g (visitWithin g p.depthLimit []) pin p

/-- The nodes that the stage starts at, in graph order. -/
def roots {C : Type} (g : ShaderGraph) (p : Pass C) : List NodeId :=
  (g.nodes.map Numbered.id).filter fun id =>
    match p.cell? id with
    | some c => c.kind.root? = some p.stage
    | none => false

/-- Evaluates nodes one after the other. -/
def evaluateAll (g : ShaderGraph) : List NodeId → Pass C → Except Cycle Unit × Pass C
  | [], p => (.ok (), p)
  | id :: rest, p =>
    match evaluateNode g id p with
    | (.error c, p) => (.error c, p)
    | (.ok (), p) => evaluateAll g rest p

/-- Counts what the pass has written and reports its end. -/
def finish {C : Type} (p : Pass C) : Pass C :=
  let stats :=
    { p.stats with statements := p.body.length, declarations := p.declarations.length }
  report { p with stats } (.finished stats)

/-- Evaluates every root. -/
def run (g : ShaderGraph) (p : Pass C) : Except Cycle Unit × Pass C :=
  match evaluateAll g (p.roots g) p with
  | (.error c, p) => (.error c, p)
  | (.ok (), p) => (.ok (), p.finish)

/-- The source of the stage. -/
def source (p : Pass) : String :=
  "#version " ++ p.version.text ++ "\n" ++
    (if p.version.es then "precision mediump float;\n" else "") ++
    String.join (p.declarations.map (· ++ "\n")) ++ "void main()\n\x7b\n" ++
    String.join (p.body.map fun s => "\t" ++ s ++ "\n") ++ "\x7d\n"

/-- The problems on the inputs of evaluated nodes, in graph order. -/
def diagnostics (g : ShaderGraph) (p : Pass) : List SlotError :=
  (g.nodes.map Numbered.id).flatMap fun id =>
    match p.state? id with
    | some s => if s.evaluated then s.errors else []
    | none => []

/-- Leaves a state on its node. -/
def publishState (g : ShaderGraph) (id : NodeId) (s : NodeState) : ShaderGraph :=
  g.modifyExpression id fun e => { e with published := some s }

/-- Leaves the states of the cells that a test selects on their nodes. -/
def publishWhere (test : Cell → Bool) (p : Pass) (g : ShaderGraph) : ShaderGraph :=
  (p.cells.filter fun c => c.attached && test c).foldl (fun g c => publishState g c.id c.state) g

/-- Leaves the state of every node on it. -/
def publish (p : Pass) (g : ShaderGraph) : ShaderGraph := p.publishWhere (fun _ => true) g

/-- From now on the nodes show their states as they are in this pass, or no longer. -/
def showStates (shown : Bool) (p : Pass) : Pass :=
  { p with cells := p.cells.map fun c => { c with shown } }

/-- Brings the states that are shown up to date. -/
def refresh (p : Pass) (g : ShaderGraph) : ShaderGraph := p.publishWhere Cell.shown g

/-- A cell after a change of the graph: it takes over the kind its node has now. A node that is gone
stays as it was, and a later one with its number is another node. -/
def followCell (g : ShaderGraph) (c : Cell) : Cell :=
  if c.attached then
    match g.expression? c.id with
    | some e => { c with kind := e.kind }
    | none => { c with attached := false }
  else c

/-- The pass after a change of the graph. Links are read from the graph in any case; states and
fan-outs stay as they were at the start. -/
def follow (g : ShaderGraph) (p : Pass) : Pass := { p with cells := p.cells.map (followCell g) }

end NodeShader.Pass
