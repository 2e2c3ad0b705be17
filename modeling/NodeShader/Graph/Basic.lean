import NodeShader.Graph.Index
import NodeShader.Graph.LinkList

/-!
# Node graphs

Nodes in the order they came in with an index of their numbers, links in sorted order, and the last
number given out. A node is known to the graph by its number and by how many pins it has, if it
counts them. An input takes one link at most: a new link into it replaces the old one.
-/

namespace NodeShader

/-- How many pins a node has on each side. -/
structure PinCount where
  inputs : Nat
  outputs : Nat
  deriving DecidableEq, Repr, Inhabited

/-- How many pins there are on one side. -/
def PinCount.on (count : PinCount) : Direction → Nat
  | .input => count.inputs
  | .output => count.outputs

/-- What a graph asks of a node: its pin counts, if it has any. -/
class CountsPins (α : Type) where
  pinCount? : α → Option PinCount

/-- Why a graph refuses a change. -/
inductive GraphError where
  | selfLink (p : Pin)
  | sameDirection (a b : Pin)
  | sameNode (a b : Pin)
  | invalidPin (p : Pin)
  | unknownNode (p : Pin)
  | pinOutOfRange (p : Pin) (limit : Nat)
  | duplicateLink (l : Link)
  | invalidNodeId (id : NodeId)
  | duplicateNodeId (id : NodeId)
  deriving DecidableEq, Repr

/-- A node with its number. -/
structure Numbered (α : Type) where
  id : NodeId
  node : α
  deriving Repr

structure Graph (α : Type) where
  nodes : List (Numbered α) := []
  /-- The positions of the nodes in the list. -/
  index : Index := {}
  links : List Link := []
  lastId : NodeId := 0
  deriving Repr

namespace Graph

variable {α : Type}

/-- A graph without nodes. -/
def empty : Graph α := {}

instance : Inhabited (Graph α) := ⟨empty⟩

def size (g : Graph α) : Nat := g.nodes.length

/-- The node with a number. -/
def node? (g : Graph α) (id : NodeId) : Option α :=
  (g.index.position? id).bind fun i => g.nodes[i]?.map Numbered.node

def contains (g : Graph α) (id : NodeId) : Bool := (g.index.position? id).isSome

/-- Puts a node behind the others. -/
def insert (g : Graph α) (id : NodeId) (node : α) : Graph α :=
  { g with nodes := g.nodes ++ [⟨id, node⟩], index := g.index.put id g.nodes.length }

/-- Adds a node under the next number. Numbers are not used again. -/
def add (g : Graph α) (node : α) : NodeId × Graph α :=
  let id := g.lastId + 1
  (id, { g.insert id node with lastId := id })

/-- Adds a node under a number of its own; later numbers continue after it. -/
def restore (g : Graph α) (id : NodeId) (node : α) : Except GraphError (Graph α) :=
  if !id.isValid then .error (.invalidNodeId id)
  else if g.contains id then .error (.duplicateNodeId id)
  else .ok { g.insert id node with lastId := max g.lastId id }

/-- Removes a node and every link that touches it. The nodes behind it move up. -/
def remove (g : Graph α) (id : NodeId) : Graph α :=
  match g.index.position? id with
  | none => g
  | some i =>
    let nodes := g.nodes.eraseIdx i
    { g with
      nodes
      index := (g.index.erase id).putFrom i ((nodes.drop i).map Numbered.id)
      links := g.links.filter (!·.touches id) }

/-- Replaces the node with a number by what a function makes of it. -/
def modify (g : Graph α) (id : NodeId) (f : α → α) : Graph α :=
  { g with nodes := g.nodes.map fun n => if n.id = id then { n with node := f n.node } else n }

/-- May a link end at this pin? -/
def checkPin [CountsPins α] (g : Graph α) (p : Pin) : Except GraphError Unit :=
  if !p.isValid then .error (.invalidPin p)
  else
    match g.node? p.node with
    | none => .error (.unknownNode p)
    | some n =>
      match CountsPins.pinCount? n with
      | none => .ok ()
      | some count =>
        if (count.on p.direction : Int) ≤ p.index then
          .error (.pinOutOfRange p (count.on p.direction))
        else .ok ()

def hasLink (g : Graph α) (l : Link) : Bool := LinkList.has l g.links

/-- May the two pins be linked? -/
def canLink [CountsPins α] (g : Graph α) (a b : Pin) : Except GraphError Unit := do
  if a = b then .error (.selfLink a)
  else if a.direction = b.direction then .error (.sameDirection a b)
  else if a.node = b.node then .error (.sameNode a b)
  else
    g.checkPin a
    g.checkPin b
    if g.hasLink (.between a b) then .error (.duplicateLink (.between a b)) else .ok ()

/-- The link into an input pin; an output pin has none. -/
def linkInto? (g : Graph α) (p : Pin) : Option Link :=
  if p.isInput then LinkList.into? p g.links else none

/-- Links two pins, in either order. The link that led to the same input before is gone. -/
def link [CountsPins α] (g : Graph α) (a b : Pin) : Except GraphError (Link × Graph α) := do
  g.canLink a b
  let l := Link.between a b
  let rest := match g.linkInto? l.target with
    | some old => LinkList.erase old g.links
    | none => g.links
  .ok (l, { g with links := LinkList.insert l rest })

/-- Removes a link. -/
def unlink (g : Graph α) (l : Link) : Graph α := { g with links := LinkList.erase l g.links }

/-- Removes every link at a pin. -/
def unlinkPin (g : Graph α) (p : Pin) : Graph α :=
  { g with links := g.links.filter (!·.uses p) }

/-- Removes a node with its links and says whether it was there. -/
def tryRemove (g : Graph α) (id : NodeId) : Bool × Graph α :=
  if g.contains id then (true, g.remove id) else (false, g)

/-- Removes a link and says whether it was there. -/
def tryUnlink (g : Graph α) (l : Link) : Bool × Graph α :=
  if g.hasLink l then (true, g.unlink l) else (false, g)

/-- Removes every link at a pin and says how many there were. -/
def unlinkAll (g : Graph α) (p : Pin) : Nat × Graph α :=
  let rest := g.unlinkPin p
  (g.links.length - rest.links.length, rest)

/-- The links that come from a pin. -/
def linksFrom (g : Graph α) (p : Pin) : List Link := g.links.filter (·.source = p)

/-- How many links come from a pin. -/
def fanOut (g : Graph α) (p : Pin) : Nat := g.links.countP (·.source = p)

/-- The links that touch a node. -/
def linksOf (g : Graph α) (id : NodeId) : List Link := g.links.filter (·.touches id)

end Graph

/-- What the error says. -/
def GraphError.message : GraphError → String
  | .selfLink p => "link " ++ p.text ++ ": pin cannot link to itself"
  | .sameDirection a b => "link " ++ a.text ++ " " ++ b.text ++ ": pins have the same direction"
  | .sameNode a b => "link " ++ a.text ++ " " ++ b.text ++ ": pins belong to the same node"
  | .invalidPin p => "pin " ++ p.text ++ ": pin index out of range"
  | .unknownNode p => "pin " ++ p.text ++ ": unknown node"
  | .pinOutOfRange p limit =>
    "pin " ++ p.text ++ " (node has " ++ Number.natText limit ++ "): pin index out of range"
  | .duplicateLink l => "link " ++ l.text ++ ": link already exists"
  | .invalidNodeId id => "restore node " ++ id.text ++ ": invalid node id"
  | .duplicateNodeId id => "restore node " ++ id.text ++ ": node id already in use"

end NodeShader
