import NodeShader.Node.Expression

/-!
# Documents

A document is a graph on paper: a version, an identity, the nodes by archetype with their fields, and
the links by pin positions. Nothing about it is checked until a graph is made of it. A list that was
never written is told apart from an empty one, because it is written differently again.
-/

namespace NodeShader

/-- A pin by its node and its position. Which side it is on follows from its place in a link. -/
structure PinEntry where
  node : UInt32 := 0
  index : Int := 0
  deriving DecidableEq, Repr, Inhabited

/-- A link from an output pin to an input pin. -/
structure LinkEntry where
  source : PinEntry := {}
  target : PinEntry := {}
  deriving DecidableEq, Repr, Inhabited

/-- A node by its archetype. -/
structure NodeEntry where
  id : UInt32 := 0
  type : String := ""
  position : Position := {}
  fields : Option Record := none
  deriving Repr, Inhabited

structure Document where
  version : Int := 0
  id : String := ""
  nodes : Option (List NodeEntry) := none
  links : Option (List LinkEntry) := none
  deriving Repr, Inhabited

namespace Document

/-- The version of documents that are written, and the only one that is read. -/
def currentVersion : Int := 1

def nodeList (d : Document) : List NodeEntry := d.nodes.getD []

def linkList (d : Document) : List LinkEntry := d.links.getD []

end Document

/-- The fields of a node that are worth writing. -/
def NodeEntry.writtenFields (n : NodeEntry) : Option Record :=
  n.fields.filter fun r => !r.isEmpty

end NodeShader
