import NodeShader.Document.Basic
import NodeShader.Document.Uuid

/-!
# Documents and graphs

Writing a graph down needs the archetype of every node. Making a graph of a document keeps the numbers
of its nodes. A node that cannot be made fails the whole; a link that cannot be made is dropped, and
of two links into one input the first counts.
-/

namespace NodeShader

/-! ### From graphs to documents -/

/-- Why a graph cannot be written down. -/
inductive EncodeError where
  | foreignNode (id : NodeId) (typeName : String)
  | unknownHandle (id : NodeId) (handle : Handle)
  deriving DecidableEq, Repr

def EncodeError.message : EncodeError → String
  | .foreignNode id name => "node " ++ id.text ++ ": unsupported node type " ++ name
  | .unknownHandle id h =>
    "node " ++ id.text ++ ": handle " ++ Number.natText h ++ " not in registry"

/-- A node on paper. -/
def NodeEntry.ofNode (r : Registry) (n : Numbered Node) : Except EncodeError NodeEntry :=
  match n.node with
  | .foreign typeName _ => .error (.foreignNode n.id typeName)
  | .expression e =>
    match r.archetype? e.handle with
    | none => .error (.unknownHandle n.id e.handle)
    | some a =>
      .ok { id := n.id, type := a.id, position := e.position
            fields := e.kind.save?.filter fun fields => !fields.isEmpty }

def PinEntry.ofPin (p : Pin) : PinEntry := ⟨p.node, p.index⟩

def LinkEntry.ofLink (l : Link) : LinkEntry := ⟨.ofPin l.source, .ofPin l.target⟩

/-- A graph on paper. A document without an identity gets a fresh one. -/
def Document.ofGraph (g : ShaderGraph) (r : Registry) (id fresh : Uuid) :
    Except EncodeError Document := do
  let nodes ← g.nodes.mapM (NodeEntry.ofNode r)
  return { version := currentVersion, id := (id.orFresh fresh).text, nodes := some nodes
           links := if g.links.isEmpty then none else some (g.links.map LinkEntry.ofLink) }

/-! ### From documents to graphs -/

/-- Why a document is not a graph. -/
inductive DecodeError where
  | version (given : Int)
  | identity (given : String) (cause : UuidError)
  | nodeId (id : UInt32)
  | archetype (id : UInt32) (cause : UnknownArchetype)
  | fields (id : UInt32) (type : String) (cause : FieldError)
  | graph (cause : GraphError)
  deriving DecidableEq, Repr

def DecodeError.message : DecodeError → String
  | .version v => "version " ++ Number.intText v ++ ": unsupported document version"
  | .identity given cause =>
    Text.quote given ++ ": " ++ cause.message ++ ": invalid document id"
  | .nodeId id => "node " ++ NodeId.text id ++ ": invalid node id"
  | .archetype id cause => "node " ++ NodeId.text id ++ ": " ++ cause.message
  | .fields id type cause => "node " ++ NodeId.text id ++ " (" ++ type ++ "): " ++ cause.message
  | .graph cause => cause.message

/-- Why a link is dropped. -/
inductive LinkRefusal where
  | index (given : Int)
  | nodeId (id : UInt32)
  | taken (target : Pin) (by_ : Link)
  | graph (cause : GraphError)
  deriving DecidableEq, Repr

def LinkRefusal.message : LinkRefusal → String
  | .index i => "index " ++ Number.intText i ++ ": pin index out of range"
  | .nodeId id => "node " ++ NodeId.text id ++ ": invalid node id"
  | .taken target old =>
    "input " ++ target.text ++ " already linked by " ++ old.text ++ ": link already exists"
  | .graph cause => cause.message

structure DroppedLink where
  link : LinkEntry
  reason : LinkRefusal
  deriving DecidableEq, Repr

/-- `3[0]`. -/
def PinEntry.text (p : PinEntry) : String :=
  NodeId.text p.node ++ "[" ++ Number.intText p.index ++ "]"

def DroppedLink.message (d : DroppedLink) : String :=
  d.link.source.text ++ " -> " ++ d.link.target.text ++ ": " ++ d.reason.message ++
    ": link dropped"

/-- A graph made of a document. -/
structure Decoded where
  graph : ShaderGraph
  dropped : List DroppedLink := []
  deriving Repr

/-- The node of an entry. -/
def NodeEntry.toNode (r : Registry) (n : NodeEntry) : Except DecodeError Expression :=
  if NodeId.greatest < n.id then .error (.nodeId n.id)
  else
    match r.create n.type with
    | .error cause => .error (.archetype n.id cause)
    | .ok e =>
      match n.fields with
      | none => .ok { e with position := n.position }
      | some fields =>
        match e.load fields with
        | .ok e => .ok { e with position := n.position }
        | .error cause => .error (.fields n.id n.type cause)

/-- Adds the node of an entry under the number it has. -/
def NodeEntry.restoreInto (r : Registry) (g : ShaderGraph) (n : NodeEntry) :
    Except DecodeError ShaderGraph := do
  let e ← n.toNode r
  match g.restore n.id (.expression e) with
  | .ok g => return g
  | .error cause => throw (.graph cause)

/-- Can the entry name a pin? -/
def PinEntry.check (p : PinEntry) : Except LinkRefusal Unit :=
  if p.index < 0 ∨ (Pin.greatestIndex : Int) < p.index then .error (.index p.index)
  else if NodeId.greatest < p.node then .error (.nodeId p.node)
  else .ok ()

/-- Adds the link of an entry to a graph. -/
def LinkEntry.addTo (g : ShaderGraph) (l : LinkEntry) : Except LinkRefusal ShaderGraph := do
  l.source.check
  l.target.check
  let source := Pin.pack l.source.node l.source.index .output
  let target := Pin.pack l.target.node l.target.index .input
  match g.linkInto? target with
  | some old => throw (.taken target old)
  | none =>
    match g.link source target with
    | .ok (_, g) => return g
    | .error cause => throw (.graph cause)

/-- Adds links one by one and keeps those that cannot be added. -/
def LinkEntry.addAll (g : ShaderGraph) : List LinkEntry → Decoded
  | [] => { graph := g }
  | l :: rest =>
    match l.addTo g with
    | .ok g => addAll g rest
    | .error reason =>
      let d := addAll g rest
      { d with dropped := ⟨l, reason⟩ :: d.dropped }

/-- Makes a graph of a document. Nodes come in by number, those with one number as they stand. -/
def Document.toGraph (d : Document) (r : Registry) : Except DecodeError Decoded := do
  if d.version < 1 ∨ currentVersion < d.version then throw (.version d.version)
  match Uuid.read d.id with
  | .error cause => throw (.identity d.id cause)
  | .ok _ => pure ()
  let nodes := d.nodeList.mergeSort fun a b => a.id ≤ b.id
  let g ← nodes.foldlM (NodeEntry.restoreInto r) Graph.empty
  return LinkEntry.addAll g d.linkList

end NodeShader
