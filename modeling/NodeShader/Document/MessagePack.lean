import NodeShader.Document.Basic
import NodeShader.MessagePack.Reader
import NodeShader.MessagePack.Writer

/-!
# Documents in MessagePack

Every structure is a map by exact names, or an array of all its fields in order. Integers of any width
are taken for an integer and lose the bits that do not fit. What follows a document is left alone.
-/

namespace NodeShader

open MessagePack (Take Bytes)

/-! ### Reading -/

namespace Position

def take : Position → Take Position :=
  Take.fieldsOf ["x", "y"]
    (fun name p => match name with
      | "x" => do return { p with x := ← Take.single }
      | _ => do return { p with y := ← Take.single }) {}

end Position

namespace PinEntry

def take : PinEntry → Take PinEntry :=
  Take.fieldsOf ["node", "index"]
    (fun name p => match name with
      | "node" => do return { p with node := ← Take.natural32 }
      | _ => do return { p with index := ← Take.word }) {}

end PinEntry

namespace LinkEntry

def take : LinkEntry → Take LinkEntry :=
  Take.fieldsOf ["from", "to"]
    (fun name l => match name with
      | "from" => do return { l with source := ← l.source.take }
      | _ => do return { l with target := ← l.target.take }) {}

end LinkEntry

namespace NodeEntry

def take : NodeEntry → Take NodeEntry :=
  Take.fieldsOf ["id", "type", "position", "fields"]
    (fun name n => match name with
      | "id" => do return { n with id := ← Take.natural32 }
      | "type" => do return { n with type := ← Take.text }
      | "position" => do return { n with position := ← n.position.take }
      | _ => do return { n with fields := ← Take.record n.fields }) {}

end NodeEntry

namespace Document

def take : Document → Take Document :=
  Take.fieldsOf ["version", "id", "nodes", "links"]
    (fun name d => match name with
      | "version" => do return { d with version := ← Take.word }
      | "id" => do return { d with id := ← Take.text }
      | "nodes" => do return { d with nodes := ← Take.list NodeEntry.take {} d.nodes }
      | _ => do return { d with links := ← Take.list LinkEntry.take {} d.links }) {}

def ofMessagePack? (bytes : List UInt8) : Option Document :=
  ((take {}).run bytes).map (·.1)

end Document

/-! ### Writing -/

def Position.packed (p : Position) : Bytes :=
  MessagePack.fields [("x", MessagePack.single p.x), ("y", MessagePack.single p.y)]

def PinEntry.packed (p : PinEntry) : Bytes :=
  MessagePack.fields [("node", MessagePack.natural32 p.node), ("index", MessagePack.integer p.index)]

def LinkEntry.packed (l : LinkEntry) : Bytes :=
  MessagePack.fields [("from", l.source.packed), ("to", l.target.packed)]

def NodeEntry.packed (n : NodeEntry) : Bytes :=
  MessagePack.fields
    ([("id", MessagePack.natural32 n.id), ("type", MessagePack.text n.type),
      ("position", n.position.packed)] ++
      match n.writtenFields with
      | some r => [("fields", MessagePack.datum (.map .fields r.entries))]
      | none => [])

def Document.toMessagePack (d : Document) : Bytes :=
  MessagePack.fields
    [("version", MessagePack.integer d.version), ("id", MessagePack.text d.id),
      ("nodes", MessagePack.optionalArray (d.nodes.map (·.map NodeEntry.packed))),
      ("links", MessagePack.optionalArray (d.links.map (·.map LinkEntry.packed)))]

end NodeShader
