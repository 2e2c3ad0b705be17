import NodeShader.Document.Basic
import NodeShader.Yaml.Content
import NodeShader.Yaml.Writer

/-!
# Documents in YAML

Keys count as they are spelled and unknown ones are passed over. Something that is not written leaves
a scalar or a structure as it is.
-/

namespace NodeShader

open Yaml (Tree)

/-! ### Reading -/

namespace Yaml

/-- Takes over a value that was written. -/
def keep {α β : Type} (read : Option (Option α)) (old : β) (set : α → β) : Option β :=
  match read with
  | none => none
  | some none => some old
  | some (some a) => some (set a)

/-- Takes over a list, also one that is not written. -/
def keepList {α β : Type} (read : Option (Option α)) (set : Option α → β) : Option β := read.map set

end Yaml

open Yaml (keep keepList)

/-- Reads the structure of a node, if it is written, over what is there. -/
def Yaml.Node.over? {α : Type} (read : String → Yaml.Node → α → Option α) (old : α) (n : Yaml.Node) : Option α :=
  keep (n.structure? read old) old id

def Position.readField (name : String) (n : Yaml.Node) (p : Position) : Option Position :=
  match name with
  | "x" => keep n.single? p fun x => { p with x }
  | "y" => keep n.single? p fun y => { p with y }
  | _ => some p

def PinEntry.readField (name : String) (n : Yaml.Node) (p : PinEntry) : Option PinEntry :=
  match name with
  | "node" => keep n.natural32? p fun node => { p with node }
  | "index" => keep n.word? p fun index => { p with index }
  | _ => some p

def LinkEntry.readField (name : String) (n : Yaml.Node) (l : LinkEntry) : Option LinkEntry :=
  match name with
  | "from" => (n.over? PinEntry.readField l.source).map fun source => { l with source }
  | "to" => (n.over? PinEntry.readField l.target).map fun target => { l with target }
  | _ => some l

def NodeEntry.readField (name : String) (n : Yaml.Node) (e : NodeEntry) : Option NodeEntry :=
  match name with
  | "id" => keep n.natural32? e fun id => { e with id }
  | "type" => keep n.text? e fun type => { e with type }
  | "position" =>
    (n.over? Position.readField e.position).map fun position => { e with position }
  | "fields" => keepList n.record? fun fields => { e with fields }
  | _ => some e

def Document.readField (name : String) (n : Yaml.Node) (d : Document) : Option Document :=
  match name with
  | "version" => keep n.word? d fun version => { d with version }
  | "id" => keep n.text? d fun id => { d with id }
  | "nodes" =>
    keepList (n.listOf? (·.structure? NodeEntry.readField {})) fun nodes => { d with nodes }
  | "links" =>
    keepList (n.listOf? (·.structure? LinkEntry.readField {})) fun links => { d with links }
  | _ => some d

/-- Reads a document. A text without any is the empty document. -/
def Document.ofYaml? (bytes : List UInt8) : Option Document :=
  match Yaml.document? bytes with
  | none => none
  | some none => some {}
  | some (some root) => root.over? Document.readField {}

/-! ### Writing -/

namespace Yaml

/-- Numbers are written with the fewest digits that read back, and with an exponent from a million on
and below a ten-thousandth. -/
def numberStyle : Number.Style := ⟨-4, 6, 2⟩

def singleTree (x : Number.Single) : Tree :=
  .token (x.read.write .single numberStyle ".inf" "-.inf" ".nan")

def doubleTree (x : Number.Double) : Tree :=
  .token (x.read.write .double numberStyle ".inf" "-.inf" ".nan")

def intTree (n : Int) : Tree := .token (Number.intText n)

/-- Entries with texts for keys, in the order of the keys. -/
def mapTree (entries : List (String × Tree)) : Tree :=
  .map ((sortEntries entries).map fun (k, t) => (.text k, t))

/-- A number whose order is that of doubles. -/
def doubleRank (x : Number.Double) : Int :=
  match x.read with
  | .finite negative .. | .infinite negative | .notANumber negative .. =>
    let magnitude : Int := (x.bits.toNat % 2 ^ 63 : Nat)
    if negative then -magnitude else magnitude

/-- Keys that count as numbers. -/
def numberRank? : Datum → Option Int
  | .bool b => some (doubleRank (.ofInt (if b then 1 else 0)))
  | .int _ n => some (doubleRank (.ofInt n))
  | .double x => some (doubleRank x)
  | .single x => some (doubleRank x.toDouble)
  | _ => none

/-- The order of kinds of keys. -/
def kindRank : Datum → Nat
  | .bool _ => 0
  | .int .uint64 _ => 2
  | .int .. => 1
  | .single _ => 3
  | .double _ => 4
  | .nil => 5
  | .text _ => 6
  | _ => 7

/-- Is one key before another? Numbers come by value, texts as texts, and others by kind. -/
def keyDatumBelow (a b : Datum) : Bool :=
  match numberRank? a, numberRank? b, a, b with
  | some x, some y, _, _ => if x ≠ y then x < y else kindRank a < kindRank b
  | _, _, .text s, .text t => keyBelow [] s.toList t.toList
  | _, _, _, _ => kindRank a < kindRank b

/-- A key that is no text. -/
def keyTree : Datum → Tree
  | .text s => .text s
  | .bool true => .token "true"
  | .bool false => .token "false"
  | .double x => doubleTree x
  | .single x => singleTree x
  | .int _ n => intTree n
  | .time t => .token t.text
  | _ => .token "null"

mutual

def datumTree : Datum → Tree
  | .nil => .token "null"
  | .text s => .text s
  | .bool true => .token "true"
  | .bool false => .token "false"
  | .double x => doubleTree x
  | .single x => singleTree x
  | .int _ n => intTree n
  | .list items => .list (datumTrees items)
  | .doubles xs => .list (xs.map doubleTree)
  | .singles xs => .list (xs.map singleTree)
  | .texts ss => .list (ss.map .text)
  | .bytes bs => .list (bs.map fun b => intTree b.toNat)
  | .time t => .token t.text
  | .map _ entries => mapTree (entryTrees entries)
  | .table entries =>
    .map (((pairTrees entries).mergeSort fun a b => !keyDatumBelow b.1 a.1).map fun (k, t) =>
      (keyTree k, t))

def datumTrees : List Datum → List Tree
  | [] => []
  | d :: rest => datumTree d :: datumTrees rest

def entryTrees : List (String × Datum) → List (String × Tree)
  | [] => []
  | (k, d) :: rest => (k, datumTree d) :: entryTrees rest

def pairTrees : List (Datum × Datum) → List (Datum × Tree)
  | [] => []
  | (k, d) :: rest => (k, datumTree d) :: pairTrees rest

end

/-- A structure: its fields in their own order. -/
def structTree (fields : List (String × Tree)) : Tree := .map (fields.map fun (k, t) => (.text k, t))

end Yaml

open Yaml (structTree intTree singleTree)

def Position.tree (p : Position) : Tree := structTree [("x", singleTree p.x), ("y", singleTree p.y)]

def PinEntry.tree (p : PinEntry) : Tree :=
  structTree [("node", intTree p.node.toNat), ("index", intTree p.index)]

def LinkEntry.tree (l : LinkEntry) : Tree := structTree [("from", l.source.tree), ("to", l.target.tree)]

def NodeEntry.tree (n : NodeEntry) : Tree :=
  structTree
    ([("id", intTree n.id.toNat), ("type", .text n.type), ("position", n.position.tree)] ++
      match n.writtenFields with
      | some r => [("fields", Yaml.datumTree (.map .fields r.entries))]
      | none => [])

def Document.tree (d : Document) : Tree :=
  structTree
    [("version", intTree d.version), ("id", .text d.id),
      ("nodes", .list (d.nodeList.map NodeEntry.tree)),
      ("links", .list (d.linkList.map LinkEntry.tree))]

def Document.toYaml (d : Document) : String := d.tree.document

end NodeShader
