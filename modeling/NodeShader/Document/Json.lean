import NodeShader.Document.Basic
import NodeShader.Json.Reader
import NodeShader.Json.Writer
import NodeShader.Text.Base64

/-!
# Documents in JSON

Names count in any case, unknown ones are passed over, and a name that comes again goes on from the
value it left. Integers must be written as integers. `null` leaves a scalar or a structure as it is
and makes a list or the fields of a node absent.
-/

namespace NodeShader

open Number (SignedDecimal)

/-! ### Reading -/

namespace Json

/-- Letters as names are compared: those of ASCII in lower case, the long `ſ` as an `s` and the sign of
the kelvin as a `k`. -/
def foldLetter (c : Char) : Char :=
  if c.toNat = 0x17f then 's' else if c.toNat = 0x212a then 'k' else c.toLower

def foldName (s : String) : String := String.ofList (s.toList.map foldLetter)

/-- An integer literal. -/
def int? : Json → Option Int
  | .number numeral =>
    match numeral.toList with
    | '-' :: ds => (Number.natural? 10 ds).map fun n => -(n : Int)
    | ds => (Number.natural? 10 ds).map fun n => (n : Int)
  | _ => none

/-- An integer of the size of a word, over an old value. -/
def word? (j : Json) (old : Int) : Option Int :=
  match j with
  | .null => some old
  | j => j.int?.filter fun n => -(2 ^ 63) ≤ n && n < 2 ^ 63

/-- A number without a sign of 32 bits, over an old value. -/
def natural32? (j : Json) (old : UInt32) : Option UInt32 :=
  match j with
  | .null => some old
  | .number numeral =>
    ((Number.natural? 10 numeral.toList).filter (· < 2 ^ 32)).map UInt32.ofNat
  | _ => none

/-- A number of 32 bits, over an old value. -/
def single? (j : Json) (old : Number.Single) : Option Number.Single :=
  match j with
  | .null => some old
  | .number numeral =>
    ((SignedDecimal.read? numeral.toList).map SignedDecimal.toSingle).filter (·.isFinite)
  | _ => none

def text? (j : Json) (old : String) : Option String :=
  match j with
  | .null => some old
  | .text s => some s
  | _ => none

/-- A structure: every member is read by `read` into the value so far. -/
def over? {α : Type} (read : String → Json → α → Option α) (old : α) (j : Json) : Option α :=
  match j with
  | .null => some old
  | .object members => members.foldlM (fun value (name, j) => read (foldName name) j value) old
  | _ => none

/-- Items over old items, as far as there are any. -/
def itemsOver? {α : Type} (read : α → Json → Option α) (fresh : α) :
    List α → List Json → Option (List α)
  | _, [] => some []
  | old, j :: rest => do
    let item ← read (old.headD fresh) j
    let items ← itemsOver? read fresh old.tail rest
    return item :: items

/-- A list, over an old one. -/
def list? {α : Type} (read : α → Json → Option α) (fresh : α) (j : Json) (old : Option (List α)) :
    Option (Option (List α)) :=
  match j with
  | .null => some none
  | .array items => (itemsOver? read fresh (old.getD []) items).map some
  | _ => none

mutual

/-- A dynamic value. Numbers are doubles and must fit. -/
def datum? : Json → Option Datum
  | .null => some .nil
  | .bool b => some (.bool b)
  | .number numeral =>
    (((SignedDecimal.read? numeral.toList).map SignedDecimal.toDouble).filter (·.isFinite)).map .double
  | .text s => some (.text s)
  | .array items => (datums? items).map .list
  | .object members => (namedDatums? members).map fun es => .map .plain (Record.ofList es).entries

def datums? : List Json → Option (List Datum)
  | [] => some []
  | j :: rest => do return (← datum? j) :: (← datums? rest)

def namedDatums? : List (String × Json) → Option (List (String × Datum))
  | [] => some []
  | (name, j) :: rest => do return (name, ← datum? j) :: (← namedDatums? rest)

end

/-- The fields of a node, over old ones. -/
def record? (j : Json) (old : Option Record) : Option (Option Record) :=
  match j with
  | .null => some none
  | .object members => (namedDatums? members).map fun es =>
    some (es.foldl (fun r (name, d) => r.put name d) (old.getD .empty))
  | _ => none

end Json

def Position.readMember (name : String) (j : Json) (p : Position) : Option Position :=
  match name with
  | "x" => (j.single? p.x).map fun x => { p with x }
  | "y" => (j.single? p.y).map fun y => { p with y }
  | _ => some p

def PinEntry.readMember (name : String) (j : Json) (p : PinEntry) : Option PinEntry :=
  match name with
  | "node" => (j.natural32? p.node).map fun node => { p with node }
  | "index" => (j.word? p.index).map fun index => { p with index }
  | _ => some p

def LinkEntry.readMember (name : String) (j : Json) (l : LinkEntry) : Option LinkEntry :=
  match name with
  | "from" => (j.over? PinEntry.readMember l.source).map fun source => { l with source }
  | "to" => (j.over? PinEntry.readMember l.target).map fun target => { l with target }
  | _ => some l

def NodeEntry.readMember (name : String) (j : Json) (e : NodeEntry) : Option NodeEntry :=
  match name with
  | "id" => (j.natural32? e.id).map fun id => { e with id }
  | "type" => (j.text? e.type).map fun type => { e with type }
  | "position" => (j.over? Position.readMember e.position).map fun position => { e with position }
  | "fields" => (j.record? e.fields).map fun fields => { e with fields }
  | _ => some e

def Document.readMember (name : String) (j : Json) (d : Document) : Option Document :=
  match name with
  | "version" => (j.word? d.version).map fun version => { d with version }
  | "id" => (j.text? d.id).map fun id => { d with id }
  | "nodes" =>
    (j.list? (Json.over? NodeEntry.readMember) {} d.nodes).map fun nodes => { d with nodes }
  | "links" =>
    (j.list? (Json.over? LinkEntry.readMember) {} d.links).map fun links => { d with links }
  | _ => some d

/-- Reads a document. `null` is the empty document. -/
def Document.ofJson? (bytes : List UInt8) : Option Document := do
  let j ← Json.parse? (Text.textOf bytes).toList
  j.over? Document.readMember {}

/-! ### Writing -/

namespace Json

/-- Numbers are written with the fewest digits that read back, with an exponent from 10²¹ on and below
a millionth. -/
def numberStyle : Number.Style := ⟨-6, 21, 1⟩

def ofInt (n : Int) : Json := .number (Number.intText n)

/-- There is no way to write what is not finite. -/
def ofSingle? (x : Number.Single) : Option Json :=
  if x.isFinite then some (.number (x.read.write .single numberStyle "" "" "")) else none

def ofDouble? (x : Number.Double) : Option Json :=
  if x.isFinite then some (.number (x.read.write .double numberStyle "" "" "")) else none

mutual

/-- There is no way to write a mapping whose keys are not texts. -/
def ofDatum? : Datum → Option Json
  | .nil => some .null
  | .text s => some (.text s)
  | .bool b => some (.bool b)
  | .double x => ofDouble? x
  | .single x => ofSingle? x
  | .int _ n => some (ofInt n)
  | .list items => (ofDatums? items).map .array
  | .doubles xs => (xs.mapM ofDouble?).map .array
  | .singles xs => (xs.mapM ofSingle?).map .array
  | .texts ss => some (.array (ss.map .text))
  | .bytes bs => some (.text (String.ofList (Text.base64Of bs)))
  | .time t => some (.text t.text)
  | .map _ entries => (ofEntries? entries).map .object
  | .table _ => none

def ofDatums? : List Datum → Option (List Json)
  | [] => some []
  | d :: rest => do return (← ofDatum? d) :: (← ofDatums? rest)

def ofEntries? : List (String × Datum) → Option (List (String × Json))
  | [] => some []
  | (k, d) :: rest => do return (k, ← ofDatum? d) :: (← ofEntries? rest)

end

/-- A list that may be absent. -/
def ofList? {α : Type} (write : α → Option Json) : Option (List α) → Option Json
  | none => some .null
  | some items => (items.mapM write).map .array

end Json

def Position.json? (p : Position) : Option Json := do
  return .object [("x", ← Json.ofSingle? p.x), ("y", ← Json.ofSingle? p.y)]

def PinEntry.json (p : PinEntry) : Json :=
  .object [("node", .ofInt p.node.toNat), ("index", .ofInt p.index)]

def LinkEntry.json (l : LinkEntry) : Json := .object [("from", l.source.json), ("to", l.target.json)]

def NodeEntry.json? (n : NodeEntry) : Option Json := do
  let fields ← match n.writtenFields with
    | some r => (Json.ofEntries? r.entries).map fun members => [("fields", Json.object members)]
    | none => some []
  return .object
    ([("id", .ofInt n.id.toNat), ("type", .text n.type), ("position", ← n.position.json?)] ++ fields)

/-- The text of a document; `none` if it holds something that JSON cannot. -/
def Document.toJson? (d : Document) : Option String := do
  let j := Json.object
    [("version", .ofInt d.version), ("id", .text d.id),
      ("nodes", ← Json.ofList? NodeEntry.json? d.nodes),
      ("links", ← Json.ofList? (fun l => some l.json) d.links)]
  return j.document

end NodeShader
