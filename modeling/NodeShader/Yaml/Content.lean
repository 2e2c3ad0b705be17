import NodeShader.Record.Basic
import NodeShader.Yaml.Scalar

/-!
# Reading values out of YAML nodes

A reader that knows what it wants takes a node apart with the functions below. All of them answer
`none` for a node of the wrong kind. Where nothing is written (`~`) a scalar or a structure keeps the
value it has, which they answer by an inner `none`, and a list becomes empty.
-/

namespace NodeShader.Yaml

namespace Node

mutual

/-- How deep a node goes, the nodes behind aliases included. -/
def depth : Node → Nat
  | .scalar .. => 1
  | .cycle _ => 1
  | .alias _ target => target.depth + 1
  | .sequence items => depthOfItems items + 1
  | .mapping entries => depthOfEntries entries + 1

def depthOfItems : List Node → Nat
  | [] => 0
  | n :: rest => max n.depth (depthOfItems rest)

def depthOfEntries : List (Node × Node) → Nat
  | [] => 0
  | (k, v) :: rest => max (max k.depth v.depth) (depthOfEntries rest)

end

/-- Does the key `<<` stand for the entries of other mappings? -/
def isMerge : Node → Bool
  | .scalar none .plain text => text = "<<"
  | _ => false

/-- Do two keys look the same? -/
def sameKey : Node → Node → Bool
  | .scalar _ _ a, .scalar _ _ b => a = b
  | .alias a _, .alias b _ => a = b
  | .sequence _, .sequence _ => true
  | .mapping _, .mapping _ => true
  | _, _ => false

/-- Does a key occur twice? -/
def repeatsKey : List (Node × Node) → Bool
  | [] => false
  | (k, _) :: rest => rest.any (fun e => k.sameKey e.1) || repeatsKey rest

/-- The entries of a mapping, its own first and then those of the mappings it takes over. -/
def entriesWithin : Nat → Node → Option (List (Node × Node))
  | 0, _ => none
  | fuel + 1, n =>
    match n with
    | .alias _ target => entriesWithin fuel target
    | .mapping entries =>
      if repeatsKey entries then none
      else
        let own := entries.filter fun e => !e.1.isMerge
        match entries.find? (·.1.isMerge) with
        | none => some own
        | some (_, .sequence sources) =>
          (sources.mapM (entriesWithin fuel)).map fun more => own ++ more.flatten
        | some (_, source) => (entriesWithin fuel source).map (own ++ ·)
    | _ => none

def entries? (n : Node) : Option (List (Node × Node)) := n.entriesWithin n.depth

/-- A node as a text. -/
def text? (n : Node) : Option (Option String) :=
  match n.resolved with
  | .scalar tag style text => scalarText? tag style text
  | _ => none

/-- The value of a scalar node. -/
def scalar? (n : Node) : Option Datum :=
  match n.resolved with
  | .scalar tag style text => scalarDatum? tag style text
  | _ => none

def isNull (n : Node) : Bool :=
  match n.scalar? with
  | some .nil => true
  | _ => false

/-- Keeps the first of the entries with one key. -/
def firstEntries : List (String × Node) → List (String × Node)
  | [] => []
  | e :: rest => e :: (firstEntries rest).filter (·.1 ≠ e.1)

/-- The entries of a mapping with texts for keys. Entries without a key do not count. -/
def fields? (n : Node) : Option (List (String × Node)) := do
  let entries ← n.entries?
  let named ← entries.mapM fun (k, v) => (k.text?).map (·.map (·, v))
  return firstEntries (named.filterMap id)

/-! ### Typed values -/

/-- A word with a sign. Numbers lose their fraction; one below all words becomes the least word. -/
def word? (n : Node) : Option (Option Int) :=
  match n.scalar? with
  | some .nil => some none
  | some (.int _ i) => if isWord i then some (some i) else none
  | some (.double x) =>
    match x.read with
    | .finite .. =>
      match x.truncate? with
      | some i => if 2 ^ 63 < i then none else some (some (if isWord i then i else -(2 ^ 63)))
      | none => none
    | .infinite true => some (some (-(2 ^ 63)))
    | _ => none
  | _ => none

/-- An unsigned number of 32 bits. -/
def natural32? (n : Node) : Option (Option UInt32) :=
  let fit (i : Int) : Option (Option UInt32) :=
    if 0 ≤ i && i < 2 ^ 32 then some (some (UInt32.ofNat i.toNat)) else none
  match n.scalar? with
  | some .nil => some none
  | some (.int _ i) => fit i
  | some (.double x) => x.truncate?.bind fit
  | _ => none

/-- A number of 32 bits, by way of 64. -/
def single? (n : Node) : Option (Option Number.Single) :=
  match n.scalar? with
  | some .nil => some none
  | some (.int _ i) => some (some (Number.Double.ofInt i).toSingle)
  | some (.double x) => some (some x.toSingle)
  | _ => none

/-- A list whose items `read` reads; items that are not written do not count. -/
def listOf? {α : Type} (read : Node → Option (Option α)) (n : Node) : Option (Option (List α)) :=
  match n.resolved with
  | .sequence items => (items.mapM read).map fun xs => some (xs.filterMap id)
  | _ => if n.isNull then some none else none

/-- A structure: every field is read by `read` into the value so far. -/
def structure? {α : Type} (read : String → Node → α → Option α) (start : α) (n : Node) :
    Option (Option α) :=
  match n.resolved with
  | .mapping _ => do
    let fields ← n.fields?
    let value ← fields.foldlM (fun value (name, v) => read name v value) start
    return some value
  | _ => if n.isNull then some none else none

/-! ### Dynamic values -/

/-- Is a key a text by what it looks like? -/
def isTextKey (n : Node) : Bool :=
  n.isMerge ||
    match n.resolved with
    | .scalar none .plain text => tagOfDatum (plainDatum true text) = .text
    | .scalar none _ _ => true
    | .scalar (some .text) _ _ => true
    | _ => false

/-- May a value be a key? -/
def isKeyDatum : Datum → Bool
  | .list _ | .map .. | .table _ => false
  | _ => true

def datumWithin : Nat → Node → Option Datum
  | 0, _ => none
  | fuel + 1, n =>
    match n with
    | .scalar .. => n.scalar?
    | .cycle _ => none
    | .alias _ target => datumWithin fuel target
    | .sequence items => (items.mapM (datumWithin fuel)).map .list
    | .mapping entries =>
      if entries.all (·.1.isTextKey) then do
        let fields ← n.fields?
        let values ← fields.mapM fun (name, v) => (datumWithin fuel v).map (name, ·)
        return .map .fields (Record.ofList values).entries
      else do
        let pairs ← (← n.entries?).mapM fun (k, v) => do
          return (← (datumWithin fuel k).filter isKeyDatum, ← datumWithin fuel v)
        return .table pairs

/-- A node as a dynamic value. -/
def datum? (n : Node) : Option Datum := n.datumWithin n.depth

/-- A mapping as the fields of a node of the graph. -/
def record? (n : Node) : Option (Option Record) :=
  match n.resolved with
  | .mapping _ => do
    let fields ← n.fields?
    let values ← fields.mapM fun (name, v) => (v.datum?).map (name, ·)
    return some (Record.ofList values)
  | _ => if n.isNull then some none else none

end Node

end NodeShader.Yaml
