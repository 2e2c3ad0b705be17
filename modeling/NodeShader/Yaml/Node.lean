import NodeShader.Yaml.Lexer

/-!
# YAML nodes

The tree of a document. A name given to a node (`&name`) can be used in its place further on
(`*name`); a use inside the node itself stands for a value without end and is kept as a cycle.
Only the first document of a text is read.
-/

namespace NodeShader.Yaml

/-- What a node is tagged as. -/
inductive Tag where
  | null
  | bool
  | int
  | float
  | timestamp
  | text
  | binary
  | other (uri : String)
  deriving DecidableEq, Repr, Inhabited

def Tag.coreLead : List Char := "tag:yaml.org,2002:".toList

/-- The tag of a URI. The core tags are also known in their short form. -/
def Tag.ofUri (uri : String) : Tag :=
  let cs := uri.toList
  let name :=
    if coreLead.isPrefixOf cs then some (cs.drop coreLead.length)
    else if ['!', '!'].isPrefixOf cs then some (cs.drop 2)
    else none
  match name.map String.ofList with
  | some "null" => .null
  | some "bool" => .bool
  | some "int" => .int
  | some "float" => .float
  | some "timestamp" => .timestamp
  | some "str" => .text
  | some "binary" => .binary
  | _ => .other uri

inductive Node where
  | scalar (tag : Option Tag) (style : ScalarStyle) (text : String)
  | sequence (items : List Node)
  | mapping (entries : List (Node × Node))
  | alias (name : String) (target : Node)
  | cycle (name : String)
  deriving Repr, Inhabited

/-- What stands where a value is left out. -/
def Node.absent : Node := .scalar none .plain ""

/-- The node that an alias stands for. -/
def Node.resolved : Node → Node
  | .alias _ target => target
  | n => n

/-! ### Reading a document -/

structure Parsing where
  tokens : List Token
  /-- The named nodes in the order of their names in the text; `none` for one that is not complete. -/
  anchors : List (String × Option Node) := []
  /-- What the handles of tags stand for. -/
  handles : List (String × String) := []
  deriving Repr, Inhabited

abbrev Parse := StateT Parsing Option

namespace Parse

def fail {α : Type} : Parse α := fun _ => none

def peek : Parse Token := fun s => s.tokens.head?.map (·, s)

def skip : Parse Unit := fun s => some ((), { s with tokens := s.tokens.tail })

def expect (t : Token) : Parse Unit := do
  if (← peek) = t then skip else fail

/-- Names a node that starts here. The number tells it from others of the same name. -/
def declare (name : String) : Parse Nat := fun s =>
  some (s.anchors.length, { s with anchors := s.anchors ++ [(name, none)] })

/-- The node that was named is complete. -/
def complete (number : Nat) (n : Node) : Parse Unit := fun s =>
  some ((), { s with anchors := s.anchors.modify number fun (name, _) => (name, some n) })

/-- The use of a name stands for the last node of that name. -/
def useName (name : String) : Parse Node := fun s =>
  match s.anchors.reverse.lookup name with
  | some (some n) => some (.alias name n, s)
  | some none => some (.cycle name, s)
  | none => none

/-- The tag of a handle and a suffix; `!` alone is no tag. -/
def tagOf (handle suffix : String) : Parse (Option Tag) := fun s =>
  if handle = "" then some (if suffix = "!" then none else some (Tag.ofUri suffix), s)
  else
    match (s.handles ++ [("!", "!"), ("!!", String.ofList Tag.coreLead)]).lookup handle with
    | some lead =>
      let uri := lead ++ suffix
      some (if uri = "!" then none else some (Tag.ofUri uri), s)
    | none => none

/-- What stands before a node: a name and a tag, in either order. -/
structure Properties where
  anchor : Option String := none
  tag : Option (Option Tag) := none

def takeAnchor (p : Properties) : Parse Properties := do
  match ← peek with
  | .anchor name => do skip; return { p with anchor := some name }
  | _ => return p

def takeTag (p : Properties) : Parse Properties := do
  match ← peek with
  | .tag handle suffix => do skip; return { p with tag := some (← tagOf handle suffix) }
  | _ => return p

def properties : Parse Properties := do
  let p ← takeAnchor {}
  let p ← takeTag p
  if p.anchor.isNone then takeAnchor p else return p

/-- The content of a named node. -/
def named (anchor : Option String) (content : Parse Node) : Parse Node := do
  match anchor with
  | none => content
  | some name => do
    let number ← declare name
    let n ← content
    complete number n
    return n

mutual

/-- A node. Block structures may open only where `block` says so, and a sequence at the indentation of
the mapping around it only where `indentless` says so. -/
def node (block indentless : Bool) : Nat → Parse Node
  | 0 => fail
  | fuel + 1 => do
    match ← peek with
    | .alias name => do skip; useName name
    | _ => do
      let p ← properties
      match ← peek with
      | .blockEntry =>
        if indentless then named p.anchor (return .sequence (← indentlessItems fuel))
        else emptyWith p
      | .scalar style text => named p.anchor do
        skip
        return .scalar (p.tag.getD none) style text
      | .flowSequenceStart => named p.anchor do
        skip
        return .sequence (← flowItems true fuel)
      | .flowMappingStart => named p.anchor do
        skip
        return .mapping (← flowEntries true fuel)
      | .blockSequenceStart =>
        if block then named p.anchor do
          skip
          return .sequence (← blockItems fuel)
        else emptyWith p
      | .blockMappingStart =>
        if block then named p.anchor do
          skip
          return .mapping (← blockEntries fuel)
        else emptyWith p
      | _ => emptyWith p
where
  /-- A node that consists of its properties. -/
  emptyWith (p : Properties) : Parse Node :=
    if p.anchor.isSome || p.tag.isSome then
      named p.anchor (return .scalar (p.tag.getD none) .plain "")
    else fail

/-- Entries of a sequence that is indented. -/
def blockItems : Nat → Parse (List Node)
  | 0 => fail
  | fuel + 1 => do
    match ← peek with
    | .blockEntry => do
      skip
      let t ← peek
      let item ← if t = .blockEntry || t = .blockEnd then pure Node.absent else node true false fuel
      return item :: (← blockItems fuel)
    | .blockEnd => do skip; return []
    | _ => fail

/-- Entries of a sequence at the indentation of the mapping around it. -/
def indentlessItems : Nat → Parse (List Node)
  | 0 => fail
  | fuel + 1 => do
    match ← peek with
    | .blockEntry => do
      skip
      let t ← peek
      let item ←
        if t = .blockEntry || t = .key || t = .value || t = .blockEnd then pure Node.absent
        else node true false fuel
      return item :: (← indentlessItems fuel)
    | _ => return []

/-- A key or a value of a block mapping, after its mark. -/
def blockPart : Nat → Parse Node
  | 0 => fail
  | fuel + 1 => do
    let t ← peek
    if t = .key || t = .value || t = .blockEnd then return Node.absent else node true true fuel

def blockEntries : Nat → Parse (List (Node × Node))
  | 0 => fail
  | fuel + 1 => do
    match ← peek with
    | .key => do
      skip
      let k ← blockPart fuel
      let v ← if (← peek) = .value then do skip; blockPart fuel else pure Node.absent
      return (k, v) :: (← blockEntries fuel)
    | .blockEnd => do skip; return []
    | _ => fail

/-- Items up to the closing bracket. A key makes a mapping of one entry. -/
def flowItems (first : Bool) : Nat → Parse (List Node)
  | 0 => fail
  | fuel + 1 => do
    if (← peek) = .flowSequenceEnd then do skip; return []
    else do
      if !first then expect .flowEntry
      match ← peek with
      | .flowSequenceEnd => do skip; return []
      | .key => do
        skip
        let entry ← flowPair fuel
        return .mapping [entry] :: (← flowItems false fuel)
      | _ => do
        let item ← node false false fuel
        return item :: (← flowItems false fuel)

/-- The entry of a mapping inside a sequence, after the mark of its key. A key that is left out takes
the token after it along. -/
def flowPair : Nat → Parse (Node × Node)
  | 0 => fail
  | fuel + 1 => do
    let t ← peek
    let k ←
      if t = .value || t = .flowEntry || t = .flowSequenceEnd then do skip; pure Node.absent
      else node false false fuel
    if (← peek) = .value then do
      skip
      let t ← peek
      let v ←
        if t = .flowEntry || t = .flowSequenceEnd then pure Node.absent else node false false fuel
      return (k, v)
    else return (k, .absent)

def flowEntries (first : Bool) : Nat → Parse (List (Node × Node))
  | 0 => fail
  | fuel + 1 => do
    if (← peek) = .flowMappingEnd then do skip; return []
    else do
      if !first then expect .flowEntry
      match ← peek with
      | .flowMappingEnd => do skip; return []
      | .key => do
        skip
        let t ← peek
        let k ←
          if t = .value || t = .flowEntry || t = .flowMappingEnd then pure Node.absent
          else node false false fuel
        if (← peek) = .value then do
          skip
          let t ← peek
          let v ←
            if t = .flowEntry || t = .flowMappingEnd then pure Node.absent else node false false fuel
          return (k, v) :: (← flowEntries false fuel)
        else return (k, .absent) :: (← flowEntries false fuel)
      | _ => do
        let k ← node false false fuel
        return (k, .absent) :: (← flowEntries false fuel)

end

/-- Directives before a document. The only version is 1.1, and a handle is defined once. -/
def directives : Nat → (versioned : Bool) → Parse Unit
  | 0, _ => fail
  | fuel + 1, versioned => do
    match ← peek with
    | .versionDirective major minor =>
      if versioned || major ≠ 1 || minor ≠ 1 then fail
      else do skip; directives fuel true
    | .tagDirective handle lead => do
      if (← get).handles.any (·.1 = handle) then fail
      else do
        modify fun s => { s with handles := s.handles ++ [(handle, lead)] }
        skip
        directives fuel versioned
    | _ => return ()

/-- The root of the first document; `none` when there is no document. -/
def document (fuel : Nat) : Parse (Option Node) := do
  let root ←
    match ← peek with
    | .streamEnd => return none
    | .versionDirective .. | .tagDirective .. | .documentStart => do
      directives fuel false
      expect .documentStart
      match ← peek with
      | .versionDirective .. | .tagDirective .. | .documentStart | .documentEnd | .streamEnd =>
        pure Node.absent
      | _ => node true false fuel
    | _ => node true false fuel
  let _ ← peek
  return some root

end Parse

/-- Reads the first document of a text. The outer `none` is a text that is not YAML, the inner one a
text without a document. -/
def document? (bytes : List UInt8) : Option (Option Node) := do
  let cs ← Text.charsOf? bytes
  let cs := if cs.head? = some Lexer.byteOrderMark then cs.tail else cs
  if !cs.all isAllowed then none
  else
    let ts := tokens cs
    let (root, _) ← (Parse.document (3 * ts.length + 3)).run { tokens := ts }
    return root

end NodeShader.Yaml
