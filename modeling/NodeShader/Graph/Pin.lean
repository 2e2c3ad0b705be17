import NodeShader.Number.Style

/-!
# Pins and links as packed words

A pin is one word of 32 bits: the node in the low 24, the index plus one in the next seven and the
direction on top. A link is one word of 64 bits, the pin it leads to in the high half and the pin it
comes from in the low half, so that comparing links as numbers sorts them by the pin they lead to.
-/

namespace NodeShader

/-- The number of a node. -/
abbrev NodeId := UInt32

namespace NodeId

/-- The largest number that fits into a pin. -/
def greatest : NodeId := 0xffffff

/-- Can pins address the node? -/
def isValid (id : NodeId) : Bool := id ≠ 0 && id ≤ greatest

def text (id : NodeId) : String := Number.natText id.toNat

end NodeId

/-- Values flow from output pins to input pins. -/
inductive Direction where
  | input
  | output
  deriving DecidableEq, Repr, Inhabited

namespace Direction

def bit : Direction → UInt32
  | .input => 0
  | .output => 1

def text : Direction → String
  | .input => "input"
  | .output => "output"

end Direction

/-- A pin of a node. -/
structure Pin where
  bits : UInt32
  deriving DecidableEq, Repr, Inhabited

namespace Pin

/-- The largest index that fits into a pin. -/
def greatestIndex : Nat := 126

/-- The pin with the given parts. Parts that are too large lose their high bits, and a large index
spills into the direction. -/
def pack (node : NodeId) (index : Int) (dir : Direction) : Pin :=
  ⟨(node &&& (0xffffff : UInt32)) ||| (UInt32.ofInt (index + 1) <<< 24) ||| (dir.bit <<< 31)⟩

def input (node : NodeId) (index : Nat) : Pin := pack node index .input

def output (node : NodeId) (index : Nat) : Pin := pack node index .output

def node (p : Pin) : NodeId := p.bits &&& 0xffffff

/-- The position among the pins of the same direction; `-1` when there is none. -/
def index (p : Pin) : Int := (((p.bits >>> 24) &&& 0x7f).toNat : Int) - 1

def direction (p : Pin) : Direction := if p.bits >>> 31 = 0 then .input else .output

def isInput (p : Pin) : Bool := p.direction = .input

/-- Does the pin name a node and an index? -/
def isValid (p : Pin) : Bool := p.node ≠ 0 && (p.bits >>> 24) &&& 0x7f ≠ 0

/-- `(3[0]<)` for an input, `(3[0]>)` for an output. -/
def text (p : Pin) : String :=
  "(" ++ p.node.text ++ "[" ++ Number.intText p.index ++ "]" ++
    (match p.direction with | .input => "<" | .output => ">") ++ ")"

end Pin

/-- A link between two pins. -/
structure Link where
  bits : UInt64
  deriving DecidableEq, Repr, Inhabited

namespace Link

/-- The link from one pin to another. -/
def pack (source target : Pin) : Link :=
  ⟨(target.bits.toUInt64 <<< 32) ||| source.bits.toUInt64⟩

/-- The link between two pins in either order: a first pin that is an input is the target. -/
def between (a b : Pin) : Link := if a.isInput then pack b a else pack a b

def source (l : Link) : Pin := ⟨l.bits.toUInt32⟩

def target (l : Link) : Pin := ⟨(l.bits >>> 32).toUInt32⟩

/-- Does the link lead from an output of a node to an input of a node? -/
def isValid (l : Link) : Bool :=
  l.source.isValid && l.target.isValid && !l.source.isInput && l.target.isInput

/-- Does the link begin or end at the node? -/
def touches (l : Link) (id : NodeId) : Bool := l.source.node = id || l.target.node = id

/-- Does the link begin or end at the pin? -/
def uses (l : Link) (p : Pin) : Bool := l.source = p || l.target = p

def text (l : Link) : String := l.source.text ++ "-" ++ l.target.text

/-- Links are ordered as numbers. -/
instance : LT Link := ⟨fun a b => a.bits < b.bits⟩

instance (a b : Link) : Decidable (a < b) := inferInstanceAs (Decidable (a.bits < b.bits))

/-- The least word whose high half is the pin: no link into the pin is below it. -/
def floorOf (p : Pin) : Link := ⟨p.bits.toUInt64 <<< 32⟩

end Link

end NodeShader
