import NodeShader.Number.Round

/-!
# Binary floating point, bit by bit

A pattern of a binary interchange format is a natural number. Its magnitude without the sign is
`s * 2 ^ fraction + m`, where the number it stands for is `m * 2 ^ s` units and a unit is the
smallest positive number of the format. The same sum holds for subnormal numbers (`s = 0`) and
after a carry out of the significand, so reading and writing a pattern need no special cases.
-/

namespace NodeShader.Number

/-- A binary interchange format: the widths of its fraction and exponent fields. -/
structure Layout where
  fraction : Nat
  exponent : Nat
  deriving DecidableEq, Repr

namespace Layout

/-- Thirty-two bits: 23 of fraction, 8 of exponent. -/
def single : Layout := ⟨23, 8⟩

/-- Sixty-four bits: 52 of fraction, 11 of exponent. -/
def double : Layout := ⟨52, 11⟩

/-- The pattern of positive infinity, one above every finite magnitude. -/
def infinity (l : Layout) : Nat := (2 ^ l.exponent - 1) * 2 ^ l.fraction

/-- The bit that holds the sign. -/
def signBit (l : Layout) : Nat := 2 ^ (l.fraction + l.exponent)

/-- The power of two by which a unit divides one: the smallest positive number is
`2 ^ (-unitExponent)`. -/
def unitExponent (l : Layout) : Nat := 2 ^ (l.exponent - 1) - 2 + l.fraction

end Layout

/-- What a pattern stands for. A finite number is `significand * 2 ^ scale` units of its format. -/
inductive Reading where
  | finite (negative : Bool) (significand scale : Nat)
  | infinite (negative : Bool)
  | notANumber (negative : Bool) (payload : Nat)
  deriving DecidableEq, Repr

namespace Layout

/-- Reads a pattern. -/
def read (l : Layout) (bits : Nat) : Reading :=
  let negative := decide (l.signBit ≤ bits)
  let magnitude := bits % l.signBit
  if magnitude < l.infinity then
    let scale := magnitude / 2 ^ l.fraction - 1
    .finite negative (magnitude - scale * 2 ^ l.fraction) scale
  else if magnitude = l.infinity then .infinite negative
  else .notANumber negative (magnitude - l.infinity)

/-- A magnitude with a sign in front. -/
def withSign (l : Layout) (negative : Bool) (magnitude : Nat) : Nat :=
  if negative then l.signBit + magnitude else magnitude

/-- The magnitude nearest to `num / den` units, or infinity when that is out of range. -/
def roundUnits (l : Layout) (num den : Nat) : Nat :=
  let scale := bitLength (num / den) - (l.fraction + 1)
  min l.infinity (scale * 2 ^ l.fraction + roundHalfEven num (den * 2 ^ scale))

/-- The pattern nearest to `± num / den`. -/
def ofRatio (l : Layout) (negative : Bool) (num den : Nat) : Nat :=
  l.withSign negative (l.roundUnits (num * 2 ^ l.unitExponent) den)

/-- The quiet pattern that keeps the leading payload bits of a not-a-number. -/
def quiet (l : Layout) (negative : Bool) (payload : Nat) : Nat :=
  l.withSign negative (l.infinity + (payload ||| 2 ^ (l.fraction - 1)) % 2 ^ l.fraction)

end Layout

/-- A number of 32 bits. -/
structure Single where
  bits : UInt32
  deriving DecidableEq, Repr, Inhabited

/-- A number of 64 bits. -/
structure Double where
  bits : UInt64
  deriving DecidableEq, Repr, Inhabited

namespace Single

def ofNatBits (bits : Nat) : Single := ⟨UInt32.ofNat bits⟩

def read (x : Single) : Reading := Layout.single.read x.bits.toNat

def zero : Single := ⟨0⟩

def one : Single := ⟨0x3f800000⟩

def half : Single := ⟨0x3f000000⟩

def nan : Single := ⟨0x7fc00000⟩

def infinity (negative : Bool) : Single := if negative then ⟨0xff800000⟩ else ⟨0x7f800000⟩

def isNaN (x : Single) : Bool :=
  match x.read with
  | .notANumber .. => true
  | _ => false

def isFinite (x : Single) : Bool :=
  match x.read with
  | .finite .. => true
  | _ => false

/-- The single nearest to an integer, by one rounding. -/
def ofInt (n : Int) : Single := ofNatBits (Layout.single.ofRatio (n < 0) n.natAbs 1)

end Single

namespace Double

def ofNatBits (bits : Nat) : Double := ⟨UInt64.ofNat bits⟩

def read (x : Double) : Reading := Layout.double.read x.bits.toNat

def zero : Double := ⟨0⟩

def nan : Double := ⟨0x7ff8000000000001⟩

def infinity (negative : Bool) : Double :=
  if negative then ⟨0xfff0000000000000⟩ else ⟨0x7ff0000000000000⟩

def isNaN (x : Double) : Bool :=
  match x.read with
  | .notANumber .. => true
  | _ => false

def isFinite (x : Double) : Bool :=
  match x.read with
  | .finite .. => true
  | _ => false

/-- The double nearest to an integer. -/
def ofInt (n : Int) : Double := ofNatBits (Layout.double.ofRatio (n < 0) n.natAbs 1)

/-- Rounds to 32 bits. A not-a-number keeps its leading payload bits. -/
def toSingle (x : Double) : Single :=
  match x.read with
  | .finite negative significand scale =>
    .ofNatBits (Layout.single.ofRatio negative (significand * 2 ^ scale)
      (2 ^ Layout.double.unitExponent))
  | .infinite negative => .infinity negative
  | .notANumber negative payload => .ofNatBits (Layout.single.quiet negative (payload / 2 ^ 29))

/-- The integer part toward zero of a finite number. -/
def truncate? (x : Double) : Option Int :=
  match x.read with
  | .finite negative significand scale =>
    let whole : Int := (significand * 2 ^ scale / 2 ^ Layout.double.unitExponent : Nat)
    some (if negative then -whole else whole)
  | _ => none

end Double

/-- Every single is a double exactly. -/
def Single.toDouble (x : Single) : Double :=
  match x.read with
  | .finite negative significand scale =>
    .ofNatBits (Layout.double.ofRatio negative (significand * 2 ^ scale)
      (2 ^ Layout.single.unitExponent))
  | .infinite negative => .infinity negative
  | .notANumber negative payload => .ofNatBits (Layout.double.quiet negative (payload * 2 ^ 29))

end NodeShader.Number
