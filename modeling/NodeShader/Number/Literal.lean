import NodeShader.Number.Style

/-!
# Reading numerals

Decimal numerals are read into an exact decimal first and rounded once. A numeral whose decade is
far outside every binary format is rounded without forming the power of ten.
-/

namespace NodeShader.Number

/-- The value of a digit in a base up to 36, letters of either case counting from ten. -/
def digitValue? (base : Nat) (c : Char) : Option Nat :=
  let v :=
    if '0' ≤ c ∧ c ≤ '9' then some (c.toNat - '0'.toNat)
    else if 'a' ≤ c ∧ c ≤ 'z' then some (c.toNat - 'a'.toNat + 10)
    else if 'A' ≤ c ∧ c ≤ 'Z' then some (c.toNat - 'A'.toNat + 10)
    else none
  v.filter (· < base)

/-- Is `c` one of the ten ASCII digits? -/
def isDigit (c : Char) : Bool := '0' ≤ c && c ≤ '9'

/-- The value of a list of digits, most significant first; `none` for a character that is no
digit. The empty list has the value `acc`. -/
def digitsValue? (base : Nat) : List Char → Nat → Option Nat
  | [], acc => some acc
  | c :: rest, acc =>
    match digitValue? base c with
    | some v => digitsValue? base rest (acc * base + v)
    | none => none

/-- A non-empty numeral in a base. -/
def natural? (base : Nat) : List Char → Option Nat
  | [] => none
  | cs => digitsValue? base cs 0

/-- Splits off the longest run of digits. -/
def spanDigits (cs : List Char) : List Char × List Char := cs.span isDigit

/-- A decimal numeral with its sign. -/
structure SignedDecimal where
  negative : Bool
  value : Decimal
  deriving DecidableEq, Repr, Inhabited

/-- Splits a leading sign off. -/
def takeSign : List Char → Bool × List Char
  | '-' :: rest => (true, rest)
  | '+' :: rest => (false, rest)
  | cs => (false, cs)

/-- Reads `e±digits` to the end of the text; an absent exponent is zero. -/
def readExponent? : List Char → Option Int
  | [] => some 0
  | c :: rest =>
    if c = 'e' ∨ c = 'E' then
      let (negative, ds) := takeSign rest
      if ds.isEmpty || !ds.all isDigit then none
      else (digitsValue? 10 ds 0).map fun n => if negative then -(n : Int) else n
    else none

/-- Reads an optional sign, digits with at most one point among or around them, and an optional
exponent. At least one digit must stand before the exponent. -/
def SignedDecimal.read? (cs : List Char) : Option SignedDecimal :=
  let (negative, body) := takeSign cs
  let (whole, rest) := spanDigits body
  let (fraction, rest) := match rest with
    | '.' :: more => spanDigits more
    | _ => ([], rest)
  if whole.isEmpty && fraction.isEmpty then none
  else
    match digitsValue? 10 (whole ++ fraction) 0, readExponent? rest with
    | some c, some e => some ⟨negative, ⟨c, e - fraction.length⟩⟩
    | _, _ => none

/-- The pattern nearest to a signed decimal. -/
def Layout.ofDecimal (l : Layout) (d : SignedDecimal) : Nat :=
  if d.value.coefficient = 0 then l.withSign d.negative 0
  else
    let decade : Int := decimalLength d.value.coefficient + d.value.exponent
    if 400 < decade then l.withSign d.negative l.infinity
    else if decade < -400 then l.withSign d.negative 0
    else
      let (num, den) := d.value.ratio
      l.ofRatio d.negative num den

/-- The double nearest to a signed decimal. -/
def SignedDecimal.toDouble (d : SignedDecimal) : Double := .ofNatBits (Layout.double.ofDecimal d)

/-- The single nearest to a signed decimal, by one rounding. -/
def SignedDecimal.toSingle (d : SignedDecimal) : Single := .ofNatBits (Layout.single.ofDecimal d)

/-- Writes a number in a style, with the texts given for what is not finite. -/
def Reading.write (l : Layout) (s : Style) (inf negInf nan : String) : Reading → String
  | .finite negative significand scale => s.write negative (l.shortest significand scale)
  | .infinite false => inf
  | .infinite true => negInf
  | .notANumber .. => nan

end NodeShader.Number
