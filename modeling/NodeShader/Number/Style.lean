import NodeShader.Number.Shortest

/-!
# Decimals as text

A decimal is written positionally (`0.00025`) or with an exponent (`2.5e-04`). Which of the two an
output takes, and how wide it makes the exponent, is a `Style` of that output.
-/

namespace NodeShader.Number

/-- The decimal digits of a number, most significant first. -/
def digitsOf (n : Nat) : List Char := Nat.toDigits 10 n

/-- A list of characters lengthened on the left. -/
def padLeft (width : Nat) (fill : Char) (cs : List Char) : List Char :=
  List.replicate (width - cs.length) fill ++ cs

namespace Decimal

/-- The digits of the coefficient; none for zero. -/
def digits (d : Decimal) : List Char := if d.coefficient = 0 then [] else digitsOf d.coefficient

/-- Where the decimal point stands, counted from the front of the digits. -/
def point (d : Decimal) : Int := if d.coefficient = 0 then 0 else d.digits.length + d.exponent

/-- Whole part and fractional digits, written positionally. -/
def positionalParts (d : Decimal) : List Char × List Char :=
  let ds := d.digits
  let p := d.point
  if p ≤ 0 then
    (['0'], List.replicate (if ds.isEmpty then 0 else (-p).toNat) '0' ++ ds)
  else
    let p := p.toNat
    (ds.take p ++ List.replicate (p - ds.length) '0', ds.drop p)

/-- `123.45`, or `123` when there is no fraction. -/
def positional (d : Decimal) : List Char :=
  match d.positionalParts with
  | (whole, []) => whole
  | (whole, fraction) => whole ++ '.' :: fraction

/-- `1.2345e+02`, the exponent signed and with at least `width` digits. -/
def scientific (width : Nat) (d : Decimal) : List Char :=
  let ds := d.digits
  let e : Int := if ds.isEmpty then 0 else d.point - 1
  let mantissa := match ds with
    | [] => ['0']
    | [c] => [c]
    | c :: rest => c :: '.' :: rest
  mantissa ++ 'e' :: (if e < 0 then '-' else '+') :: padLeft width '0' (digitsOf e.natAbs)

end Decimal

/-- How an output writes finite numbers: positionally when the decimal exponent is at least
`least` and below `limit`. -/
structure Style where
  least : Int
  limit : Int
  exponentWidth : Nat
  deriving DecidableEq, Repr

/-- Writes a decimal in a style. -/
def Style.write (s : Style) (negative : Bool) (d : Decimal) : String :=
  let e := if d.coefficient = 0 then 0 else d.point - 1
  let body := if s.least ≤ e ∧ e < s.limit then d.positional else d.scientific s.exponentWidth
  String.ofList (if negative then '-' :: body else body)

/-- Writes an integer in decimal. -/
def intText (n : Int) : String :=
  String.ofList (if n < 0 then '-' :: digitsOf n.natAbs else digitsOf n.natAbs)

/-- Writes a natural number in decimal. -/
def natText (n : Nat) : String := String.ofList (digitsOf n)

end NodeShader.Number
