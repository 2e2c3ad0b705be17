import NodeShader.Number.Binary

/-!
# The fewest digits that read back

A finite number of a binary format stands for every real that rounds to it: an interval around it,
whose ends belong to it when its significand is even. `Layout.shortest` looks for a decimal in that
interval on ever finer grids `10 ^ e`. On each grid only the two neighbours of the number can be
the nearest hit, so only they are tried; of two hits the nearer one is taken, and of two equally
near ones the even one.
-/

namespace NodeShader.Number

/-- The decimal `coefficient * 10 ^ exponent`. -/
structure Decimal where
  coefficient : Nat
  exponent : Int
  deriving DecidableEq, Repr, Inhabited

namespace Decimal

/-- Numerator and denominator of a decimal. -/
def ratio (d : Decimal) : Nat × Nat :=
  if 0 ≤ d.exponent then (d.coefficient * 10 ^ d.exponent.toNat, 1)
  else (d.coefficient, 10 ^ (-d.exponent).toNat)

/-- Removes trailing zeros of a coefficient below `10 ^ fuel`. -/
def trimZeros : Nat → Decimal → Decimal
  | 0, d => d
  | fuel + 1, d =>
    if d.coefficient ≠ 0 ∧ d.coefficient % 10 = 0 then
      trimZeros fuel ⟨d.coefficient / 10, d.exponent + 1⟩
    else d

end Decimal

/-- The reals that round to a positive finite number, in quarters of a unit of its format. -/
structure Basin where
  low : Nat
  centre : Nat
  high : Nat
  closed : Bool
  deriving DecidableEq, Repr

/-- The basin of `significand * 2 ^ scale` units. At a power of two the gap below is half the gap
above. -/
def Layout.basin (l : Layout) (significand scale : Nat) : Basin :=
  let below := if significand = 2 ^ l.fraction ∧ 0 < scale then 1 else 2
  { low := (4 * significand - below) * 2 ^ scale
    centre := 4 * significand * 2 ^ scale
    high := (4 * significand + 2) * 2 ^ scale
    closed := significand % 2 = 0 }

namespace Basin

/-- Does the quotient `num / den`, in quarters of a unit, lie in the basin? -/
def contains (b : Basin) (num den : Nat) : Bool :=
  if b.closed then b.low * den ≤ num ∧ num ≤ b.high * den
  else b.low * den < num ∧ num < b.high * den

end Basin

/-- A value `num / den` measured on the grid of spacing `10 ^ e`: numerator and denominator of
`num / den / 10 ^ e`. -/
def onGrid (num den : Nat) (e : Int) : Nat × Nat :=
  if 0 ≤ e then (num, den * 10 ^ e.toNat) else (num * 10 ^ (-e).toNat, den)

/-- The exponent `e` with `10 ^ e ≤ num / den < 10 ^ (e + 1)`. -/
def decade (num den : Nat) : Int :=
  if den ≤ num then (decimalLength (num / den) : Int) - 1
  else -(decimalLength ((den - 1) / num) : Int)

/-- A decimal measured in quarters of a unit, as numerator and denominator. -/
def Layout.quarters (l : Layout) (d : Decimal) : Nat × Nat :=
  let (num, den) := d.ratio
  (num * 2 ^ (l.unitExponent + 2), den)

/-- The better of the two neighbours of the centre on the grid `10 ^ e`, if one is in the basin. -/
def Layout.tryGrid (l : Layout) (b : Basin) (e : Int) : Option Decimal :=
  let (num, den) := onGrid b.centre (2 ^ (l.unitExponent + 2)) e
  let down : Decimal := ⟨num / den, e⟩
  let up : Decimal := ⟨num / den + 1, e⟩
  let hit (d : Decimal) : Bool :=
    let (n, m) := l.quarters d
    b.contains n m
  match hit down, hit up with
  | true, true => some ⟨roundHalfEven num den, e⟩
  | true, false => some down
  | false, true => some up
  | false, false => none

/-- Tries the grids `10 ^ e`, `10 ^ (e - 1)`, … in turn, `fuel` of them. -/
def Layout.search (l : Layout) (b : Basin) : Nat → Int → Option Decimal
  | 0, _ => none
  | fuel + 1, e =>
    match l.tryGrid b e with
    | some d => some d
    | none => l.search b fuel (e - 1)

/-- The centre written out in full. -/
def Layout.exactDecimal (l : Layout) (significand scale : Nat) : Decimal :=
  ⟨significand * 2 ^ scale * 5 ^ l.unitExponent, -(l.unitExponent : Int)⟩

/-- The shortest decimal that rounds to a positive finite number. Seventeen digits are enough for
every format used here; the exact expansion stands in for a format where they are not. -/
def Layout.shortest (l : Layout) (significand scale : Nat) : Decimal :=
  if significand = 0 then ⟨0, 0⟩
  else
    let b := l.basin significand scale
    let e := decade b.centre (2 ^ (l.unitExponent + 2))
    match l.search b 17 e with
    | some d => d.trimZeros (decimalLength d.coefficient)
    | none => l.exactDecimal significand scale

end NodeShader.Number
