/-!
# Rounding a quotient

Every rounding in this library is one rounding of an exact quotient of natural numbers, to the
nearest integer, a tie going to the even neighbour.
-/

namespace NodeShader.Number

-- a power of numbers is the same term in every module, whatever algebra the module knows
attribute [instance (high), default_instance (high + 1)] instPowNat

/-- `num / den` rounded to the nearest integer; of two equally near ones the even one. -/
def roundHalfEven (num den : Nat) : Nat :=
  let quot := num / den
  let rest := num % den
  if 2 * rest < den then quot
  else if den < 2 * rest then quot + 1
  else if quot % 2 = 0 then quot
  else quot + 1

theorem roundHalfEven_of_exact (quot den : Nat) (h : 0 < den) :
    roundHalfEven (quot * den) den = quot := by
  simp [roundHalfEven, Nat.mul_div_cancel _ h, h]

/-- How many binary digits `n` has; zero has none. -/
def bitLength (n : Nat) : Nat := if n = 0 then 0 else n.log2 + 1

/-- How many decimal digits `n` has; zero has none. -/
def decimalLength (n : Nat) : Nat := if n = 0 then 0 else (Nat.toDigits 10 n).length

end NodeShader.Number
