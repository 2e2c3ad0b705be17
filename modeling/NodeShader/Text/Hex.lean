import NodeShader.Number.Literal

/-!
# Hexadecimal text
-/

namespace NodeShader.Text

open NodeShader.Number

/-- The digit of a number below sixteen, in lower case. -/
def hexDigit (n : Nat) : Char :=
  if n < 10 then Char.ofNat ('0'.toNat + n) else Char.ofNat ('a'.toNat + (n - 10))

/-- The last `width` hexadecimal digits of `n`. -/
def hexDigits : Nat → Nat → List Char
  | 0, _ => []
  | width + 1, n => hexDigits width (n / 16) ++ [hexDigit (n % 16)]

/-- Bytes as pairs of hexadecimal digits. -/
def hexOfBytes (bytes : List UInt8) : String :=
  String.ofList (bytes.flatMap fun b => hexDigits 2 b.toNat)

/-- Reads pairs of hexadecimal digits. -/
def bytesOfHex? : List Char → Option (List UInt8)
  | [] => some []
  | a :: b :: rest =>
    match digitValue? 16 a, digitValue? 16 b, bytesOfHex? rest with
    | some x, some y, some more => some (UInt8.ofNat (x * 16 + y) :: more)
    | _, _, _ => none
  | [_] => none

end NodeShader.Text
