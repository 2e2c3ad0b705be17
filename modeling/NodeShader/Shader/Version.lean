import NodeShader.Number.Literal
import NodeShader.Text.Blank
import NodeShader.Text.Quoted

/-!
# Language versions

A version is written as it stands in a `#version` directive: three digits, and the profile `es`
from version 3 of the embedded language on.
-/

namespace NodeShader

structure Version where
  major : UInt8
  minor : UInt8
  es : Bool
  deriving DecidableEq, Repr, Inhabited

namespace Version

open Number (isDigit takeSign spanDigits digitsValue? padLeft digitsOf)

def v120 : Version := ⟨1, 20, false⟩

/-- The version without its profile. -/
def number (v : Version) : String :=
  String.ofList (digitsOf v.major.toNat ++ padLeft 2 '0' (digitsOf v.minor.toNat))

/-- The value of a `#version` directive. -/
def text (v : Version) : String := if v.es && 3 ≤ v.major then v.number ++ " es" else v.number

/-- White space inside a line. -/
def isInlineBlank (c : Char) : Bool := Text.isBlank c && c != '\n'

/-- Reads a signed integer of 64 bits after leading blanks, with what follows it. -/
def readInteger? (cs : List Char) : Option (Int × List Char) :=
  let (negative, body) := takeSign (cs.dropWhile isInlineBlank)
  let (digits, rest) := spanDigits body
  match digits with
  | [] => none
  | _ =>
    match digitsValue? 10 digits 0 with
    | some n =>
      let value : Int := if negative then -(n : Int) else n
      if -(2 ^ 63) ≤ value ∧ value < 2 ^ 63 then some (value, rest) else none
    | none => none

/-- The word after a number: blanks must divide them, on one line. -/
def readProfile (cs : List Char) : List Char :=
  match cs with
  | c :: _ => if isInlineBlank c then (cs.dropWhile isInlineBlank).takeWhile (!Text.isBlank ·) else []
  | [] => []

/-- Reads `120`, `330 core` or `300 es`. What follows the profile is not looked at. -/
def parse? (s : String) : Option Version :=
  match readInteger? s.toList with
  | none => none
  | some (n, rest) =>
    let profile := String.ofList (readProfile rest)
    if 100 ≤ n ∧ n ≤ 999 ∧ (profile = "" ∨ profile = "es" ∨ profile = "core") then
      some ⟨UInt8.ofNat (n.toNat / 100), UInt8.ofNat (n.toNat % 100), profile = "es" || n = 100⟩
    else none

/-- What is said about a text that is no version. -/
def invalidText (s : String) : String := "invalid GLSL version " ++ Text.quote s

end Version

end NodeShader
