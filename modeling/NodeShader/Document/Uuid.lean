import NodeShader.Text.Quoted
import NodeShader.Text.Utf8

/-!
# Identities of documents

A number of 128 bits in hexadecimal, in groups of 8, 4, 4, 4 and 12 digits with dashes between them.
It may stand behind `urn:uuid:`, between two characters of any kind, or without dashes; which of these
it is follows from the number of bytes alone.
-/

namespace NodeShader

structure Uuid where
  bytes : List UInt8
  deriving DecidableEq, Repr, Inhabited

inductive UuidError where
  | wrongLength (bytes : Nat)
  | wrongLead (lead : List UInt8)
  | wrongFormat
  deriving DecidableEq, Repr

namespace Uuid

/-- No identity. -/
def nil : Uuid := ⟨List.replicate 16 0⟩

/-- The identity, or a fresh one where there is none. -/
def orFresh (u fresh : Uuid) : Uuid := if u = nil then fresh else u

def dash : UInt8 := 0x2d

/-- The bytes of pairs of hexadecimal digits. -/
def pairs? (text : List UInt8) : Option (List UInt8) :=
  Text.bytesOfHex? (text.map fun b => Char.ofNat b.toNat)

/-- Five groups with dashes between them. -/
def grouped? (text : List UInt8) : Option Uuid :=
  if [8, 13, 18, 23].all fun i => text[i]? = some dash then
    let digits := text.take 8 ++ (text.drop 9).take 4 ++ (text.drop 14).take 4 ++
      (text.drop 19).take 4 ++ (text.drop 24).take 12
    (pairs? digits).map Uuid.mk
  else none

def lead : List UInt8 := Text.bytesOf "urn:uuid:"

def lowerByte (b : UInt8) : UInt8 := if 0x41 ≤ b && b ≤ 0x5a then b + 0x20 else b

def orWrongFormat : Option Uuid → Except UuidError Uuid
  | some u => .ok u
  | none => .error .wrongFormat

def read (s : String) : Except UuidError Uuid :=
  let text := Text.bytesOf s
  match text.length with
  | 36 => orWrongFormat (grouped? text)
  | 45 =>
    if (text.take 9).map lowerByte = lead then orWrongFormat (grouped? (text.drop 9))
    else .error (.wrongLead (text.take 9))
  | 38 => orWrongFormat (grouped? (text.drop 1))
  | 32 => orWrongFormat ((pairs? text).map Uuid.mk)
  | n => .error (.wrongLength n)

/-- Digits in lower case, in groups. -/
def text (u : Uuid) : String :=
  let group (start count : Nat) := Text.hexOfBytes ((u.bytes.drop start).take count)
  group 0 4 ++ "-" ++ group 4 2 ++ "-" ++ group 6 2 ++ "-" ++ group 8 2 ++ "-" ++ group 10 6

end Uuid

def UuidError.message : UuidError → String
  | .wrongLength n => "invalid UUID length: " ++ Number.natText n
  | .wrongLead lead => "invalid urn prefix: " ++ Text.quoteBytes lead
  | .wrongFormat => "invalid UUID format"

end NodeShader
