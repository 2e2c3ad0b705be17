/-!
# Bytes and text

Text is kept as characters. Bytes that are not the encoding of a character read as the replacement
character, one for each such byte.
-/

namespace NodeShader.Text

/-- The bytes of a text. -/
def bytesOf (s : String) : List UInt8 := s.toUTF8.toList

/-- How many bytes a text takes. -/
def byteLength (s : String) : Nat := s.utf8ByteSize

/-- Is `b` a continuation byte? -/
def isContinuation (b : UInt8) : Bool := 0x80 ≤ b && b < 0xc0

/-- The character encoded at the front of some bytes, with what follows it. -/
def decodeChar? : List UInt8 → Option (Char × List UInt8)
  | [] => none
  | a :: rest =>
    if a < 0x80 then some (Char.ofNat a.toNat, rest)
    else if 0xc2 ≤ a && a < 0xe0 then
      match rest with
      | b :: rest =>
        if isContinuation b then
          some (Char.ofNat ((a.toNat - 0xc0) * 0x40 + (b.toNat - 0x80)), rest)
        else none
      | _ => none
    else if 0xe0 ≤ a && a < 0xf0 then
      match rest with
      | b :: c :: rest =>
        let n := (a.toNat - 0xe0) * 0x1000 + (b.toNat - 0x80) * 0x40 + (c.toNat - 0x80)
        if isContinuation b && isContinuation c && 0x800 ≤ n && !(0xd800 ≤ n && n < 0xe000) then
          some (Char.ofNat n, rest)
        else none
      | _ => none
    else if 0xf0 ≤ a && a < 0xf5 then
      match rest with
      | b :: c :: d :: rest =>
        let n := (a.toNat - 0xf0) * 0x40000 + (b.toNat - 0x80) * 0x1000 + (c.toNat - 0x80) * 0x40 +
          (d.toNat - 0x80)
        if isContinuation b && isContinuation c && isContinuation d && 0x10000 ≤ n &&
            n < 0x110000 then
          some (Char.ofNat n, rest)
        else none
      | _ => none
    else none

/-- Reads up to `fuel` characters; `strict` refuses bytes that encode none. -/
def decodeChars (strict : Bool) : Nat → List UInt8 → Option (List Char)
  | 0, _ => some []
  | _, [] => some []
  | fuel + 1, bytes@(_ :: tail) =>
    match decodeChar? bytes with
    | some (c, rest) => (decodeChars strict fuel rest).map (c :: ·)
    | none =>
      if strict then none
      else (decodeChars strict fuel tail).map (Char.ofNat 0xfffd :: ·)

/-- The text of some bytes, if they are all text. -/
def charsOf? (bytes : List UInt8) : Option (List Char) := decodeChars true bytes.length bytes

/-- The text of some bytes, with replacement characters where they are none. -/
def textOf (bytes : List UInt8) : String :=
  String.ofList ((decodeChars false bytes.length bytes).getD [])

end NodeShader.Text
