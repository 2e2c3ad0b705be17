import NodeShader.Text.Hex
import NodeShader.Text.Printable
import NodeShader.Text.Utf8

/-!
# Quoted text

Messages show names between double quotes with everything that cannot be printed escaped. Log
lines escape a little less and quote only where they have to.
-/

namespace NodeShader.Text

/-- The one-letter escapes. -/
def letterEscape? (c : Char) : Option Char :=
  match c.toNat with
  | 0x07 => some 'a'
  | 0x08 => some 'b'
  | 0x09 => some 't'
  | 0x0a => some 'n'
  | 0x0b => some 'v'
  | 0x0c => some 'f'
  | 0x0d => some 'r'
  | _ => none

/-- The escape by number of a character that cannot be printed; code points below `narrow` take two
digits. -/
def numberEscape (narrow : Nat) (c : Char) : List Char :=
  let n := c.toNat
  if n < narrow then '\\' :: 'x' :: hexDigits 2 n
  else if n < 0x10000 then '\\' :: 'u' :: hexDigits 4 n
  else '\\' :: 'U' :: hexDigits 8 n

/-- One character of a quoted name. -/
def quoteChar (c : Char) : List Char :=
  if c = '"' ∨ c = '\\' then ['\\', c]
  else if isPrintable c then [c]
  else match letterEscape? c with
    | some e => ['\\', e]
    | none => numberEscape 0x80 c

/-- A name between double quotes. -/
def quote (s : String) : String := String.ofList ('"' :: s.toList.flatMap quoteChar ++ ['"'])

/-- Bytes between double quotes, in at most `fuel` pieces. A byte that is no part of a character is
shown by its number. -/
def quotePieces : Nat → List UInt8 → List Char
  | 0, _ => []
  | _, [] => []
  | fuel + 1, b :: rest =>
    match decodeChar? (b :: rest) with
    | some (c, rest) => quoteChar c ++ quotePieces fuel rest
    | none => '\\' :: 'x' :: hexDigits 2 b.toNat ++ quotePieces fuel rest

/-- Bytes that need not be text between double quotes. -/
def quoteBytes (bytes : List UInt8) : String :=
  String.ofList ('"' :: quotePieces bytes.length bytes ++ ['"'])

end NodeShader.Text
