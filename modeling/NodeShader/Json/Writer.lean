import NodeShader.Json.Basic
import NodeShader.Text.Hex

/-!
# Writing JSON

Every member and every item stands on a line of its own, indented by two for each level. Characters
that would end a script in a web page are written as escapes.
-/

namespace NodeShader.Json

def escapeUnit (n : Nat) : List Char := '\\' :: 'u' :: Text.hexDigits 4 n

/-- How a character is written in a string. -/
def escapeChar (c : Char) : List Char :=
  let n := c.toNat
  if c = '"' then ['\\', '"']
  else if c = '\\' then ['\\', '\\']
  else if c = '\n' then ['\\', 'n']
  else if c = '\r' then ['\\', 'r']
  else if c = '\t' then ['\\', 't']
  else if n = 0x08 then ['\\', 'b']
  else if n = 0x0c then ['\\', 'f']
  else if n < 0x20 || c = '<' || c = '>' || c = '&' || n = 0x2028 || n = 0x2029 then escapeUnit n
  else [c]

def quoted (s : String) : List Char := '"' :: s.toList.flatMap escapeChar ++ ['"']

/-- The start of a line. -/
def newLine (level : Nat) : List Char := '\n' :: List.replicate (2 * level) ' '

mutual

def write (level : Nat) : Json → List Char
  | .null => "null".toList
  | .bool b => (if b then "true" else "false").toList
  | .number numeral => numeral.toList
  | .text s => quoted s
  | .array [] => "[]".toList
  | .array items => '[' :: writeItems (level + 1) items ++ newLine level ++ [']']
  | .object [] => "\x7b\x7d".toList
  | .object members => '\x7b' :: writeMembers (level + 1) members ++ newLine level ++ ['\x7d']

def writeItems (level : Nat) : List Json → List Char
  | [] => []
  | [item] => newLine level ++ item.write level
  | item :: rest => newLine level ++ item.write level ++ ',' :: writeItems level rest

def writeMembers (level : Nat) : List (String × Json) → List Char
  | [] => []
  | [(name, value)] => newLine level ++ quoted name ++ ':' :: ' ' :: value.write level
  | (name, value) :: rest =>
    newLine level ++ quoted name ++ ':' :: ' ' :: value.write level ++ ',' :: writeMembers level rest

end

/-- The text of a value, with a line break at its end. -/
def document (j : Json) : String := String.ofList (j.write 0 ++ ['\n'])

end NodeShader.Json
