import NodeShader.Number.Literal

/-!
# Tokens of YAML text

A block structure opens where a line is indented further than the one it belongs to, and closes
where a line is indented less. Whether a scalar is a key is known only when the colon after it is
seen, so the lexer remembers where a key could have started and puts the key token there afterwards.
-/

namespace NodeShader.Yaml

/-- How a scalar is written. -/
inductive ScalarStyle where
  | plain
  | quoted
  | block
  deriving DecidableEq, Repr, Inhabited

inductive Token where
  | versionDirective (major minor : Nat)
  | tagDirective (handle lead : String)
  | documentStart
  | documentEnd
  | streamEnd
  | blockSequenceStart
  | blockMappingStart
  | blockEnd
  | flowSequenceStart
  | flowSequenceEnd
  | flowMappingStart
  | flowMappingEnd
  | blockEntry
  | flowEntry
  | key
  | value
  | alias (name : String)
  | anchor (name : String)
  | tag (handle suffix : String)
  | scalar (style : ScalarStyle) (text : String)
  deriving DecidableEq, Repr, Inhabited

/-! ### Characters -/

def isBlank (c : Char) : Bool := c = ' ' || c = '\t'

def isBreak (c : Char) : Bool :=
  c = '\n' || c = '\r' || c.toNat = 0x85 || c.toNat = 0x2028 || c.toNat = 0x2029

/-- A letter of a name: ASCII letters, digits, `_` and `-`. -/
def isNameChar (c : Char) : Bool :=
  ('a' ≤ c && c ≤ 'z') || ('A' ≤ c && c ≤ 'Z') || ('0' ≤ c && c ≤ '9') || c = '_' || c = '-'

/-- May the character stand in YAML text at all? -/
def isAllowed (c : Char) : Bool :=
  let n := c.toNat
  n = 0x09 || n = 0x0a || n = 0x0d || (0x20 ≤ n && n ≤ 0x7e) || n = 0x85 ||
    (0xa0 ≤ n && n ≤ 0xd7ff) || (0xe000 ≤ n && n ≤ 0xfffd) || 0x10000 ≤ n

/-! ### Position in the text -/

/-- The text ahead, with the place it starts at. -/
structure Cursor where
  rest : List Char
  index : Nat := 0
  line : Nat := 0
  column : Nat := 0
  deriving Repr, Inhabited

namespace Cursor

def head? (c : Cursor) : Option Char := c.rest.head?

/-- The character `n` places ahead. -/
def ahead? (c : Cursor) (n : Nat) : Option Char := c.rest[n]?

/-- Is the next character this one? -/
def startsWith (c : Cursor) (ch : Char) : Bool := c.head? = some ch

/-- Passes one character of a line. -/
def skip (c : Cursor) : Cursor :=
  { c with rest := c.rest.tail, index := c.index + 1, column := c.column + 1 }

/-- Passes `n` characters of a line. -/
def skipMany (c : Cursor) (n : Nat) : Cursor :=
  { c with rest := c.rest.drop n, index := c.index + n, column := c.column + n }

/-- Passes a line break, and gives what it stands for. -/
def takeBreak (c : Cursor) : List Char × Cursor :=
  match c.rest with
  | '\r' :: '\n' :: rest =>
    (['\n'], { rest, index := c.index + 2, line := c.line + 1, column := 0 })
  | ch :: rest =>
    if isBreak ch then
      let meaning := if ch.toNat = 0x2028 || ch.toNat = 0x2029 then ch else '\n'
      ([meaning], { rest, index := c.index + 1, line := c.line + 1, column := 0 })
    else ([], c)
  | [] => ([], c)

/-- Is the character `n` places ahead a blank, a line break or the end? -/
def blankOrEndAt (c : Cursor) (n : Nat) : Bool :=
  match c.ahead? n with
  | some ch => isBlank ch || isBreak ch
  | none => true

/-- Is the next character a line break or the end? -/
def atLineEnd (c : Cursor) : Bool :=
  match c.head? with
  | some ch => isBreak ch
  | none => true

/-- Is there a document marker, `---` or `...`, at the start of the line? -/
def atMarker (c : Cursor) : Bool :=
  c.column = 0 &&
    (['-', '-', '-'].isPrefixOf c.rest || ['.', '.', '.'].isPrefixOf c.rest) && c.blankOrEndAt 3

/-- Passes the characters of a class that are ahead in the line. -/
def takeWhile (c : Cursor) (test : Char → Bool) : List Char × Cursor :=
  let taken := c.rest.takeWhile test
  (taken, c.skipMany taken.length)

/-- Passes a comment up to the end of its line. -/
def skipComment (c : Cursor) : Cursor :=
  if c.startsWith '#' then (c.takeWhile (!isBreak ·)).2 else c

end Cursor

end NodeShader.Yaml
