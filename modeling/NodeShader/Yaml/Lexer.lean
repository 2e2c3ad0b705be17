import NodeShader.Text.Utf8
import NodeShader.Yaml.ScalarText

/-!
# Reading YAML tokens

The lexer walks over the text once. It keeps the columns of the open block structures, and for every
open flow structure the place where a key could have started. A parser that reads the tokens looks
two of them ahead, and further while the token in front of it may still turn out to be a key: where
the text cannot be read on, it never gets to see the last tokens before that place.
-/

namespace NodeShader.Yaml

/-- A place where a key could have started. -/
structure KeyPlace where
  /-- How many tokens stand before it. -/
  number : Nat
  /-- Must a colon follow? -/
  required : Bool
  index : Nat
  line : Nat
  column : Nat
  deriving Repr, Inhabited

/-- A key is at most 1024 characters long and stands on one line. -/
def KeyPlace.isOver (k : KeyPlace) (c : Cursor) : Bool := k.line < c.line || k.index + 1024 < c.index

structure Lexer where
  cursor : Cursor
  /-- The tokens so far, last first. -/
  tokens : List Token := []
  count : Nat := 0
  /-- The columns of the open block structures, innermost first. -/
  indents : List Nat := []
  /-- The place of a key in the innermost structure. -/
  key? : Option KeyPlace := none
  /-- The places of keys around the open flow structures, innermost first. -/
  outer : List (Option KeyPlace) := []
  keyAllowed : Bool := true
  deriving Repr, Inhabited

namespace Lexer

def inFlow (l : Lexer) : Bool := !l.outer.isEmpty

def indent (l : Lexer) : Int :=
  match l.indents with
  | column :: _ => column
  | [] => -1

def add (l : Lexer) (t : Token) : Lexer := { l with tokens := t :: l.tokens, count := l.count + 1 }

/-- Puts a token after the first `number` tokens. -/
def insertAt (l : Lexer) (number : Nat) (t : Token) : Lexer :=
  { l with tokens := l.tokens.insertIdx (l.count - number) t, count := l.count + 1 }

def allowKey (l : Lexer) (allowed : Bool) : Lexer := { l with keyAllowed := allowed }

def skip (l : Lexer) (n : Nat) : Lexer := { l with cursor := l.cursor.skipMany n }

/-! ### Keys and indentation -/

/-- Gives up on a key in the innermost structure. -/
def dropKey (l : Lexer) : Option Lexer :=
  match l.key? with
  | some k => if k.required then none else some { l with key? := none }
  | none => some l

/-- A key could start here. In a block structure it must, at the column of the structure. -/
def saveKey (l : Lexer) : Option Lexer :=
  if l.keyAllowed then
    let c := l.cursor
    let k : KeyPlace :=
      { number := l.count, required := !l.inFlow && l.indent = c.column, index := c.index,
        line := c.line, column := c.column }
    l.dropKey.map fun l => { l with key? := some k }
  else some l

/-- Closes the block structures that are indented further than a column. -/
def unroll (l : Lexer) (column : Int) : Lexer :=
  if l.inFlow then l
  else
    let n := (l.indents.takeWhile fun (i : Nat) => column < (i : Int)).length
    { l with
      indents := l.indents.drop n, tokens := List.replicate n .blockEnd ++ l.tokens,
      count := l.count + n }

/-- Opens a block structure at a column that lies deeper, after the first `number` tokens. -/
def roll (l : Lexer) (column number : Nat) (t : Token) : Lexer :=
  if l.inFlow || l.indent ≥ column then l
  else { l with indents := column :: l.indents }.insertAt number t

/-! ### White space and comments -/

def byteOrderMark : Char := Char.ofNat 0xfeff

/-- Passes a comment, and comments on the lines after it. -/
def skipComments : Nat → Cursor → Cursor
  | 0, c => c
  | fuel + 1, c =>
    if c.startsWith '#' then
      let c := c.skipComment
      match takeGap none (c.rest.length + 1) {} c with
      | some (_, next) => if next.startsWith '#' then skipComments fuel next else c
      | none => c
    else c

/-- Passes everything up to the next token. A tab counts as white space only where no key can start.
The answer says whether a key can start at the token. -/
def skipToToken (inFlow : Bool) : Nat → Bool → Cursor → Bool × Cursor
  | 0, allowed, c => (allowed, c)
  | fuel + 1, allowed, c =>
    let c := if c.column = 0 && c.startsWith byteOrderMark then c.skip else c
    let c := (c.takeWhile fun ch => ch = ' ' || ((inFlow || !allowed) && ch = '\t')).2
    let c := skipComments (c.rest.length + 1) c
    if c.head?.any isBreak then skipToToken inFlow fuel (allowed || !inFlow) c.takeBreak.2
    else (allowed, c)

/-- Passes a comment on the line of the token before. -/
def skipLineComment (l : Lexer) : Lexer :=
  if l.tokens.head? = some .blockEntry || l.cursor.column = 0 then l
  else
    let c := (l.cursor.takeWhile isBlank).2
    if c.startsWith '#' then { l with cursor := c.skipComment } else l

/-! ### Names and tags -/

/-- May the character follow a name without a blank? -/
def endsName (c : Char) : Bool :=
  isBlank c || isBreak c || c = '?' || c = ':' || c = ',' || c = ']' || c = '\x7d' || c = '%' ||
    c = '@' || c.toNat = 0x60

/-- The name after `&` or `*`. -/
def takeName (c : Cursor) : Option (String × Cursor) :=
  let (name, c) := c.skip.takeWhile isNameChar
  if name.isEmpty || c.head?.any (!endsName ·) then none else some (String.ofList name, c)

def isUriChar (c : Char) : Bool := isNameChar c || ";/?:@&=+$.,!~*'()[]%".toList.contains c

/-- Replaces `%` escapes by the bytes they stand for. -/
def unescapeUri : List Char → Option (List UInt8)
  | [] => some []
  | '%' :: a :: b :: rest =>
    match Number.digitsValue? 16 [a, b] 0, unescapeUri rest with
    | some n, some bytes => some (n.toUInt8 :: bytes)
    | _, _ => none
  | '%' :: _ => none
  | c :: rest => (unescapeUri rest).map (Text.bytesOf (String.singleton c) ++ ·)

/-- The characters of a tag, after `head`. -/
def takeUri (head : List Char) (c : Cursor) : Option (String × Cursor) :=
  let (body, c) := c.takeWhile isUriChar
  if head.isEmpty && body.isEmpty then none
  else
    match (unescapeUri body).bind Text.charsOf? with
    | some body => some (String.ofList (head.tail ++ body), c)
    | none => none

/-- `!`, `!!` or `!name!`; a name that no `!` follows is not a handle. -/
def takeHandle (c : Cursor) : Option (List Char × Bool × Cursor) :=
  if c.startsWith '!' then
    let (name, c) := c.skip.takeWhile isNameChar
    if c.startsWith '!' then some ('!' :: name ++ ['!'], true, c.skip)
    else some ('!' :: name, false, c)
  else none

/-- A tag as handle and suffix. The handle is empty when the suffix is the whole tag. -/
def takeTag (c : Cursor) : Option (Token × Cursor) := do
  let (t, c) ←
    if c.ahead? 1 = some '<' then do
      let (uri, c) ← takeUri [] (c.skipMany 2)
      if c.startsWith '>' then some (Token.tag "" uri, c.skip) else none
    else do
      let (handle, isHandle, c) ← takeHandle c
      if isHandle then do
        let (suffix, c) ← takeUri [] c
        some (Token.tag (String.ofList handle) suffix, c)
      else do
        let (suffix, c) ← takeUri handle c
        some (if suffix = "" then Token.tag "" "!" else Token.tag "!" suffix, c)
  if c.blankOrEndAt 0 then some (t, c) else none

/-! ### Directives -/

/-- A number of one or two digits. -/
def takeVersionNumber (c : Cursor) : Option (Nat × Cursor) :=
  let (digits, c) := c.takeWhile Number.isDigit
  if digits.length ≤ 2 then (Number.natural? 10 digits).map (·, c) else none

/-- A directive after its `%`. -/
def takeDirective (c : Cursor) : Option (Token × Cursor) := do
  let (name, c) := c.takeWhile isNameChar
  if !c.blankOrEndAt 0 then none
  else
    let c := (c.takeWhile isBlank).2
    if name = "YAML".toList then do
      let (major, c) ← takeVersionNumber c
      if !c.startsWith '.' then none
      else do
        let (minor, c) ← takeVersionNumber c.skip
        some (.versionDirective major minor, c)
    else if name = "TAG".toList then do
      let (handle, isHandle, c) ← takeHandle c
      if !(isHandle || handle = ['!']) || !c.head?.any isBlank then none
      else do
        let (lead, c) ← takeUri [] (c.takeWhile isBlank).2
        if c.blankOrEndAt 0 then some (.tagDirective (String.ofList handle) lead, c) else none
    else none

/-! ### Tokens -/

/-- A token of one character that ends keys before it. -/
def mark (l : Lexer) (t : Token) (keyAllowed : Bool) : Option Lexer :=
  l.dropKey.map fun l => ((l.allowKey keyAllowed).skip 1).add t

def openFlow (l : Lexer) (t : Token) : Option Lexer :=
  l.saveKey.map fun l =>
    ({ l with outer := l.key? :: l.outer, key? := none, keyAllowed := true }.skip 1).add t

def closeFlow (l : Lexer) (t : Token) : Option Lexer :=
  l.dropKey.map fun l =>
    let l := match l.outer with
      | k :: outer => { l with key? := k, outer }
      | [] => l
    ((l.allowKey false).skip 1).add t

/-- An entry of a block sequence. In a flow structure the parser refuses the token. -/
def blockEntry (l : Lexer) : Option Lexer :=
  if !l.inFlow && !l.keyAllowed then none
  else (l.roll l.cursor.column l.count .blockSequenceStart).mark .blockEntry true

/-- A key that is marked by `?`. -/
def markedKey (l : Lexer) : Option Lexer :=
  if !l.inFlow && !l.keyAllowed then none
  else (l.roll l.cursor.column l.count .blockMappingStart).mark .key (!l.inFlow)

/-- A value. If a key could have started before it, then it did. -/
def value (l : Lexer) : Option Lexer :=
  let found := l.key?.filter (!·.isOver l.cursor)
  match found with
  | some k =>
    let l := (l.insertAt k.number .key).roll k.column k.number .blockMappingStart
    some ((({ l with key? := none }.allowKey false).skip 1).add .value)
  | none =>
    if l.key?.any (·.required) then none
    else if !l.inFlow && !l.keyAllowed then none
    else
      let l := l.roll l.cursor.column l.count .blockMappingStart
      some ((({ l with key? := none }.allowKey (!l.inFlow)).skip 1).add .value)

/-- A token that may start a key. -/
def keyed (l : Lexer) (take : Cursor → Option (Token × Cursor)) : Option Lexer := do
  let l ← l.saveKey
  let (t, c) ← take l.cursor
  return ({ l with cursor := c }.allowKey false).add t

def plain (l : Lexer) : Option Lexer := do
  let l ← l.saveKey
  let (text, atLineStart, c) ← takePlain l.inFlow (l.indent + 1).toNat l.cursor
  return ({ l with cursor := c }.allowKey atLineStart).add (.scalar .plain (String.ofList text))

def block (l : Lexer) (literal : Bool) : Option Lexer := do
  let l ← l.dropKey
  let (text, c) ← takeBlock literal l.indent l.cursor.skip
  return ({ l with cursor := c }.allowKey true).add (.scalar .block (String.ofList text))

def quoted (quote : Char) (c : Cursor) : Option (Token × Cursor) :=
  (takeQuoted quote c).map fun (text, c) => (.scalar .quoted (String.ofList text), c)

/-- Characters that a plain scalar cannot start with. -/
def isIndicator (c : Char) : Bool :=
  "-?:,[]\x7b\x7d#&*!|>'\"%@\x60".toList.contains c

/-- May a plain scalar start with `ch`? -/
def startsPlain (l : Lexer) (ch : Char) : Bool :=
  let joined := !l.cursor.blankOrEndAt 1
  !(isBlank ch || isBreak ch || isIndicator ch) || (ch = '-' && joined) ||
    (!l.inFlow && (ch = '?' || ch = ':') && joined)

/-- The token that starts with `ch`. -/
def token (l : Lexer) (ch : Char) : Option Lexer :=
  let apart := l.inFlow || l.cursor.blankOrEndAt 1
  if ch = '[' then l.openFlow .flowSequenceStart
  else if ch = '\x7b' then l.openFlow .flowMappingStart
  else if ch = ']' then l.closeFlow .flowSequenceEnd
  else if ch = '\x7d' then l.closeFlow .flowMappingEnd
  else if ch = ',' then l.mark .flowEntry true
  else if ch = '-' && l.cursor.blankOrEndAt 1 then l.blockEntry
  else if ch = '?' && apart then l.markedKey
  else if ch = ':' && apart then l.value
  else if ch = '*' then l.keyed fun c => (takeName c).map fun (name, c) => (.alias name, c)
  else if ch = '&' then l.keyed fun c => (takeName c).map fun (name, c) => (.anchor name, c)
  else if ch = '!' then l.keyed takeTag
  else if ch = '|' && !l.inFlow then l.block true
  else if ch = '>' && !l.inFlow then l.block false
  else if ch = '\'' || ch = '"' then l.keyed (quoted ch)
  else if l.startsPlain ch then l.plain
  else none

/-- Ends all block structures at the start of a line. -/
def margin (l : Lexer) : Option Lexer := (l.unroll (-1)).dropKey.map (·.allowKey false)

def directive (l : Lexer) : Option Lexer := do
  let l ← l.margin
  let (t, c) ← takeDirective l.cursor.skip
  let c := (c.takeWhile isBlank).2.skipComment
  if c.atLineEnd then return { l with cursor := c.takeBreak.2 }.add t else none

/-- Reads one more token. -/
def step (l : Lexer) : Option Lexer :=
  let (keyAllowed, c) := skipToToken l.inFlow (l.cursor.rest.length + 1) l.keyAllowed l.cursor
  let l := { l with cursor := c, keyAllowed }.unroll c.column
  match c.head? with
  | none => l.margin.map (·.add .streamEnd)
  | some ch =>
    if c.column = 0 && ch = '%' then l.directive
    else if c.atMarker then
      l.margin.map fun l => (l.skip 3).add (if ch = '-' then .documentStart else .documentEnd)
    else (l.token ch).map skipLineComment

/-- The tokens that a parser gets to see when the text cannot be read on. -/
def visible (l : Lexer) : List Token :=
  let open_ := (l.key? :: l.outer).filterMap id |>.filter (!·.isOver l.cursor)
  l.tokens.reverse.take (open_.foldl (fun n k => min n k.number) (l.count - 2))

def run : Nat → Lexer → List Token
  | 0, l => l.visible
  | fuel + 1, l =>
    match l.step with
    | none => l.visible
    | some next => if next.tokens.head? = some .streamEnd then next.tokens.reverse else run fuel next

end Lexer

/-- The tokens of a text. They end in `streamEnd` unless the text cannot be read to its end. -/
def tokens (cs : List Char) : List Token :=
  Lexer.run (cs.length + 2) { cursor := { rest := cs } }

end NodeShader.Yaml
