import NodeShader.Text.Hex
import NodeShader.Yaml.Style

/-!
# Writing YAML

Values are written in block style. A structure inside another is indented by two, and its first line
stays on the line of the dash it belongs to. The page remembers what the next mark depends on: the
column, whether the last mark already left a blank, and whether the line holds only marks so far.
-/

namespace NodeShader.Yaml

/-- What can be written. -/
inductive Tree where
  /-- Something that is not a text, as it looks. -/
  | token (text : String)
  | text (s : String)
  | list (items : List Tree)
  | map (entries : List (Tree × Tree))
  deriving Repr, Inhabited

structure Page where
  /-- What is written, last character first. -/
  written : List Char := []
  column : Nat := 0
  spaced : Bool := true
  fresh : Bool := true
  deriving Repr, Inhabited

namespace Page

def put (p : Page) (c : Char) : Page := { p with written := c :: p.written, column := p.column + 1 }

def putAll (p : Page) (cs : List Char) : Page := cs.foldl put p

def endLine (p : Page) (c : Char) : Page :=
  { p with written := c :: p.written, column := 0, fresh := true }

/-- Goes to the start of a line that is indented by `indent`. A line that holds only marks so far is
used on. -/
def indent (p : Page) (indent : Nat) : Page :=
  let p :=
    if !p.fresh || indent < p.column || (p.column = indent && !p.spaced) then p.endLine '\n' else p
  { p.putAll (List.replicate (indent - p.column) ' ') with spaced := true }

def space (p : Page) : Page := if p.spaced then p else p.put ' '

/-- Writes a mark. After `keepsLine` marks a structure may start on the same line. -/
def mark (p : Page) (text : String) (keepsLine : Bool) : Page :=
  let p := p.putAll text.toList
  { p with spaced := false, fresh := p.fresh && keepsLine }

/-! ### Scalars -/

/-- Writes a character of a text that may hold line breaks, which go on at an indentation. `broken`
says whether the last character was a break. -/
def putLineChar (p : Page) (indent : Nat) (broken : Bool) (c : Char) : Page × Bool :=
  if isBreak c then (p.endLine c, true)
  else
    let p := if broken then p.indent indent else p
    ({ p.put c with fresh := false }, false)

def putLines (p : Page) (indent : Nat) : (broken : Bool) → List Char → Page
  | _, [] => p
  | broken, c :: rest =>
    let (p, broken) := p.putLineChar indent broken c
    putLines p indent broken rest

def single (p : Page) (indent : Nat) (cs : List Char) : Page :=
  let doubled := cs.flatMap fun c => if c = '\'' then ['\'', '\''] else [c]
  ((p.space.mark "'" false).putLines indent false doubled).mark "'" false

def hexUpper (width n : Nat) : List Char := (Text.hexDigits width n).map Char.toUpper

/-- How a character is written in double quotes. -/
def escaped (c : Char) : List Char :=
  let n := c.toNat
  if c = '"' then ['\\', '"']
  else if c = '\\' then ['\\', '\\']
  else if isShown c && !isBreak c then [c]
  else
    '\\' ::
      match n with
      | 0x00 => ['0']
      | 0x07 => ['a']
      | 0x08 => ['b']
      | 0x09 => ['t']
      | 0x0a => ['n']
      | 0x0b => ['v']
      | 0x0c => ['f']
      | 0x0d => ['r']
      | 0x1b => ['e']
      | 0x85 => ['N']
      | 0x2028 => ['L']
      | 0x2029 => ['P']
      | _ =>
        if n ≤ 0xff then 'x' :: hexUpper 2 n
        else if n ≤ 0xffff then 'u' :: hexUpper 4 n
        else 'U' :: hexUpper 8 n

def double (p : Page) (cs : List Char) : Page :=
  ((p.space.mark "\"" false).putAll (cs.flatMap escaped)).mark "\"" false

/-- What follows the bar of a block: its indentation when it cannot be told from the text, and which
line breaks at its end count. -/
def literalHeader (cs : List Char) : String :=
  let indentHint := if cs.head?.any fun c => isSpace c || isBreak c then "2" else ""
  let chomping := match cs.reverse with
    | [] => "-"
    | last :: before =>
      if !isBreak last then "-"
      else if before.isEmpty || before.head?.any isBreak then "+"
      else ""
  "|" ++ indentHint ++ chomping

def literal (p : Page) (indent : Nat) (cs : List Char) : Page :=
  let p := p.space.mark (literalHeader cs) false
  { p with spaced := true }.putLines indent true cs

def plain (p : Page) (cs : List Char) : Page :=
  if cs.isEmpty then { p with fresh := false }
  else { p.space.putAll cs with spaced := false, fresh := false }

/-- Writes a text; its further lines are indented by `indent`. -/
def text (p : Page) (indent : Nat) (isKey : Bool) (s : String) : Page :=
  let cs := s.toList
  match textForm isKey s with
  | .plain => p.plain cs
  | .single => p.single indent cs
  | .double => p.double cs
  | .literal => p.literal indent cs

end Page

/-! ### Structures -/

/-- Can the key stand before its colon on one line? -/
def isSimpleKey : Tree → Bool
  | .token s => s.utf8ByteSize ≤ 128
  | .text s => s.utf8ByteSize ≤ 128 && !s.toList.any isBreak
  | .list items => items.isEmpty
  | .map entries => entries.isEmpty

mutual

/-- Writes a value whose structure is indented by `indent`. -/
def Tree.write (indent : Nat) (isKey : Bool) : Tree → Page → Page
  | .token s, p => p.plain s.toList
  | .text s, p => p.text indent isKey s
  | .list [], p => p.space.mark "[]" false
  | .map [], p => p.space.mark "\x7b\x7d" false
  | .list items, p => writeItems indent items p
  | .map entries, p => writeEntries indent entries p

def writeItems (indent : Nat) : List Tree → Page → Page
  | [], p => p
  | item :: rest, p =>
    writeItems indent rest (item.write (indent + 2) false ((p.indent indent).space.mark "-" true))

def writeEntries (indent : Nat) : List (Tree × Tree) → Page → Page
  | [], p => p
  | (k, v) :: rest, p =>
    let p := p.indent indent
    let p :=
      if isSimpleKey k then (k.write (indent + 2) true p).mark ":" false
      else ((k.write (indent + 2) false (p.space.mark "?" true)).indent indent).space.mark ":" true
    writeEntries indent rest (v.write (indent + 2) false p)

end

/-- The text of a document. -/
def Tree.document (t : Tree) : String :=
  String.ofList ((t.write 0 false {}).indent 0).written.reverse

/-! ### Order of keys -/

/-- Is it a letter? Every character beyond ASCII counts as one. -/
def isLetter (c : Char) : Bool :=
  ('a' ≤ c && c ≤ 'z') || ('A' ≤ c && c ≤ 'Z') || 0x80 ≤ c.toNat

/-- The number at the front of a text, after the digits in `acc`, and how many digits it has. -/
def leadingNumber (acc : Nat) (cs : List Char) : Nat × Nat :=
  let digits := cs.takeWhile Number.isDigit
  ((Number.digitsValue? 10 digits acc).getD acc, digits.length)

/-- Is the key `a` before `b`? Numbers inside keys count by their value, and letters come after
everything else except behind a digit. `before` holds what the keys have in common, last first. -/
def keyBelow : (before : List Char) → List Char → List Char → Bool
  | _, [], [] => false
  | _, [], _ => true
  | _, _, [] => false
  | before, a :: as, b :: bs =>
    if a = b then keyBelow (a :: before) as bs
    else
      let al := isLetter a
      let bl := isLetter b
      if al && bl then a < b
      else if al || bl then
        if before.head?.any Number.isDigit then al else bl
      else
        let insideNumber :=
          (a = '0' || b = '0') && (before.takeWhile Number.isDigit).any (· ≠ '0')
        let start := if insideNumber then 1 else 0
        let (an, ai) := leadingNumber start (a :: as)
        let (bn, bi) := leadingNumber start (b :: bs)
        if an ≠ bn then an < bn
        else if ai ≠ bi then ai < bi
        else a < b

/-- Entries in the order of their keys. -/
def sortEntries {α : Type} (entries : List (String × α)) : List (String × α) :=
  entries.mergeSort fun a b => !keyBelow [] b.1.toList a.1.toList

end NodeShader.Yaml
