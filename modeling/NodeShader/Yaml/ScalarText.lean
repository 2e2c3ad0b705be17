import NodeShader.Yaml.Token

/-!
# The text of YAML scalars

Plain and quoted scalars may run over several lines: a single line break between two lines reads as a
blank, and of more than one all but the first are kept. Block scalars keep their lines (`|`) or fold
them (`>`), and say how many line breaks at their end count.
-/

namespace NodeShader.Yaml

/-! ### Gaps between words -/

/-- The white space between two words of a scalar. -/
structure Gap where
  /-- Has a line ended? -/
  broken : Bool := false
  spaces : List Char := []
  first : List Char := []
  more : List Char := []
  deriving Repr, Inhabited

/-- What a gap stands for. -/
def Gap.text (g : Gap) : List Char :=
  if g.broken then
    if g.first = ['\n'] then (if g.more.isEmpty then [' '] else g.more) else g.first ++ g.more
  else g.spaces

/-- Passes white space. In a plain scalar a tab may not stand in for the indentation of a line, which
is `indent?`. -/
def takeGap (indent? : Option Nat) : Nat → Gap → Cursor → Option (Gap × Cursor)
  | 0, _, _ => none
  | fuel + 1, g, c =>
    match c.head? with
    | none => some (g, c)
    | some ch =>
      if isBlank ch then
        if g.broken && ch = '\t' && (indent?.any (c.column < ·)) then none
        else takeGap indent? fuel (if g.broken then g else { g with spaces := g.spaces ++ [ch] }) c.skip
      else if isBreak ch then
        let (b, c) := c.takeBreak
        takeGap indent? fuel
          (if g.broken then { g with more := g.more ++ b }
            else { g with broken := true, spaces := [], first := b }) c
      else some (g, c)

/-! ### Plain scalars -/

def isFlowIndicator (c : Char) : Bool :=
  c = ',' || c = '?' || c = '[' || c = ']' || c = '\x7b' || c = '\x7d'

/-- How many characters ahead belong to the same word of a plain scalar. -/
def wordLength (inFlow : Bool) : List Char → Nat
  | [] => 0
  | c :: rest =>
    if isBlank c || isBreak c then 0
    else if c = ':' && (match rest with | [] => true | d :: _ => isBlank d || isBreak d) then 0
    else if inFlow && isFlowIndicator c then 0
    else wordLength inFlow rest + 1

/-- A plain scalar, from a gap and what stands before it. The answer also says whether the scalar
ended at the end of a line. -/
def plainFrom (inFlow : Bool) (indent : Nat) :
    Nat → List Char → Gap → Cursor → Option (List Char × Bool × Cursor)
  | 0, _, _, _ => none
  | fuel + 1, before, gap, c =>
    if c.atMarker || c.startsWith '#' then some (before, gap.broken, c)
    else
      let n := wordLength inFlow c.rest
      let (before, gap) :=
        if n = 0 then (before, gap) else (before ++ gap.text ++ c.rest.take n, {})
      let c := c.skipMany n
      match c.head? with
      | none => some (before, gap.broken, c)
      | some ch =>
        if isBlank ch || isBreak ch then
          match takeGap (some indent) (c.rest.length + 1) gap c with
          | none => none
          | some (gap, c) =>
            if !inFlow && c.column < indent then some (before, gap.broken, c)
            else plainFrom inFlow indent fuel before gap c
        else some (before, gap.broken, c)

def takePlain (inFlow : Bool) (indent : Nat) (c : Cursor) : Option (List Char × Bool × Cursor) :=
  plainFrom inFlow indent (c.rest.length + 1) [] {} c

/-! ### Quoted scalars -/

/-- The character of a one-letter escape. -/
def escapeChar? : Char → Option Char
  | '0' => some (Char.ofNat 0)
  | 'a' => some (Char.ofNat 7)
  | 'b' => some (Char.ofNat 8)
  | 't' => some '\t'
  | '\t' => some '\t'
  | 'n' => some '\n'
  | 'v' => some (Char.ofNat 11)
  | 'f' => some (Char.ofNat 12)
  | 'r' => some '\r'
  | 'e' => some (Char.ofNat 27)
  | ' ' => some ' '
  | '"' => some '"'
  | '\'' => some '\''
  | '/' => some '/'
  | '\\' => some '\\'
  | 'N' => some (Char.ofNat 0x85)
  | '_' => some (Char.ofNat 0xa0)
  | 'L' => some (Char.ofNat 0x2028)
  | 'P' => some (Char.ofNat 0x2029)
  | _ => none

/-- How many digits an escape by number has. -/
def escapeWidth? : Char → Option Nat
  | 'x' => some 2
  | 'u' => some 4
  | 'U' => some 8
  | _ => none

/-- The character with a number, if there is one. -/
def charOf? (n : Nat) : Option Char :=
  if (0xd800 ≤ n && n < 0xe000) || 0x10ffff < n then none else some (Char.ofNat n)

/-- An escape, after its backslash. -/
def takeEscape (c : Cursor) : Option (Char × Cursor) :=
  match c.head? with
  | none => none
  | some ch =>
    match escapeChar? ch with
    | some meaning => some (meaning, c.skip)
    | none =>
      match escapeWidth? ch with
      | none => none
      | some width =>
        let digits := c.rest.tail.take width
        if digits.length < width then none
        else
          match (Number.digitsValue? 16 digits 0).bind charOf? with
          | some meaning => some (meaning, c.skipMany (width + 1))
          | none => none

/-- The rest of a quoted scalar after its opening quote. -/
def quotedFrom (quote : Char) : Nat → List Char → Cursor → Option (List Char × Cursor)
  | 0, _, _ => none
  | fuel + 1, before, c =>
    if c.atMarker then none
    else
      match c.rest with
      | [] => none
      | ch :: rest =>
        if ch = quote then
          if quote = '\'' && rest.head? = some '\'' then
            quotedFrom quote fuel (before ++ ['\'']) (c.skipMany 2)
          else some (before, c.skip)
        else if quote = '"' && ch = '\\' then
          if (rest.head?).any isBreak then
            let (_, c) := c.skip.takeBreak
            match takeGap none (c.rest.length + 1) { broken := true } c with
            | some (gap, c) => quotedFrom quote fuel (before ++ gap.text) c
            | none => none
          else
            match takeEscape c.skip with
            | some (meaning, c) => quotedFrom quote fuel (before ++ [meaning]) c
            | none => none
        else if isBlank ch || isBreak ch then
          match takeGap none (c.rest.length + 1) {} c with
          | some (gap, c) => quotedFrom quote fuel (before ++ gap.text) c
          | none => none
        else quotedFrom quote fuel (before ++ [ch]) c.skip

def takeQuoted (quote : Char) (c : Cursor) : Option (List Char × Cursor) :=
  quotedFrom quote (c.rest.length + 1) [] c.skip

/-! ### Block scalars -/

/-- Which line breaks at the end of a block scalar count. -/
inductive Chomping where
  | strip
  | clip
  | keep
  deriving DecidableEq, Repr

def chomping? : Char → Option Chomping
  | '-' => some .strip
  | '+' => some .keep
  | _ => none

/-- An indentation from one to nine. -/
def indentDigit? (c : Char) : Option Nat := (Number.digitValue? 10 c).filter (0 < ·)

/-- Chomping and indentation after `|` or `>`, in either order. A zero is no indentation. -/
def takeHeader (c : Cursor) : Option (Chomping × Option Nat × Cursor) :=
  let digit (c : Cursor) : Option (Option Nat × Cursor) :=
    match c.head? with
    | some ch =>
      if Number.isDigit ch then (indentDigit? ch).map fun n => (some n, c.skip) else some (none, c)
    | none => some (none, c)
  match c.head?.bind chomping? with
  | some chomp => (digit c.skip).map fun (n, c) => (chomp, n, c)
  | none =>
    match digit c with
    | none => none
    | some (n, c) =>
      match n.bind fun _ => c.head?.bind chomping? with
      | some chomp => some (chomp, n, c.skip)
      | none => some (.clip, n, c)

/-- Passes empty lines and the indentation of the next line. `indent` is the indentation of the
scalar, zero while it is not known; `deepest` is the deepest column reached. -/
def takeEmptyLines (indent : Nat) :
    Nat → (deepest : Nat) → List Char → Cursor → Option (Nat × List Char × Cursor)
  | 0, _, _, _ => none
  | fuel + 1, deepest, breaks, c =>
    let limit := if indent = 0 then c.rest.length else indent - c.column
    let n := ((c.rest.take limit).takeWhile (· = ' ')).length
    let c := c.skipMany n
    let deepest := max deepest c.column
    match c.head? with
    | none => some (deepest, breaks, c)
    | some ch =>
      if (indent = 0 || c.column < indent) && ch = '\t' then none
      else if isBreak ch then
        let (b, c) := c.takeBreak
        takeEmptyLines indent fuel deepest (breaks ++ b) c
      else some (deepest, breaks, c)

/-- The lines of a block scalar. `lead` is the break that ended the line before, `breaks` the empty
lines after it, and `wasBlank` says whether that line started with a blank. -/
def blockLines (literal : Bool) (indent : Nat) :
    Nat → (before lead breaks : List Char) → (wasBlank : Bool) → Cursor →
      Option (List Char × List Char × List Char × Cursor)
  | 0, _, _, _, _, _ => none
  | fuel + 1, before, lead, breaks, wasBlank, c =>
    match c.head? with
    | none => some (before, lead, breaks, c)
    | some ch =>
      if c.column ≠ indent then some (before, lead, breaks, c)
      else
        let startsBlank := isBlank ch
        let joint :=
          if !literal && !wasBlank && !startsBlank && lead = ['\n'] then
            (if breaks.isEmpty then [' '] else []) ++ breaks
          else lead ++ breaks
        let (line, c) := c.takeWhile (!isBreak ·)
        let (lead, c) := c.takeBreak
        match takeEmptyLines indent (c.rest.length + 1) 0 [] c with
        | none => none
        | some (_, breaks, c) =>
          blockLines literal indent fuel (before ++ joint ++ line) lead breaks startsBlank c

/-- A block scalar after its indicator. `parent` is the indentation of the structure around it. -/
def takeBlock (literal : Bool) (parent : Int) (c : Cursor) : Option (List Char × Cursor) :=
  match takeHeader c with
  | none => none
  | some (chomp, given, c) =>
    let c := (c.takeWhile isBlank).2.skipComment
    if !c.atLineEnd then none
    else
      let (_, c) := c.takeBreak
      let indent := match given with
        | some n => (max parent 0).toNat + n
        | none => 0
      match takeEmptyLines indent (c.rest.length + 1) 0 [] c with
      | none => none
      | some (deepest, breaks, c) =>
        let indent := if indent = 0 then max (max deepest (parent + 1).toNat) 1 else indent
        match blockLines literal indent (c.rest.length + 1) [] [] breaks false c with
        | none => none
        | some (text, lead, breaks, c) =>
          match chomp with
          | .strip => some (text, c)
          | .clip => some (text ++ lead, c)
          | .keep => some (text ++ lead ++ breaks, c)

end NodeShader.Yaml
