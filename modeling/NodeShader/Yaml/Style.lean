import NodeShader.Yaml.Scalar

/-!
# How a text is written in YAML

A text with line breaks is written as a block, one that looks like something else in double quotes,
and any other text plainly if its characters allow that. Where the wanted form is not possible, single
quotes are tried and then double quotes, which can hold anything.
-/

namespace NodeShader.Yaml

inductive TextForm where
  | plain
  | single
  | double
  | literal
  deriving DecidableEq, Repr

/-! ### What texts contain -/

/-- May the character stand outside double quotes? -/
def isShown (c : Char) : Bool :=
  let n := c.toNat
  n = 0x0a || (0x20 ≤ n && n ≤ 0x7e) || (0xa0 ≤ n && n ≤ 0xfffd && n ≠ 0xfeff)

/-- Are there two neighbours that pass the two tests? -/
def hasPair (first second : Char → Bool) : List Char → Bool
  | a :: b :: rest => (first a && second b) || hasPair first second (b :: rest)
  | _ => false

def isSpace (c : Char) : Bool := c = ' '

/-- Is there nothing, or white space, at the front? -/
def blankAhead : List Char → Bool
  | [] => true
  | c :: _ => isBlank c

/-- Does a mark stand after the first character that would end a plain scalar? -/
def hasInnerMark : (before : Char) → List Char → Bool
  | _, [] => false
  | before, c :: rest =>
    (c = ':' && blankAhead rest) || (c = '#' && (isBlank before || isBreak before)) ||
      hasInnerMark c rest

/-- Would a plain scalar be taken for something else because of its marks? -/
def hasMark (cs : List Char) : Bool :=
  ['-', '-', '-'].isPrefixOf cs || ['.', '.', '.'].isPrefixOf cs ||
    match cs with
    | [] => false
    | c :: rest =>
      "#,[]\x7b\x7d&*!|>'\"%@\x60".toList.contains c ||
        ((c = '?' || c = ':' || c = '-') && blankAhead rest) || hasInnerMark c rest

/-- Has the text a blank or a break at one of its ends? -/
def isPadded (cs : List Char) : Bool :=
  let isEdge (c : Char) := isSpace c || isBreak c
  cs.head?.any isEdge || cs.getLast?.any isEdge

def canBeSingle (cs : List Char) : Bool :=
  !(hasPair isBreak isSpace cs || hasPair isSpace isBreak cs || cs.any (!isShown ·))

def canBePlain (cs : List Char) : Bool :=
  canBeSingle cs && !isPadded cs && !cs.any isBreak && !hasMark cs

/-- A tab does not keep a text out of a block. -/
def canBeLiteral (cs : List Char) : Bool :=
  !(cs.isEmpty || cs.getLast?.any isSpace || hasPair isSpace isBreak cs ||
    cs.any fun c => c ≠ '\t' && !isShown c)

/-! ### Texts that look like something else -/

def oldTruthValues : List String :=
  ["y", "Y", "yes", "Yes", "YES", "on", "On", "ON", "n", "N", "no", "No", "NO", "off", "Off", "OFF"]

/-- Groups of minutes and seconds, then perhaps a fraction. -/
def isSixtieths : List Char → Bool
  | ':' :: a :: b :: rest =>
    if Number.isDigit a then
      if a < '6' && Number.isDigit b then isSixtiethsRest rest else isSixtiethsRest (b :: rest)
    else false
  | [':', a] => Number.isDigit a
  | _ => false
where
  isSixtiethsRest : List Char → Bool
  | [] => true
  | '.' :: rest => rest.all fun c => Number.isDigit c || c = '_'
  | ':' :: rest => isSixtieths (':' :: rest)
  | _ => false

/-- Is it a number in base sixty, such as `1:30`? -/
def isBaseSixty (cs : List Char) : Bool :=
  match (Number.takeSign cs).2 with
  | c :: rest =>
    Number.isDigit c && isSixtieths (rest.dropWhile fun c => Number.isDigit c || c = '_')
  | [] => false

def looksOther (s : String) : Bool :=
  tagOfDatum (plainDatum true s) ≠ .text || isBaseSixty s.toList || oldTruthValues.contains s

/-- The form of a text. A key that stands before its colon on the same line cannot be a block. -/
def textForm (isKey : Bool) (s : String) : TextForm :=
  let cs := s.toList
  if cs.contains '\n' then
    if canBeLiteral cs && !isKey then .literal else .double
  else if looksOther s then .double
  else if canBePlain cs then .plain
  else if canBeSingle cs then .single
  else .double

end NodeShader.Yaml
