import NodeShader.Record.Datum
import NodeShader.Text.Base64
import NodeShader.Yaml.Node

/-!
# What YAML scalars mean

A plain scalar without a tag means what it looks like: nothing, a truth value, an integer in one of
several bases, a number, a point in time, or else a text. A tag may ask for one of these, and the
scalar must then look like it.
-/

namespace NodeShader.Yaml

open Number

/-! ### Integers -/

/-- Digits whose base is told by their start: `0x`, `0o`, `0b`, or a zero for base eight. -/
def naturalByLead? (cs : List Char) : Option Nat :=
  match cs with
  | '0' :: mark :: d :: rest =>
    if mark = 'x' || mark = 'X' then digitsValue? 16 (d :: rest) 0
    else if mark = 'o' || mark = 'O' then digitsValue? 8 (d :: rest) 0
    else if mark = 'b' || mark = 'B' then digitsValue? 2 (d :: rest) 0
    else digitsValue? 8 (mark :: d :: rest) 0
  | '0' :: rest => digitsValue? 8 rest 0
  | _ => natural? 10 cs

/-- An optional sign in front of what `read` reads. -/
def signed? (read : List Char → Option Nat) (cs : List Char) : Option Int :=
  let (negative, body) := takeSign cs
  (read body).map fun n => if negative then -(n : Int) else n

def isWord (n : Int) : Bool := -(2 ^ 63) ≤ n && n < 2 ^ 63

/-- An integer is a signed word if it fits, or an unsigned one if it is written without a sign. -/
def integer? (read : List Char → Option Nat) (cs : List Char) : Option Datum :=
  match (signed? read cs).filter isWord with
  | some n => some (.int .int n)
  | none => ((read cs).filter (· < 2 ^ 64)).map fun n => .int .uint64 n

/-- Binary and octal digits with a sign behind the lead. -/
def integerAfterLead? (cs : List Char) : Option Datum :=
  match cs with
  | '0' :: 'b' :: body => integer? (natural? 2) body
  | '0' :: 'o' :: body => integer? (natural? 8) body
  | _ => none

/-! ### Plain scalars -/

/-- Scalars with a meaning of their own. -/
def constant? : String → Option Datum
  | "" | "~" | "null" | "Null" | "NULL" => some .nil
  | "true" | "True" | "TRUE" => some (.bool true)
  | "false" | "False" | "FALSE" => some (.bool false)
  | ".nan" | ".NaN" | ".NAN" => some (.double .nan)
  | ".inf" | ".Inf" | ".INF" | "+.inf" | "+.Inf" | "+.INF" => some (.double (.infinity false))
  | "-.inf" | "-.Inf" | "-.INF" => some (.double (.infinity true))
  | _ => none

/-- A number that is not too large. -/
def number? (cs : List Char) : Option Datum :=
  (((SignedDecimal.read? cs).map (·.toDouble)).filter (·.isFinite)).map .double

/-- What a plain scalar looks like. -/
def plainDatum (allowTime : Bool) (text : String) : Datum :=
  match constant? text with
  | some d => d
  | none =>
    let cs := text.toList
    match cs with
    | c :: _ =>
      if c = '.' then (number? cs).getD (.text text)
      else if isDigit c || c = '+' || c = '-' then
        match if allowTime then Timestamp.read? cs else none with
        | some t => .time t
        | none =>
          let digits := cs.filter (· ≠ '_')
          (integer? naturalByLead? digits <|> number? digits <|> integerAfterLead? digits).getD
            (.text text)
      else .text text
    | [] => .nil

/-- The tag that a meaning belongs to. -/
def tagOfDatum : Datum → Tag
  | .nil => .null
  | .bool _ => .bool
  | .int .. => .int
  | .double _ => .float
  | .time _ => .timestamp
  | _ => .text

/-- What a scalar means; `none` if it does not look like what its tag asks for. -/
def scalarDatum? (tag : Option Tag) (style : ScalarStyle) (text : String) : Option Datum :=
  match tag with
  | none => some (if style = .plain then plainDatum true text else .text text)
  | some .text => some (.text text)
  | some (.other _) => some (.text text)
  | some .binary => (Text.base64? text.toList).map fun bytes => .text (Text.textOf bytes)
  | some tag =>
    let d := plainDatum (tag = .timestamp) text
    if tagOfDatum d = tag then some d
    else
      match tag, d with
      | .float, .int .int n => some (.double (.ofInt n))
      | _, _ => none

/-- The text that a scalar is where a text is wanted: as it is written, whatever it looks like. -/
def scalarText? (tag : Option Tag) (style : ScalarStyle) (text : String) : Option (Option String) :=
  match scalarDatum? tag style text with
  | some .nil => some none
  | some (.text s) => some (some (if tag = some .binary then s else text))
  | some _ => some (some text)
  | none => none

end NodeShader.Yaml
