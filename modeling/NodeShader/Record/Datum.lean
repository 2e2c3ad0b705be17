import NodeShader.Number.Binary
import NodeShader.Record.Timestamp

/-!
# Dynamic values

What the field of a node may hold before anybody asks for a number, a list or a text. The document
formats disagree on how a number arrives, so the width it came with is kept.
-/

namespace NodeShader

/-- Width and sign of an integer. `int` and `uint` have the width of a machine word. -/
inductive IntKind where
  | int | int8 | int16 | int32 | int64
  | uint | uint8 | uint16 | uint32 | uint64
  deriving DecidableEq, Repr, Inhabited

def IntKind.typeName : IntKind → String
  | .int => "int"
  | .int8 => "int8"
  | .int16 => "int16"
  | .int32 => "int32"
  | .int64 => "int64"
  | .uint => "uint"
  | .uint8 => "uint8"
  | .uint16 => "uint16"
  | .uint32 => "uint32"
  | .uint64 => "uint64"

/-- Where a mapping with text keys came from: a mapping among node fields, or any other. -/
inductive MapKind where
  | fields
  | plain
  deriving DecidableEq, Repr, Inhabited

inductive Datum where
  | nil
  | text (s : String)
  | bool (b : Bool)
  | double (x : Number.Double)
  | single (x : Number.Single)
  | int (kind : IntKind) (n : Int)
  | list (items : List Datum)
  | doubles (xs : List Number.Double)
  | singles (xs : List Number.Single)
  | texts (ss : List String)
  | bytes (bs : List UInt8)
  | time (t : Timestamp)
  | map (kind : MapKind) (entries : List (String × Datum))
  | table (entries : List (Datum × Datum))
  deriving Repr, Inhabited

/-- The name that messages use for the type of a value. -/
def Datum.typeName : Datum → String
  | .nil => "<nil>"
  | .text _ => "string"
  | .bool _ => "bool"
  | .double _ => "float64"
  | .single _ => "float32"
  | .int kind _ => kind.typeName
  | .list _ => "[]interface \x7b\x7d"
  | .doubles _ => "[]float64"
  | .singles _ => "[]float32"
  | .texts _ => "[]string"
  | .bytes _ => "[]uint8"
  | .time _ => "time.Time"
  | .map .fields _ => "node.Record"
  | .map .plain _ => "map[string]interface \x7b\x7d"
  | .table _ => "map[interface \x7b\x7d]interface \x7b\x7d"

/-- The value as a number, rounded once to 32 bits. An unsigned machine word is no number. -/
def Datum.toSingle? : Datum → Option Number.Single
  | .double x => some x.toSingle
  | .single x => some x
  | .int .uint _ => none
  | .int _ n => some (.ofInt n)
  | _ => none

end NodeShader
