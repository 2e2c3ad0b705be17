import NodeShader.Number.Style

/-!
# Value types

The types that pins declare and values carry. `gen n` is the scalar and vector family: `gen 1` is a
float and `gen n` a vector of `n` floats. A pin of type `none` takes any type; a pin with no type at
all is `unset`, which behaves like `none` but converts to nothing else.
-/

namespace NodeShader

inductive Ty where
  | unset
  | none
  | gen (arity : UInt8)
  | matrix (rows columns : UInt8)
  | sampler
  | array
  deriving DecidableEq, Repr, Inhabited

namespace Ty

abbrev float : Ty := .gen 1
abbrev vec2 : Ty := .gen 2
abbrev vec3 : Ty := .gen 3
abbrev vec4 : Ty := .gen 4
abbrev mat3 : Ty := .matrix 3 3
abbrev mat4 : Ty := .matrix 4 4

/-- Does a value of this type exist? -/
def isValid : Ty → Bool
  | .unset | .none => false
  | _ => true

def isGen : Ty → Bool
  | .gen _ => true
  | _ => false

/-- Opaque values cannot be stored in a variable. -/
def isOpaque : Ty → Bool
  | .sampler | .array => true
  | _ => false

/-- How many floats a scalar or vector has. -/
def arity? : Ty → Option UInt8
  | .gen n => some n
  | _ => Option.none

/-- The shading-language spelling. -/
def text : Ty → String
  | .unset | .none => "none"
  | .gen n => if n ≤ 1 then "float" else "vec" ++ Number.natText n.toNat
  | .matrix rows columns =>
    if rows = columns then "mat" ++ Number.natText columns.toNat
    else "mat" ++ Number.natText columns.toNat ++ "x" ++ Number.natText rows.toNat
  | .sampler => "sampler2D"
  | .array => "float[]"

/-- A value converts to its own type, and a float to any vector. -/
def converts (source target : Ty) : Bool :=
  source = target ||
    match source, target with
    | .gen m, .gen n => m = 1 && 1 < n && n ≤ 4
    | _, _ => false

end Ty

/-- A colour of eight bits a channel. -/
structure Color where
  red : UInt8
  green : UInt8
  blue : UInt8
  alpha : UInt8 := 0xff
  deriving DecidableEq, Repr

/-- The colour an editor draws pins and links of a type in. -/
def Ty.color : Ty → Color
  | .gen 1 => { red := 0x8b, green := 0xc3, blue := 0x4a }
  | .gen 2 => { red := 0xff, green := 0xc1, blue := 0x07 }
  | .gen 3 => { red := 0x03, green := 0xa9, blue := 0xf4 }
  | .gen 4 => { red := 0xe9, green := 0x1e, blue := 0x63 }
  | .matrix .. => { red := 0x67, green := 0x3a, blue := 0xb7 }
  | .sampler => { red := 0xff, green := 0x57, blue := 0x22 }
  | .array => { red := 0x79, green := 0x55, blue := 0x48 }
  | _ => { red := 0x9e, green := 0x9e, blue := 0x9e }

end NodeShader
