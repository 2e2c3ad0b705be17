import NodeShader.Number.Literal
import NodeShader.Shader.Ty
import NodeShader.Text.Utf8

/-!
# Source code

Nodes put source code together from a handful of constructions: literals, operators, calls,
selections and statements. `Code C` says how each of them is made in a representation `C`. Text is
the representation that is written to files; whatever else implements the constructions goes through
the same evaluation.
-/

namespace NodeShader

/-- Texts with a separator between them. -/
def joinWith (separator : String) : List String → String
  | [] => ""
  | [s] => s
  | s :: rest => s ++ separator ++ joinWith separator rest

/-- The literal of a number. A whole number keeps a fraction, so that it is not read as an integer;
what is not finite is a parenthesised quotient. -/
def literalText (f : Number.Single) : String :=
  match f.read with
  | .finite negative significand scale =>
    let (whole, fraction) := (Number.Layout.single.shortest significand scale).positionalParts
    String.ofList ((if negative then ['-'] else []) ++ whole ++
      '.' :: (if fraction.isEmpty then ['0'] else fraction))
  | .infinite false => "(1.0 / 0.0)"
  | .infinite true => "(-1.0 / 0.0)"
  | .notANumber .. => "(0.0 / 0.0)"

/-- The constructions of source code in a representation. -/
class Code (C : Type) where
  /-- What the null value carries. -/
  blank : C
  /-- Source that is taken as it is. -/
  verbatim : String → C
  /-- A float literal. -/
  literal : Number.Single → C
  /-- An operator between two operands. -/
  binary : String → C → C → C
  /-- A function or type name applied to arguments. -/
  apply : String → List C → C
  /-- A component of a vector. -/
  select : C → String → C
  /-- The statement that gives a variable a value. -/
  assign : String → C → C
  /-- The statement that declares a variable with its value. -/
  define : Ty → String → C → C
  /-- A call as a statement, with a comment. -/
  remark : C → String → C
  /-- How many bytes it takes. -/
  size : C → Nat

namespace Code

/-- Source code as text. -/
@[default_instance]
instance text : Code String where
  blank := ""
  verbatim s := s
  literal := literalText
  binary operator x y := x ++ " " ++ operator ++ " " ++ y
  apply f args := f ++ "(" ++ joinWith ", " args ++ ")"
  select x component := x ++ "." ++ component
  assign target x := target ++ " = " ++ x ++ ";"
  define t name x := t.text ++ " " ++ name ++ " = " ++ x ++ ";"
  remark x note := x ++ "; // " ++ note
  size := Text.byteLength

end Code

end NodeShader
