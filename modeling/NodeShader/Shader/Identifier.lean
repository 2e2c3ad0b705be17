import NodeShader.Number.Literal
import NodeShader.Shader.Reserved

/-!
# Identifiers

Names that users choose become identifiers of the shading language. An identifier is safe when it is
spelled of ASCII letters, digits and underscores, has no two underscores in a row, does not start
with a digit or `gl_`, and is neither a reserved word nor the name of a generated variable.
-/

namespace NodeShader.Identifier

/-- Is `c` an ASCII letter or digit? -/
def isWordChar (c : Char) : Bool :=
  ('a' ≤ c && c ≤ 'z') || ('A' ≤ c && c ≤ 'Z') || ('0' ≤ c && c ≤ '9')

/-- Replaces everything but letters and digits by underscores, a run of them by one.
`afterUnderscore` says whether an underscore has just been written. -/
def squeeze : Bool → List Char → List Char
  | _, [] => []
  | afterUnderscore, c :: rest =>
    if isWordChar c then c :: squeeze false rest
    else if afterUnderscore then squeeze true rest
    else '_' :: squeeze true rest

/-- Is this the name of a generated variable: `var` and digits? -/
def isGenerated : List Char → Bool
  | 'v' :: 'a' :: 'r' :: digits => !digits.isEmpty && digits.all Number.isDigit
  | _ => false

/-- Does the name belong to the language or to generated code? -/
def isTaken (cs : List Char) : Bool :=
  Reserved.words.contains (String.ofList cs) || ['g', 'l', '_'].isPrefixOf cs || isGenerated cs

/-- Puts an underscore before a leading digit. -/
def guardDigit : List Char → List Char
  | c :: rest => if Number.isDigit c then '_' :: c :: rest else c :: rest
  | [] => []

/-- Puts an underscore before a name that is taken; an empty or lone underscore has a name of its
own. -/
def guardTaken (cs : List Char) : List Char :=
  if cs = [] ∨ cs = ['_'] then "_unnamed".toList
  else if isTaken cs then '_' :: cs
  else cs

/-- The safe identifier of a name. -/
def ofChars (name : List Char) : List Char := guardTaken (guardDigit (squeeze false name))

end NodeShader.Identifier

namespace NodeShader

/-- The safe identifier of a name. -/
def identifier (name : String) : String := String.ofList (Identifier.ofChars name.toList)

end NodeShader
