import NodeShader.Number.Style
import NodeShader.Text.Quoted

/-!
# Shader stages
-/

namespace NodeShader

/-- A programmable stage of the graphics pipeline, by number. Only the first two have a name; a
pass over any other finds no roots. -/
structure Stage where
  number : UInt8
  deriving DecidableEq, Repr, Inhabited

namespace Stage

def vertex : Stage := ⟨0⟩

def fragment : Stage := ⟨1⟩

/-- The stages of a program, in pipeline order. -/
def all : List Stage := [vertex, fragment]

def text (s : Stage) : String :=
  if s = vertex then "vertex"
  else if s = fragment then "fragment"
  else "stage(" ++ Number.natText s.number.toNat ++ ")"

/-- Reads a stage name, long or short. -/
def ofName? (name : String) : Option Stage :=
  if name = "vertex" ∨ name = "vert" then some vertex
  else if name = "fragment" ∨ name = "frag" then some fragment
  else none

/-- What is said about a name that is no stage. -/
def unknownText (name : String) : String := "unknown shader stage " ++ Text.quote name

/-- The extension of a file that holds the source of a stage. -/
def extension (s : Stage) : String := if s = vertex then ".vert" else ".frag"

end Stage

end NodeShader
