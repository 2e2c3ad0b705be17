import NodeShader.Shader.Ty

/-!
# Archetypes

The description that all nodes of one kind share: their pins and the signatures they accept.
-/

namespace NodeShader

/-- An input pin. A pin of type `none` takes any type. -/
structure InputPin where
  name : String
  ty : Ty
  /-- Without a link the pin has no value, not even a default. -/
  requireLink : Bool := false
  /-- The value of the pin without a link is edited in place. -/
  editable : Bool := false
  deriving DecidableEq, Repr, Inhabited

structure OutputPin where
  name : String
  ty : Ty
  /-- The value is stored in a variable however short it is. -/
  hoist : Bool := false
  deriving DecidableEq, Repr, Inhabited

/-- A signature. A slot of type `none` is generic; all generic slots share one arity. -/
structure Overload where
  inputs : List Ty
  outputs : List Ty
  deriving DecidableEq, Repr, Inhabited

structure Archetype where
  id : String
  category : String := ""
  title : String := ""
  inputs : List InputPin := []
  outputs : List OutputPin := []
  overloads : List Overload := []
  /-- Hidden archetypes are not offered by searches. -/
  hidden : Bool := false
  deriving DecidableEq, Repr, Inhabited

namespace Archetype

/-- The position of the input with a name. -/
def inputIndex? (a : Archetype) (name : String) : Option Nat := a.inputs.findIdx? (·.name = name)

/-- The position of the output with a name. -/
def outputIndex? (a : Archetype) (name : String) : Option Nat := a.outputs.findIdx? (·.name = name)

end Archetype

end NodeShader
