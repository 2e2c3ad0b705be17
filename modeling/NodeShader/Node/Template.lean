import NodeShader.Number.Binary
import NodeShader.Shader.Stage
import NodeShader.Shader.Value

/-!
# Templates

A template is a node kind that is brought along with an archetype which is not built in. In each stage,
and for each way in which its inputs are linked and typed, it says what to declare, which function to
call on the inputs, which values to put on the outputs and which statements to emit.
-/

namespace NodeShader

namespace Template

/-- What a template sees of an input. -/
structure Input where
  /-- The type of the slot. -/
  ty : Ty
  /-- The type of the value that has reached the slot. -/
  given : Ty
  isLinked : Bool
  deriving DecidableEq, Repr, Inhabited

/-- What a template does when it is evaluated. -/
structure Action where
  /-- Global declarations. -/
  declarations : List String := []
  /-- When not empty, output `i` is a call of the function named by this text and `i`. -/
  function : String := ""
  /-- Values that replace the calls. -/
  values : List (Option Value) := []
  /-- Problems to record on inputs. -/
  problems : List (Nat × String) := []
  /-- Functions to call in statements of their own. -/
  statements : List String := []
  deriving DecidableEq, Repr, Inhabited

end Template

structure Template where
  act : Stage → List Template.Input → Template.Action
  /-- Numbers for inputs without a link. -/
  defaults : List (Option Number.Single) := []
  /-- The stage whose passes start at nodes of this kind. -/
  root : Option Stage := none
  deriving Inhabited

/-- What a template does is not shown. -/
instance : Repr Template where
  reprPrec t _ := "template with defaults " ++ repr t.defaults ++ " and root " ++ repr t.root

end NodeShader
