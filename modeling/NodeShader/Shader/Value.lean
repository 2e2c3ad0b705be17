import NodeShader.Shader.Code

/-!
# Values

A value is a piece of source code with the type it has. The null value stands for "nothing
connected" and is the answer of every conversion that is not allowed.
-/

namespace NodeShader

structure Value (C : Type := String) where
  ty : Ty
  code : C
  deriving DecidableEq, Repr, Inhabited

namespace Value

variable {C : Type}

def isValid (v : Value C) : Bool := v.ty.isValid

variable [Code C]

/-- No value. -/
def null : Value C := ⟨.none, Code.blank⟩

/-- A piece of source text as a value. -/
def verbatim (v : Value) : Value C := ⟨v.ty, Code.verbatim v.code⟩

/-- A constructor call: the type's name applied to the codes of the arguments. -/
def compose (t : Ty) (args : List (Value C)) : Value C :=
  ⟨t, Code.apply t.text (args.map Value.code)⟩

/-- The value as another type: itself, or a float broadcast to every component of a vector. -/
def convert (v : Value C) (t : Ty) : Value C :=
  if v.isValid && v.ty.converts t then
    if v.ty = t then v
    else
      match t with
      | .gen n => compose t (List.replicate n.toNat v)
      | _ => null
  else null

/-- A float literal. -/
def literal (f : Number.Single) : Value C := ⟨.float, Code.literal f⟩

/-- A literal broadcast to a type. -/
def splat (f : Number.Single) (t : Ty) : Value C := (literal f).convert t

end Value

end NodeShader
