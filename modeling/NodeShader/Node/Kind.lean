import NodeShader.Node.State
import NodeShader.Node.Template
import NodeShader.Record.Basic
import NodeShader.Shader.Identifier

/-!
# Node kinds

The rule by which a node turns its inputs into outputs, with the values a user can edit in the node.
A kind that is evaluated may declare uniforms and emit statements.
-/

namespace NodeShader

inductive Kind where
  /-- A float literal. -/
  | scalar (value : Number.Single)
  /-- A vector literal with as many components as there are values. -/
  | vector (values : List Number.Single)
  /-- A float uniform with a name of the user's choice. -/
  | parameter (name : String)
  /-- A fixed variable, declared first when `declaration` is not empty. -/
  | globalVar (value : Value) (declaration : String)
  /-- Two values with an operator between them. -/
  | binaryOp (operator : String) (edited : List Number.Single)
  /-- A matrix times a vector. -/
  | transform
  /-- A call of a built-in function. -/
  | call (function : String) (edited : List Number.Single)
  /-- A texture look-up. -/
  | sample
  /-- A vector of `arity` components from floats. -/
  | makeVec (arity : UInt8) (edited : List Number.Single)
  /-- The components of a vector. -/
  | breakVec (arity : UInt8)
  /-- Two values side by side in one vector. -/
  | append
  /-- The end of the vertex stage. -/
  | vertexOut (edited : List Number.Single)
  /-- The end of the fragment stage. -/
  | fragmentOut
  /-- Passes its input on. -/
  | bridge
  /-- A kind that is not built in. -/
  | template (t : Template)
  deriving Repr, Inhabited

/-- What evaluating a node leaves behind. -/
structure Outcome (C : Type := String) where
  state : NodeState C
  declarations : List String := []
  statements : List C := []
  deriving Repr, Inhabited

namespace Kind

/-- The stage that starts at nodes of this kind. -/
def root? : Kind → Option Stage
  | .vertexOut _ => some .vertex
  | .fragmentOut => some .fragment
  | .template t => t.root
  | _ => none

/-- The number that stands in for input `i` without a link. -/
def default? (k : Kind) (i : Nat) : Option Number.Single :=
  match k with
  | .binaryOp _ edited | .call _ edited | .makeVec _ edited | .vertexOut edited => edited[i]?
  | .template t => (t.defaults[i]?).join
  | _ => none

/-! ### Fields -/

/-- The fields to be saved; `none` for a kind without any. -/
def save? : Kind → Option Record
  | .scalar value => some (Record.empty.putNumber "value" value)
  | .vector values => some (Record.empty.putNumbers "values" values)
  | .parameter name => some (Record.empty.putText "name" name)
  | .binaryOp _ edited | .call _ edited | .makeVec _ edited | .vertexOut edited =>
    some (Record.empty.putNumbers "inline" edited)
  | _ => none

def isPersistent (k : Kind) : Bool := k.save?.isSome

/-- The first values of a list replaced by those of another; the length stays. -/
def overwrite : List Number.Single → List Number.Single → List Number.Single
  | _ :: xs, y :: ys => y :: overwrite xs ys
  | xs, [] => xs
  | [], _ => []

/-- Takes edited values over from a record. -/
def loadEdited (edited : List Number.Single) (r : Record) :
    Except FieldError (List Number.Single) := do
  match ← r.numbers "inline" with
  | some given => return overwrite edited given
  | none => return edited

/-- The kind with its fields taken from a record. Fields the record lacks stay as they are. -/
def load (k : Kind) (r : Record) : Except FieldError Kind := do
  match k with
  | .scalar value => return .scalar ((← r.number "value").getD value)
  | .vector values =>
    match ← r.numbers "values" with
    | none => return .vector values
    | some given =>
      if given.length = values.length then return .vector given
      else throw (.wrongLength values.length given.length)
  | .parameter name => return .parameter ((← r.text "name").getD name)
  | .binaryOp operator edited => return .binaryOp operator (← loadEdited edited r)
  | .call function edited => return .call function (← loadEdited edited r)
  | .makeVec arity edited => return .makeVec arity (← loadEdited edited r)
  | .vertexOut edited => return .vertexOut (← loadEdited edited r)
  | _ => return k

/-! ### Evaluation -/

section Evaluation

variable {C : Type}

/-- The value, or another when it is null. -/
def orElse (v fallback : Value C) : Value C := if v.isValid then v else fallback

/-- The letters that select the components of a vector. -/
def swizzles : List String := ["x", "y", "z", "w"]

/-- Are all inputs but the first without a link, and the first linked? -/
def onlyFirstLinked : List (InputSlot C) → Bool
  | [] => false
  | first :: rest => first.isLinked && rest.all (!·.isLinked)

/-- The text when two vectors do not fit into one. -/
def appendTooWide : String := "inputs cannot have more than 4 components in total"

/-- The text when a value has no components. -/
def appendNotGen : String := "value is not a scalar or vector"

/-- What a template sees of a node. -/
def templateInputs (s : NodeState C) : List Template.Input :=
  s.inputs.map fun slot => ⟨slot.ty, slot.value.ty, slot.isLinked⟩

variable [Code C]

/-- The texture coordinate that the rasteriser interpolates. -/
def texCoord : Value C := ⟨.vec2, Code.verbatim "gl_TexCoord[0].xy"⟩

/-- The inputs' codes as the arguments of a call; `?` for a null value. -/
def templateArguments (s : NodeState C) : List C :=
  s.inputs.map fun slot => if slot.value.isValid then slot.value.code else Code.verbatim "?"

/-- What a template does to a node. It skips values for outputs and problems with inputs that the node
does not have. -/
def takeAction (action : Template.Action) (stage : Stage) (s : NodeState C) : Outcome C :=
  let args := templateArguments s
  let called := if action.function = "" then s else
    (List.range s.outputs.length).foldl
      (fun s i => s.setCode i (Code.apply (action.function ++ Number.natText i) args)) s
  let valued := action.values.zipIdx.foldl
    (fun s (v?, i) => match v? with | some v => s.set i v.verbatim | none => s) called
  let failed := action.problems.foldl (fun s (i, problem) => s.fail i problem) valued
  { state := failed
    declarations := action.declarations
    statements := action.statements.map fun f => Code.remark (Code.apply f args) stage.text }

/-- The outputs of a template. -/
def evaluateTemplate (t : Template) (stage : Stage) (s : NodeState C) : Outcome C :=
  takeAction (t.act stage (templateInputs s)) stage s

/-- Sets the outputs from the resolved inputs. -/
def evaluate (k : Kind) (stage : Stage) (s : NodeState C) : Outcome C :=
  match k with
  | .scalar value => { state := s.set 0 (.literal value) }
  | .vector values =>
    { state := s.set 0 (.compose (.gen (UInt8.ofNat values.length)) (values.map .literal)) }
  | .parameter name =>
    let id := identifier name
    { state := s.set 0 ⟨.float, Code.verbatim id⟩
      declarations := ["uniform float " ++ id ++ ";"] }
  | .globalVar value declaration =>
    { state := s.set 0 value.verbatim
      declarations := if declaration = "" then [] else [declaration] }
  | .binaryOp operator _ =>
    let x := s.input 0
    let y := s.input 1
    { state :=
        if x.isValid && y.isValid then s.setCode 0 (Code.binary operator x.code y.code) else s }
  | .transform =>
    let m := s.input 0
    let v := s.input 1
    { state := if m.isValid then s.setCode 0 (Code.binary "*" m.code v.code) else s.set 0 v }
  | .call function _ =>
    { state :=
        if s.inputs.all (·.value.isValid) then
          s.setCode 0 (Code.apply function (s.inputs.map (·.value.code)))
        else s }
  | .sample =>
    let texture := s.input 0
    { state :=
        if texture.isValid then
          s.setCode 0 (Code.apply "texture2D" [texture.code, (orElse (s.input 1) texCoord).code])
        else s.set 0 (.splat .zero .vec4) }
  | .makeVec arity _ =>
    { state :=
        if onlyFirstLinked s.inputs then s.set 0 ((s.input 0).convert (.gen arity))
        else s.set 0 (.compose (.gen arity)
          ((List.range arity.toNat).map fun i => orElse (s.input i) (.literal .zero))) }
  | .breakVec arity =>
    let v := s.input 0
    { state := (swizzles.take arity.toNat).zipIdx.foldl
        (fun s (letter, i) =>
          if v.isValid then s.setCode i (Code.select v.code letter)
          else s.set i (.literal .zero)) s }
  | .append =>
    let a := s.input 0
    let b := s.input 1
    { state :=
        if !a.isValid || !b.isValid then s
        else
          match a.ty.arity?, b.ty.arity? with
          | none, _ => s.fail 0 appendNotGen
          | some _, none => s.fail 1 appendNotGen
          | some m, some n =>
            if 4 < m + n then (s.fail 0 appendTooWide).fail 1 appendTooWide
            else s.set 0 (.compose (.gen (m + n)) [a, b]) }
  | .vertexOut _ =>
    let color := orElse (s.input 0) (.splat .half .vec3)
    let alpha := orElse (s.input 1) (.literal .one)
    { state := s
      statements :=
        [Code.assign "gl_FrontColor" (Code.apply "vec4" [color.code, alpha.code]),
          Code.assign "gl_Position"
            (Code.binary "*" (Code.verbatim "gl_ModelViewProjectionMatrix")
              (Code.verbatim "gl_Vertex")),
          Code.assign "gl_TexCoord[0]"
            (Code.binary "*" (Code.verbatim "gl_TextureMatrix[0]")
              (Code.verbatim "gl_MultiTexCoord0"))] }
  | .fragmentOut =>
    { state := s
      statements :=
        [Code.assign "gl_FragColor"
          (orElse (s.input 0) ⟨.vec4, Code.verbatim "gl_Color"⟩).code] }
  | .bridge => { state := s.set 0 (s.input 0) }
  | .template t => evaluateTemplate t stage s

end Evaluation

end Kind

end NodeShader
