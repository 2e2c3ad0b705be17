import NodeShader.Node.Registry

/-!
# The built-in archetypes
-/

namespace NodeShader.Catalogue

open Number (Single)

/-- Inputs of any type that are edited in place. -/
def editableInputs (names : List String) : List InputPin :=
  names.map fun name => { name, ty := .none, editable := true }

/-- A literal of a float or vector. -/
def constants : List Registration :=
  { archetype :=
      { id := "scalar", category := "Constants", outputs := [{ name := "value", ty := .float }] }
    initial := .scalar .zero } ::
  [2, 3, 4].map fun n =>
    { archetype :=
        { id := "vec" ++ Number.natText n, category := "Constants",
          outputs := [{ name := "value", ty := .gen (UInt8.ofNat n) }] }
      initial := .vector (List.replicate n .zero) }

/-- An operator between two values. The second signature lets a float stand before a vector. -/
def operator (id title symbol : String) (start : Single) : Registration :=
  { archetype :=
      { id, title, category := "Maths", inputs := editableInputs ["A", "B"],
        outputs := [{ name := "out", ty := .none, hoist := true }],
        overloads := [⟨[.none, .none], [.none]⟩, ⟨[.float, .none], [.none]⟩] }
    initial := .binaryOp symbol [start, start] }

def arithmetic : List Registration :=
  [operator "add" "Add" "+" .zero, operator "sub" "Subtract" "-" .zero,
    operator "mul" "Multiply" "*" .one, operator "div" "Divide" "/" .one,
    { archetype :=
        { id := "transform", category := "Maths",
          inputs := [{ name := "Matrix", ty := .none, requireLink := true },
            { name := "Vector", ty := .none }],
          outputs := [{ name := "out", ty := .none, hoist := true }],
          overloads := [⟨[.mat4, .vec4], [.vec4]⟩, ⟨[.mat3, .vec3], [.vec3]⟩] }
      initial := .transform }]

/-- A signature with a generic result. -/
def generic (args : List Ty) : Overload := ⟨args, [.none]⟩

/-- A signature with a float result. -/
def reduction (args : List Ty) : Overload := ⟨args, [.float]⟩

/-- A built-in function of the shading language. Inputs without a number of their own start at
zero. -/
def function (category id title name : String) (args : List String) (start : List Single)
    (result : Ty) (overloads : List Overload) : Registration :=
  { archetype :=
      { id, title, category, inputs := editableInputs args,
        outputs := [{ name := "out", ty := result }], overloads }
    initial := .call name (start ++ List.replicate (args.length - start.length) .zero) }

def functions : List Registration :=
  [function "Maths" "lerp" "Lerp" "mix" ["X", "Y", "A"] [.zero, .one, .half] .none
      [generic [.none, .none, .none], generic [.none, .none, .float]],
    function "Maths" "mod" "Modulo" "mod" ["X", "Y"] [.zero, .one] .none
      [generic [.none, .none], generic [.none, .float]],
    function "Maths" "abs" "Absolute" "abs" ["X"] [] .none [generic [.none]],
    function "Maths" "sin" "Sine" "sin" ["X"] [] .none [generic [.none]],
    function "Maths" "cos" "Cosine" "cos" ["X"] [] .none [generic [.none]],
    function "Maths" "fract" "Fraction" "fract" ["X"] [] .none [generic [.none]],
    function "Maths" "floor" "Floor" "floor" ["X"] [] .none [generic [.none]],
    function "Maths" "sqrt" "Square Root" "sqrt" ["X"] [] .none [generic [.none]],
    function "Maths" "pow" "Power" "pow" ["X", "Y"] [.zero, .one] .none
      [generic [.none, .none]],
    function "Maths" "min" "Minimum" "min" ["X", "Y"] [] .none
      [generic [.none, .none], generic [.none, .float]],
    function "Maths" "max" "Maximum" "max" ["X", "Y"] [] .none
      [generic [.none, .none], generic [.none, .float]],
    function "Maths" "clamp" "Clamp" "clamp" ["X", "Min", "Max"] [.zero, .zero, .one] .none
      [generic [.none, .none, .none], generic [.none, .float, .float]],
    function "Maths" "step" "Step" "step" ["Edge", "X"] [.half, .zero] .none
      [generic [.none, .none], generic [.float, .none]],
    function "Maths" "smoothstep" "Smooth Step" "smoothstep" ["Edge0", "Edge1", "X"]
      [.zero, .one, .zero] .none
      [generic [.none, .none, .none], generic [.float, .float, .none]],
    function "Vector" "dot" "Dot Product" "dot" ["A", "B"] [] .float
      [reduction [.none, .none]],
    function "Vector" "length" "Length" "length" ["X"] [] .float [reduction [.none]],
    function "Vector" "distance" "Distance" "distance" ["A", "B"] [] .float
      [reduction [.none, .none]],
    function "Vector" "normalize" "Normalize" "normalize" ["X"] [] .none [generic [.none]],
    { archetype :=
        { id := "sample", title := "Sample Texture", category := "Texture",
          inputs := [{ name := "Texture", ty := .sampler, requireLink := true },
            { name := "UV", ty := .vec2, requireLink := true }],
          outputs := [{ name := "color", ty := .vec4 }] }
      initial := .sample }]

/-- The names of the components of a vector. -/
def components : List String := ["X", "Y", "Z", "W"]

/-- The nodes that build and split vectors of one arity. -/
def vectorPair (n : Nat) : List Registration :=
  [{ archetype :=
      { id := "make_vec" ++ Number.natText n, category := "Value",
        inputs := (components.take n).map fun name => { name, ty := .float, editable := true },
        outputs := [{ name := "out", ty := .gen (UInt8.ofNat n) }] }
     initial := .makeVec (UInt8.ofNat n) (List.replicate n .zero) },
    { archetype :=
        { id := "break_vec" ++ Number.natText n, category := "Value",
          inputs := [{ name := "V", ty := .gen (UInt8.ofNat n), requireLink := true }],
          outputs := (components.take n).map fun name => { name, ty := .float } }
      initial := .breakVec (UInt8.ofNat n) }]

def vectors : List Registration :=
  vectorPair 2 ++ vectorPair 3 ++ vectorPair 4 ++
  [{ archetype :=
      { id := "append", category := "Value",
        inputs := [{ name := "A", ty := .none, requireLink := true },
          { name := "B", ty := .none, requireLink := true }],
        outputs := [{ name := "out", ty := .none }] }
     initial := .append }]

/-- The sampler behind the texture node. Its plain name is taken by a function. -/
def textureUniform : String := identifier "texture"

/-- A fixed variable of the pipeline or a fixed uniform. -/
def variableNode (id title : String) (value : Value) (declaration : String) : Registration :=
  { archetype :=
      { id, title, category := "Inputs", outputs := [{ name := "value", ty := value.ty }] }
    initial := .globalVar value declaration }

def inputs : List Registration :=
  [variableNode "input_time" "Time" ⟨.float, "time"⟩ "uniform float time;",
    variableNode "uv" "UV" Kind.texCoord "",
    variableNode "texture" "Texture" ⟨.sampler, textureUniform⟩
      ("uniform sampler2D " ++ textureUniform ++ ";"),
    variableNode "mvp" "Model View Projection" ⟨.mat4, "gl_ModelViewProjectionMatrix"⟩ "",
    { archetype :=
        { id := "parameter", category := "Inputs",
          outputs := [{ name := "value", ty := .float }] }
      initial := .parameter "param" }]

def outputs : List Registration :=
  [{ archetype :=
      { id := "out_vertex", title := "Vertex Out", category := "Output",
        inputs := [{ name := "Color", ty := .vec3, editable := true },
          { name := "Alpha", ty := .float, editable := true }] }
     initial := .vertexOut [.half, .one] },
    { archetype :=
        { id := "out_fragment", title := "Fragment Out", category := "Output",
          inputs := [{ name := "Color", ty := .vec4, requireLink := true }] }
      initial := .fragmentOut },
    { archetype :=
        { id := "bridge", title := "Bridge", hidden := true,
          inputs := [{ name := "in", ty := .none }],
          outputs := [{ name := "out", ty := .none }] }
      initial := .bridge }]

/-- Every built-in archetype, in the order it is registered. -/
def registrations : List Registration :=
  constants ++ arithmetic ++ functions ++ vectors ++ inputs ++ outputs

end NodeShader.Catalogue

namespace NodeShader.Registry

/-- The registry of the built-in archetypes. -/
def builtin : Registry := (empty.registerAll Catalogue.registrations).2

end NodeShader.Registry
