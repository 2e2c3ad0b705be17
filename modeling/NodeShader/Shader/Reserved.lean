/-!
# Reserved words

The words that a name in generated source must not be: those of the grammar, types and built-in
functions of the language versions written here, and those that later versions reserve.
-/

namespace NodeShader.Reserved

/-- Words of the grammar. -/
def keywords : List String :=
  ["attribute", "const", "uniform", "varying", "centroid", "break", "continue", "do", "for",
   "while", "if", "else", "in", "out", "inout", "true", "false", "invariant", "discard",
   "return", "struct", "precision", "highp", "mediump", "lowp"]

/-- Names of types. -/
def typeNames : List String :=
  ["void", "bool", "int", "float", "vec2", "vec3", "vec4", "bvec2", "bvec3", "bvec4", "ivec2",
   "ivec3", "ivec4", "mat2", "mat3", "mat4", "mat2x2", "mat2x3", "mat2x4", "mat3x2", "mat3x3",
   "mat3x4", "mat4x2", "mat4x3", "mat4x4", "sampler1D", "sampler2D", "sampler3D", "samplerCube",
   "sampler1DShadow", "sampler2DShadow"]

/-- Words kept for later use. -/
def reservedWords : List String :=
  ["asm", "class", "union", "enum", "typedef", "template", "this", "packed", "goto", "switch",
   "default", "inline", "noinline", "volatile", "public", "static", "extern", "external",
   "interface", "long", "short", "double", "half", "fixed", "unsigned", "input", "output",
   "hvec2", "hvec3", "hvec4", "dvec2", "dvec3", "dvec4", "fvec2", "fvec3", "fvec4",
   "sampler2DRect", "sampler3DRect", "sampler2DRectShadow", "sizeof", "cast", "namespace",
   "using", "case", "flat", "smooth", "layout", "uint", "lowp_float"]

/-- Names of built-in functions. -/
def functionNames : List String :=
  ["radians", "degrees", "sin", "cos", "tan", "asin", "acos", "atan", "pow", "exp", "log",
   "exp2", "log2", "sqrt", "inversesqrt", "abs", "sign", "floor", "ceil", "fract", "mod", "min",
   "max", "clamp", "mix", "step", "smoothstep", "length", "distance", "dot", "cross",
   "normalize", "ftransform", "faceforward", "reflect", "refract", "matrixCompMult",
   "outerProduct", "transpose", "lessThan", "lessThanEqual", "greaterThan", "greaterThanEqual",
   "equal", "notEqual", "any", "all", "not", "texture1D", "texture2D", "texture3D",
   "textureCube", "texture1DProj", "texture2DProj", "texture3DProj", "texture1DLod",
   "texture2DLod", "texture3DLod", "textureCubeLod", "shadow1D", "shadow2D", "shadow1DProj",
   "shadow2DProj", "dFdx", "dFdy", "fwidth", "noise1", "noise2", "noise3", "noise4"]

/-- Words that later versions reserve. -/
def laterWords : List String :=
  ["texture", "sample", "patch", "subroutine", "buffer", "shared", "coherent", "restrict",
   "readonly", "writeonly"]

/-- The entry point. -/
def entryPoint : List String :=
  ["main"]

/-- Every reserved word. -/
def words : List String :=
  keywords ++ typeNames ++ reservedWords ++ functionNames ++ laterWords ++ entryPoint

end NodeShader.Reserved
