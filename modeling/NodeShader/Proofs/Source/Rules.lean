import NodeShader.Proofs.Node.Frame

/-!
# The types of expressions

The typing rules of the shading language for the constructions that nodes use: operators between
scalars and vectors, matrices times vectors, constructors of vectors, built-in functions at their
signatures, selections of components and the variables of the pipeline. They are tables from the
types of the parts to the type of the whole.

`Judges J` says that a judgement about code follows the tables, and `Combines k J K` that what the
operators of a kind make of operands judged by `J` is judged by `K`. Evaluation can then be shown to
keep any such judgements, whatever the code is made of.
-/

namespace NodeShader

/-- The types that code can have. -/
def properTypes : List Ty := [.float, .vec2, .vec3, .vec4, .mat3, .mat4, .sampler]

/-- The type of an operation. Operands have the same size, or one of them is a float; a matrix can
stand before a vector that is as wide. -/
def binaryType? (operator : String) : Ty → Ty → Option Ty
  | .gen m, .gen n =>
    if operator ∈ ["+", "-", "*", "/"] then
      if m = n ∨ n = 1 then some (.gen m) else if m = 1 then some (.gen n) else none
    else none
  | .matrix rows columns, .gen n =>
    if operator = "*" ∧ columns = n then some (.gen rows) else none
  | _, _ => none

/-- How many components scalars and vectors have together. -/
def components? : List Ty → Option Nat
  | [] => some 0
  | .gen n :: rest => (components? rest).map (n.toNat + ·)
  | _ => none

/-- The size of a vector by the name of its constructor. -/
def constructedSize? (f : String) : Option UInt8 :=
  if f = "vec2" then some 2 else if f = "vec3" then some 3 else if f = "vec4" then some 4 else none

/-- The results of built-in functions. -/
def functionType? (f : String) : List Ty → Option Ty
  | [.gen n] =>
    if f ∈ ["abs", "sin", "cos", "fract", "floor", "sqrt", "normalize"] then some (.gen n)
    else if f = "length" then some .float
    else none
  | [.gen m, .gen n] =>
    if f = "pow" ∧ m = n then some (.gen m)
    else if f ∈ ["mod", "min", "max"] ∧ (m = n ∨ n = 1) then some (.gen m)
    else if f = "step" ∧ (m = n ∨ m = 1) then some (.gen n)
    else if f ∈ ["dot", "distance"] ∧ m = n then some .float
    else none
  | [.gen l, .gen m, .gen n] =>
    if f = "mix" ∧ l = m ∧ (l = n ∨ n = 1) then some (.gen l)
    else if f = "clamp" ∧ m = n ∧ (l = m ∨ m = 1) then some (.gen l)
    else if f = "smoothstep" ∧ l = m ∧ (m = n ∨ m = 1) then some (.gen n)
    else none
  | [.sampler, .gen n] => if f = "texture2D" ∧ n = 2 then some .vec4 else none
  | _ => none

/-- The type of a call. The arguments of a constructor have as many components as the vector. -/
def applyType? (f : String) (args : List Ty) : Option Ty :=
  match constructedSize? f with
  | some n => if components? args = some n.toNat then some (.gen n) else none
  | none => functionType? f args

/-- The type of a selection: every letter names a component that the vector has. -/
def selectType? (t : Ty) (letters : String) : Option Ty :=
  match t with
  | .gen n =>
    if 1 < n ∧ letters ≠ "" ∧ letters.length ≤ 4 ∧
        letters.toList.all (· ∈ ['x', 'y', 'z', 'w'].take n.toNat) then
      some (.gen (UInt8.ofNat letters.length))
    else none
  | _ => none

/-- The types of the variables of the pipeline, as kinds mention them. -/
def pipelineType? (s : String) : Option Ty :=
  if s = "gl_TexCoord[0].xy" then some .vec2
  else if s = "gl_ModelViewProjectionMatrix" ∨ s = "gl_TextureMatrix[0]" then some .mat4
  else if s ∈ ["gl_Vertex", "gl_MultiTexCoord0", "gl_Color"] then some .vec4
  else none

/-- A judgement about code that follows the rules. -/
structure Judges {C : Type} [Code C] (J : C → Ty → Prop) : Prop where
  proper : ∀ x t, J x t → t ∈ properTypes
  literal : ∀ f, J (Code.literal f) .float
  pipeline : ∀ s t, pipelineType? s = some t → J (Code.verbatim s) t
  apply : ∀ f xs ts t, applyType? f ts = some t → List.Forall₂ J xs ts → J (Code.apply f xs) t
  select : ∀ x letters t u, letters ∈ Kind.swizzles → selectType? t letters = some u → J x t →
    J (Code.select x letters) u

/-- What nodes of a kind make of operands, with an operator or without. -/
structure Combines {C : Type} [Code C] (k : Kind) (J K : C → Ty → Prop) : Prop where
  weaken : ∀ x t, J x t → K x t
  binary : ∀ operator ∈ k.operators, ∀ x y a b t, binaryType? operator a b = some t → J x a → J y b →
    K (Code.binary operator x y) t

theorem combines_of_operators {C : Type} [Code C] {k : Kind} (h : k.operators = [])
    (J : C → Ty → Prop) : Combines k J J :=
  ⟨fun _ _ hx => hx, fun _ hop => absurd hop (by simp [h])⟩

/-! ## Proper types -/

theorem arity_of_proper {n : UInt8} (h : Ty.gen n ∈ properTypes) : n ∈ [(1 : UInt8), 2, 3, 4] := by
  simpa [properTypes] using h

theorem gen_proper {n : UInt8} (h : n ∈ [(1 : UInt8), 2, 3, 4]) : Ty.gen n ∈ properTypes := by
  simpa [properTypes] using h

theorem binaryType?_proper {operator : String} {a b t : Ty} (h : binaryType? operator a b = some t)
    (ha : a ∈ properTypes) (hb : b ∈ properTypes) : t ∈ properTypes := by
  unfold binaryType? at h
  split at h
  · split at h
    · split at h
      · cases h
        exact ha
      · split at h
        · cases h
          exact hb
        · exact absurd h (by simp)
    · exact absurd h (by simp)
  · rename_i rows columns n
    split at h
    · cases h
      simp only [properTypes, List.mem_cons, reduceCtorEq, Ty.matrix.injEq, List.not_mem_nil,
        or_false, false_or] at ha
      rcases ha with ⟨rfl, -⟩ | ⟨rfl, -⟩ <;> decide
    · exact absurd h (by simp)
  · exact absurd h (by simp)

/-- A function gives back a type of its arguments, a float or a colour. -/
theorem functionType?_cases {f : String} {args : List Ty} {t : Ty}
    (h : functionType? f args = some t) : t ∈ args ∨ t = .float ∨ t = .vec4 := by
  unfold functionType? at h
  split at h <;> (repeat' split at h) <;> first | cases h; simp | exact absurd h (by simp)

theorem applyType?_proper {f : String} {args : List Ty} {t : Ty} (h : applyType? f args = some t)
    (hargs : ∀ a ∈ args, a ∈ properTypes) : t ∈ properTypes := by
  unfold applyType? at h
  split at h
  · rename_i n hn
    have hsize : n ∈ [(1 : UInt8), 2, 3, 4] := by
      unfold constructedSize? at hn
      (repeat' split at hn) <;> cases hn <;> decide
    split at h
    · cases h
      exact gen_proper hsize
    · exact absurd h (by simp)
  · rcases functionType?_cases h with hmem | rfl | rfl
    · exact hargs t hmem
    · decide
    · decide

theorem selectType?_proper {t u : Ty} {letters : String} (h : selectType? t letters = some u) :
    u ∈ properTypes := by
  unfold selectType? at h
  split at h
  · split at h
    · rename_i hletters
      cases h
      obtain ⟨-, hne, hle, -⟩ := hletters
      have hpos : letters.length ≠ 0 := fun h0 => hne (String.length_eq_zero_iff.mp h0)
      have hcases : letters.length = 1 ∨ letters.length = 2 ∨ letters.length = 3 ∨
          letters.length = 4 := by omega
      rcases hcases with h1 | h1 | h1 | h1 <;> rw [h1] <;> decide
    · exact absurd h (by simp)
  · exact absurd h (by simp)

theorem pipelineType?_proper {s : String} {t : Ty} (h : pipelineType? s = some t) :
    t ∈ properTypes := by
  unfold pipelineType? at h
  (repeat' split at h) <;> first | cases h; decide | exact absurd h (by simp)

theorem forall₂_right {α β : Type} {P : β → Prop} {xs : List α} {ys : List β}
    (h : List.Forall₂ (fun _ y => P y) xs ys) : ∀ y ∈ ys, P y := by
  induction h with
  | nil => simp
  | cons hy _ ih => simpa using ⟨hy, ih⟩

/-- That a type is proper follows the rules. -/
theorem judges_proper {C : Type} [Code C] : Judges fun (_ : C) t => t ∈ properTypes where
  proper _ _ h := h
  literal _ := by decide
  pipeline _ _ h := pipelineType?_proper h
  apply _ _ _ _ h hargs := applyType?_proper h (forall₂_right hargs)
  select _ _ _ _ _ h _ := selectType?_proper h

theorem combines_proper {C : Type} [Code C] (k : Kind) :
    Combines k (fun (_ : C) t => t ∈ properTypes) fun _ t => t ∈ properTypes where
  weaken _ _ h := h
  binary _ _ _ _ _ _ _ h ha hb := binaryType?_proper h ha hb

end NodeShader
