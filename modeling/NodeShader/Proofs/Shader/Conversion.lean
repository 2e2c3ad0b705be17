import Mathlib.Order.Defs.Unbundled
import NodeShader.Proofs.Node.Supplied

/-!
# Conversions

Types are ordered by what converts to what: a float is below the vectors of two to four, and nothing
else is below anything but itself. So a chain of conversions has one step at most that changes the
type, and converting in two steps is converting in one.

A broadcast asks a type for its number of components, and most types have none. `Checked.convert` does
so with the question checked and puts the text together copy by copy. It always has an answer, which
is that of `Value.convert`.
-/

namespace NodeShader

/-! ## The order of types -/

namespace Ty

/-- A conversion that changes the type makes a vector of a float. -/
theorem converts_iff {s t : Ty} :
    s.converts t = true ↔ s = t ∨ s = .float ∧ ∃ n, t = .gen n ∧ 1 < n ∧ n ≤ 4 := by
  by_cases heq : s = t
  · exact iff_of_true (heq ▸ converts_self s) (.inl heq)
  · simp only [converts, heq, decide_false, Bool.false_or, false_or]
    cases s <;> cases t <;> simp [and_assoc]

/-- Only what is a float already converts to a float, so no vector leads back. -/
theorem eq_of_converts_gen {n : UInt8} {t : Ty} (hn : 1 < n) (h : (gen n).converts t = true) :
    gen n = t := by
  rcases converts_iff.mp h with heq | ⟨hfloat, -⟩
  · exact heq
  · cases hfloat
    exact absurd hn (by decide)

theorem converts_antisymm {s t : Ty} (h : s.converts t = true) (h' : t.converts s = true) : s = t := by
  rcases converts_iff.mp h with heq | ⟨-, n, rfl, hn, -⟩
  · exact heq
  · exact (eq_of_converts_gen hn h').symm

theorem converts_trans {s t u : Ty} (h : s.converts t = true) (h' : t.converts u = true) :
    s.converts u = true := by
  rcases converts_iff.mp h with rfl | ⟨-, n, rfl, hn, -⟩
  · exact h'
  · exact eq_of_converts_gen hn h' ▸ h

theorem isPartialOrder_converts : IsPartialOrder Ty fun s t => s.converts t = true where
  refl := converts_self
  trans _ _ _ := converts_trans
  antisymm _ _ := converts_antisymm

end Ty

/-! ## Broadcasts with every step checked -/

theorem joinWith_eq_intercalate (separator : String) (xs : List String) :
    joinWith separator xs = separator.intercalate xs := by
  induction xs with
  | nil => simp [joinWith]
  | cons x rest ih =>
      cases rest with
      | nil => simp [joinWith]
      | cons y rest => rw [joinWith, ih, String.intercalate_cons_cons]; simp

/-- The number of components was asked of a type that has none. -/
structure NoArity where
  ty : Ty
  deriving DecidableEq, Repr

namespace Checked

/-- How many floats a scalar or vector has. -/
def arity (t : Ty) : Except NoArity UInt8 :=
  match t.arity? with
  | some n => .ok n
  | none => .error ⟨t⟩

/-- Writes `count` copies of a code behind a text, from copy `i` on. A comma and a blank stand before
each copy but the first. -/
def writeCopies (code : String) : (i count : Nat) → String → String
  | _, 0, text => text
  | i, count + 1, text =>
    writeCopies code (i + 1) count ((if 0 < i then text ++ ", " else text) ++ code)

/-- The value as another type. -/
def convert (v : Value) (t : Ty) : Except NoArity Value :=
  if !v.isValid || !v.ty.converts t then .ok .null
  else if v.ty = t then .ok v
  else do
    let n ← arity t
    return ⟨t, writeCopies v.code 0 n.toNat (t.text ++ "(") ++ ")"⟩

theorem writeCopies_succ (code text : String) (count : Nat) :
    ∀ i, writeCopies code (i + 1) count (text ++ ", ".intercalate (List.replicate (i + 1) code)) =
      text ++ ", ".intercalate (List.replicate (i + 1 + count) code) := by
  induction count with
  | zero => exact fun _ => rfl
  | succ count ih =>
      intro i
      have hnext : ", ".intercalate (List.replicate (i + 2) code) =
          ", ".intercalate (List.replicate (i + 1) code) ++ ", " ++ code := by
        rw [List.replicate_succ' (n := i + 1), String.intercalate_append_of_ne_nil (by simp) (by simp),
          String.intercalate_singleton]
      have htext : text ++ ", ".intercalate (List.replicate (i + 1) code) ++ ", " ++ code =
          text ++ ", ".intercalate (List.replicate (i + 2) code) := by
        rw [hnext]
        simp only [String.append_assoc]
      rw [writeCopies, if_pos (Nat.succ_pos i), htext, ih (i + 1), Nat.add_right_comm (i + 1) 1 count,
        Nat.add_assoc (i + 1) count 1]

/-- The copies are written with commas and blanks between them. -/
theorem writeCopies_eq (code text : String) (count : Nat) :
    writeCopies code 0 count text = text ++ ", ".intercalate (List.replicate count code) := by
  cases count with
  | zero => simp [writeCopies]
  | succ count =>
      rw [writeCopies, if_neg (Nat.lt_irrefl 0), Nat.add_comm count]
      simpa using writeCopies_succ code text count 0

end Checked

namespace Value

/-- What may not be converted becomes the null value. -/
theorem convert_refused {v : Value} {t : Ty} (h : ¬ (v.isValid = true ∧ v.ty.converts t = true)) :
    v.convert t = .null := by
  unfold convert
  rw [if_neg (by simpa using h)]

/-- A float as a vector is the name of the vector applied to copies of the float. -/
theorem convert_broadcast {v : Value} {n : UInt8} (hv : v.isValid = true)
    (hconv : v.ty.converts (.gen n) = true) (hne : v.ty ≠ .gen n) :
    v.convert (.gen n) = ⟨.gen n, (Ty.gen n).text ++ "(" ++
      ", ".intercalate (List.replicate n.toNat v.code) ++ ")"⟩ := by
  have hconverts : (v.isValid && v.ty.converts (.gen n)) = true := by rw [hv, hconv]; rfl
  rw [convert, if_pos hconverts, if_neg hne]
  simp only [compose, Code.apply, List.map_replicate, joinWith_eq_intercalate]

/-- A broadcast asks for the components of vectors only, so that there is always an answer. -/
theorem checked_convert_eq (v : Value) (t : Ty) : Checked.convert v t = .ok (v.convert t) := by
  by_cases hconv : v.isValid = true ∧ v.ty.converts t = true
  · have hcheck : ¬ (!v.isValid || !v.ty.converts t) = true := by simp [hconv]
    rw [Checked.convert, if_neg hcheck]
    by_cases heq : v.ty = t
    · rw [if_pos heq, ← heq, convert_self hconv.1]
    · obtain ⟨-, n, rfl, -⟩ := (Ty.converts_iff.mp hconv.2).resolve_left heq
      rw [if_neg heq, convert_broadcast hconv.1 hconv.2 heq, ← Checked.writeCopies_eq]
      rfl
  · have hcheck : (!v.isValid || !v.ty.converts t) = true := by
      simpa [Classical.or_iff_not_imp_left] using hconv
    rw [Checked.convert, if_pos hcheck, convert_refused hconv]

theorem isValid_convert_iff {v : Value} {t : Ty} :
    (v.convert t).isValid = true ↔ v.isValid = true ∧ v.ty.converts t = true := by
  constructor
  · intro h
    by_contra hconv
    rw [convert_refused hconv] at h
    exact absurd h (by simp [isValid_null])
  · exact fun h => isValid_convert h.1 h.2

/-- Converting in two steps is converting in one: one of the steps changes nothing. -/
theorem convert_convert {v : Value} {s t : Ty} (hs : (v.convert s).isValid = true)
    (hst : s.converts t = true) : (v.convert s).convert t = v.convert t := by
  obtain ⟨hv, hconv⟩ := isValid_convert_iff.mp hs
  rcases Ty.converts_iff.mp hconv with heq | ⟨-, n, rfl, hn, -⟩
  · rw [← heq, convert_self hv]
  · obtain rfl := Ty.eq_of_converts_gen hn hst
    have hsame := convert_self hs
    rwa [ty_convert hs] at hsame

/-- Only scalars and vectors of up to four have literals. -/
theorem isValid_splat_iff (f : Number.Single) (t : Ty) :
    (splat f t : Value).isValid = true ↔ ∃ n, t = .gen n ∧ 1 ≤ n ∧ n ≤ 4 := by
  rw [splat, isValid_convert_iff, Ty.converts_iff]
  constructor
  · rintro ⟨-, heq | ⟨-, n, rfl, hn, hle⟩⟩
    · exact ⟨1, heq.symm, by decide, by decide⟩
    · exact ⟨n, rfl, UInt8.le_of_lt hn, hle⟩
  · rintro ⟨n, rfl, hn, hle⟩
    refine ⟨rfl, ?_⟩
    by_cases hone : n = 1
    · exact .inl (hone ▸ rfl)
    · exact .inr ⟨rfl, n, rfl, UInt8.lt_of_le_of_ne hn (Ne.symm hone), hle⟩

/-- What can be relied on when a value is converted: there is an answer, which is a value exactly when
the type may be changed so, and then has the type that was asked for; a detour over another type makes
no difference; and a broadcast is spelled as a constructor with one argument for every component. -/
structure ConvertsCoherently (v : Value) : Prop where
  answers : ∀ t, Checked.convert v t = .ok (v.convert t)
  valid_iff : ∀ t, (v.convert t).isValid = true ↔ v.isValid = true ∧ v.ty.converts t = true
  typed : ∀ t, (v.convert t).isValid = true → (v.convert t).ty = t
  composes : ∀ s t, (v.convert s).isValid = true → s.converts t = true →
    (v.convert s).convert t = v.convert t
  broadcast : ∀ n, (v.convert (.gen n)).isValid = true → v.ty ≠ .gen n →
    (v.convert (.gen n)).code = (Ty.gen n).text ++ "(" ++
      ", ".intercalate (List.replicate n.toNat v.code) ++ ")"

theorem convertsCoherently (v : Value) : v.ConvertsCoherently where
  answers := checked_convert_eq v
  valid_iff _ := isValid_convert_iff
  typed _ := ty_convert
  composes _ _ := convert_convert
  broadcast n hvalid hne := by
    obtain ⟨hv, hconv⟩ := isValid_convert_iff.mp hvalid
    rw [convert_broadcast hv hconv hne]

end Value

/-- Conversion is a coherent partial order: types are ordered by it, every value is converted along the
order, and a literal has the types that are above a float. -/
theorem conversion_coherent :
    (IsPartialOrder Ty fun s t => s.converts t = true) ∧ (∀ v : Value, v.ConvertsCoherently) ∧
      ∀ (f : Number.Single) (t : Ty),
        (Value.splat f t : Value).isValid = true ↔ ∃ n, t = .gen n ∧ 1 ≤ n ∧ n ≤ 4 :=
  ⟨Ty.isPartialOrder_converts, Value.convertsCoherently, Value.isValid_splat_iff⟩

/-- A call is written down three times, and a vector of three is no vector of four. -/
theorem conversion_coherent_call :
    (Value.convert ⟨.float, "sin(x)"⟩ .vec3).code = "vec3(sin(x), sin(x), sin(x))" ∧
    (Value.convert ⟨.float, "sin(x)"⟩ .vec3 : Value).convert .vec3 =
      Value.convert ⟨.float, "sin(x)"⟩ .vec3 ∧
    (Value.convert ⟨.vec3, "v"⟩ .vec4 : Value).isValid = false := by
  have hcall := conversion_coherent.2.1 ⟨.float, "sin(x)"⟩
  have hvector := conversion_coherent.2.1 ⟨.vec3, "v"⟩
  have hvalid := (hcall.valid_iff .vec3).mpr (by decide)
  refine ⟨(hcall.broadcast 3 hvalid (by decide)).trans (by decide),
    hcall.composes .vec3 .vec3 hvalid (by decide), Bool.eq_false_iff.mpr fun h => ?_⟩
  exact absurd ((hvector.valid_iff .vec4).mp h).2 (by decide)

end NodeShader
