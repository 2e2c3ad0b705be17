import Mathlib.Data.List.Forall2
import NodeShader.Node.Resolve

/-!
# Evaluation does not look into source code

A node decides by the types of its inputs and by its links, never by the code of a value; codes are
only passed to the constructions of `Code`. So when two states differ in their codes only, and
relations between codes are kept by the constructions that the node's kind uses, then resolving and
evaluating the two states gives outcomes that are related in the same way.

There are three relations: `R` for what stands in inputs, `S` for what a node makes of it and `T` for
statements. `Respects k R S T` lists what is asked of them: the texts, operators and function names
are those of the kind, and the constructors those of floats and vectors. Kinds that are not built in
are left out.
-/

namespace NodeShader

variable {C D : Type}

/-! ## Lists in step -/

theorem forall₂_modify {α β : Type} {R : α → β → Prop} {f : α → α} {f' : β → β}
    (hf : ∀ a b, R a b → R (f a) (f' b)) {l : List α} {l' : List β} (h : List.Forall₂ R l l')
    (i : Nat) : List.Forall₂ R (l.modify i f) (l'.modify i f') := by
  induction h generalizing i with
  | nil => cases i <;> simp
  | cons hab hrest ih =>
      cases i with
      | zero => exact .cons (hf _ _ hab) hrest
      | succ i => exact .cons hab (ih i)

theorem forall₂_mapIdx {α β α' β' : Type} {R : α → β → Prop} {S : α' → β' → Prop}
    {f : Nat → α → α'} {f' : Nat → β → β'} (hf : ∀ i a b, R a b → S (f i a) (f' i b))
    {l : List α} {l' : List β} (h : List.Forall₂ R l l') :
    List.Forall₂ S (l.mapIdx f) (l'.mapIdx f') := by
  induction h generalizing f f' with
  | nil => simp
  | cons hab _ ih =>
      rw [List.mapIdx_cons, List.mapIdx_cons]
      exact .cons (hf 0 _ _ hab) (ih fun i => hf (i + 1))

theorem forall₂_replicate {α β : Type} {R : α → β → Prop} {a : α} {b : β} (h : R a b) (n : Nat) :
    List.Forall₂ R (List.replicate n a) (List.replicate n b) := by
  induction n with
  | zero => exact .nil
  | succ n ih => exact .cons h ih

theorem all_of_forall₂ {α β : Type} {R : α → β → Prop} {f : α → Bool} {f' : β → Bool}
    (hf : ∀ a b, R a b → f a = f' b) {l : List α} {l' : List β} (h : List.Forall₂ R l l') :
    l.all f = l'.all f' := by
  induction h with
  | nil => rfl
  | cons hab _ ih => rw [List.all_cons, List.all_cons, hf _ _ hab, ih]

theorem forall₂_and_right {α β : Type} {R : α → β → Prop} {P : β → Prop} {l : List α} {l' : List β}
    (h : List.Forall₂ R l l') (hP : ∀ b ∈ l', P b) : List.Forall₂ (fun a b => R a b ∧ P b) l l' := by
  induction h with
  | nil => exact .nil
  | cons hab _ ih =>
      rw [List.forall_mem_cons] at hP
      exact .cons ⟨hab, hP.1⟩ (ih hP.2)

/-! ## Related states -/

structure Value.Related (R : C → D → Prop) (v : Value C) (w : Value D) : Prop where
  ty : v.ty = w.ty
  code : R v.code w.code

/-- Slots that differ in the code of their values only. -/
structure InputSlot.Related (R : C → D → Prop) (s : InputSlot C) (t : InputSlot D) : Prop where
  name : s.name = t.name
  declared : s.declared = t.declared
  ty : s.ty = t.ty
  value : s.value.Related R t.value
  link : s.link = t.link
  requireLink : s.requireLink = t.requireLink
  problem : s.problem = t.problem

/-- Slots that differ in the code of their values, and perhaps in how often and how the value is
used. -/
structure OutputSlot.Related (R : C → D → Prop) (s : OutputSlot C) (t : OutputSlot D) : Prop where
  name : s.name = t.name
  declared : s.declared = t.declared
  ty : s.ty = t.ty
  value : s.value.Related R t.value

structure NodeState.Related (R S : C → D → Prop) (s : NodeState C) (t : NodeState D) : Prop where
  node : s.node = t.node
  inputs : List.Forall₂ (InputSlot.Related R) s.inputs t.inputs
  outputs : List.Forall₂ (OutputSlot.Related S) s.outputs t.outputs
  overload : s.overload = t.overload
  evaluated : s.evaluated = t.evaluated

structure Outcome.Related (R S T : C → D → Prop) (a : Outcome C) (b : Outcome D) : Prop where
  state : a.state.Related R S b.state
  declarations : a.declarations = b.declarations
  statements : List.Forall₂ T a.statements b.statements

/-! ## What a kind writes -/

namespace Kind

/-- The texts that a kind contributes itself. -/
def texts : Kind → List String
  | .parameter name => [identifier name]
  | .globalVar value _ => [value.code]
  | .sample => ["gl_TexCoord[0].xy"]
  | .vertexOut _ =>
    ["gl_ModelViewProjectionMatrix", "gl_Vertex", "gl_TextureMatrix[0]", "gl_MultiTexCoord0"]
  | .fragmentOut => ["gl_Color"]
  | _ => []

/-- The operators of a kind. -/
def operators : Kind → List String
  | .binaryOp operator _ => [operator]
  | .transform | .vertexOut _ => ["*"]
  | _ => []

/-- The constructors of floats and vectors. -/
def vectorNames : List String := ["float", "vec2", "vec3", "vec4"]

/-- What a kind applies to arguments, besides the constructors that conversions use. -/
def heads : Kind → List String
  | .vector values => [(Ty.gen (UInt8.ofNat values.length)).text]
  | .call function _ => [function]
  | .sample => ["texture2D"]
  | .makeVec arity _ => [(Ty.gen arity).text]
  | _ => []

/-- The variables that the ends of the stages assign to. -/
def targets : List String := ["gl_FrontColor", "gl_Position", "gl_TexCoord[0]", "gl_FragColor"]

def isTemplate : Kind → Bool
  | .template _ => true
  | _ => false

end Kind

section

variable [Code C] [Code D]

/-- The relations are kept by every construction that nodes of the kind use. -/
structure Respects (k : Kind) (R S T : C → D → Prop) : Prop where
  given : k.isTemplate = false
  weaken : ∀ x x', R x x' → S x x'
  blank : R Code.blank Code.blank
  literal : ∀ f, R (Code.literal f) (Code.literal f)
  verbatim : ∀ s ∈ k.texts, R (Code.verbatim s) (Code.verbatim s)
  binary : ∀ operator ∈ k.operators, ∀ x x' y y', R x x' → R y y' →
    S (Code.binary operator x y) (Code.binary operator x' y')
  apply : ∀ f ∈ Kind.vectorNames ++ k.heads, ∀ xs xs', List.Forall₂ R xs xs' →
    R (Code.apply f xs) (Code.apply f xs')
  select : ∀ letter ∈ Kind.swizzles, ∀ x x', R x x' → R (Code.select x letter) (Code.select x' letter)
  assign : ∀ target ∈ Kind.targets, ∀ x x', S x x' →
    T (Code.assign target x) (Code.assign target x')

end

/-! ## Values -/

/-- A conversion that is not the identity goes from a float to a vector of two to four. -/
theorem Ty.converts_cases {source target : Ty} (h : source.converts target) (hne : source ≠ target) :
    source = .float ∧ (target = .vec2 ∨ target = .vec3 ∨ target = .vec4) := by
  simp only [converts, hne, decide_false, Bool.false_or] at h
  cases source <;> cases target <;> simp_all
  rename_i m n
  obtain ⟨⟨-, hlow⟩, hhigh⟩ := h
  have hlow' := UInt8.lt_iff_toNat_lt.mp hlow
  have hhigh' := UInt8.le_iff_toNat_le.mp hhigh
  simp only [← UInt8.toNat_inj]
  simp at hlow' hhigh' ⊢
  omega

theorem Ty.text_mem_vectorNames {t : Ty} (h : t = .float ∨ t = .vec2 ∨ t = .vec3 ∨ t = .vec4) :
    t.text ∈ Kind.vectorNames := by
  rcases h with rfl | rfl | rfl | rfl <;> decide

namespace Value

variable {R S T : C → D → Prop} {k : Kind}

theorem Related.isValid {v : Value C} {w : Value D} (h : v.Related R w) :
    v.isValid = w.isValid := by
  simp only [Value.isValid, h.ty]

theorem Related.mono (hRS : ∀ x x', R x x' → S x x') {v : Value C} {w : Value D}
    (h : v.Related R w) : v.Related S w := ⟨h.ty, hRS _ _ h.code⟩

theorem Related.orElse {v v' : Value C} {w w' : Value D} (h : v.Related R w)
    (h' : v'.Related R w') : (Kind.orElse v v').Related R (Kind.orElse w w') := by
  simp only [Kind.orElse, h.isValid]
  split
  · exact h
  · exact h'

variable [Code C] [Code D]

theorem related_null (h : Respects k R S T) : (null : Value C).Related R null := ⟨rfl, h.blank⟩

theorem related_literal (h : Respects k R S T) (f : Number.Single) :
    (literal f : Value C).Related R (literal f) := ⟨rfl, h.literal f⟩

theorem related_compose (h : Respects k R S T) {t : Ty} (ht : t.text ∈ Kind.vectorNames ++ k.heads)
    {vs : List (Value C)} {ws : List (Value D)} (hvs : List.Forall₂ (Related R) vs ws) :
    (compose t vs).Related R (compose t ws) :=
  ⟨rfl, h.apply _ ht _ _ (List.rel_map (fun _ _ hvw => hvw.code) hvs)⟩

theorem Related.convert (h : Respects k R S T) {v : Value C} {w : Value D} (hvw : v.Related R w)
    (t : Ty) : (v.convert t).Related R (w.convert t) := by
  simp only [Value.convert, hvw.isValid, hvw.ty]
  split
  · rename_i hconv
    split
    · exact hvw
    · rename_i hne
      simp only [Bool.and_eq_true] at hconv
      obtain ⟨-, hcases⟩ := Ty.converts_cases hconv.2 hne
      have hname := List.mem_append_left k.heads (Ty.text_mem_vectorNames (.inr hcases))
      rcases hcases with rfl | rfl | rfl <;>
        exact related_compose h hname (forall₂_replicate hvw _)
  · exact related_null h

theorem related_splat (h : Respects k R S T) (f : Number.Single) (t : Ty) :
    (splat f t : Value C).Related R (splat f t) := (related_literal h f).convert h t

end Value

/-! ## Slots and states -/

namespace NodeState.Related

variable {R S T : C → D → Prop} {k : Kind} {s : NodeState C} {t : NodeState D}

theorem mapOutput (h : s.Related R S t) (i : Nat) {f : OutputSlot C → OutputSlot C}
    {f' : OutputSlot D → OutputSlot D}
    (hf : ∀ a b, OutputSlot.Related S a b → OutputSlot.Related S (f a) (f' b)) :
    (s.mapOutput i f).Related R S (t.mapOutput i f') :=
  { h with outputs := forall₂_modify hf h.outputs i }

theorem set (h : s.Related R S t) (i : Nat) {v : Value C} {w : Value D} (hvw : v.Related S w) :
    (s.set i v).Related R S (t.set i w) := by
  refine h.mapOutput i fun a b hab => ⟨hab.name, hab.declared, ?_, hvw⟩
  simp only [hvw.isValid, hvw.ty, hab.ty]

theorem setCode (h : s.Related R S t) (i : Nat) {x : C} {y : D} (hxy : S x y) :
    (s.setCode i x).Related R S (t.setCode i y) :=
  h.mapOutput i fun _ _ hab => ⟨hab.name, hab.declared, hab.ty, hab.ty, hxy⟩

theorem fail (h : s.Related R S t) (i : Nat) (problem : String) :
    (s.fail i problem).Related R S (t.fail i problem) := by
  refine { h with inputs := forall₂_modify (fun a b hab => ?_) h.inputs i }
  exact { hab with problem := rfl }

theorem receive (h : s.Related R S t) (i : Nat) {v : Value C} {w : Value D}
    (hvw : v.Related R w) : (s.receive i v).Related R S (t.receive i w) := by
  refine { h with inputs := forall₂_modify (fun a b hab => ?_) h.inputs i }
  exact { hab with value := hvw }

theorem values (h : s.Related R S t) : List.Forall₂ (Value.Related R) s.values t.values :=
  List.rel_map (fun _ _ hab => hab.value) h.inputs

variable [Code C] [Code D]

theorem input (hk : Respects k R S T) (h : s.Related R S t) (i : Nat) :
    (s.input i).Related R (t.input i) := by
  have hlen := h.inputs.length_eq
  simp only [NodeState.input]
  by_cases hi : i < s.inputs.length
  · have hi' : i < t.inputs.length := hlen ▸ hi
    rw [List.getElem?_eq_getElem hi, List.getElem?_eq_getElem hi']
    exact (List.forall₂_iff_get.mp h.inputs).2 i hi hi' |>.value
  · rw [List.getElem?_eq_none (Nat.le_of_not_lt hi),
      List.getElem?_eq_none (Nat.le_of_not_lt (hlen ▸ hi))]
    exact Value.related_null hk

end NodeState.Related

/-! ## Resolving -/

namespace Resolve

variable {R S T : C → D → Prop} {k : Kind}

theorem inferArity_related {vs : List (Value C)} {ws : List (Value D)}
    (h : List.Forall₂ (Value.Related R) vs ws) (slots : List Ty) :
    inferArity slots vs = inferArity slots ws := by
  induction h generalizing slots with
  | nil => cases slots <;> rfl
  | cons hvw _ ih =>
      cases slots with
      | nil => rfl
      | cons slot slots => simp only [inferArity, hvw.isValid, hvw.ty, ih]

theorem accepts_related {vs : List (Value C)} {ws : List (Value D)}
    (h : List.Forall₂ (Value.Related R) vs ws) (arity : UInt8) (slots : List Ty) :
    accepts arity slots vs = accepts arity slots ws := by
  induction h generalizing slots with
  | nil => cases slots <;> rfl
  | cons hvw _ ih =>
      cases slots with
      | nil => rfl
      | cons slot slots => simp only [accepts, hvw.isValid, hvw.ty, ih]

/-- The signature that is chosen depends on the types of the values. -/
theorem choose_related {vs : List (Value C)} {ws : List (Value D)}
    (h : List.Forall₂ (Value.Related R) vs ws) (i : Nat) (os : List Overload) :
    choose vs i os = choose ws i os := by
  induction os generalizing i with
  | nil => rfl
  | cons o rest ih => simp only [choose, inferArity_related h, accepts_related h, ih]

variable [Code C] [Code D]

theorem defaultValue_related (hk : Respects k R S T) (i : Nat) (requireLink : Bool) (t : Ty) :
    (defaultValue k i requireLink t : Value C).Related R (defaultValue k i requireLink t) := by
  unfold defaultValue
  split
  · exact Value.related_null hk
  · exact Value.related_splat hk _ t

theorem declaredInput_related (hk : Respects k R S T) (i : Nat) {a : InputSlot C} {b : InputSlot D}
    (h : a.Related R b) : (declaredInput k i a).Related R (declaredInput k i b) := by
  simp only [declaredInput, h.value.isValid, h.declared, h.value.ty, h.requireLink]
  split
  · exact ⟨h.name, rfl, rfl, defaultValue_related hk i _ _, h.link, rfl, h.problem⟩
  · split
    · exact ⟨h.name, rfl, rfl, h.value, h.link, rfl, h.problem⟩
    · split
      · exact ⟨h.name, rfl, rfl, h.value.convert hk _, h.link, rfl, h.problem⟩
      · exact ⟨h.name, rfl, rfl, Value.related_null hk, h.link, rfl, rfl⟩

theorem applyInput_related (hk : Respects k R S T) (arity : UInt8) (i : Nat) {a : InputSlot C}
    {b : InputSlot D} (h : a.Related R b) (t : Ty) :
    (applyInput k arity i a t).Related R (applyInput k arity i b t) := by
  refine { h with ty := rfl, value := ?_ }
  simp only [applyInput, h.value.isValid, h.requireLink]
  split
  · exact h.value.convert hk _
  · exact defaultValue_related hk i _ _

theorem applyInputs_related (hk : Respects k R S T) (arity : UInt8) {l : List (InputSlot C)}
    {l' : List (InputSlot D)} (h : List.Forall₂ (InputSlot.Related R) l l') (i : Nat)
    (ts : List Ty) :
    List.Forall₂ (InputSlot.Related R) (applyInputs k arity i l ts)
      (applyInputs k arity i l' ts) := by
  induction h generalizing i ts with
  | nil => cases ts <;> exact .nil
  | cons hab hrest ih =>
      cases ts with
      | nil => exact .cons hab hrest
      | cons t ts => exact .cons (applyInput_related hk arity i hab t) (ih (i + 1) ts)

end Resolve

theorem Resolve.applyOutputs_related {R : C → D → Prop} (arity : UInt8) {l : List (OutputSlot C)}
    {l' : List (OutputSlot D)} (h : List.Forall₂ (OutputSlot.Related R) l l') (ts : List Ty) :
    List.Forall₂ (OutputSlot.Related R) (applyOutputs arity l ts) (applyOutputs arity l' ts) := by
  induction h generalizing ts with
  | nil => cases ts <;> exact .nil
  | cons hab hrest ih =>
      cases ts with
      | nil => exact .cons hab hrest
      | cons t ts => exact .cons { hab with ty := rfl } (ih ts)

/-- Folding over the same list keeps states related. -/
theorem NodeState.Related.foldl {α : Type} {R S : C → D → Prop}
    {f : NodeState C → α → NodeState C} {f' : NodeState D → α → NodeState D} (l : List α)
    (hf : ∀ x ∈ l, ∀ s t, NodeState.Related R S s t → (f s x).Related R S (f' t x)) :
    ∀ s t, NodeState.Related R S s t → (l.foldl f s).Related R S (l.foldl f' t) := by
  induction l with
  | nil => exact fun _ _ h => h
  | cons x rest ih =>
      intro s t h
      exact ih (fun y hy => hf y (List.mem_cons_of_mem _ hy)) _ _ (hf x (by simp) s t h)

theorem InputSlot.Related.isLinked {R : C → D → Prop} {a : InputSlot C} {b : InputSlot D}
    (h : a.Related R b) : a.isLinked = b.isLinked := by
  simp only [InputSlot.isLinked, h.link]

theorem onlyFirstLinked_related {R : C → D → Prop} {l : List (InputSlot C)}
    {l' : List (InputSlot D)} (h : List.Forall₂ (InputSlot.Related R) l l') :
    Kind.onlyFirstLinked l = Kind.onlyFirstLinked l' := by
  cases h with
  | nil => rfl
  | cons hab hrest =>
      have hall := all_of_forall₂ (fun a b h => congrArg (! ·) (InputSlot.Related.isLinked h)) hrest
      simp only [Kind.onlyFirstLinked, hab.isLinked, hall]

section Evaluation

variable {R S T : C → D → Prop} {k : Kind} {s : NodeState C} {t : NodeState D} [Code C] [Code D]

theorem NodeState.Related.resolve (hk : Respects k R S T) (h : s.Related R S t) (a : Archetype) :
    (s.resolve a k).1 = (t.resolve a k).1 ∧ (s.resolve a k).2.Related R S (t.resolve a k).2 := by
  unfold NodeState.resolve
  split
  · refine ⟨rfl, { h with inputs := ?_, outputs := ?_ }⟩
    · refine forall₂_mapIdx ?_ h.inputs
      exact fun i _ _ hab => Resolve.declaredInput_related hk i hab
    · exact List.rel_map (fun _ _ hab => { hab with ty := hab.declared }) h.outputs
  · rw [Resolve.choose_related h.values]
    split
    · refine ⟨rfl, { h with overload := rfl, inputs := ?_, outputs := ?_ }⟩
      · exact Resolve.applyInputs_related hk _ h.inputs 0 _
      · exact Resolve.applyOutputs_related _ h.outputs _
    · refine ⟨rfl, NodeState.Related.fail ?_ 0 _⟩
      refine { h with overload := rfl, inputs := ?_ }
      exact List.rel_map (fun _ _ hab => { hab with value := Value.related_null hk }) h.inputs

/-- The narrow vectors have the names of constructors. -/
theorem Ty.text_gen_mem_vectorNames {n : UInt8} (h : n ≤ 4) :
    (Ty.gen n).text ∈ Kind.vectorNames := by
  have hn : n.toNat ≤ 4 := by simpa using UInt8.le_iff_toNat_le.mp h
  have hcases : n = 0 ∨ n = 1 ∨ n = 2 ∨ n = 3 ∨ n = 4 := by
    simp only [← UInt8.toNat_inj]
    simp
    omega
  rcases hcases with rfl | rfl | rfl | rfl | rfl <;> decide

theorem NodeState.Related.evaluate (hk : Respects k R S T) (h : s.Related R S t) (stage : Stage) :
    (k.evaluate stage s).Related R S T (k.evaluate stage t) := by
  have hin := h.input hk
  have hmono : ∀ {v : Value C} {w : Value D}, v.Related R w → v.Related S w :=
    fun hvw => hvw.mono hk.weaken
  -- one case for each kind; all but the emitting ones only set outputs
  cases k with
  | scalar value => exact ⟨h.set 0 (hmono (Value.related_literal hk value)), rfl, .nil⟩
  | vector values =>
      refine ⟨h.set 0 (hmono (Value.related_compose hk (by simp [Kind.heads]) ?_)), rfl, .nil⟩
      exact List.forall₂_map_left_iff.mpr (List.forall₂_map_right_iff.mpr
        (List.forall₂_same.mpr fun f _ => Value.related_literal hk f))
  | parameter name =>
      exact ⟨h.set 0 (hmono ⟨rfl, hk.verbatim _ (by simp [Kind.texts])⟩), rfl, .nil⟩
  | globalVar value declaration =>
      exact ⟨h.set 0 (hmono ⟨rfl, hk.verbatim _ (by simp [Kind.texts])⟩), rfl, .nil⟩
  | binaryOp operator edited =>
      refine ⟨?_, rfl, .nil⟩
      simp only [Kind.evaluate, (hin 0).isValid, (hin 1).isValid]
      split
      · exact h.setCode 0 (hk.binary _ (by simp [Kind.operators]) _ _ _ _ (hin 0).code (hin 1).code)
      · exact h
  | transform =>
      refine ⟨?_, rfl, .nil⟩
      simp only [Kind.evaluate, (hin 0).isValid]
      split
      · exact h.setCode 0 (hk.binary _ (by simp [Kind.operators]) _ _ _ _ (hin 0).code (hin 1).code)
      · exact h.set 0 (hmono (hin 1))
  | call function edited =>
      refine ⟨?_, rfl, .nil⟩
      have hall : s.inputs.all (·.value.isValid) = t.inputs.all (·.value.isValid) :=
        all_of_forall₂ (fun _ _ hab => hab.value.isValid) h.inputs
      simp only [Kind.evaluate, hall]
      split
      · exact h.setCode 0 (hk.weaken _ _ (hk.apply _ (by simp [Kind.heads]) _ _
          (List.rel_map (fun _ _ hab => hab.value.code) h.inputs)))
      · exact h
  | sample =>
      refine ⟨?_, rfl, .nil⟩
      simp only [Kind.evaluate, (hin 0).isValid]
      split
      · have hcoord : (Kind.texCoord : Value C).Related R Kind.texCoord :=
          ⟨rfl, hk.verbatim _ (by simp [Kind.texts])⟩
        have huv := (hin 1).orElse hcoord
        exact h.setCode 0 (hk.weaken _ _ (hk.apply _ (by simp [Kind.heads]) _ _
          (.cons (hin 0).code (.cons huv.code .nil))))
      · exact h.set 0 (hmono (Value.related_splat hk _ _))
  | makeVec arity edited =>
      refine ⟨?_, rfl, .nil⟩
      simp only [Kind.evaluate, onlyFirstLinked_related h.inputs]
      split
      · exact h.set 0 (hmono ((hin 0).convert hk _))
      · refine h.set 0 (hmono (Value.related_compose hk (by simp [Kind.heads]) ?_))
        exact List.forall₂_map_left_iff.mpr (List.forall₂_map_right_iff.mpr
          (List.forall₂_same.mpr fun i _ => (hin i).orElse (Value.related_literal hk _)))
  | breakVec arity =>
      refine ⟨?_, rfl, .nil⟩
      refine NodeState.Related.foldl _ ?_ s t h
      rintro ⟨letter, i⟩ hmem s' t' h'
      have hletter : letter ∈ Kind.swizzles :=
        List.mem_of_mem_take (List.fst_mem_of_mem_zipIdx hmem)
      dsimp only
      rw [(hin 0).isValid]
      split
      · exact h'.setCode i (hk.weaken _ _ (hk.select letter hletter _ _ (hin 0).code))
      · exact h'.set i (hmono (Value.related_literal hk _))
  | append =>
      refine ⟨?_, rfl, .nil⟩
      simp only [Kind.evaluate, (hin 0).isValid, (hin 1).isValid, (hin 0).ty, (hin 1).ty]
      split
      · exact h
      · split
        · exact h.fail 0 _
        · exact h.fail 1 _
        · split
          · exact (h.fail 0 _).fail 1 _
          · rename_i hwide
            have hname := Ty.text_gen_mem_vectorNames (UInt8.not_lt.mp hwide)
            exact h.set 0 (hmono (Value.related_compose hk (List.mem_append_left _ hname)
              (.cons (hin 0) (.cons (hin 1) .nil))))
  | vertexOut edited =>
      have hcolor := (hin 0).orElse (Value.related_splat hk .half .vec3)
      have halpha := (hin 1).orElse (Value.related_literal hk .one)
      have htext : ∀ text ∈ (Kind.vertexOut edited).texts,
          R (Code.verbatim text) (Code.verbatim text) := hk.verbatim
      simp only [Kind.texts, List.mem_cons, List.not_mem_nil, or_false, forall_eq_or_imp,
        forall_eq] at htext
      obtain ⟨hmvp, hvertex, htm, htc⟩ := htext
      refine ⟨h, rfl, .cons ?_ (.cons ?_ (.cons ?_ .nil))⟩
      · exact hk.assign _ (by simp [Kind.targets]) _ _ (hk.weaken _ _
          (hk.apply _ (by simp [Kind.vectorNames]) _ _
            (.cons hcolor.code (.cons halpha.code .nil))))
      · exact hk.assign _ (by simp [Kind.targets]) _ _
          (hk.binary _ (by simp [Kind.operators]) _ _ _ _ hmvp hvertex)
      · exact hk.assign _ (by simp [Kind.targets]) _ _
          (hk.binary _ (by simp [Kind.operators]) _ _ _ _ htm htc)
  | fragmentOut =>
      refine ⟨h, rfl, .cons ?_ .nil⟩
      have hvertex : Value.Related R (⟨.vec4, Code.verbatim "gl_Color"⟩ : Value C)
          ⟨.vec4, Code.verbatim "gl_Color"⟩ := ⟨rfl, hk.verbatim _ (by simp [Kind.texts])⟩
      exact hk.assign _ (by simp [Kind.targets]) _ _ (hk.weaken _ _ ((hin 0).orElse hvertex).code)
  | bridge => exact ⟨h.set 0 (hmono (hin 0)), rfl, .nil⟩
  | template t => exact absurd hk.given (by simp [Kind.isTemplate])

end Evaluation

end NodeShader
