import NodeShader.Proofs.Source.Build

/-!
# Type checking

A type checker for the trees and statements that nodes write. It follows the tables of the typing
rules; names have the types their declarations give them. A declaration with a value must give the
variable exactly the type of the value, which can be stored; an assignment gives a variable of the
pipeline four components. A body type-checks when its statements do one after the other.

More declared names never change the type of a tree that has one (`type?_mono`).
-/

namespace NodeShader

/-- The types of names. -/
abbrev Types := String → Option Ty

namespace Types

/-- No names. -/
def empty : Types := fun _ => none

/-- One more name. -/
def set (Γ : Types) (name : String) (t : Ty) : Types := fun w => if w = name then some t else Γ w

/-- Every name has the type it has in the other. -/
def Within (Γ Δ : Types) : Prop := ∀ w t, Γ w = some t → Δ w = some t

theorem Within.set {Γ Δ : Types} (h : Γ.Within Δ) (name : String) (t : Ty) :
    (Γ.set name t).Within (Δ.set name t) := by
  intro w u hw
  simp only [Types.set] at hw ⊢
  split at hw
  · rename_i heq
    rw [if_pos heq, hw]
  · rename_i hne
    rw [if_neg hne]
    exact h w u hw

theorem within_set {Γ : Types} {name : String} (h : Γ name = none) (t : Ty) :
    Γ.Within (Γ.set name t) := by
  intro w u hw
  have hne : w ≠ name := by
    rintro rfl
    rw [h] at hw
    exact absurd hw (by simp)
  simp only [Types.set, if_neg hne, hw]

end Types

/-- The types of the variables of the pipeline. -/
def pipelineVariable? (w : String) : Option Ty :=
  if w ∈ ["gl_Vertex", "gl_MultiTexCoord0", "gl_Color", "gl_FrontColor", "gl_Position",
      "gl_FragColor"] then some .vec4
  else if w = "gl_ModelViewProjectionMatrix" then some .mat4
  else none

/-- The types of the elements of the arrays of the pipeline. -/
def pipelineElement? : (array index : Ast) → Option Ty
  | .name w, .integer _ =>
    if w = "gl_TexCoord" then some .vec4 else if w = "gl_TextureMatrix" then some .mat4 else none
  | _, _ => none

namespace Ast

mutual

/-- The type of an expression. -/
def type? (Γ : Types) : Ast → Option Ty
  | .number _ _ => some .float
  | .name w => (pipelineVariable? w).or (Γ w)
  | .negate x =>
    match type? Γ x with
    | some (.gen n) => some (.gen n)
    | _ => none
  | .binary operator x y =>
    match type? Γ x, type? Γ y with
    | some a, some b => binaryType? operator a b
    | _, _ => none
  | .apply f args =>
    match types? Γ args with
    | some ts => applyType? f ts
    | none => none
  | .select x component =>
    match type? Γ x with
    | some t => selectType? t component
    | none => none
  | .index x i => pipelineElement? x i
  | .group x => type? Γ x
  | _ => none

/-- The types of expressions. -/
def types? (Γ : Types) : List Ast → Option (List Ty)
  | [] => some []
  | x :: rest =>
    match type? Γ x, types? Γ rest with
    | some t, some ts => some (t :: ts)
    | _, _ => none

end

/-- Checks a statement, and gives back the names that are known after it. -/
def check (Γ : Types) : Ast → Option Types
  | .define type w x =>
    match type? Γ x with
    | some t =>
      if t.text = type ∧ t.isValid = true ∧ t.isOpaque = false then some (Γ.set w t) else none
    | none => none
  | .assign target x =>
    if type? .empty target = some .vec4 ∧ type? Γ x = some .vec4 then some Γ else none
  | _ => none

end Ast

/-- Do the statements of a body type-check, one after the other? -/
def typeChecks (Γ : Types) : List String → Bool
  | [] => true
  | s :: rest =>
    match (statement? s).bind (Ast.check Γ) with
    | some Δ => typeChecks Δ rest
    | none => false

/-- The types that declarations of uniforms give to names; the first declaration of a name counts. -/
def typesOf (declarations : List String) : Types := fun name =>
  declarations.findSome? fun d =>
    match uniform? d with
    | some (type, w) =>
      if w = name.toList then properTypes.find? (·.text.toList = type) else none
    | none => none

namespace Ast

variable {Γ Δ : Types}

theorem type?_negate_eq_some {x : Ast} {t : Ty} :
    (Ast.negate x).type? Γ = some t ↔ ∃ n, x.type? Γ = some (.gen n) ∧ t = .gen n := by
  simp only [type?]
  split
  · rename_i n hn
    simp [hn, eq_comm]
  · rename_i hnone
    simp only [reduceCtorEq, false_iff]
    rintro ⟨n, hn, -⟩
    exact hnone n hn

theorem type?_binary_eq_some {operator : String} {x y : Ast} {t : Ty} :
    (Ast.binary operator x y).type? Γ = some t ↔
      ∃ a b, x.type? Γ = some a ∧ y.type? Γ = some b ∧ binaryType? operator a b = some t := by
  simp only [type?]
  cases x.type? Γ <;> cases y.type? Γ <;> simp

theorem type?_apply_eq_some {f : String} {args : List Ast} {t : Ty} :
    (Ast.apply f args).type? Γ = some t ↔
      ∃ ts, types? Γ args = some ts ∧ applyType? f ts = some t := by
  simp only [type?]
  cases types? Γ args <;> simp

theorem type?_select_eq_some {x : Ast} {component : String} {t : Ty} :
    (Ast.select x component).type? Γ = some t ↔
      ∃ u, x.type? Γ = some u ∧ selectType? u component = some t := by
  simp only [type?]
  cases x.type? Γ <;> simp

theorem types?_cons_eq_some {x : Ast} {rest : List Ast} {ts : List Ty} :
    types? Γ (x :: rest) = some ts ↔
      ∃ t us, x.type? Γ = some t ∧ types? Γ rest = some us ∧ ts = t :: us := by
  simp only [types?]
  cases x.type? Γ <;> cases types? Γ rest <;> simp [eq_comm]

mutual

theorem type?_mono (h : Γ.Within Δ) : ∀ (x : Ast) (t : Ty), x.type? Γ = some t → x.type? Δ = some t
  | .number _ _, _, hx => hx
  | .name w, t, hx => by
      simp only [type?, Option.or_eq_some_iff] at hx ⊢
      exact hx.imp_right fun hw => ⟨hw.1, h w t hw.2⟩
  | .negate x, t, hx => by
      obtain ⟨n, hn, ht⟩ := type?_negate_eq_some.mp hx
      exact type?_negate_eq_some.mpr ⟨n, type?_mono h x _ hn, ht⟩
  | .binary operator x y, t, hxy => by
      obtain ⟨a, b, ha, hb, ht⟩ := type?_binary_eq_some.mp hxy
      exact type?_binary_eq_some.mpr ⟨a, b, type?_mono h x a ha, type?_mono h y b hb, ht⟩
  | .apply f args, t, hx => by
      obtain ⟨ts, hts, ht⟩ := type?_apply_eq_some.mp hx
      exact type?_apply_eq_some.mpr ⟨ts, types?_mono h args ts hts, ht⟩
  | .select x component, t, hx => by
      obtain ⟨u, hu, ht⟩ := type?_select_eq_some.mp hx
      exact type?_select_eq_some.mpr ⟨u, type?_mono h x u hu, ht⟩
  | .index x i, t, hx => by
      simp only [type?] at hx ⊢
      exact hx
  | .group x, t, hx => by
      simp only [type?] at hx ⊢
      exact type?_mono h x t hx
  | .hole, _, hx | .integer _, _, hx | .assign _ _, _, hx | .define _ _ _, _, hx
  | .remark _ _, _, hx => absurd hx (by simp [type?])

theorem types?_mono (h : Γ.Within Δ) :
    ∀ (xs : List Ast) (ts : List Ty), types? Γ xs = some ts → types? Δ xs = some ts
  | [], _, hx => hx
  | x :: rest, ts, hx => by
      obtain ⟨t, us, ht, hus, heq⟩ := types?_cons_eq_some.mp hx
      exact types?_cons_eq_some.mpr ⟨t, us, type?_mono h x t ht, types?_mono h rest us hus, heq⟩

end

end Ast

/-! ## The judgement follows the rules -/

theorem IsLiteral.type? {x : Ast} (h : IsLiteral x) (Γ : Types) : x.type? Γ = some .float := by
  induction h with
  | fixed => rfl
  | negative => rfl
  | quotient _ ih =>
      simp only [Ast.type?, ih]
      rfl

theorem type?_pipeline (Γ : Types) {s : String} {t : Ty} (h : pipelineType? s = some t) :
    (Code.verbatim s : Ast).type? Γ = some t := by
  unfold pipelineType? at h
  split at h
  · rename_i hs
    subst hs
    cases h
    have hverbatim : (Code.verbatim "gl_TexCoord[0].xy" : Ast) = _ :=
      verbatim_eq derives_texCoord.sum_of rfl
    rw [hverbatim]
    exact Ast.type?_select_eq_some.mpr ⟨.vec4, rfl, by decide⟩
  · split at h
    · rename_i hs
      cases h
      rcases hs with rfl | rfl <;> rfl
    · split at h
      · rename_i hs
        cases h
        simp only [List.mem_cons, List.not_mem_nil, or_false] at hs
        rcases hs with rfl | rfl | rfl <;> rfl
      · exact absurd h (by simp)

/-- A name outside the pipeline has the type that it was declared with. -/
theorem Ast.type?_name {w : String} (h : ['g', 'l', '_'].isPrefixOf w.toList = false) (Γ : Types) :
    (Ast.name w).type? Γ = Γ w := by
  have hnone : pipelineVariable? w = none := by
    have hall : ∀ w ∈ ["gl_Vertex", "gl_MultiTexCoord0", "gl_Color", "gl_FrontColor",
        "gl_Position", "gl_FragColor"], ['g', 'l', '_'].isPrefixOf w.toList = true := by decide
    have hmatrix : ['g', 'l', '_'].isPrefixOf "gl_ModelViewProjectionMatrix".toList = true := by
      decide
    rw [pipelineVariable?, if_neg fun hw => absurd ((hall w hw).symm.trans h) (by simp), if_neg]
    rintro rfl
    exact absurd (hmatrix.symm.trans h) (by simp)
  rw [type?, hnone, Option.none_or]

theorem Ast.type?_identifier (name : String) (Γ : Types) :
    (Ast.name (identifier name)).type? Γ = Γ (identifier name) := by
  have hfree := (safe_identifier name).free
  simp only [Identifier.isTaken, Bool.or_eq_false_iff] at hfree
  exact type?_name hfree.1.2 Γ

theorem Ast.type?_varName (n : Nat) (Γ : Types) :
    (Ast.name (Pass.varName n)).type? Γ = Γ (Pass.varName n) :=
  type?_name (by rw [toList_varName]; rfl) Γ

theorem types?_of_forall₂ {Γ : Types} {xs : List Ast} {ts : List Ty}
    (h : List.Forall₂ (fun x t => x.type? Γ = some t) xs ts) : Ast.types? Γ xs = some ts := by
  induction h with
  | nil => rfl
  | cons hx _ ih => exact Ast.types?_cons_eq_some.mpr ⟨_, _, hx, ih, rfl⟩

/-- The tree has the type, and it is one that code can have. -/
def Ast.HasType (Γ : Types) (x : Ast) (t : Ty) : Prop := x.type? Γ = some t ∧ t ∈ properTypes

theorem judges_hasType (Γ : Types) : Judges (Ast.HasType Γ) where
  proper _ _ h := h.2
  literal f := ⟨(isLiteral_literal f).1.type? Γ, by decide⟩
  pipeline s t h := ⟨type?_pipeline Γ h, pipelineType?_proper h⟩
  apply f xs ts t h hargs := by
    refine ⟨?_, applyType?_proper h (forall₂_right (hargs.imp fun _ _ hx => hx.2))⟩
    exact Ast.type?_apply_eq_some.mpr ⟨ts, types?_of_forall₂ (hargs.imp fun _ _ hx => hx.1), h⟩
  select x letters t u _ h hx := ⟨Ast.type?_select_eq_some.mpr ⟨t, hx.1, h⟩, selectType?_proper h⟩

theorem combines_hasType (Γ : Types) (k : Kind) : Combines k (Ast.HasType Γ) (Ast.HasType Γ) where
  weaken _ _ h := h
  binary _ _ _ _ a b _ h hx hy :=
    ⟨Ast.type?_binary_eq_some.mpr ⟨a, b, hx.1, hy.1, h⟩, binaryType?_proper h hx.2 hy.2⟩

theorem Ast.HasType.mono {Γ Δ : Types} (h : Γ.Within Δ) {x : Ast} {t : Ty} (hx : x.HasType Γ t) :
    x.HasType Δ t := ⟨type?_mono h x t hx.1, hx.2⟩

/-- Only a sampler can be looked up. -/
theorem Ast.type?_of_texture2D {Γ : Types} {x y : Ast} {t : Ty}
    (h : (Ast.apply "texture2D" [x, y]).type? Γ = some t) : x.type? Γ = some .sampler := by
  obtain ⟨ts, hts, ht⟩ := type?_apply_eq_some.mp h
  obtain ⟨a, us, ha, hus, rfl⟩ := types?_cons_eq_some.mp hts
  obtain ⟨b, vs, hb, hvs, rfl⟩ := types?_cons_eq_some.mp hus
  cases hvs
  have hsampler : ∀ a b, functionType? "texture2D" [a, b] = some t → a = .sampler := by
    intro a b hab
    unfold functionType? at hab
    split at hab <;> simp_all
  rw [ha, hsampler a b ht]

/-- No sampler is a component of a vector. -/
theorem Ast.type?_vec4_sampler {Γ : Types} {x : Ast} (h : x.type? Γ = some .sampler)
    (rest : List Ast) : (Ast.apply "vec4" (x :: rest)).type? Γ = none := by
  rw [Option.eq_none_iff_forall_ne_some]
  intro t ht
  obtain ⟨ts, hts, ht⟩ := type?_apply_eq_some.mp ht
  obtain ⟨a, us, ha, -, rfl⟩ := types?_cons_eq_some.mp hts
  rw [h] at ha
  cases ha
  exact absurd ht (by simp [applyType?, constructedSize?, components?])

/-! ## Uniforms -/

theorem find?_text_eq_some {type : List Char} {t : Ty}
    (h : properTypes.find? (·.text.toList = type) = some t) : t ∈ properTypes ∧ t.text.toList = type :=
  ⟨List.mem_of_find?_eq_some h, by simpa using List.find?_some h⟩

theorem typesOf_eq_some {ds : List String} {name : String} {t : Ty} (h : typesOf ds name = some t) :
    t ∈ properTypes ∧ ∃ d ∈ ds, uniform? d = some (t.text.toList, name.toList) := by
  obtain ⟨d, hd, hread⟩ := List.exists_of_findSome?_eq_some h
  split at hread
  · rename_i type w huniform
    split at hread
    · rename_i hw
      obtain ⟨ht, htext⟩ := find?_text_eq_some hread
      exact ⟨ht, d, hd, by rw [huniform, htext, hw]⟩
    · exact absurd hread (by simp)
  · exact absurd hread (by simp)

/-- Every declaration counts where they agree with each other. -/
theorem typesOf_of_mem {ds : List String} (hds : Consistent ds) {d name : String} (hd : d ∈ ds)
    {t : Ty} (ht : t ∈ properTypes) (h : uniform? d = some (t.text.toList, name.toList)) :
    typesOf ds name = some t := by
  have hfind : ∀ t ∈ properTypes, properTypes.find? (·.text.toList = t.text.toList) = some t := by
    decide
  have hsome : (typesOf ds name).isSome := by
    rw [typesOf, List.findSome?_isSome_iff]
    exact ⟨d, hd, by simp [h, hfind t ht]⟩
  obtain ⟨u, hu⟩ := Option.isSome_iff_exists.mp hsome
  obtain ⟨hu', d', hd', hread⟩ := typesOf_eq_some hu
  have htext := hds d hd d' hd' _ _ _ h hread
  have hsame := hfind t ht
  rw [htext, hfind u hu'] at hsame
  rw [hu, hsame]

theorem typesOf_within {ds ds' : List String} (h : Consistent ds') (hsub : ∀ d ∈ ds, d ∈ ds') :
    (typesOf ds).Within (typesOf ds') := by
  intro name t hname
  obtain ⟨ht, d, hd, hread⟩ := typesOf_eq_some hname
  exact typesOf_of_mem h (hsub d hd) ht hread

/-! ## Bodies -/

/-- The names that are known after statements that check. -/
def checkAll (Γ : Types) (ts : List Ast) : Option Types := ts.foldlM Ast.check Γ

theorem checkAll_append {Γ Δ : Types} {ts : List Ast} (h : checkAll Γ ts = some Δ)
    (us : List Ast) : checkAll Γ (ts ++ us) = checkAll Δ us := by
  rw [checkAll, List.foldlM_append]
  exact (congrArg (Option.bind · fun Δ => us.foldlM Ast.check Δ) h).trans rfl

/-- A body of which every statement is read type-checks when its trees do. -/
theorem typeChecks_eq_isSome {body : List String} {ts : List Ast}
    (hread : List.Forall₂ (fun s t => statement? s = some t) body ts) :
    ∀ Γ : Types, typeChecks Γ body = (checkAll Γ ts).isSome := by
  induction hread with
  | nil => exact fun _ => rfl
  | @cons s t body ts hst _ ih =>
      intro Γ
      rw [checkAll, List.foldlM_cons, typeChecks, hst, Option.bind_some]
      cases hcheck : t.check Γ with
      | none => rfl
      | some Δ => exact ih Δ

theorem Ast.check_define_eq_some {Γ Δ : Types} {type w : String} {x : Ast} :
    (Ast.define type w x).check Γ = some Δ ↔ ∃ t, x.type? Γ = some t ∧
      (t.text = type ∧ t.isValid = true ∧ t.isOpaque = false) ∧ Δ = Γ.set w t := by
  simp only [check]
  split
  · rename_i t ht
    rw [Option.ite_none_right_eq_some]
    constructor
    · rintro ⟨hfit, hset⟩
      exact ⟨t, ht, hfit, (Option.some.inj hset).symm⟩
    · rintro ⟨u, hu, hfit, rfl⟩
      rw [ht] at hu
      cases hu
      exact ⟨hfit, rfl⟩
  · rename_i hnone
    simp [hnone]

theorem Ast.check_assign_eq_some {Γ Δ : Types} {target x : Ast} :
    (Ast.assign target x).check Γ = some Δ ↔
      (target.type? .empty = some .vec4 ∧ x.type? Γ = some .vec4) ∧ Δ = Γ := by
  simp only [check, Option.ite_none_right_eq_some, Option.some.injEq, eq_comm]

/-- Statements that check keep checking when more names are declared. -/
theorem check_mono {Γ Δ Γ' : Types} (h : Γ.Within Δ) {t : Ast} (ht : t.check Γ = some Γ') :
    ∃ Δ', t.check Δ = some Δ' ∧ Γ'.Within Δ' := by
  cases t with
  | define type w x =>
      obtain ⟨u, hu, hfit, rfl⟩ := Ast.check_define_eq_some.mp ht
      exact ⟨_, Ast.check_define_eq_some.mpr ⟨u, Ast.type?_mono h x u hu, hfit, rfl⟩, h.set w u⟩
  | assign target x =>
      obtain ⟨⟨htarget, hx⟩, rfl⟩ := Ast.check_assign_eq_some.mp ht
      exact ⟨_, Ast.check_assign_eq_some.mpr ⟨⟨htarget, Ast.type?_mono h x _ hx⟩, rfl⟩, h⟩
  | _ => exact absurd ht (by simp [Ast.check])

theorem checkAll_mono {ts : List Ast} : ∀ {Γ Δ Γ' : Types}, Γ.Within Δ → checkAll Γ ts = some Γ' →
    ∃ Δ', checkAll Δ ts = some Δ' ∧ Γ'.Within Δ' := by
  induction ts with
  | nil =>
      intro Γ Δ Γ' h hts
      cases hts
      exact ⟨Δ, rfl, h⟩
  | cons t rest ih =>
      intro Γ Δ Γ' h hts
      rw [checkAll, List.foldlM_cons] at hts
      obtain ⟨Γ₁, hcheck, hrest⟩ := Option.bind_eq_some_iff.mp hts
      obtain ⟨Δ₁, hcheck', hwithin⟩ := check_mono h hcheck
      obtain ⟨Δ', hrest', hwithin'⟩ := ih hwithin hrest
      refine ⟨Δ', ?_, hwithin'⟩
      rw [checkAll, List.foldlM_cons]
      exact Option.bind_eq_some_iff.mpr ⟨Δ₁, hcheck', hrest'⟩

/-- A name that no statement declares keeps its type. -/
theorem checkAll_of_not_defined {w : String} {ts : List Ast}
    (hw : ∀ t ∈ ts, ∀ type x, t ≠ .define type w x) :
    ∀ {Γ Δ : Types}, checkAll Γ ts = some Δ → Δ w = Γ w := by
  induction ts with
  | nil =>
      intro Γ Δ h
      cases h
      rfl
  | cons t rest ih =>
      intro Γ Δ h
      rw [checkAll, List.foldlM_cons] at h
      obtain ⟨Γ', hcheck, hrest⟩ := Option.bind_eq_some_iff.mp h
      rw [List.forall_mem_cons] at hw
      rw [ih hw.2 hrest]
      cases t with
      | define type v x =>
          have hne : w ≠ v := by
            rintro rfl
            exact hw.1 type x rfl
          obtain ⟨u, -, -, rfl⟩ := Ast.check_define_eq_some.mp hcheck
          simp only [Types.set, if_neg hne]
      | assign target x =>
          rw [(Ast.check_assign_eq_some.mp hcheck).2]
      | _ => exact absurd hcheck (by simp [Ast.check])

end NodeShader
