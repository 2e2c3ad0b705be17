import NodeShader.Proofs.Pass.Declared
import NodeShader.Proofs.Pass.Grouping
import NodeShader.Proofs.Source.Typing

/-!
# Generated code is well typed

Values carry their types beside their code, and a pass trusts these types. They are right: by the
time a value is kept, the uniforms and variables it mentions have been declared with types under
which its code has the type that it carries (`TypedBy`). Declaring a variable adds a name that was
free, and declaring uniforms adds names too, as long as no uniform gets two types.

That can happen in one way. A parameter can have the identifier of the texture, although it is made
to be no name of generated code; the sampler and the parameter are then declared under one name.
Apart from these passes, everything that is written type-checks.
-/

namespace NodeShader

/-- Assignments of four components to variables of the pipeline check, and declare nothing. -/
theorem checkAll_assignments {Γ : Types} {ts : List Ast}
    (h : ∀ t ∈ ts, IsTypedAssignment (Ast.HasType Γ) t) : checkAll Γ ts = some Γ := by
  have htargets : ∀ target ∈ Kind.targets,
      ((parse target).getD .hole).type? .empty = some .vec4 := by decide
  induction ts with
  | nil => rfl
  | cons t rest ih =>
      rw [List.forall_mem_cons] at h
      obtain ⟨⟨target, htarget, x, rfl, hx⟩, hrest⟩ := h
      have hcheck : Ast.check Γ (Code.assign target x) = some Γ :=
        Ast.check_assign_eq_some.mpr ⟨⟨htargets target htarget, hx.1⟩, rfl⟩
      rw [checkAll, List.foldlM_cons, hcheck]
      exact ih hrest

namespace Pass

/-- After the statements of the body the names have these types, and under them the code of every
value that is kept has the type of the value. -/
structure TypedBy (p : Pass Ast) (Δ : Types) : Prop where
  uniforms : ∀ d ∈ p.declarations, Kind.IsUniform d
  locals : ∀ t ∈ p.body, ∀ type w x, t = .define type w x → ∃ n < p.nextVar, w = varName n
  body : checkAll (typesOf p.declarations) p.body = some Δ
  memo : ∀ out v, p.memo.lookup out = some v → v.code.HasType Δ v.ty

namespace TypedBy

variable {g : ShaderGraph} {p : Pass Ast} {Δ : Types}

/-! ## Names -/

/-- Variables are the only names that the body declares. -/
theorem eq_typesOf (h : p.TypedBy Δ) {w : String} (hw : ∀ n < p.nextVar, w ≠ varName n) :
    Δ w = typesOf p.declarations w := by
  refine checkAll_of_not_defined ?_ h.body
  rintro t ht type x rfl
  obtain ⟨n, hn, heq⟩ := h.locals _ ht type w x rfl
  exact hw n hn heq

/-- The next variable is free. -/
theorem eq_none (h : p.TypedBy Δ) : Δ (varName p.nextVar) = none := by
  rw [h.eq_typesOf fun n hn heq => absurd (varName_injective (congrArg String.toList heq)) (by omega)]
  rw [Option.eq_none_iff_forall_ne_some]
  intro t ht
  obtain ⟨-, d, hd, hread⟩ := typesOf_eq_some ht
  obtain ⟨type, name, hname, hgenerated⟩ := (h.uniforms d hd).isGenerated
  rw [hread, Option.some.injEq, Prod.mk.injEq] at hname
  rw [← hname.2, isGenerated_varName] at hgenerated
  exact absurd hgenerated (by simp)

/-- A uniform has the type that it is declared with. -/
theorem hasType_uniform (h : p.TypedBy Δ) (hds : Consistent p.declarations) {t : Ty}
    (ht : t ∈ properTypes) {name : String}
    (hmem : Kind.uniformText t.text (identifier name) ∈ p.declarations) :
    (Code.verbatim (identifier name) : Ast).HasType Δ t := by
  have hvar : ∀ n < p.nextVar, identifier name ≠ varName n := by
    intro n _ heq
    have hgenerated := isGenerated_varName n
    rw [← heq, (safe_identifier name).isGenerated] at hgenerated
    exact absurd hgenerated (by simp)
  refine ⟨?_, ht⟩
  rw [verbatim_name (isName_identifier name), Ast.type?_identifier, h.eq_typesOf hvar]
  exact typesOf_of_mem hds hmem ht (Kind.uniform?_uniformText ht name)

/-! ## Growing passes -/

/-- More uniforms can be declared, as long as they agree with each other. -/
theorem declare (h : p.TypedBy Δ) {ds : List String} (hsub : ∀ d ∈ p.declarations, d ∈ ds)
    (huniforms : ∀ d ∈ ds, Kind.IsUniform d) (hds : Consistent ds) :
    ∃ Δ', Δ.Within Δ' ∧ TypedBy { p with declarations := ds } Δ' := by
  obtain ⟨Δ', hbody, hwithin⟩ := checkAll_mono (typesOf_within hds hsub) h.body
  exact ⟨Δ', hwithin, huniforms, h.locals, hbody, fun out v hv => (h.memo out v hv).mono hwithin⟩

theorem remember (h : p.TypedBy Δ) (pin : Pin) {v : Value Ast} (hv : v.code.HasType Δ v.ty) :
    (p.remember pin v).TypedBy Δ := by
  refine { h with memo := ?_ }
  intro out w hw
  simp only [Pass.remember, List.lookup_cons] at hw
  split at hw
  · cases hw
    exact hv
  · exact h.memo out w hw

/-- A variable gets exactly the type of its value. -/
theorem hoist (h : p.TypedBy Δ) (pin : Pin) {o : OutputSlot Ast} (hvalid : o.value.isValid = true)
    (hclear : o.value.ty.isOpaque = false) (hvalue : o.value.code.HasType Δ o.value.ty) :
    (p.hoist pin o).TypedBy (Δ.set (varName p.nextVar) o.value.ty) := by
  have hwithin := Types.within_set h.eq_none o.value.ty
  refine ⟨h.uniforms, ?_, ?_, ?_⟩
  · refine List.forall_mem_append.mpr ⟨fun t ht type w x heq => ?_, ?_⟩
    · obtain ⟨n, hn, hw⟩ := h.locals t ht type w x heq
      exact ⟨n, Nat.lt_succ_of_lt hn, hw⟩
    · rw [List.forall_mem_singleton]
      rintro type w x heq
      cases heq
      exact ⟨p.nextVar, Nat.lt_succ_self _, rfl⟩
  · show checkAll (typesOf p.declarations) (p.body ++ [varDeclaration p.nextVar o.value]) = _
    rw [checkAll_append h.body, checkAll, List.foldlM_cons]
    have hcheck : Ast.check Δ (varDeclaration p.nextVar o.value) =
        some (Δ.set (varName p.nextVar) o.value.ty) :=
      Ast.check_define_eq_some.mpr ⟨_, hvalue.1, ⟨rfl, hvalid, hclear⟩, rfl⟩
    rw [hcheck]
    rfl
  · intro out v hv
    simp only [Pass.hoist, List.lookup_cons] at hv
    split at hv
    · cases hv
      refine ⟨?_, hvalue.2⟩
      show Ast.type? _ (Code.verbatim (varName p.nextVar)) = _
      rw [verbatim_name (isName_varName _), Ast.type?_varName, Types.set, if_pos rfl]
    · exact (h.memo out v hv).mono hwithin

theorem bind (h : p.TypedBy Δ) (pin : Pin) {o : OutputSlot Ast}
    (hvalue : o.value.Typed (Ast.HasType Δ)) :
    ∃ Δ', Δ.Within Δ' ∧ (p.bind pin o).TypedBy Δ' := by
  rcases p.bind_cases pin o with ⟨-, hbind⟩ | ⟨hvalid, ⟨-, hbind⟩ | ⟨hclear, hbind⟩⟩ <;> rw [hbind]
  · exact ⟨Δ, fun _ _ hw => hw, h⟩
  · exact ⟨Δ, fun _ _ hw => hw, h.remember pin (hvalue hvalid)⟩
  · exact ⟨_, Types.within_set h.eq_none _, h.hoist pin hvalid hclear (hvalue hvalid)⟩

/-! ## Completing a node -/

/-- The pass after the declarations and statements of a node, when these declarations agree with the
earlier ones; what the node offers is typed then. -/
theorem evaluated (h : p.TypedBy Δ) {c : Cell Ast} (hc : c.Prepared g)
    (hopen : c.state.evaluated = false) (hfilled : p.Filled g c c.state.inputs.length)
    (hds : Consistent (p.evaluated c).declarations) :
    ∃ Δ', (p.evaluated c).TypedBy Δ' ∧ (p.finished c).OutputsTyped (Ast.HasType Δ') := by
  have hmem := mem_declarations_evaluated (p := p) hc.entry
  obtain ⟨Δ', hwithin, hdeclared⟩ := h.declare (fun d hd => (hmem d).mpr (.inl hd))
    (fun d hd => ((hmem d).mp hd).elim (h.uniforms d) (hc.entry.declarations d)) hds
  have hin : ∀ slot ∈ c.state.inputs, slot.value.Typed (Ast.HasType Δ') := by
    intro slot hslot hvalid
    rcases hfilled.value hslot with hnull | ⟨out, hout⟩
    · exact absurd hvalid (by rw [hnull, Value.isValid_null]; simp)
    · exact (h.memo out _ hout).mono hwithin
  have huniform : ∀ t ∈ properTypes, ∀ s ∈ c.kind.texts,
      Kind.uniformText t.text s ∈ c.kind.declarations → (Code.verbatim s : Ast).HasType Δ' t := by
    intro t ht s hs hd
    rcases hc.texts s hs with ⟨-, hnone⟩ | ⟨name, rfl, -⟩
    · exact absurd hd (by simp [hnone])
    · exact hdeclared.hasType_uniform hds ht ((hmem _).mpr (.inr hd))
  obtain ⟨-, houtputs, hstatements⟩ := hc.outcome_typed hopen (judges_hasType Δ')
    (combines_hasType Δ' c.kind) hin huniform p.stage
  refine ⟨Δ', ⟨hdeclared.uniforms, ?_, ?_, hdeclared.memo⟩, houtputs⟩
  · refine List.forall_mem_append.mpr ⟨h.locals, fun t ht type w x heq => ?_⟩
    obtain ⟨target, -, y, rfl, -⟩ := hstatements t ht
    exact absurd heq (by rintro ⟨⟩)
  · exact (checkAll_append hdeclared.body _).trans (checkAll_assignments hstatements)

/-- Completing a node keeps code typed, when the declarations agree with each other. -/
theorem complete (h : p.TypedBy Δ) {c : Cell Ast} (hc : c.Prepared g)
    (hopen : c.state.evaluated = false) (hfilled : p.Filled g c c.state.inputs.length)
    (hds : Consistent (p.complete c).declarations) : ∃ Δ', (p.complete c).TypedBy Δ' := by
  rw [declarations_complete] at hds
  obtain ⟨Δ₀, hevaluated, houtputs⟩ := h.evaluated hc hopen hfilled hds
  rw [complete_eq]
  -- what was typed before an output is bound stays typed after it
  obtain ⟨Δ', -, htyped⟩ := bindOutputs_invariant
    (I := fun q : Pass Ast => ∃ Δ', Δ₀.Within Δ' ∧ q.TypedBy Δ') (p.finished c).outputs 0
    (fun j o q ho ⟨Δ₁, hwithin, hq⟩ => by
      have hvalue : o.value.Typed (Ast.HasType Δ₁) :=
        (houtputs o (List.mem_of_getElem? ho)).mono fun _ _ hx => hx.mono hwithin
      obtain ⟨Δ₂, hwithin', hbound⟩ := hq.bind (.output c.id (0 + j)) hvalue
      exact ⟨Δ₂, fun w t hw => hwithin' w t (hwithin w t hw), hbound⟩)
    (p.evaluated c) ⟨Δ₀, fun _ _ hw => hw, hevaluated⟩
  exact ⟨Δ', htyped⟩

end TypedBy

variable {g : ShaderGraph} {root : NodeId}

/-! ## Runs -/

/-- The code of a pass is typed, unless its declarations disagree. -/
def IsTyped (p : Pass Ast) : Prop := Consistent p.declarations → ∃ Δ, p.TypedBy Δ

theorem IsTyped.step {p q : Pass Ast} (hp : p.Prepared g) (h : p.IsTyped)
    (hstep : Step g root p q) : q.IsTyped := by
  intro hds
  cases hstep with
  | receive i hcell hopen hready =>
      obtain ⟨Δ, htyped⟩ := h hds
      exact ⟨Δ, htyped.uniforms, htyped.locals, htyped.body, htyped.memo⟩
  | @complete c hcell hopen hup hfilled =>
      have hc := hp _ c hcell
      have hbefore : Consistent p.declarations := hds.mono fun d hd => by
        rw [declarations_complete]
        exact (mem_declarations_evaluated hc.entry d).mpr (.inl hd)
      obtain ⟨Δ, htyped⟩ := h hbefore
      exact htyped.complete hc hopen hfilled hds

theorem isTyped_start (g : ShaderGraph) (stage : Stage) (o : Options) :
    (start g .builtin stage o : Pass Ast).IsTyped := fun _ =>
  ⟨typesOf [], fun d hd => absurd hd (by simp [start]), fun t ht => absurd ht (by simp [start]), rfl,
    fun out v hv => absurd hv (by simp [start])⟩

theorem isTyped_of_run (hg : g.IsBuiltin) {stage : Stage} {o : Options} {q : Pass Ast}
    (h : (start g .builtin stage o : Pass Ast).run g = (.ok (), q)) : q.IsTyped := by
  obtain ⟨m, ⟨-, hm⟩, rfl⟩ := run_invariant (I := fun r : Pass Ast => r.Prepared g ∧ r.IsTyped)
    (fun _ _ _ _ hp hstep => ⟨hstep.prepared hp.1, hp.2.step hp.1 hstep⟩)
    (orderly_start hg stage o) ⟨prepared_start hg stage o, isTyped_start g stage o⟩ h
  intro hds
  obtain ⟨Δ, htyped⟩ := hm hds
  exact ⟨Δ, htyped.uniforms, htyped.locals, htyped.body, htyped.memo⟩

/-- The statements of a finished pass type-check where its declarations agree with each other. -/
theorem typeChecks_of_consistent (hg : g.IsBuiltin) {stage : Stage} {o : Options} {p : Pass}
    (h : (start g .builtin stage o : Pass).run g = (.ok (), p)) (hds : Consistent p.declarations) :
    typeChecks (typesOf p.declarations) p.body = true := by
  obtain ⟨q, hrun, hrelated, hgrouped⟩ := exists_trees_of_run hg h
  rw [hrelated.declarations] at hds ⊢
  obtain ⟨Δ, htyped⟩ := isTyped_of_run hg hrun hds
  have hread : List.Forall₂ (fun s t => statement? s = some t) p.body q.body := by
    refine (forall₂_and_right hrelated.body hgrouped.body).imp ?_
    rintro s t ⟨rfl, ht⟩
    exact ht
  rw [typeChecks_eq_isSome hread, htyped.body]
  rfl

/-- Generated code is well typed, except under a texture's name. The uniforms of a finished pass have
one type each and its statements type-check under these types, one after the other, exactly when the
pass has not evaluated both a texture and a parameter whose identifier is that of the texture. -/
theorem wellTyped_iff (hg : g.IsBuiltin) (stage : Stage) (o : Options) {p : Pass}
    (h : (start g .builtin stage o : Pass).run g = (.ok (), p)) :
    Consistent p.declarations ∧ typeChecks (typesOf p.declarations) p.body = true ↔
      ¬ p.TakesTextureName := by
  rw [← consistent_iff_of_run hg h]
  exact ⟨fun hboth => hboth.1, fun hds => ⟨hds, typeChecks_of_consistent hg h hds⟩⟩

theorem wellTyped_tinted :
    ∃ p : Pass, (start .tinted .builtin .fragment {} : Pass).run .tinted = (.ok (), p) ∧
      ¬ p.TakesTextureName ∧ p.declarations.length = 2 ∧ p.body.length = 5 ∧
      Consistent p.declarations ∧ typeChecks (typesOf p.declarations) p.body = true := by
  obtain ⟨p, hrun, huniforms, hlength, -, -⟩ := exists_run_tinted
  have hfree : ¬ p.TakesTextureName := by
    obtain ⟨hprepared, hnodes⟩ := declared_of_run Graph.isBuiltin_tinted hrun
    rw [← consistent_iff_of_run Graph.isBuiltin_tinted hrun,
      consistent_iff (isUniform_of_declared hprepared hnodes), huniforms]
    decide
  exact ⟨p, hrun, hfree, by rw [huniforms]; rfl, hlength,
    (wellTyped_iff Graph.isBuiltin_tinted .fragment {} hrun).mpr hfree⟩

/-- There are built-in graphs of which the code does not type-check, whatever types the names have: a
parameter called `texture` gets the name under which the texture is looked up. -/
theorem not_typeChecks_shadowed :
    Graph.shadowed.IsBuiltin ∧
    ∃ p : Pass, (start .shadowed .builtin .fragment {} : Pass).run .shadowed = (.ok (), p) ∧
      p.declarations = ["uniform sampler2D _texture;", "uniform float _texture;"] ∧
      ∀ Γ, typeChecks Γ p.body = false := by
  have hrun : ((start .shadowed .builtin .fragment {} : Pass).run .shadowed).1 = .ok () ∧
      ((start .shadowed .builtin .fragment {} : Pass).run .shadowed).2.declarations =
        ["uniform sampler2D _texture;", "uniform float _texture;"] ∧
      ((start .shadowed .builtin .fragment {} : Pass).run .shadowed).2.body =
        ["vec4 var0 = texture2D(_texture, gl_TexCoord[0].xy);",
          "vec4 var1 = var0 * vec4(_texture, _texture, _texture, _texture);",
          "gl_FragColor = var1;"] := by decide +kernel
  refine ⟨Graph.isBuiltin_shadowed, _, run_eq_ok hrun.1, hrun.2.1, fun Γ => ?_⟩
  have hread : List.Forall₂ (fun s t => statement? s = some t)
      ["vec4 var0 = texture2D(_texture, gl_TexCoord[0].xy);",
        "vec4 var1 = var0 * vec4(_texture, _texture, _texture, _texture);", "gl_FragColor = var1;"]
      [.define "vec4" "var0" (.apply "texture2D"
          [.name "_texture", .select (.index (.name "gl_TexCoord") (.integer "0")) "xy"]),
        .define "vec4" "var1" (.binary "*" (.name "var0") (.apply "vec4"
          [.name "_texture", .name "_texture", .name "_texture", .name "_texture"])),
        .assign (.name "gl_FragColor") (.name "var1")] :=
    .cons rfl (.cons rfl (.cons rfl .nil))
  rw [hrun.2.2, typeChecks_eq_isSome hread, Option.isSome_eq_false_iff, Option.isNone_iff_eq_none,
    Option.eq_none_iff_forall_ne_some]
  intro Δ h
  -- the first statement makes the name a sampler, which the second puts into a vector
  obtain ⟨Γ₁, hfirst, hrest⟩ := Option.bind_eq_some_iff.mp h
  obtain ⟨Γ₂, hsecond, -⟩ := Option.bind_eq_some_iff.mp hrest
  obtain ⟨t, ht, -, rfl⟩ := Ast.check_define_eq_some.mp hfirst
  obtain ⟨u, hu, -, rfl⟩ := Ast.check_define_eq_some.mp hsecond
  obtain ⟨a, b, -, hb, -⟩ := Ast.type?_binary_eq_some.mp hu
  have hkept : (Ast.name "_texture").type? (Γ.set "var0" t) = (Ast.name "_texture").type? Γ := by
    rw [Ast.type?_name (by decide), Ast.type?_name (by decide), Types.set, if_neg (by decide)]
  rw [Ast.type?_vec4_sampler (hkept.trans (Ast.type?_of_texture2D ht))] at hb
  exact absurd hb (by simp)

end Pass

end NodeShader
