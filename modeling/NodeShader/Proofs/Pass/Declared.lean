import NodeShader.Proofs.Pass.Ends
import NodeShader.Proofs.Pass.Prepared
import NodeShader.Proofs.Source.Names

/-!
# What a pass declares

The declarations of a pass are those of the nodes that it has evaluated, each of them once, whatever
the numbers of the nodes and the links between them (`declaresOnce_of_run`). Each is read as a type
and an identifier. A declaration is left out only when the whole of it was there before, and so an
identifier gets two types exactly when a texture and a parameter under the name of the texture have
been evaluated (`DeclaresOnce.consistent_iff`).
-/

namespace NodeShader

namespace Kind

/-- Is this the texture? -/
def isTexture : Kind → Bool
  | .globalVar value _ => value.ty = .sampler
  | _ => false

/-- Is this a parameter that has the identifier of the texture? -/
def isNamedTexture : Kind → Bool
  | .parameter name => identifier name = Catalogue.textureUniform
  | _ => false

theorem Variant.isTexture {k k' : Kind} (h : k.Variant k') : k'.isTexture = k.isTexture := by
  cases h <;> rfl

/-- A uniform is read as its type and its name. -/
theorem uniform?_uniformText {t : Ty} (ht : t ∈ properTypes) (name : String) :
    uniform? (uniformText t.text (identifier name)) =
      some (t.text.toList, (identifier name).toList) := by
  have hword : ∀ t ∈ properTypes, lexemes t.text = [.word t.text.toList] := by decide
  exact uniform?_of_words (hword t ht) (lexemes_identifier name)

theorem IsUniform.exists_uniform? {d : String} (h : IsUniform d) :
    ∃ t name, uniform? d = some (t, (identifier name).toList) ∧
      (d = uniformText "sampler2D" Catalogue.textureUniform ∧ t = "sampler2D".toList ∧
          identifier name = Catalogue.textureUniform ∨
        d = uniformText "float" (identifier name) ∧ t = "float".toList) := by
  rcases h with rfl | ⟨name, rfl⟩
  · exact ⟨_, "texture", uniform?_uniformText (t := .sampler) (by decide) _, .inl ⟨rfl, rfl, rfl⟩⟩
  · exact ⟨_, name, uniform?_uniformText (t := .float) (by decide) _, .inr ⟨rfl, rfl⟩⟩

/-- No uniform has the name of a variable. -/
theorem IsUniform.isGenerated {d : String} (h : IsUniform d) :
    ∃ t name, uniform? d = some (t, name) ∧ Identifier.isGenerated name = false := by
  obtain ⟨t, name, hd, -⟩ := h.exists_uniform?
  exact ⟨t, _, hd, (safe_identifier name).isGenerated⟩

theorem declarations_parameter_iff {t : Ty} (ht : t ∈ properTypes) (name name' : String) :
    uniformText t.text (identifier name) ∈ (parameter name').declarations ↔
      t = .float ∧ identifier name = identifier name' := by
  rw [declarations_parameter, List.mem_singleton]
  constructor
  · intro h
    have hread := (uniform?_uniformText ht name).symm.trans ((congrArg uniform? h).trans
      (uniform?_uniformText (t := .float) (by decide) name'))
    rw [Option.some.injEq, Prod.mk.injEq] at hread
    have htext : ∀ t ∈ properTypes, t.text.toList = Ty.float.text.toList → t = .float := by decide
    exact ⟨htext t ht hread.1, String.toList_injective hread.2⟩
  · rintro ⟨rfl, h⟩
    rw [h]
    rfl

end Kind

namespace Cell.Catalogued

variable {C : Type} {c : Cell C}

/-- Only the texture declares its sampler. -/
theorem declares_sampler_iff (h : c.Catalogued) :
    Kind.uniformText "sampler2D" Catalogue.textureUniform ∈ c.kind.declarations ↔
      c.kind.isTexture = true := by
  obtain ⟨e, he, -, hvar⟩ := h
  have hall : ∀ e ∈ Catalogue.registrations,
      (Kind.uniformText "sampler2D" Catalogue.textureUniform ∈ e.initial.declarations ↔
        e.initial.isTexture = true) := by decide +kernel
  rcases hvar.texts with ⟨-, hdecl⟩ | ⟨old, name, -, hname⟩
  · rw [hdecl, hvar.isTexture]
    exact hall e he
  · rw [hname]
    refine (Kind.declarations_parameter_iff (t := .sampler) (by decide) "texture" name).trans ?_
    simp [Kind.isTexture]

/-- Only parameters declare a float under the name of the texture. -/
theorem declares_float_iff (h : c.Catalogued) :
    Kind.uniformText "float" Catalogue.textureUniform ∈ c.kind.declarations ↔
      c.kind.isNamedTexture = true := by
  obtain ⟨e, he, -, hvar⟩ := h
  have hall : ∀ e ∈ Catalogue.registrations,
      Kind.uniformText "float" Catalogue.textureUniform ∉ e.initial.declarations := by decide +kernel
  rcases hvar.texts with ⟨-, hdecl⟩ | ⟨old, name, -, hname⟩
  · have hnot := hall e he
    rw [← hdecl] at hnot
    refine iff_of_false hnot fun hnamed => hnot ?_
    cases hkind : c.kind with
    | parameter name =>
        rw [hkind, Kind.isNamedTexture, decide_eq_true_eq] at hnamed
        exact (Kind.declarations_parameter_iff (t := .float) (by decide) "texture" name).mpr
          ⟨rfl, hnamed.symm⟩
    | _ => exact absurd hnamed (by simp [hkind, Kind.isNamedTexture])
  · rw [hname]
    refine (Kind.declarations_parameter_iff (t := .float) (by decide) "texture" name).trans ?_
    rw [Kind.isNamedTexture, decide_eq_true_eq]
    exact ⟨fun hname => hname.2.symm, fun hname => ⟨rfl, hname.symm⟩⟩

end Cell.Catalogued

/-- The sampler of textures and a float are the only uniforms that can meet under one name. -/
theorem consistent_iff {ds : List String} (h : ∀ d ∈ ds, Kind.IsUniform d) :
    Consistent ds ↔ ¬ (Kind.uniformText "sampler2D" Catalogue.textureUniform ∈ ds ∧
      Kind.uniformText "float" Catalogue.textureUniform ∈ ds) := by
  constructor
  · rintro hds ⟨hsampler, hfloat⟩
    have htype := hds _ hsampler _ hfloat _ _ _
      (Kind.uniform?_uniformText (t := .sampler) (by decide) "texture")
      (Kind.uniform?_uniformText (t := .float) (by decide) "texture")
    exact absurd htype (by decide)
  · intro hclash d hd d' hd' type type' w hread hread'
    obtain ⟨t, name, hname, hcase⟩ := (h d hd).exists_uniform?
    obtain ⟨t', name', hname', hcase'⟩ := (h d' hd').exists_uniform?
    rw [hread, Option.some.injEq, Prod.mk.injEq] at hname
    rw [hread', Option.some.injEq, Prod.mk.injEq] at hname'
    obtain ⟨rfl, rfl⟩ := hname
    obtain ⟨rfl, heq⟩ := hname'
    have hsame : identifier name = identifier name' := String.toList_injective heq
    rcases hcase with ⟨rfl, rfl, htexture⟩ | ⟨rfl, rfl⟩ <;>
      rcases hcase' with ⟨rfl, rfl, htexture'⟩ | ⟨rfl, rfl⟩
    · rfl
    · rw [← hsame, htexture] at hd'
      exact absurd ⟨hd, hd'⟩ hclash
    · rw [hsame, htexture'] at hd
      exact absurd ⟨hd', hd⟩ hclash
    · rfl

/-- Declarations that are there once have a name each if they agree with each other, and only then. -/
theorem nodup_names_iff {ds : List String} (hnodup : ds.Nodup) (h : ∀ d ∈ ds, Kind.IsUniform d) :
    (ds.map uniformName?).Nodup ↔ Consistent ds := by
  rw [List.nodup_map_iff_inj_on hnodup]
  constructor
  · intro hinj d hd d' hd' type type' name hread hread'
    have hname : uniformName? d = uniformName? d' := by
      simp only [uniformName?, hread, hread', Option.map_some]
    rw [hinj d hd d' hd' hname, hread'] at hread
    exact (congrArg Prod.fst (Option.some.inj hread)).symm
  · intro hds d hd d' hd' hname
    obtain ⟨t, name, hread, hcase⟩ := (h d hd).exists_uniform?
    obtain ⟨t', name', hread', hcase'⟩ := (h d' hd').exists_uniform?
    simp only [uniformName?, hread, hread', Option.map_some, Option.some.injEq] at hname
    have hsame : identifier name = identifier name' := String.toList_injective hname
    rw [← hname] at hread'
    obtain rfl : t = t' := hds d hd d' hd' t t' _ hread hread'
    rcases hcase with ⟨rfl, rfl, -⟩ | ⟨rfl, rfl⟩ <;>
      rcases hcase' with ⟨rfl, htype, -⟩ | ⟨rfl, htype⟩
    · rfl
    · exact absurd htype (by decide)
    · exact absurd htype (by decide)
    · rw [hsame]

namespace Pass

variable {C : Type} {g : ShaderGraph} {p : Pass C}

/-! ## One node -/

theorem mem_declarations_declare (d : String) (p : Pass C) (x : String) :
    x ∈ (p.declare d).declarations ↔ x ∈ p.declarations ∨ x = d := by
  unfold declare
  split
  · rename_i hmem
    have hmem' : d ∈ p.declarations := by simpa using hmem
    constructor
    · exact .inl
    · rintro (hx | rfl)
      · exact hx
      · exact hmem'
  · simp

theorem mem_declarations_foldl (ds : List String) (p : Pass C) (x : String) :
    x ∈ (ds.foldl declare p).declarations ↔ x ∈ p.declarations ∨ x ∈ ds := by
  induction ds generalizing p with
  | nil => simp
  | cons d rest ih => simp only [List.foldl_cons, ih, mem_declarations_declare, List.mem_cons, or_assoc]

theorem nodup_declarations_foldl (ds : List String) (h : p.declarations.Nodup) :
    (ds.foldl declare p).declarations.Nodup := by
  induction ds generalizing p with
  | nil => exact h
  | cons d rest ih =>
      refine ih ?_
      unfold declare
      split
      · exact h
      · rename_i hnew
        have hd : d ∉ p.declarations := by simpa using hnew
        exact List.nodup_append_comm.mpr (List.nodup_cons.mpr ⟨hd, h⟩)

/-! ## What has been declared -/

/-- Every cell is that of an instance of a catalogue entry. -/
def Catalogued (p : Pass C) : Prop := ∀ id c, p.cell? id = some c → c.Catalogued

/-- The pass has declared what its evaluated nodes declare. -/
def Declared (p : Pass C) : Prop :=
  ∀ d, d ∈ p.declarations ↔ ∃ id, p.Evaluates (fun k => d ∈ k.declarations) id

/-- What evaluation keeps: each declaration is that of an evaluated node and is there once. -/
structure DeclaresOnce (p : Pass C) : Prop where
  catalogued : p.Catalogued
  declared : p.Declared
  nodup : p.declarations.Nodup

theorem Catalogued.isUniform (hp : p.Catalogued) (h : p.Declared) :
    ∀ d ∈ p.declarations, Kind.IsUniform d := by
  intro d hd
  obtain ⟨id, c, hc, -, hmem⟩ := (h d).mp hd
  exact (hp id c hc).declarations d hmem

/-- A texture has been evaluated, and a parameter under the name of the texture. -/
def TakesTextureName (p : Pass C) : Prop :=
  (∃ id, p.Evaluates (·.isTexture = true) id) ∧ ∃ id, p.Evaluates (·.isNamedTexture = true) id

theorem Catalogued.evaluates_congr (hp : p.Catalogued) {P Q : Kind → Prop}
    (h : ∀ c : Cell C, c.Catalogued → (P c.kind ↔ Q c.kind)) :
    (∃ id, p.Evaluates P id) ↔ ∃ id, p.Evaluates Q id :=
  exists_congr fun id => exists_congr fun c => and_congr_right fun hc =>
    and_congr_right fun _ => h c (hp id c hc)

/-- The declarations agree with each other, except when a parameter has taken the name of an evaluated
texture. -/
theorem DeclaresOnce.consistent_iff (h : p.DeclaresOnce) :
    Consistent p.declarations ↔ ¬ p.TakesTextureName := by
  rw [NodeShader.consistent_iff (h.catalogued.isUniform h.declared), h.declared, h.declared]
  exact not_congr (and_congr (h.catalogued.evaluates_congr fun _ hc => hc.declares_sampler_iff)
    (h.catalogued.evaluates_congr fun _ hc => hc.declares_float_iff))

theorem DeclaresOnce.receive (h : p.DeclaresOnce) {id : NodeId} (hopen : p.IsOpen id) (i : Nat)
    (v : Value C) : (p.mapState id (·.receive i v)).DeclaresOnce where
  catalogued j c' hc' := by
    obtain ⟨c, s, hc, rfl, -⟩ := exists_cell_of_receive hc'
    exact h.catalogued j c hc
  declared d := by
    simp only [evaluates_receive hopen]
    exact h.declared d
  nodup := h.nodup

variable [Code C]

/-- What has been declared when a node is evaluated. -/
theorem mem_declarations_evaluated {c : Cell C} (hc : c.Catalogued) (x : String) :
    x ∈ (p.evaluated c).declarations ↔ x ∈ p.declarations ∨ x ∈ c.kind.declarations := by
  show x ∈ ((c.outcome p.stage).declarations.foldl declare p).declarations ↔ _
  rw [mem_declarations_foldl, hc.declarations_outcome]

theorem declarations_bind (p : Pass C) (pin : Pin) (o : OutputSlot C) :
    (p.bind pin o).declarations = p.declarations := by
  rcases p.bind_cases pin o with ⟨-, h⟩ | ⟨-, ⟨-, h⟩ | ⟨-, h⟩⟩ <;> rw [h] <;> rfl

theorem declarations_complete (p : Pass C) (c : Cell C) :
    (p.complete c).declarations = (p.evaluated c).declarations := by
  rw [complete_eq]
  refine bindOutputs_invariant
    (I := fun q : Pass C => q.declarations = (p.evaluated c).declarations) _ 0 ?_ _ rfl
  intro j o q _ hq
  rw [declarations_bind, hq]

/-! ## Runs -/

theorem DeclaresOnce.complete (h : p.DeclaresOnce) {c : Cell C} (hcell : p.cell? c.id = some c)
    (hopen : c.state.evaluated = false) : (p.complete c).DeclaresOnce where
  catalogued j c' hc' := by
    rcases cell_of_complete hcell hc' with ⟨-, rfl⟩ | hold
    · exact h.catalogued _ c hcell
    · exact h.catalogued j c' hold
  declared d := by
    rw [declarations_complete, mem_declarations_evaluated (h.catalogued _ c hcell), h.declared d]
    simp only [evaluates_complete hcell hopen, exists_or, exists_eq_left]
  nodup := by
    rw [declarations_complete]
    exact nodup_declarations_foldl _ h.nodup

theorem declaresOnce_start (hg : g.IsCatalogued) (stage : Stage) (o : Options) :
    (start g .builtin stage o : Pass C).DeclaresOnce where
  catalogued _ _ hc := catalogued_of_mem_start hg (mem_of_cell? hc)
  declared d := by
    constructor
    · intro hd
      exact absurd hd (by simp [start])
    · rintro ⟨id, c, hc, hevaluated, -⟩
      exact absurd ((evaluated_start hc).symm.trans hevaluated) (by simp)
  nodup := List.nodup_nil

/-- A finished pass has declared what its evaluated nodes declare, each declaration once. -/
theorem declaresOnce_of_run (hg : g.IsCatalogued) {stage : Stage} {o : Options}
    (h : (start g .builtin stage o : Pass C).run g = (.ok (), p)) : p.DeclaresOnce := by
  obtain ⟨m, hm, rfl⟩ := (runs_iff.mpr h).invariant (I := DeclaresOnce)
    (fun _ _ i v hopen hp => hp.receive hopen i v)
    (fun _ _ hcell hopen hp => hp.complete hcell hopen) (declaresOnce_start hg stage o)
  exact ⟨hm.catalogued, hm.declared, hm.nodup⟩

theorem declared_of_run (hg : g.IsBuiltin) {stage : Stage} {o : Options}
    (h : (start g .builtin stage o : Pass C).run g = (.ok (), p)) : p.Prepared g ∧ p.Declared := by
  obtain ⟨m, hm, rfl⟩ := run_invariant (I := fun q : Pass C => q.Prepared g)
    (fun _ _ _ _ hp hstep => hstep.prepared hp) (orderly_start hg stage o)
    (prepared_start hg stage o) h
  exact ⟨hm, (declaresOnce_of_run hg.isCatalogued h).declared⟩

theorem isUniform_of_declared (hp : p.Prepared g) (h : p.Declared) :
    ∀ d ∈ p.declarations, Kind.IsUniform d :=
  Catalogued.isUniform (fun id c hc => (hp id c hc).entry) h

theorem consistent_iff_of_run (hg : g.IsBuiltin) {stage : Stage} {o : Options}
    (h : (start g .builtin stage o : Pass C).run g = (.ok (), p)) :
    Consistent p.declarations ↔ ¬ p.TakesTextureName :=
  (declaresOnce_of_run hg.isCatalogued h).consistent_iff

/-- A uniform is declared twice only under a texture's name. Every declaration of a finished pass reads
as a uniform, and no two of them have the same name, whatever their types, exactly when the pass has
not evaluated both a texture and a parameter whose identifier is that of the texture. -/
theorem distinct_names_iff (hg : g.IsCatalogued) (stage : Stage) (o : Options) {p : Pass}
    (h : (start g .builtin stage o : Pass).run g = (.ok (), p)) :
    (∀ d ∈ p.declarations, (uniform? d).isSome = true) ∧
    ((p.declarations.map uniformName?).Nodup ↔ ¬ p.TakesTextureName) := by
  have hp := declaresOnce_of_run hg h
  have huniform := hp.catalogued.isUniform hp.declared
  refine ⟨fun d hd => ?_, ?_⟩
  · obtain ⟨t, name, hread, -⟩ := (huniform d hd).exists_uniform?
    rw [hread]
    rfl
  · rw [nodup_names_iff hp.nodup huniform, hp.consistent_iff]

theorem distinct_names_tinted :
    ∃ p : Pass, (start .tinted .builtin .fragment {} : Pass).run .tinted = (.ok (), p) ∧
      p.declarations.length = 2 ∧ (p.declarations.map uniformName?).Nodup ∧
      ¬ p.TakesTextureName := by
  obtain ⟨p, hrun, huniforms, -⟩ := exists_run_tinted
  have hnames : (p.declarations.map uniformName?).Nodup := by
    rw [huniforms]
    decide
  have hiff := (distinct_names_iff Graph.isBuiltin_tinted.isCatalogued .fragment {} hrun).2
  exact ⟨p, hrun, by rw [huniforms]; rfl, hnames, hiff.mp hnames⟩

/-- There are built-in graphs of which the pass declares one name twice, with two types: a parameter
called `texture` gets the name of the sampler. -/
theorem not_distinct_names_shadowed :
    Graph.shadowed.IsBuiltin ∧
    ∃ p : Pass, (start .shadowed .builtin .fragment {} : Pass).run .shadowed = (.ok (), p) ∧
      p.declarations.Nodup ∧ ¬ (p.declarations.map uniformName?).Nodup := by
  have hrun : ((start .shadowed .builtin .fragment {} : Pass).run .shadowed).1 = .ok () ∧
      ((start .shadowed .builtin .fragment {} : Pass).run .shadowed).2.declarations =
        ["uniform sampler2D _texture;", "uniform float _texture;"] := by decide +kernel
  have hclash : ["uniform sampler2D _texture;", "uniform float _texture;"].Nodup ∧
      ¬ (["uniform sampler2D _texture;", "uniform float _texture;"].map uniformName?).Nodup := by
    decide
  exact ⟨Graph.isBuiltin_shadowed, _, run_eq_ok hrun.1, hrun.2 ▸ hclash⟩

end Pass

end NodeShader
