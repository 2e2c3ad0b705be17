import NodeShader.Proofs.Pass.Declared

/-!
# Generated code is well scoped

Variables are numbered as they are declared, uniforms are declared by the nodes that mention them,
and whatever the memo holds mentions nothing else but names of the language. `Scoped` is kept by
every step of a pass: a node builds its outputs from texts of the memo, its own names are declared
before its outputs are bound, and a variable is declared by the statement that first could be
followed by a use of it.
-/

namespace NodeShader.Pass

/-- The names of the first variables. -/
def variableNames (n : Nat) : List (List Char) := (List.range n).map fun k => (varName k).toList

/-- Every name of the text is visible at the end of the body. -/
def NamesVisible (p : Pass) (s : String) : Prop :=
  ∀ w ∈ namesIn s, Visible p.declarations (variableNames p.nextVar) w

/-- The pass has declared what it mentions. -/
structure Scoped (p : Pass) : Prop where
  counted : p.stats.hoisted = p.nextVar
  declared : p.body.filterMap declared? = variableNames p.nextVar
  body : WellScoped p.declarations p.body
  memo : ∀ out v, p.memo.lookup out = some v → v.ty ∈ properTypes ∧ p.NamesVisible v.code

variable {g : ShaderGraph} {p q : Pass} {root : NodeId}

/-! ## Names in the constructions of nodes -/

theorem namesVisible_of_language {s : String} (h : ∀ w ∈ namesIn s, isLanguageName w = true) :
    p.NamesVisible s := fun w hw => .inl (h w hw)

/-- The head of an application is a name of the language. -/
theorem namesVisible_of_head {f : String} (hf : f ∈ Kind.vectorNames ++ Reserved.functionNames) :
    p.NamesVisible f := by
  have hword : ∀ f ∈ Kind.vectorNames ++ Reserved.functionNames,
      lexemes f = [.word f.toList] ∧ Lexeme.startsWithDigit f.toList = false := by decide +kernel
  have hvectors : ∀ f ∈ Kind.vectorNames, f ∈ Reserved.typeNames := by decide
  refine namesVisible_of_language fun w hw => ?_
  rw [namesIn_word (hword f hf).1 (hword f hf).2, List.mem_singleton] at hw
  subst hw
  exact isLanguageName_of_mem ((List.mem_append.mp hf).imp_left (hvectors f))

/-- That all names are visible is kept by every construction that a node uses, once its uniforms are
declared. -/
theorem respects_namesVisible {c : Cell} (hc : c.Prepared g)
    (hdeclared : ∀ d ∈ c.kind.declarations, d ∈ p.declarations) :
    Respects c.kind (fun s _ => p.NamesVisible s) (fun s _ => p.NamesVisible s)
      (fun s (_ : String) => p.NamesVisible s) where
  given := hc.isTemplate
  weaken _ _ h := h
  blank := namesVisible_of_language (by decide)
  literal f := namesVisible_of_language (by
    show ∀ w ∈ namesIn (literalText f), _
    rw [namesIn_literalText]
    simp)
  verbatim s hs := by
    show p.NamesVisible s
    rcases hc.texts s hs with ⟨hpipe, -⟩ | ⟨name, rfl, t, ht, hmem⟩
    · have hall : ∀ s ∈ Kind.pipelineTexts, ∀ w ∈ namesIn s, isLanguageName w = true := by decide
      exact namesVisible_of_language (hall s hpipe)
    · intro w hw
      rw [namesIn_identifier, List.mem_singleton] at hw
      subst hw
      exact .inr (.inl ⟨_, hdeclared _ hmem, _, Kind.uniform?_uniformText ht name⟩)
  binary operator hop x _ y _ hx hy := by
    intro w hw
    rw [namesIn_binary (hc.operators operator hop)] at hw
    exact (List.mem_append.mp hw).elim (hx w) (hy w)
  apply f hf xs xs' hxs := by
    have hhead : p.NamesVisible f := namesVisible_of_head
      ((List.mem_append.mp hf).elim (List.mem_append_left _) (hc.heads f))
    have hargs : ∀ x ∈ xs, p.NamesVisible x :=
      ((List.forall₂_and_left xs xs').mp (hxs.imp fun _ _ h => ⟨h, trivial⟩)).1
    intro w hw
    rw [namesIn_apply] at hw
    rcases List.mem_append.mp hw with hw | hw
    · exact hhead w hw
    · obtain ⟨x, hx, hw⟩ := List.mem_flatMap.mp hw
      exact hargs x hx w hw
  select letter hletter x _ hx := by
    have hall : ∀ s ∈ Kind.swizzles, lexemes s = [.word s.toList] := by decide
    intro w hw
    rw [namesIn_select (hall letter hletter)] at hw
    exact hx w hw
  assign target ht x _ hx := by
    have hall : ∀ s ∈ Kind.targets, ∀ w ∈ namesIn s, isLanguageName w = true := by decide
    intro w hw
    rw [namesIn_assign] at hw
    exact (List.mem_append.mp hw).elim (fun h => .inl (hall target ht w h)) (hx w)

/-! ## Growing passes -/

theorem variableNames_succ (n : Nat) :
    variableNames (n + 1) = variableNames n ++ [(varName n).toList] := by
  simp [variableNames, List.range_succ]

theorem mem_variableNames_of_le {m n : Nat} (h : m ≤ n) {w : List Char}
    (hw : w ∈ variableNames m) : w ∈ variableNames n := by
  obtain ⟨k, hk, rfl⟩ := List.mem_map.mp hw
  exact List.mem_map.mpr ⟨k, List.mem_range.mpr (by have := List.mem_range.mp hk; omega), rfl⟩

theorem NamesVisible.mono (hd : ∀ d ∈ p.declarations, d ∈ q.declarations)
    (hn : p.nextVar ≤ q.nextVar) {s : String} (h : p.NamesVisible s) : q.NamesVisible s :=
  fun w hw => (h w hw).mono hd fun _ => mem_variableNames_of_le hn

/-- The types of variables have names of the language. -/
theorem typeName_of_proper {t : Ty} (ht : t ∈ properTypes) (hclear : t.isOpaque = false) :
    t.isValid = true ∧ isLanguageName t.text.toList = true ∧
      Lexeme.startsWithDigit t.text.toList = false := by
  have hall : ∀ t ∈ properTypes, t.isOpaque = false → t.isValid = true ∧
      t.text ∈ Reserved.typeNames ∧ Lexeme.startsWithDigit t.text.toList = false := by
    decide +kernel
  obtain ⟨hvalid, hname, hdigit⟩ := hall t ht hclear
  exact ⟨hvalid, isLanguageName_of_mem (.inl hname), hdigit⟩

/-- A variable is declared after everything its initialiser mentions. -/
theorem Scoped.hoist (h : p.Scoped) (pin : Pin) {o : OutputSlot} (hty : o.value.ty ∈ properTypes)
    (hclear : o.value.ty.isOpaque = false) (hnames : p.NamesVisible o.value.code) :
    (p.hoist pin o).Scoped := by
  obtain ⟨hvalid, hname, hdigit⟩ := typeName_of_proper hty hclear
  have hgrow : ∀ {s : String}, p.NamesVisible s → (p.hoist pin o).NamesVisible s :=
    NamesVisible.mono (p := p) (q := p.hoist pin o) (fun _ hd => hd) (Nat.le_succ _)
  refine ⟨congrArg (· + 1) h.counted, ?_, ?_, ?_⟩
  · show (p.body ++ [varDeclaration p.nextVar o.value]).filterMap declared? = _
    rw [List.filterMap_append, h.declared]
    simp only [varDeclaration, List.filterMap_cons, declared?_define hvalid hclear,
      List.filterMap_nil]
    exact (variableNames_succ p.nextVar).symm
  · refine h.body.concat ?_
    intro w hw
    rw [varDeclaration, namesUsed_define hvalid hclear hdigit] at hw
    rw [h.declared]
    rcases List.mem_cons.mp hw with rfl | hw
    · exact .inl hname
    · exact hnames w hw
  · intro out v hv
    simp only [Pass.hoist, List.lookup_cons] at hv
    split at hv
    · cases hv
      refine ⟨hty, fun w hw => .inr (.inr ?_)⟩
      have hvar : w ∈ namesIn (varName p.nextVar) := hw
      rw [namesIn_varName, List.mem_singleton] at hvar
      show w ∈ variableNames (p.nextVar + 1)
      rw [variableNames_succ, hvar]
      exact List.mem_append_right _ (List.mem_singleton_self _)
    · obtain ⟨htyped, hvisible⟩ := h.memo out v hv
      exact ⟨htyped, hgrow hvisible⟩

theorem Scoped.bind (h : p.Scoped) (pin : Pin) {o : OutputSlot}
    (hty : o.value.isValid = true → o.value.ty ∈ properTypes) (hnames : p.NamesVisible o.value.code) :
    (p.bind pin o).Scoped ∧ (p.bind pin o).declarations = p.declarations ∧
      p.nextVar ≤ (p.bind pin o).nextVar := by
  rcases p.bind_cases pin o with ⟨-, hbind⟩ | ⟨hvalid, ⟨-, hbind⟩ | ⟨hclear, hbind⟩⟩ <;> rw [hbind]
  · exact ⟨h, rfl, Nat.le_refl _⟩
  · refine ⟨{ h with memo := ?_ }, rfl, Nat.le_refl _⟩
    intro out v hv
    simp only [remember, List.lookup_cons] at hv
    split at hv
    · cases hv
      exact ⟨hty hvalid, hnames⟩
    · exact h.memo out v hv
  · exact ⟨h.hoist pin (hty hvalid) hclear hnames, rfl, Nat.le_succ _⟩

/-! ## Completing a node -/

/-- A completed node mentions what was visible before and what it declares itself. -/
theorem Scoped.outcome (h : p.Scoped) {c : Cell} (hc : c.Prepared g)
    (hopen : c.state.evaluated = false) (hfilled : p.Filled g c c.state.inputs.length) :
    (∀ o ∈ (c.outcome p.stage).state.outputs, (p.evaluated c).NamesVisible o.value.code) ∧
      ∀ s ∈ (c.outcome p.stage).statements, (p.evaluated c).NamesVisible s := by
  have hrespects := respects_namesVisible (p := p.evaluated c) hc
    fun d hd => (mem_declarations_evaluated hc.entry d).mpr (.inr hd)
  have hgrow : ∀ {s : String}, p.NamesVisible s → (p.evaluated c).NamesVisible s :=
    NamesVisible.mono (fun d hd => (mem_declarations_evaluated hc.entry d).mpr (.inl hd)) (Nat.le_refl _)
  have hrelated := Cell.outcome_related hrespects rfl rfl
    (hc.related hc rfl hopen hopen hrespects.blank fun i slot slot' hslot hslot' => by
      rw [hslot, Option.some.injEq] at hslot'
      subst hslot'
      refine ⟨rfl, ?_⟩
      rcases hfilled.value (List.mem_of_getElem? hslot) with hnull | ⟨out, hout⟩
      · rw [hnull]
        exact hrespects.blank
      · exact hgrow (h.memo out _ hout).2) p.stage
  refine ⟨fun o ho => ?_, fun s hs => ?_⟩
  · have hall := (List.forall₂_and_left _ _).mp
      (hrelated.state.outputs.imp fun _ _ hslot => ⟨hslot.value.code, trivial⟩)
    exact hall.1 o ho
  · have hall := (List.forall₂_and_left _ _).mp
      (hrelated.statements.imp fun _ _ hs => ⟨hs, trivial⟩)
    exact hall.1 s hs

/-- Completing a node keeps the body well scoped. -/
theorem Scoped.complete (h : p.Scoped) {c : Cell} (hc : c.Prepared g)
    (hopen : c.state.evaluated = false) (hfilled : p.Filled g c c.state.inputs.length) :
    (p.complete c).Scoped := by
  obtain ⟨houtputs, hstatements⟩ := h.outcome hc hopen hfilled
  have hmem := mem_declarations_evaluated (p := p) hc.entry
  have hassign := (Cell.statements_outcome hc.isTemplate p.stage).2
  have hnone : ∀ s ∈ (c.outcome p.stage).statements, declared? s = none := by
    intro s hs
    obtain ⟨target, htarget, y, rfl⟩ := hassign s hs
    exact declared?_assign htarget y
  have htyped : (c.outcome p.stage).state.OutputsTyped fun _ t => t ∈ properTypes := by
    refine (hc.outcome_typed hopen judges_proper (combines_proper _) ?_ (fun t ht _ _ _ => ht) p.stage).2.1
    intro slot hslot hvalid
    rcases hfilled.value hslot with hnull | ⟨out, hout⟩
    · exact absurd hvalid (by rw [hnull, Value.isValid_null]; simp)
    · exact (h.memo out _ hout).1
  have hevaluated : (p.evaluated c).Scoped := by
    refine ⟨h.counted, ?_, ?_, ?_⟩
    · show (p.body ++ (c.outcome p.stage).statements).filterMap declared? = _
      rw [List.filterMap_append, h.declared, List.filterMap_eq_nil_iff.mpr hnone, List.append_nil]
      rfl
    · refine (h.body.mono fun d hd => (hmem d).mpr (.inl hd)).append hnone ?_
      intro s hs w hw
      obtain ⟨target, htarget, y, rfl⟩ := hassign s hs
      rw [namesUsed_assign htarget, ← namesIn_assign] at hw
      rw [h.declared]
      exact hstatements _ hs w hw
    · intro out v hv
      obtain ⟨hproper, hvisible⟩ := h.memo out v hv
      exact ⟨hproper, hvisible.mono (fun d hd => (hmem d).mpr (.inl hd)) (Nat.le_refl _)⟩
  rw [complete_eq]
  refine (bindOutputs_invariant (I := fun q : Pass =>
    q.Scoped ∧ q.declarations = (p.evaluated c).declarations ∧
      (p.evaluated c).nextVar ≤ q.nextVar) _ 0 ?_ _ ⟨hevaluated, rfl, Nat.le_refl _⟩).1
  rintro j o q ho ⟨hq, hdecl, hnext⟩
  have ho' : o ∈ (c.outcome p.stage).state.outputs := List.mem_of_getElem? ho
  obtain ⟨hscoped, hdecl', hnext'⟩ := hq.bind (.output c.id (0 + j)) (htyped o ho')
    ((houtputs o ho').mono (fun d hd => hdecl ▸ hd) hnext)
  exact ⟨hscoped, hdecl'.trans hdecl, Nat.le_trans hnext hnext'⟩

/-! ## Runs -/

theorem Scoped.step (hp : p.Prepared g) (h : p.Scoped) (hstep : Step g root p q) : q.Scoped := by
  cases hstep with
  | receive i hcell hopen hready => exact ⟨h.counted, h.declared, h.body, h.memo⟩
  | @complete c hcell hopen hup hfilled => exact h.complete (hp _ c hcell) hopen hfilled

theorem scoped_start (g : ShaderGraph) (stage : Stage) (o : Options) :
    (start g .builtin stage o : Pass).Scoped where
  counted := rfl
  declared := rfl
  body i s hs := absurd hs (by simp [start])
  memo out v hv := absurd hv (by simp [start])

/-- Generated code is well scoped. The variables of a finished pass are declared in the order of
their numbers, each of them once; every name in a statement belongs to the language, to a declared
uniform or to a variable that an earlier statement declares; and no uniform has a name that a
variable could have. -/
theorem wellScoped_of_run (hg : g.IsBuiltin) (stage : Stage) (o : Options)
    (h : (start g .builtin stage o : Pass).run g = (.ok (), p)) :
    p.body.filterMap declared? = variableNames p.stats.hoisted ∧
    (p.body.filterMap declared?).Nodup ∧
    WellScoped p.declarations p.body ∧
    ∀ d ∈ p.declarations,
      ∃ ty name, uniform? d = some (ty, name) ∧ Identifier.isGenerated name = false := by
  obtain ⟨m, ⟨-, hm⟩, rfl⟩ := run_invariant (I := fun q : Pass => q.Prepared g ∧ q.Scoped)
    (fun root p' q _ hp hstep => ⟨hstep.prepared hp.1, hp.2.step hp.1 hstep⟩)
    (orderly_start hg stage o) ⟨prepared_start hg stage o, scoped_start g stage o⟩ h
  have hdeclared : m.finish.body.filterMap declared? = variableNames m.finish.stats.hoisted :=
    hm.declared.trans (congrArg variableNames hm.counted.symm)
  obtain ⟨hprepared, hnodes⟩ := declared_of_run hg h
  refine ⟨hdeclared, ?_, hm.body,
    fun d hd => (isUniform_of_declared hprepared hnodes d hd).isGenerated⟩
  rw [hdeclared]
  exact (List.nodup_range).map fun a b hab => varName_injective hab

theorem wellScoped_tinted :
    ∃ p : Pass, (start .tinted .builtin .fragment {} : Pass).run .tinted = (.ok (), p) ∧
      p.stats.hoisted = 4 ∧ p.declarations.length = 2 ∧
      p.body.filterMap declared? = variableNames 4 ∧ WellScoped p.declarations p.body := by
  obtain ⟨p, hrun, huniforms, -, -, hhoisted⟩ := exists_run_tinted
  obtain ⟨hdeclared, -, hscoped, -⟩ := wellScoped_of_run Graph.isBuiltin_tinted .fragment {} hrun
  exact ⟨p, hrun, hhoisted, by rw [huniforms]; rfl, hhoisted ▸ hdeclared, hscoped⟩

end NodeShader.Pass
