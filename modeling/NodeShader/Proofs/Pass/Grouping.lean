import NodeShader.Proofs.Pass.Related
import NodeShader.Proofs.Source.Build

/-!
# Inlining keeps the grouping of operators

Nodes put no parentheses around what they are given, and none are needed: whatever a pass keeps for
the consumers of an output is a signed expression. The operations among the outputs are flagged by
their archetypes and go into variables, however long the values are that a pass writes in place.

The statement compares a pass that writes text with the pass that builds trees. The two run in step,
since the text of what is built is what is written; the invariant `Grouped` of the trees places
everything in the grammar, where reading inverts writing.
-/

namespace NodeShader.Pass

/-! ## Text and trees in step -/

/-- The text is that of the tree. -/
def Spells (s : String) (t : Ast) : Prop := t.print = s

theorem forall₂_spells {xs : List String} {ts : List Ast} (h : List.Forall₂ Spells xs ts) :
    ts.map Ast.print = xs := by
  induction h with
  | nil => rfl
  | cons hst _ ih => rw [List.map_cons, hst, ih]

theorem stores_spells : Stores Spells where
  size s t h := by
    show Text.byteLength s = Text.byteLength t.print
    rw [h]
  name n := by
    show (Code.verbatim (varName n) : Ast).print = varName n
    rw [verbatim_name (isName_varName n)]
    rfl
  define t n s x h := by
    show t.text ++ " " ++ varName n ++ " = " ++ x.print ++ ";" = _
    rw [h]
    rfl

variable {g : ShaderGraph}

/-- The texts of a node are primary expressions. -/
theorem derives_texts {C : Type} [Code C] {c : Cell C} (hc : c.Prepared g) {s : String}
    (hs : s ∈ c.kind.texts) : ∃ x : Ast, Derives .primary x ∧ x.print = s := by
  rcases hc.texts s hs with ⟨hpipe, -⟩ | ⟨name, rfl, -⟩
  · have hall : ∀ s ∈ Kind.pipelineTexts, (pipelineType? s).isSome := by decide
    obtain ⟨t, ht⟩ := Option.isSome_iff_exists.mp (hall s hpipe)
    exact derives_pipeline ht
  · exact ⟨_, .name (isName_identifier name), rfl⟩

/-- Building a tree and writing a text correspond to each other in all that nodes do. -/
theorem respects_spells {c : Cell} (hc : c.Prepared g) : Respects c.kind Spells Spells Spells where
  given := hc.isTemplate
  weaken _ _ h := h
  blank := rfl
  literal f := (isLiteral_literal f).2
  verbatim s hs := (print_verbatim (derives_texts hc hs)).1
  binary operator _ s x s' x' h h' := by
    show Code.binary operator x.print x'.print = _
    rw [h, h']
  apply f _ ss xs h := by
    show Code.apply f (Ast.printAll xs) = _
    rw [Ast.printAll_eq_map, forall₂_spells h]
  select letter _ s x h := by
    show Code.select x.print letter = _
    rw [h]
  assign target ht s x h := by
    have htarget := (print_verbatim (derives_target ht)).1
    show Code.assign (Code.verbatim target : Ast).print x.print = _
    rw [htarget, h]

theorem forall₂_filterMap {α β γ : Type} {S : β → γ → Prop} {f : α → Option β} {f' : α → Option γ}
    {l : List α} (h : ∀ a ∈ l, Option.Rel S (f a) (f' a)) :
    List.Forall₂ S (l.filterMap f) (l.filterMap f') := by
  induction l with
  | nil => exact .nil
  | cons a rest ih =>
      have ha := h a (by simp)
      have hrest := ih fun b hb => h b (List.mem_cons_of_mem _ hb)
      rw [List.filterMap_cons, List.filterMap_cons]
      revert ha
      generalize f a = b?
      generalize f' a = c?
      rintro (hbc | _)
      · exact .cons hbc hrest
      · exact hrest

theorem related_start (hg : g.IsBuiltin) (stage : Stage) (o : Options) :
    (start g .builtin stage o : Pass).Related Spells (start g .builtin stage o : Pass Ast) where
  stage := rfl
  threshold := rfl
  cells := by
    refine forall₂_filterMap fun n hn => ?_
    split
    · rename_i e he
      cases ha : Registry.builtin.archetype? e.handle with
      | none => exact .none
      | some a =>
          have hprepared : ∀ (C : Type) [Code C], Cell.Prepared (C := C) g
              { id := n.id, archetype := a, kind := e.kind, state := a.freshState n.id g } := by
            intro C _
            have hmem : ({ id := n.id, archetype := a, kind := e.kind,
                           state := a.freshState n.id g } : Cell C) ∈
                (start g .builtin stage o : Pass C).cells := by
              simp only [start, List.mem_filterMap]
              exact ⟨n, hn, by simp only [he, ha, Option.map_some]⟩
            exact prepared_of_mem_start hg hmem
          have hstate := (hprepared String).related (hprepared Ast) (R := Spells) (S := Spells) rfl
            rfl rfl rfl fun i slot slot' hslot hslot' => by
              rw [Archetype.value_freshState (List.mem_of_getElem? hslot),
                Archetype.value_freshState (List.mem_of_getElem? hslot')]
              exact ⟨rfl, rfl⟩
          refine .some ⟨rfl, rfl, rfl, hstate, ?_, respects_spells (hprepared String)⟩
          exact (Archetype.usage_freshState a n.id g).trans (Archetype.usage_freshState a n.id g).symm
    · exact .none
  memo := .nil
  declarations := rfl
  body := .nil
  nextVar := rfl
  stats := rfl

/-! ## The place of code in the grammar -/

/-- Everything that nodes hand to each other is an operand, and the body is read back. -/
structure Grouped (p : Pass Ast) : Prop where
  memo : ∀ x ∈ p.memo, x.2.code.Operand x.2.ty
  inputs : ∀ id c, p.cell? id = some c → ∀ v ∈ c.state.values, v.Typed Ast.Operand
  body : ∀ t ∈ p.body, statement? t.print = some t

variable {p q : Pass Ast} {root : NodeId}

/-- A value that is kept is an operand: an operation is flagged, and then stored in a variable. -/
theorem Grouped.bind (h : p.Grouped) (pin : Pin) {o : OutputSlot Ast}
    (hvalue : o.value.Typed Ast.Result) (hflag : o.hoist = true ∨ o.value.Typed Ast.Operand) :
    (p.bind pin o).Grouped := by
  rcases p.bind_cases pin o with ⟨-, hbind⟩ | ⟨hvalid, ⟨hplace, hbind⟩ | ⟨hclear, hbind⟩⟩ <;>
    rw [hbind]
  · exact h
  · refine ⟨List.forall_mem_cons.mpr ⟨?_, h.memo⟩, h.inputs, h.body⟩
    rcases hflag with hoist | hoperand
    · have hsealed : o.value.ty.isOpaque = true := by
        simpa [isHoisted, hoist] using hplace
      exact Ast.operand_of_isOpaque (hvalue hvalid) hsealed
    · exact hoperand hvalid
  · obtain ⟨hproper, hderives, -⟩ := hvalue hvalid
    refine ⟨List.forall_mem_cons.mpr ⟨?_, h.memo⟩, h.inputs, ?_⟩
    · show (Code.verbatim (varName p.nextVar) : Ast).Operand o.value.ty
      rw [verbatim_name (isName_varName _)]
      exact Ast.operand_of_primary hproper (.name (isName_varName _))
    · refine List.forall_mem_append.mpr ⟨h.body, List.forall_mem_singleton.mpr ?_⟩
      exact statement?_define hproper hclear _ hderives

/-- What reaches an input has been kept. -/
theorem Grouped.supply (h : p.Grouped) (pin : Pin) : (p.supply g pin).Typed Ast.Operand := by
  unfold Pass.supply
  split
  · exact Value.typed_null
  · rename_i out _
    cases hout : p.memo.lookup out with
    | none => exact Value.typed_null
    | some v =>
        obtain ⟨before, after, hmemo, -⟩ := List.lookup_eq_some_iff.mp hout
        exact fun _ => h.memo (out, v) (by rw [hmemo]; simp)

theorem Grouped.receive (h : p.Grouped) {id : NodeId} {c : Cell Ast} (hcell : p.cell? id = some c)
    (i : Nat) {v : Value Ast} (hv : v.Typed Ast.Operand) :
    (p.mapState id (·.receive i v)).Grouped := by
  refine ⟨h.memo, fun j d hd => ?_, h.body⟩
  by_cases hj : j = id
  · subst hj
    rw [cell?_mapState_self hcell] at hd
    cases hd
    intro w hw
    obtain ⟨slot, hslot, rfl⟩ := List.mem_map.mp hw
    obtain ⟨k, hk⟩ := List.mem_iff_getElem?.mp hslot
    by_cases hik : i = k
    · subst hik
      rw [receive_getElem?_self hk]
      exact hv
    · rw [receive_getElem?_ne hik] at hk
      exact h.inputs _ c hcell _ (List.mem_map.mpr ⟨slot, List.mem_of_getElem? hk, rfl⟩)
  · rw [cell?_mapState_ne hj] at hd
    exact h.inputs j d hd

/-- Completing a node keeps everything in its place. -/
theorem Grouped.complete (h : p.Grouped) {c : Cell Ast} (hc : c.Prepared g)
    (hcell : p.cell? c.id = some c) (hopen : c.state.evaluated = false) : (p.complete c).Grouped := by
  have hin : ∀ slot ∈ c.state.inputs, slot.value.Typed Ast.Operand :=
    fun slot hslot => h.inputs _ c hcell _ (List.mem_map.mpr ⟨slot, hslot, rfl⟩)
  have htyped : ∀ {K : Ast → Ty → Prop}, Combines c.kind Ast.Operand K → _ := fun hK =>
    hc.outcome_typed hopen judges_operand hK hin
      (fun t ht name hname _ =>
        Ast.operand_of_primary ht (print_verbatim (derives_texts hc hname)).2) p.stage
  obtain ⟨hvalues, hresults, hstatements⟩ := htyped (combines_result c.kind)
  have hflag : ∀ o ∈ (p.finished c).outputs, o.hoist = true ∨ o.value.Typed Ast.Operand := by
    intro o ho
    by_cases hops : c.kind.operators = []
    · exact .inr ((htyped (combines_of_operators hops _)).2.1 o ho)
    · exact .inl (hoist_finished hc hopen hops o ho)
  have hevaluated : (p.evaluated c).Grouped := by
    refine ⟨h.memo, fun id d hd => ?_, List.forall_mem_append.mpr ⟨h.body, fun x hx => ?_⟩⟩
    · rw [cell?_congr (p := p.evaluated c) (q := p.mapState c.id fun _ => p.finished c) rfl] at hd
      by_cases hid : id = c.id
      · subst hid
        rw [cell?_mapState_self hcell] at hd
        cases hd
        exact hvalues
      · rw [cell?_mapState_ne hid] at hd
        exact h.inputs id d hd
    · obtain ⟨target, htarget, y, rfl, hy⟩ := hstatements x hx
      exact statement?_assign htarget hy.2.1
  rw [complete_eq]
  refine bindOutputs_invariant (I := Grouped) _ 0 ?_ _ hevaluated
  intro j o q ho hq
  have ho' := List.mem_of_getElem? ho
  exact hq.bind _ (hresults o ho') (hflag o ho')

theorem Grouped.step (hp : p.Prepared g) (h : p.Grouped) (hstep : Step g root p q) : q.Grouped := by
  cases hstep with
  | receive i hcell hopen hready => exact h.receive hcell i (h.supply _)
  | @complete c hcell hopen hup hfilled => exact h.complete (hp _ c hcell) hcell hopen

theorem grouped_start (g : ShaderGraph) (stage : Stage) (o : Options) :
    (start g .builtin stage o : Pass Ast).Grouped where
  memo x hx := absurd hx (by simp [start])
  inputs id c hc v hv := by
    obtain ⟨n, -, e, a, -, -, rfl⟩ := mem_cells_start (mem_of_cell? hc)
    obtain ⟨slot, hslot, rfl⟩ := List.mem_map.mp hv
    rw [Archetype.value_freshState hslot]
    exact Value.typed_null
  body t ht := absurd ht (by simp [start])

theorem grouped_of_run (hg : g.IsBuiltin) {stage : Stage} {o : Options}
    (h : (start g .builtin stage o : Pass Ast).run g = (.ok (), q)) : q.Grouped := by
  obtain ⟨m, ⟨-, hm⟩, rfl⟩ := run_invariant (I := fun r : Pass Ast => r.Prepared g ∧ r.Grouped)
    (fun _ _ _ _ hp hstep => ⟨hstep.prepared hp.1, hp.2.step hp.1 hstep⟩)
    (orderly_start hg stage o) ⟨prepared_start hg stage o, grouped_start g stage o⟩ h
  exact ⟨hm.memo, hm.inputs, hm.body⟩

/-- A finished pass over text has a pass over trees in step with it. -/
theorem exists_trees_of_run (hg : g.IsBuiltin) {stage : Stage} {o : Options} {p : Pass}
    (h : (start g .builtin stage o : Pass).run g = (.ok (), p)) :
    ∃ q : Pass Ast, (start g .builtin stage o : Pass Ast).run g = (.ok (), q) ∧
      p.Related Spells q ∧ q.Grouped := by
  have hagree := run_agree (g := g) stores_spells rfl (related_start hg stage o)
  rw [h] at hagree
  generalize hrun : (start g .builtin stage o : Pass Ast).run g = answer at hagree
  cases hagree with
  | ok _ hrelated => exact ⟨_, rfl, hrelated, grouped_of_run hg hrun⟩

/-! ## What is written is read as what was meant -/

/-- The text is read as the tree, and that is a signed expression and no operation. -/
def ReadsSigned (s : String) (t : Ast) : Prop :=
  parse s = some t ∧ Derives .unary t ∧ ∀ operator x y, t ≠ .binary operator x y

theorem readsSigned_of_operand {s : String} {x : Ast} {t : Ty} (h : Spells s x)
    (hx : x.Operand t) : ReadsSigned s x := by
  refine ⟨?_, hx.2.1, ?_⟩
  · rw [← h]
    exact parse_print hx.2.1.sum_of
  · rintro operator a b rfl
    cases hx.2.1 with
    | ofPrimary hprimary => cases hprimary

/-- Inlining never changes how operators are grouped. Every finished pass has a pass over trees that
takes the same steps, and by the precedence of operators each statement is read as the tree that was
built for it. What the pass keeps for consumers, and what stands at the inputs of its nodes, is read
as a signed expression, never as an operation. -/
theorem statements_read_as_built (hg : g.IsBuiltin) (stage : Stage) (o : Options) {p : Pass}
    (h : (start g .builtin stage o : Pass).run g = (.ok (), p)) :
    ∃ q : Pass Ast, (start g .builtin stage o : Pass Ast).run g = (.ok (), q) ∧
      List.Forall₂ (fun s t => statement? s = some t) p.body q.body ∧
      List.Forall₂ (fun x y => x.1 = y.1 ∧ ReadsSigned x.2.code y.2.code) p.memo q.memo ∧
      ∀ id c, p.cell? id = some c → ∃ d, q.cell? id = some d ∧
        List.Forall₂ (fun v w => v.ty = w.ty ∧ (v.isValid = true → ReadsSigned v.code w.code))
          c.state.values d.state.values := by
  obtain ⟨q, hrun, hrelated, hgrouped⟩ := exists_trees_of_run hg h
  refine ⟨q, hrun, ?_, ?_, fun id c hc => ?_⟩
  · refine (forall₂_and_right hrelated.body hgrouped.body).imp ?_
    rintro s t ⟨rfl, ht⟩
    exact ht
  · refine (forall₂_and_right hrelated.memo hgrouped.memo).imp ?_
    rintro x y ⟨⟨hpin, hxy⟩, hy⟩
    exact ⟨hpin, readsSigned_of_operand hxy.code hy⟩
  · have hcell := hrelated.cell? id
    rw [hc] at hcell
    generalize hq : q.cell? id = d? at hcell
    cases hcell with
    | @some _ d hcd =>
        refine ⟨d, rfl, ?_⟩
        refine (forall₂_and_right hcd.state.values (hgrouped.inputs id d hq)).imp ?_
        rintro v w ⟨hvw, hw⟩
        refine ⟨hvw.ty, fun hvalid => readsSigned_of_operand hvw.code (hw ?_)⟩
        rwa [← hvw.isValid]

theorem statements_read_as_built_tinted :
    ∃ (p : Pass) (q : Pass Ast),
      (start .tinted .builtin .fragment {} : Pass).run .tinted = (.ok (), p) ∧
      (start .tinted .builtin .fragment {} : Pass Ast).run .tinted = (.ok (), q) ∧
      p.body.length = 5 ∧ List.Forall₂ (fun s t => statement? s = some t) p.body q.body := by
  obtain ⟨p, hrun, -, hlength, -, -⟩ := exists_run_tinted
  obtain ⟨q, hq, hbody, -⟩ := statements_read_as_built Graph.isBuiltin_tinted .fragment {} hrun
  exact ⟨p, q, hrun, hq, hlength, hbody⟩

end NodeShader.Pass
