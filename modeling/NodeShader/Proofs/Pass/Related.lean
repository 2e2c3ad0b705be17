import NodeShader.Proofs.Pass.Prepared

/-!
# Passes do not look into source code

A pass decides by types, links, uses and the length of code, never by what the code says. So two
passes over one graph that start in step, with codes in two representations that correspond to each
other, end in step: they fail at the same node or not at all, and what they have written corresponds.
-/

namespace NodeShader

variable {C D : Type} {R : C → D → Prop}

/-! ## Searching in lists in step -/

theorem find?_of_forall₂ {α β : Type} {S : α → β → Prop} {f : α → Bool} {f' : β → Bool}
    (hf : ∀ a b, S a b → f a = f' b) {l : List α} {l' : List β} (h : List.Forall₂ S l l') :
    Option.Rel S (l.find? f) (l'.find? f') := by
  induction h with
  | nil => exact .none
  | @cons a b _ _ hab _ ih =>
      rw [List.find?_cons, List.find?_cons, hf a b hab]
      cases f' b with
      | true => exact .some hab
      | false => exact ih

theorem lookup_of_forall₂ {α β γ : Type} [BEq γ] {S : α → β → Prop} (key : γ) {l : List (γ × α)}
    {l' : List (γ × β)} (h : List.Forall₂ (fun x y => x.1 = y.1 ∧ S x.2 y.2) l l') :
    Option.Rel S (l.lookup key) (l'.lookup key) := by
  induction h with
  | nil => exact .none
  | @cons x y _ _ hxy _ ih =>
      obtain ⟨k, a⟩ := x
      obtain ⟨k', b⟩ := y
      obtain ⟨rfl, hab⟩ := hxy
      rw [List.lookup_cons, List.lookup_cons]
      cases key == k with
      | true => exact .some hab
      | false => exact ih

/-! ## Passes in step -/

variable [Code C] [Code D]

/-- The relation says enough about code for a pass: codes in relation are equally long, and it is
kept when a value is stored in a variable. -/
structure Stores (R : C → D → Prop) : Prop where
  size : ∀ x y, R x y → Code.size x = Code.size y
  name : ∀ n, R (Code.verbatim (Pass.varName n)) (Code.verbatim (Pass.varName n))
  define : ∀ t n x y, R x y →
    R (Code.define t (Pass.varName n) x) (Code.define t (Pass.varName n) y)

/-- Cells of one node in related states. -/
structure Cell.Related (R : C → D → Prop) (c : Cell C) (d : Cell D) : Prop where
  id : c.id = d.id
  archetype : c.archetype = d.archetype
  kind : c.kind = d.kind
  state : c.state.Related R R d.state
  usage : c.state.usage = d.state.usage
  respects : Respects c.kind R R R

structure Pass.Related (R : C → D → Prop) (p : Pass C) (q : Pass D) : Prop where
  stage : p.stage = q.stage
  threshold : p.threshold = q.threshold
  cells : List.Forall₂ (Cell.Related R) p.cells q.cells
  memo : List.Forall₂ (fun x y => x.1 = y.1 ∧ x.2.Related R y.2) p.memo q.memo
  declarations : p.declarations = q.declarations
  body : List.Forall₂ R p.body q.body
  nextVar : p.nextVar = q.nextVar
  stats : p.stats = q.stats

/-- Two answers with the passes they leave behind. -/
inductive Pass.Agree (R : C → D → Prop) {α β : Type} (S : α → β → Prop) :
    Except Cycle α × Pass C → Except Cycle β × Pass D → Prop
  | error {p : Pass C} {q : Pass D} (e : Cycle) (h : p.Related R q) :
      Agree R S (.error e, p) (.error e, q)
  | ok {p : Pass C} {q : Pass D} {a : α} {b : β} (hab : S a b) (h : p.Related R q) :
      Agree R S (.ok a, p) (.ok b, q)

namespace Pass

variable {g : ShaderGraph} {p : Pass C} {q : Pass D}

namespace Related

theorem cell? (h : p.Related R q) (id : NodeId) :
    Option.Rel (Cell.Related R) (p.cell? id) (q.cell? id) :=
  find?_of_forall₂ (fun _ _ hcd => by rw [hcd.id]) h.cells

theorem lookup (h : p.Related R q) (out : Pin) :
    Option.Rel (Value.Related R) (p.memo.lookup out) (q.memo.lookup out) :=
  lookup_of_forall₂ out h.memo

theorem mapState (h : p.Related R q) (id : NodeId) {f : NodeState C → NodeState C}
    {f' : NodeState D → NodeState D}
    (hf : ∀ c d, c ∈ p.cells → Cell.Related R c d → c.id = id →
      (f c.state).Related R R (f' d.state) ∧ (f c.state).usage = (f' d.state).usage) :
    (p.mapState id f).Related R (q.mapState id f') := by
  refine { h with cells := ?_ }
  have hcells := (List.forall₂_and_left (p := (· ∈ p.cells)) _ _).mpr ⟨fun c hc => hc, h.cells⟩
  refine List.rel_map (fun c d hcd => ?_) hcells
  obtain ⟨hmem, hcd⟩ := hcd
  by_cases hid : c.id = id
  · obtain ⟨hstate, husage⟩ := hf c d hmem hcd hid
    rw [if_pos hid, if_pos (hcd.id ▸ hid)]
    exact { hcd with state := hstate, usage := husage }
  · rw [if_neg hid, if_neg (hcd.id ▸ hid)]
    exact hcd

theorem receive (h : p.Related R q) (id : NodeId) (i : Nat) {v : Value C} {w : Value D}
    (hvw : v.Related R w) :
    (p.mapState id (·.receive i v)).Related R (q.mapState id (·.receive i w)) :=
  h.mapState id fun _ _ _ hcd _ => ⟨hcd.state.receive i hvw, hcd.usage⟩

/-! ### Binding outputs -/

theorem isHoisted (hR : Stores R) (h : p.Related R q) {o : OutputSlot C} {o' : OutputSlot D}
    (ho : o.Related R o') (hfan : o.fanOut = o'.fanOut) (hflag : o.hoist = o'.hoist) :
    p.isHoisted o = q.isHoisted o' := by
  simp only [Pass.isHoisted, hfan, hflag, h.threshold, hR.size _ _ ho.value.code]

theorem hoist (hR : Stores R) (h : p.Related R q) (pin : Pin) {o : OutputSlot C}
    {o' : OutputSlot D} (ho : o.Related R o') : (p.hoist pin o).Related R (q.hoist pin o') where
  stage := h.stage
  threshold := h.threshold
  cells := h.cells
  memo := .cons ⟨rfl, ho.value.ty, h.nextVar ▸ hR.name _⟩ h.memo
  declarations := h.declarations
  body := by
    refine List.rel_append h.body (.cons ?_ .nil)
    simp only [varDeclaration, ho.value.ty, h.nextVar]
    exact hR.define _ _ _ _ ho.value.code
  nextVar := congrArg (· + 1) h.nextVar
  stats := by simp only [Pass.hoist, h.stats]

theorem bind (hR : Stores R) (h : p.Related R q) (pin : Pin) {o : OutputSlot C}
    {o' : OutputSlot D} (ho : o.Related R o') (hfan : o.fanOut = o'.fanOut)
    (hflag : o.hoist = o'.hoist) : (p.bind pin o).Related R (q.bind pin o') := by
  simp only [Pass.bind, hfan, ho.value.isValid, ho.value.ty, isHoisted hR h ho hfan hflag]
  split
  · exact h
  · split
    · exact { h with memo := .cons ⟨rfl, ho.value⟩ h.memo }
    · exact h.hoist hR pin ho

theorem bindOutputs (hR : Stores R) (id : NodeId) {os : List (OutputSlot C)}
    {os' : List (OutputSlot D)} (hos : List.Forall₂ (OutputSlot.Related R) os os')
    (husage : os.map (fun o => (o.fanOut, o.hoist)) = os'.map fun o => (o.fanOut, o.hoist)) :
    ∀ (i : Nat) (p : Pass C) (q : Pass D), p.Related R q →
      (Pass.bindOutputs id i os p).Related R (Pass.bindOutputs id i os' q) := by
  induction hos with
  | nil => exact fun _ _ _ h => h
  | cons ho _ ih =>
      intro i p q h
      simp only [List.map_cons, List.cons.injEq, Prod.mk.injEq] at husage
      exact ih husage.2 (i + 1) _ _ (h.bind hR _ ho husage.1.1 husage.1.2)

/-! ### Completing nodes -/

theorem complete (hR : Stores R) (h : p.Related R q) {c : Cell C} {d : Cell D}
    (hcd : c.Related R d) : (p.complete c).Related R (q.complete d) := by
  have houtcome := Cell.outcome_related hcd.respects hcd.archetype hcd.kind hcd.state p.stage
  rw [h.stage] at houtcome
  have hstate : (p.finished c).Related R R (q.finished d) := by
    simp only [finished, h.stage]
    exact { houtcome.state with evaluated := rfl }
  have husage : (p.finished c).usage = (q.finished d).usage := by
    show (c.outcome p.stage).state.usage = (d.outcome q.stage).state.usage
    rw [c.usage_outcome, d.usage_outcome, hcd.usage]
  have hevaluated : (p.evaluated c).Related R (q.evaluated d) := by
    refine { h with cells := ?_, declarations := ?_, body := ?_, stats := ?_ }
    · show List.Forall₂ (Cell.Related R) (p.mapState c.id fun _ => p.finished c).cells
        (q.mapState d.id fun _ => q.finished d).cells
      rw [← hcd.id]
      exact (h.mapState c.id fun _ _ _ _ _ => ⟨hstate, husage⟩).cells
    · show ((c.outcome p.stage).declarations.foldl Pass.declare p).declarations =
        ((d.outcome q.stage).declarations.foldl Pass.declare q).declarations
      rw [h.stage, houtcome.declarations]
      exact declarations_foldl_declare _ h.declarations
    · show List.Forall₂ R (p.body ++ (c.outcome p.stage).statements)
        (q.body ++ (d.outcome q.stage).statements)
      rw [h.stage]
      exact List.rel_append h.body houtcome.statements
    · simp only [evaluated, h.stats]
  rw [complete_eq, complete_eq, ← hcd.id]
  exact Related.bindOutputs hR c.id hstate.outputs husage 0 _ _ hevaluated

end Related

/-! ## Runs in step -/

section Recursion

/-- Two ways to evaluate a node that agree on passes in step. -/
def VisitsAgree (R : C → D → Prop) (visit : NodeId → Pass C → Except Cycle Unit × Pass C)
    (visit' : NodeId → Pass D → Except Cycle Unit × Pass D) : Prop :=
  ∀ id p q, p.Related R q → Agree R Eq (visit id p) (visit' id q)

variable {visit : NodeId → Pass C → Except Cycle Unit × Pass C}
  {visit' : NodeId → Pass D → Except Cycle Unit × Pass D}

theorem demand_agree (hvisit : VisitsAgree R visit visit') (hblank : R Code.blank Code.blank)
    (h : p.Related R q) (pin : Pin) :
    Agree R (Value.Related R) (demand g visit pin p) (demand g visit' pin q) := by
  have hnull : (Value.null : Value C).Related R .null := ⟨rfl, hblank⟩
  unfold demand
  cases supplier? g pin with
  | none => exact .ok hnull h
  | some out =>
      have hlookup := h.lookup out
      dsimp only
      revert hlookup
      generalize p.memo.lookup out = v?
      generalize q.memo.lookup out = w?
      rintro (hvw | _)
      · exact .ok hvw h
      · have hagree := hvisit out.node p q h
        dsimp only
        revert hagree
        generalize visit out.node p = a
        generalize visit' out.node q = b
        rintro (⟨e, hpq⟩ | ⟨-, hpq⟩)
        · exact .error e hpq
        · rename_i p' q' u u'
          refine .ok ?_ hpq
          have hlookup := hpq.lookup out
          revert hlookup
          generalize p'.memo.lookup out = v?
          generalize q'.memo.lookup out = w?
          rintro (hvw | _)
          · exact hvw
          · exact hnull

theorem fetchInputs_agree (hvisit : VisitsAgree R visit visit') (hblank : R Code.blank Code.blank)
    (id : NodeId) (count : Nat) : ∀ (i : Nat) (p : Pass C) (q : Pass D), p.Related R q →
      Agree R Eq (fetchInputs g visit id i count p) (fetchInputs g visit' id i count q) := by
  induction count with
  | zero => exact fun _ _ _ h => .ok rfl h
  | succ count ih =>
      intro i p q h
      unfold fetchInputs
      have hagree := demand_agree (g := g) hvisit hblank h (.input id i)
      revert hagree
      generalize demand g visit (.input id i) p = a
      generalize demand g visit' (.input id i) q = b
      rintro (⟨e, hpq⟩ | ⟨hvw, hpq⟩)
      · exact .error e hpq
      · exact ih (i + 1) _ _ (hpq.receive id i hvw)

end Recursion

theorem visitWithin_agree (hR : Stores R) (hblank : R Code.blank Code.blank) (depth : Nat) :
    ∀ path : List NodeId,
      VisitsAgree R (visitWithin (C := C) g depth path) (visitWithin (C := D) g depth path) := by
  induction depth with
  | zero => exact fun _ id _ _ h => .error ⟨id⟩ h
  | succ depth ih =>
      intro path id p q h
      unfold visitWithin
      have hcell := h.cell? id
      revert hcell
      generalize p.cell? id = c?
      generalize q.cell? id = d?
      rintro (hcd | _)
      · rename_i c d
        simp only [hcd.state.evaluated, hcd.state.inputs.length_eq]
        split
        · exact .ok rfl h
        · split
          · exact .error ⟨id⟩ h
          · have hagree := fetchInputs_agree (g := g) (ih (id :: path)) hblank id
              d.state.inputs.length 0 p q h
            revert hagree
            generalize fetchInputs g (visitWithin g depth (id :: path)) id 0
              d.state.inputs.length p = a
            generalize fetchInputs g (visitWithin g depth (id :: path)) id 0
              d.state.inputs.length q = b
            rintro (⟨e, hpq⟩ | ⟨-, hpq⟩)
            · exact .error e hpq
            · rename_i p' q' u u'
              have hcell' := hpq.cell? id
              dsimp only
              revert hcell'
              generalize p'.cell? id = c?
              generalize q'.cell? id = d?
              rintro (hcd' | _)
              · exact .ok rfl (hpq.complete hR hcd')
              · exact .ok rfl hpq
      · exact .ok rfl h

theorem evaluateAll_agree (hR : Stores R) (hblank : R Code.blank Code.blank) (ids : List NodeId) :
    ∀ (p : Pass C) (q : Pass D), p.Related R q →
      Agree R Eq (evaluateAll g ids p) (evaluateAll g ids q) := by
  induction ids with
  | nil => exact fun _ _ h => .ok rfl h
  | cons id rest ih =>
      intro p q h
      unfold evaluateAll evaluateNode
      have hdepth : p.depthLimit = q.depthLimit := by
        simp only [depthLimit, h.cells.length_eq]
      have hagree := visitWithin_agree (g := g) hR hblank q.depthLimit [] id p q h
      rw [hdepth]
      revert hagree
      generalize visitWithin g q.depthLimit [] id p = a
      generalize visitWithin g q.depthLimit [] id q = b
      rintro (⟨e, hpq⟩ | ⟨-, hpq⟩)
      · exact .error e hpq
      · exact ih _ _ hpq

theorem Related.roots (h : p.Related R q) : p.roots g = q.roots g := by
  unfold Pass.roots
  refine List.filter_congr fun id _ => ?_
  have hcell := h.cell? id
  revert hcell
  generalize p.cell? id = c?
  generalize q.cell? id = d?
  rintro (hcd | _)
  · simp only [hcd.kind, h.stage]
  · rfl

/-- Passes that start in step end in step. -/
theorem run_agree (hR : Stores R) (hblank : R Code.blank Code.blank) (h : p.Related R q) :
    Agree R Eq (p.run g) (q.run g) := by
  unfold run
  rw [h.roots]
  have hagree := evaluateAll_agree (g := g) hR hblank (q.roots g) p q h
  revert hagree
  generalize evaluateAll g (q.roots g) p = a
  generalize evaluateAll g (q.roots g) q = b
  rintro (⟨e, hpq⟩ | ⟨-, hpq⟩)
  · exact .error e hpq
  · refine .ok rfl { hpq with stats := ?_ }
    simp only [finish, report, hpq.stats, hpq.body.length_eq, hpq.declarations]

end Pass

end NodeShader
