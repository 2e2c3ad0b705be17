import NodeShader.Pass.Evaluate

/-!
# The nodes being evaluated

A pass hands the path of the nodes being evaluated down its recursion. An `Evaluator` keeps them in
its state instead: a node is marked before its inputs are fetched, and its mark is taken away however
that ends. The two do the same (`visitWithin_eq`), and since every mark is taken away, an evaluator is
left with the marks it began with, also when it has come to a cycle and half of the nodes on the way
have been unwound.
-/

namespace NodeShader

variable {C : Type} [Code C]

/-- A pass with the nodes that are being evaluated. -/
structure Evaluator (C : Type := String) where
  active : List NodeId := []
  pass : Pass C

/-- What is asked of an evaluator. -/
inductive Call where
  | pin (pin : Pin)
  | node (id : NodeId)
  deriving DecidableEq, Repr

namespace Evaluator

def start (g : ShaderGraph) (r : Registry) (stage : Stage) (o : Options) : Evaluator C :=
  { pass := Pass.start g r stage o }

/-- The value at a pin. `visit` evaluates a node unless that has been done. -/
def demand (g : ShaderGraph) (visit : NodeId → Evaluator C → Except Cycle Unit × Evaluator C)
    (pin : Pin) (s : Evaluator C) : Except Cycle (Value C) × Evaluator C :=
  match Pass.supplier? g pin with
  | none => (.ok .null, s)
  | some out =>
    match s.pass.memo.lookup out with
    | some v => (.ok v, s)
    | none =>
      match visit out.node s with
      | (.error c, s) => (.error c, s)
      | (.ok (), s) => (.ok ((s.pass.memo.lookup out).getD .null), s)

/-- Fetches `count` inputs of a node, from input `i` on. -/
def fetchInputs (g : ShaderGraph) (visit : NodeId → Evaluator C → Except Cycle Unit × Evaluator C)
    (id : NodeId) : (i count : Nat) → Evaluator C → Except Cycle Unit × Evaluator C
  | _, 0, s => (.ok (), s)
  | i, count + 1, s =>
    match demand g visit (.input id i) s with
    | (.error c, s) => (.error c, s)
    | (.ok v, s) => fetchInputs g visit id (i + 1) count
        { s with pass := s.pass.mapState id (·.receive i v) }

/-- Takes the mark of a node away. -/
def unmark (id : NodeId) (s : Evaluator C) : Evaluator C := { s with active := s.active.erase id }

/-- Evaluates a node unless that has been done, with a mark on it meanwhile. -/
def visitWithin (g : ShaderGraph) :
    (depth : Nat) → NodeId → Evaluator C → Except Cycle Unit × Evaluator C
  | 0, id, s => (.error ⟨id⟩, s)
  | depth + 1, id, s =>
    match s.pass.cell? id with
    | none => (.ok (), s)
    | some c =>
      if c.state.evaluated then (.ok (), s)
      else if s.active.contains id then (.error ⟨id⟩, s)
      else
        match fetchInputs g (visitWithin g depth) id 0 c.state.inputs.length
            { s with active := id :: s.active } with
        | (.error c, s) => (.error c, s.unmark id)
        | (.ok (), s) =>
          match s.pass.cell? id with
          | some c => (.ok (), unmark id { s with pass := s.pass.complete c })
          | none => (.ok (), s.unmark id)

/-- Evaluates a node unless that has been done. -/
def evaluateNode (g : ShaderGraph) (id : NodeId) (s : Evaluator C) :
    Except Cycle Unit × Evaluator C := visitWithin g s.pass.depthLimit id s

/-- The value at a pin. -/
def evaluate (g : ShaderGraph) (pin : Pin) (s : Evaluator C) :
    Except Cycle (Value C) × Evaluator C := demand g (visitWithin g s.pass.depthLimit) pin s

/-- What is left when a call has returned, or has come to a cycle and was recovered from. -/
def after (g : ShaderGraph) (s : Evaluator C) : Call → Evaluator C
  | .pin pin => (s.evaluate g pin).2
  | .node id => (s.evaluateNode g id).2

/-! ## The same with the path handed down -/

/-- A result of a pass with marks beside it. -/
def holding {α : Type} (active : List NodeId) (res : Except Cycle α × Pass C) :
    Except Cycle α × Evaluator C := (res.1, ⟨active, res.2⟩)

variable {g : ShaderGraph} {active : List NodeId}

section Recursion

variable {visit : NodeId → Evaluator C → Except Cycle Unit × Evaluator C}
  {visit' : NodeId → Pass C → Except Cycle Unit × Pass C}
  (hvisit : ∀ id p, visit id ⟨active, p⟩ = holding active (visit' id p))

include hvisit

theorem demand_eq (pin : Pin) (p : Pass C) :
    demand g visit pin ⟨active, p⟩ = holding active (Pass.demand g visit' pin p) := by
  unfold demand Pass.demand
  cases Pass.supplier? g pin with
  | none => rfl
  | some out =>
      dsimp only
      cases p.memo.lookup out with
      | some v => rfl
      | none =>
          dsimp only
          rw [hvisit]
          rcases visit' out.node p with ⟨e | u, q⟩ <;> rfl

theorem fetchInputs_eq (id : NodeId) (count : Nat) :
    ∀ (i : Nat) (p : Pass C), fetchInputs g visit id i count ⟨active, p⟩ =
      holding active (Pass.fetchInputs g visit' id i count p) := by
  induction count with
  | zero => exact fun _ _ => rfl
  | succ count ih =>
      intro i p
      unfold fetchInputs Pass.fetchInputs
      rw [demand_eq hvisit]
      rcases Pass.demand g visit' (.input id i) p with ⟨e | v, q⟩
      · rfl
      · exact ih (i + 1) _

end Recursion

/-- The marks are the path, and they are there again at the end. -/
theorem visitWithin_eq (depth : Nat) :
    ∀ (active : List NodeId) (id : NodeId) (p : Pass C), visitWithin g depth id ⟨active, p⟩ =
      holding active (Pass.visitWithin g depth active id p) := by
  induction depth with
  | zero => exact fun _ _ _ => rfl
  | succ depth ih =>
      intro active id p
      unfold visitWithin Pass.visitWithin
      dsimp only
      cases p.cell? id with
      | none => rfl
      | some c =>
          dsimp only
          split
          · rfl
          · split
            · rfl
            · rw [fetchInputs_eq (ih (id :: active))]
              rcases Pass.fetchInputs g (Pass.visitWithin g depth (id :: active)) id 0
                c.state.inputs.length p with ⟨e | u, q⟩
              · simp [holding, unmark]
              · dsimp only [holding]
                cases q.cell? id with
                | none => simp [unmark]
                | some c' => simp [unmark]

theorem evaluateNode_eq (id : NodeId) (p : Pass C) :
    evaluateNode g id ⟨active, p⟩ = holding active (Pass.visitWithin g p.depthLimit active id p) :=
  visitWithin_eq p.depthLimit active id p

theorem evaluate_eq (pin : Pin) (p : Pass C) :
    evaluate g pin ⟨active, p⟩ =
      holding active (Pass.demand g (Pass.visitWithin g p.depthLimit active) pin p) :=
  demand_eq (visitWithin_eq p.depthLimit active) pin p

/-- A call leaves the marks as they were. -/
theorem active_after (s : Evaluator C) (call : Call) : (s.after g call).active = s.active := by
  obtain ⟨active, p⟩ := s
  cases call with
  | pin pin => rw [after, evaluate_eq]; rfl
  | node id => rw [after, evaluateNode_eq]; rfl

end Evaluator

end NodeShader
