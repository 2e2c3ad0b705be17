import NodeShader.Node.Resolve
import NodeShader.Proofs.Node.Related

/-!
# What evaluating a node leaves alone

How often an output is used and whether its archetype wants it in a variable are read from the graph
before a pass and never written by it, and so are the links into inputs. A node does not change the
values at its inputs once they are resolved. The statements of a built-in kind are assignments to
variables of the pipeline, and only the ends of the stages have any. What such a kind declares does
not depend on the state either.
-/

namespace NodeShader

variable {C : Type}

namespace NodeState

/-- How often and how the outputs are used. -/
def usage (s : NodeState C) : List (Nat × Bool) := s.outputs.map fun o => (o.fanOut, o.hoist)

theorem usage_mapOutput (s : NodeState C) (i : Nat) {f : OutputSlot C → OutputSlot C}
    (hf : ∀ o, (f o).fanOut = o.fanOut ∧ (f o).hoist = o.hoist) :
    (s.mapOutput i f).usage = s.usage := by
  simp only [usage, mapOutput]
  apply List.ext_getElem?
  intro j
  rw [List.getElem?_map, List.getElem?_map, List.getElem?_modify]
  cases s.outputs[j]? with
  | none => rfl
  | some o =>
      by_cases hij : i = j
      · simp [hij, (hf o).1, (hf o).2]
      · simp [hij]

theorem usage_set (s : NodeState C) (i : Nat) (v : Value C) : (s.set i v).usage = s.usage :=
  s.usage_mapOutput i fun _ => ⟨rfl, rfl⟩

theorem usage_setCode (s : NodeState C) (i : Nat) (x : C) : (s.setCode i x).usage = s.usage :=
  s.usage_mapOutput i fun _ => ⟨rfl, rfl⟩

theorem usage_fail (s : NodeState C) (i : Nat) (problem : String) :
    (s.fail i problem).usage = s.usage := rfl

theorem usage_applyOutputs (arity : UInt8) (os : List (OutputSlot C)) (ts : List Ty) :
    (Resolve.applyOutputs arity os ts).map (fun o => (o.fanOut, o.hoist)) =
      os.map fun o => (o.fanOut, o.hoist) := by
  induction os generalizing ts with
  | nil => cases ts <;> rfl
  | cons o rest ih =>
      cases ts with
      | nil => rfl
      | cons t ts => rw [Resolve.applyOutputs, List.map_cons, List.map_cons, ih]

variable [Code C]

theorem usage_resolve (s : NodeState C) (a : Archetype) (k : Kind) :
    (s.resolve a k).2.usage = s.usage := by
  unfold resolve
  split
  · simp [usage, resolveDeclared, Function.comp_def]
  · split
    · exact usage_applyOutputs _ _ _
    · rfl

/-- A node that no signature fits has signatures, and is left without values. -/
theorem eq_rejectAll_of_resolve {s s' : NodeState C} {a : Archetype} {k : Kind}
    (h : s.resolve a k = (false, s')) : a.overloads ≠ [] ∧ s' = s.rejectAll := by
  unfold resolve at h
  split at h
  · exact absurd h (by simp)
  · rename_i hsome
    split at h
    · exact absurd h (by simp)
    · exact ⟨by simpa using hsome, (Prod.mk.inj h).2.symm⟩

/-- What no change of an output or a problem touches, evaluating a node does not touch. -/
theorem evaluate_frame {α : Type} {f : NodeState C → α} (hset : ∀ s i v, f (s.set i v) = f s)
    (hcode : ∀ s i x, f (s.setCode i x) = f s) (hfail : ∀ s i problem, f (s.fail i problem) = f s)
    (k : Kind) (stage : Stage) (s : NodeState C) : f (k.evaluate stage s).state = f s := by
  have hfold : ∀ {β : Type} {h : NodeState C → β → NodeState C}, (∀ s x, f (h s x) = f s) →
      ∀ (l : List β) (s : NodeState C), f (l.foldl h s) = f s := by
    intro β h hh l
    induction l with
    | nil => exact fun _ => rfl
    | cons x rest ih => exact fun s => (ih (h s x)).trans (hh s x)
  cases k with
  | scalar | vector | parameter | globalVar | bridge => exact hset _ _ _
  | vertexOut | fragmentOut => rfl
  | binaryOp | transform | call | sample | makeVec =>
      simp only [Kind.evaluate]
      split <;> simp only [hset, hcode]
  | breakVec =>
      refine hfold ?_ _ s
      rintro s ⟨letter, i⟩
      dsimp only
      split
      · exact hcode _ _ _
      · exact hset _ _ _
  | append =>
      simp only [Kind.evaluate]
      split
      · rfl
      · split
        · exact hfail _ _ _
        · exact hfail _ _ _
        · split <;> simp only [hfail, hset]
  | template t =>
      simp only [Kind.evaluate, Kind.evaluateTemplate, Kind.takeAction]
      rw [hfold (fun s x => hfail s _ _), hfold (fun s x => by split <;> simp only [hset])]
      split
      · rfl
      · exact hfold (fun s x => hcode s _ _) _ s

theorem usage_evaluate (k : Kind) (stage : Stage) (s : NodeState C) :
    (k.evaluate stage s).state.usage = s.usage :=
  evaluate_frame usage_set usage_setCode usage_fail k stage s

/-! ### Inputs -/

omit [Code C] in
theorem values_fail (s : NodeState C) (i : Nat) (problem : String) :
    (s.fail i problem).values = s.values := by
  simp only [values, fail, mapInput]
  apply List.ext_getElem?
  intro j
  rw [List.getElem?_map, List.getElem?_map, List.getElem?_modify]
  cases s.inputs[j]? with
  | none => rfl
  | some slot => by_cases hij : i = j <;> simp [hij]

theorem values_evaluate (k : Kind) (stage : Stage) (s : NodeState C) :
    (k.evaluate stage s).state.values = s.values :=
  evaluate_frame (fun _ _ _ => rfl) (fun _ _ _ => rfl) values_fail k stage s

omit [Code C] in
/-- The links that lead to the inputs. -/
def links (s : NodeState C) : List (Option Link) := s.inputs.map InputSlot.link

theorem link_declaredInput (k : Kind) (i : Nat) (slot : InputSlot C) :
    (Resolve.declaredInput k i slot).link = slot.link := by
  unfold Resolve.declaredInput
  split
  · rfl
  · split
    · rfl
    · split <;> rfl

theorem links_applyInputs (k : Kind) (arity : UInt8) (i : Nat) (slots : List (InputSlot C))
    (ts : List Ty) :
    (Resolve.applyInputs k arity i slots ts).map InputSlot.link = slots.map InputSlot.link := by
  induction slots generalizing i ts with
  | nil => cases ts <;> rfl
  | cons slot rest ih =>
      cases ts with
      | nil => rfl
      | cons t ts =>
          rw [Resolve.applyInputs, List.map_cons, List.map_cons, ih]
          rfl

omit [Code C] in
theorem links_fail (s : NodeState C) (i : Nat) (problem : String) :
    (s.fail i problem).links = s.links := by
  simp only [links, fail, mapInput]
  apply List.ext_getElem?
  intro j
  rw [List.getElem?_map, List.getElem?_map, List.getElem?_modify]
  cases s.inputs[j]? with
  | none => rfl
  | some slot => by_cases hij : i = j <;> simp [hij]

theorem links_resolve (s : NodeState C) (a : Archetype) (k : Kind) :
    (s.resolve a k).2.links = s.links := by
  unfold resolve
  split
  · apply List.ext_getElem?
    intro i
    simp only [links, resolveDeclared, List.getElem?_map, List.getElem?_mapIdx, Option.map_map]
    congr 1
    funext slot
    exact link_declaredInput k i slot
  · split
    · exact links_applyInputs k _ 0 s.inputs _
    · rw [rejectAll, links_fail]
      simp [links, Function.comp_def]

/-! ### Sizes -/

theorem length_inputs_resolve (s : NodeState C) (a : Archetype) (k : Kind) :
    (s.resolve a k).2.inputs.length = s.inputs.length := by
  have hlinks := congrArg List.length (s.links_resolve a k)
  rwa [links, links, List.length_map, List.length_map] at hlinks

theorem length_inputs_evaluate (k : Kind) (stage : Stage) (s : NodeState C) :
    (k.evaluate stage s).state.inputs.length = s.inputs.length := by
  have hvalues := congrArg List.length (values_evaluate k stage s)
  rwa [values, values, List.length_map, List.length_map] at hvalues

theorem length_outputs_resolve (s : NodeState C) (a : Archetype) (k : Kind) :
    (s.resolve a k).2.outputs.length = s.outputs.length := by
  have husage := congrArg List.length (s.usage_resolve a k)
  rwa [usage, usage, List.length_map, List.length_map] at husage

end NodeState

/-! ## Statements -/

variable [Code C]

/-- What a kind writes into the body are assignments, and only roots write any. -/
theorem Kind.statements_evaluate {k : Kind} (hk : k.isTemplate = false) (stage : Stage)
    (s : NodeState C) :
    (k.root? = none → (k.evaluate stage s).statements = []) ∧
      ∀ x ∈ (k.evaluate stage s).statements, ∃ target ∈ targets, ∃ y, x = Code.assign target y := by
  cases k with
  | vertexOut edited =>
      refine ⟨by simp [root?], ?_⟩
      simp only [evaluate, List.mem_cons, List.not_mem_nil, or_false]
      rintro x (rfl | rfl | rfl) <;> exact ⟨_, by simp [targets], _, rfl⟩
  | fragmentOut =>
      refine ⟨by simp [root?], ?_⟩
      simp only [evaluate, List.mem_cons, List.not_mem_nil, or_false]
      rintro x rfl
      exact ⟨_, by simp [targets], _, rfl⟩
  | template t => exact absurd hk (by simp [isTemplate])
  | _ => simp [evaluate]

/-! ## Declarations -/

/-- What a built-in kind declares. -/
def Kind.declarations : Kind → List String
  | .parameter name => ["uniform float " ++ identifier name ++ ";"]
  | .globalVar _ declaration => if declaration = "" then [] else [declaration]
  | _ => []

theorem Kind.declarations_evaluate {k : Kind} (hk : k.isTemplate = false) (stage : Stage)
    (s : NodeState C) : (k.evaluate stage s).declarations = k.declarations := by
  cases k <;> first | rfl | exact absurd hk (by simp [isTemplate])

/-- The declaration of a uniform. -/
def Kind.uniformText (ty name : String) : String := "uniform " ++ ty ++ " " ++ name ++ ";"

theorem Kind.declarations_parameter (name : String) :
    (parameter name).declarations = [uniformText "float" (identifier name)] := rfl

end NodeShader
