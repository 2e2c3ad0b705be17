import NodeShader.Node.Expression
import NodeShader.Node.Resolve

/-!
# Nodes do not know their numbers

A state names its node, the links that lead to its inputs and how often its outputs are used. Of
these a node reads whether an input is linked, and nothing else: its own number, the other ends of
the links and the numbers of uses are passed on as they are. `NodeState.anonymous` leaves out what is
not read. Of uses it keeps whether there are none, one or more, which is what decides how an output
is made available. Resolving and evaluating commute with it (`NodeState.anonymous_resolve`,
`NodeState.anonymous_evaluate`), for every kind of node.
-/

namespace NodeShader

variable {C : Type}

/-! ## What is left out -/

/-- The slot without the other end of its link. -/
def InputSlot.anonymous (slot : InputSlot C) : InputSlot C :=
  { slot with link := slot.link.map fun _ => ⟨0⟩ }

/-- The slot with uses counted up to two. -/
def OutputSlot.anonymous (o : OutputSlot C) : OutputSlot C := { o with fanOut := min o.fanOut 2 }

/-- The state without numbers of nodes. -/
def NodeState.anonymous (s : NodeState C) : NodeState C :=
  { s with
    node := 0
    inputs := s.inputs.map InputSlot.anonymous
    outputs := s.outputs.map OutputSlot.anonymous }

/-- The outcome without numbers of nodes. -/
def Outcome.anonymous (o : Outcome C) : Outcome C := { o with state := o.state.anonymous }

@[simp]
theorem InputSlot.isLinked_anonymous (slot : InputSlot C) :
    slot.anonymous.isLinked = slot.isLinked := Option.isSome_map

/-- A change at one place commutes with a map that the change does not notice. -/
theorem map_modify {α β : Type} {f : α → β} {h : α → α} {h' : β → β}
    (hh : ∀ a, f (h a) = h' (f a)) (l : List α) (i : Nat) :
    (l.modify i h).map f = (l.map f).modify i h' := by
  induction l generalizing i with
  | nil => cases i <;> rfl
  | cons a rest ih =>
      cases i with
      | zero => simp [hh]
      | succ i => simp [ih]

namespace NodeState

/-! ## Changes of a state -/

theorem anonymous_mapOutput (s : NodeState C) (i : Nat) {f : OutputSlot C → OutputSlot C}
    (hf : ∀ o, (f o).anonymous = f o.anonymous) :
    (s.mapOutput i f).anonymous = s.anonymous.mapOutput i f := by
  simp only [anonymous, mapOutput, map_modify hf]

theorem anonymous_mapInput (s : NodeState C) (i : Nat) {f : InputSlot C → InputSlot C}
    (hf : ∀ slot, (f slot).anonymous = f slot.anonymous) :
    (s.mapInput i f).anonymous = s.anonymous.mapInput i f := by
  simp only [anonymous, mapInput, map_modify hf]

theorem anonymous_set (s : NodeState C) (i : Nat) (v : Value C) :
    (s.set i v).anonymous = s.anonymous.set i v := by
  apply anonymous_mapOutput
  exact fun _ => rfl

theorem anonymous_setCode (s : NodeState C) (i : Nat) (x : C) :
    (s.setCode i x).anonymous = s.anonymous.setCode i x := by
  apply anonymous_mapOutput
  exact fun _ => rfl

theorem anonymous_receive (s : NodeState C) (i : Nat) (v : Value C) :
    (s.receive i v).anonymous = s.anonymous.receive i v := by
  apply anonymous_mapInput
  exact fun _ => rfl

theorem anonymous_fail (s : NodeState C) (i : Nat) (problem : String) :
    (s.fail i problem).anonymous = s.anonymous.fail i problem := by
  apply anonymous_mapInput
  exact fun _ => rfl

theorem anonymous_foldl {α : Type} {f : NodeState C → α → NodeState C}
    (hf : ∀ s x, (f s x).anonymous = f s.anonymous x) (l : List α) (s : NodeState C) :
    (l.foldl f s).anonymous = l.foldl f s.anonymous :=
  (List.foldl_hom anonymous fun s x => (hf s x).symm).symm

/-! ## What is read of a state -/

theorem values_anonymous (s : NodeState C) : s.anonymous.values = s.values := by
  simp only [values, anonymous, List.map_map]
  rfl

theorem onlyFirstLinked_anonymous (s : NodeState C) :
    Kind.onlyFirstLinked s.anonymous.inputs = Kind.onlyFirstLinked s.inputs := by
  simp only [anonymous]
  cases s.inputs with
  | nil => rfl
  | cons first rest =>
      simp only [List.map_cons, Kind.onlyFirstLinked, InputSlot.isLinked_anonymous, List.all_map,
        Function.comp_def]

variable [Code C]

theorem input_anonymous (s : NodeState C) (i : Nat) : s.anonymous.input i = s.input i := by
  simp only [input, anonymous, List.getElem?_map, Option.map_map]
  rfl

theorem templateArguments_anonymous (s : NodeState C) :
    Kind.templateArguments s.anonymous = Kind.templateArguments s := by
  simp only [Kind.templateArguments, anonymous, List.map_map]
  rfl

omit [Code C] in
theorem templateInputs_anonymous (s : NodeState C) :
    Kind.templateInputs s.anonymous = Kind.templateInputs s := by
  simp only [Kind.templateInputs, anonymous, List.map_map, Function.comp_def,
    InputSlot.isLinked_anonymous]
  rfl

/-! ## Resolving -/

theorem anonymous_declaredInput (k : Kind) (i : Nat) (slot : InputSlot C) :
    (Resolve.declaredInput k i slot).anonymous = Resolve.declaredInput k i slot.anonymous := by
  have hvalue : slot.anonymous.value = slot.value := rfl
  have hdeclared : slot.anonymous.declared = slot.declared := rfl
  unfold Resolve.declaredInput
  rw [hvalue, hdeclared]
  split
  · rfl
  · split
    · rfl
    · split <;> rfl

theorem anonymous_applyInputs (k : Kind) (arity : UInt8) (i : Nat) (slots : List (InputSlot C))
    (ts : List Ty) :
    (Resolve.applyInputs k arity i slots ts).map InputSlot.anonymous =
      Resolve.applyInputs k arity i (slots.map InputSlot.anonymous) ts := by
  induction slots generalizing i ts with
  | nil => cases ts <;> rfl
  | cons slot rest ih =>
      cases ts with
      | nil => rfl
      | cons t ts =>
          rw [Resolve.applyInputs, List.map_cons, List.map_cons, Resolve.applyInputs, ih]
          rfl

omit [Code C] in
theorem anonymous_applyOutputs (arity : UInt8) (os : List (OutputSlot C)) (ts : List Ty) :
    (Resolve.applyOutputs arity os ts).map OutputSlot.anonymous =
      Resolve.applyOutputs arity (os.map OutputSlot.anonymous) ts := by
  induction os generalizing ts with
  | nil => cases ts <;> rfl
  | cons o rest ih =>
      cases ts with
      | nil => rfl
      | cons t ts =>
          rw [Resolve.applyOutputs, List.map_cons, List.map_cons, Resolve.applyOutputs, ih]
          rfl

theorem anonymous_resolveDeclared (s : NodeState C) (k : Kind) :
    (s.resolveDeclared k).anonymous = s.anonymous.resolveDeclared k := by
  have hinputs : (s.inputs.mapIdx (Resolve.declaredInput k)).map InputSlot.anonymous =
      (s.inputs.map InputSlot.anonymous).mapIdx (Resolve.declaredInput k) := by
    apply List.ext_getElem?
    intro i
    simp [anonymous_declaredInput, Function.comp_def]
  simp only [anonymous, resolveDeclared, hinputs, List.map_map]
  rfl

theorem anonymous_applyOverload (s : NodeState C) (k : Kind) (i : Nat) (o : Overload)
    (arity : UInt8) :
    (s.applyOverload k i o arity).anonymous = s.anonymous.applyOverload k i o arity := by
  simp only [anonymous, applyOverload, anonymous_applyInputs, anonymous_applyOutputs]

theorem anonymous_rejectAll (s : NodeState C) : s.rejectAll.anonymous = s.anonymous.rejectAll := by
  simp only [rejectAll, anonymous_fail]
  congr 1
  simp only [anonymous, List.map_map]
  rfl

theorem anonymous_resolve (s : NodeState C) (a : Archetype) (k : Kind) :
    s.anonymous.resolve a k = ((s.resolve a k).1, (s.resolve a k).2.anonymous) := by
  unfold resolve
  rw [values_anonymous]
  split
  · rw [anonymous_resolveDeclared]
  · split
    · rw [anonymous_applyOverload]
    · rw [anonymous_rejectAll]

/-! ## Evaluating -/

theorem anonymous_takeAction (action : Template.Action) (stage : Stage) (s : NodeState C) :
    Kind.takeAction action stage s.anonymous = (Kind.takeAction action stage s).anonymous := by
  have hlength : s.anonymous.outputs.length = s.outputs.length := List.length_map _
  simp only [Kind.takeAction, Outcome.anonymous, templateArguments_anonymous, hlength]
  congr 1
  -- problems are recorded last, then come the values that are given and the calls
  rw [anonymous_foldl fun s x => s.anonymous_fail x.1 x.2, anonymous_foldl]
  · congr 2
    split
    · rfl
    · rw [anonymous_foldl]
      exact fun s i => s.anonymous_setCode i _
  · rintro s ⟨v?, i⟩
    cases v? with
    | none => rfl
    | some v => exact s.anonymous_set i _

/-- A node does the same when it does not know its number. -/
theorem anonymous_evaluate (k : Kind) (stage : Stage) (s : NodeState C) :
    k.evaluate stage s.anonymous = (k.evaluate stage s).anonymous := by
  -- one case for each kind; where inputs decide, both states take the same way
  cases k with
  | scalar | vector | parameter | globalVar | bridge =>
      simp only [Kind.evaluate, Outcome.anonymous, anonymous_set, input_anonymous]
  | vertexOut | fragmentOut => simp only [Kind.evaluate, Outcome.anonymous, input_anonymous]
  | binaryOp | transform | sample =>
      simp only [Kind.evaluate, Outcome.anonymous, input_anonymous]
      split <;> simp only [anonymous_set, anonymous_setCode]
  | call function edited =>
      have hall : s.anonymous.inputs.all (·.value.isValid) = s.inputs.all (·.value.isValid) := by
        simp only [anonymous, List.all_map]
        rfl
      have hcodes : s.anonymous.inputs.map (·.value.code) = s.inputs.map (·.value.code) := by
        simp only [anonymous, List.map_map]
        rfl
      simp only [Kind.evaluate, Outcome.anonymous, hall, hcodes]
      split <;> simp only [anonymous_setCode]
  | makeVec =>
      simp only [Kind.evaluate, Outcome.anonymous, input_anonymous, onlyFirstLinked_anonymous]
      split <;> simp only [anonymous_set]
  | breakVec =>
      simp only [Kind.evaluate, Outcome.anonymous, input_anonymous]
      congr 1
      refine (anonymous_foldl ?_ _ s).symm
      rintro s' ⟨letter, i⟩
      dsimp only
      split <;> simp only [anonymous_set, anonymous_setCode]
  | append =>
      simp only [Kind.evaluate, Outcome.anonymous, input_anonymous]
      split
      · rfl
      · split
        · simp only [anonymous_fail]
        · simp only [anonymous_fail]
        · split <;> simp only [anonymous_fail, anonymous_set]
  | template t =>
      simp only [Kind.evaluate, Kind.evaluateTemplate, templateInputs_anonymous,
        anonymous_takeAction]

end NodeState

/-! ## Fresh states -/

/-- What a node starts with, up to its number. -/
theorem Archetype.anonymous_freshState [Code C] (a : Archetype) {id id' : NodeId}
    {g g' : ShaderGraph}
    (hlinks : ∀ i < a.inputs.length,
      (g.linkInto? (.input id i)).isSome = (g'.linkInto? (.input id' i)).isSome)
    (hfans : ∀ i < a.outputs.length,
      min (g.fanOut (.output id i)) 2 = min (g'.fanOut (.output id' i)) 2) :
    (a.freshState id g : NodeState C).anonymous = (a.freshState id' g').anonymous := by
  have hinputs : ∀ i < a.inputs.length, ((g.linkInto? (.input id i)).map fun _ => (⟨0⟩ : Link)) =
      (g'.linkInto? (.input id' i)).map fun _ => ⟨0⟩ := by
    intro i hi
    have hsome := hlinks i hi
    cases hl : g.linkInto? (.input id i) <;> cases hl' : g'.linkInto? (.input id' i) <;>
      simp_all
  simp only [NodeState.anonymous, freshState]
  congr 1
  · refine List.ext_getElem (by simp) fun i hi _ => ?_
    have hi' : i < a.inputs.length := by simpa using hi
    simp only [List.getElem_map, List.getElem_mapIdx, InputSlot.anonymous, hinputs i hi']
  · refine List.ext_getElem (by simp) fun i hi _ => ?_
    have hi' : i < a.outputs.length := by simpa using hi
    simp only [List.getElem_map, List.getElem_mapIdx, OutputSlot.anonymous, hfans i hi']

end NodeShader
