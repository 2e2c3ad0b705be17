import NodeShader.Proofs.Document.Drawn
import NodeShader.Proofs.Node.Positions
import NodeShader.Proofs.Pass.Ends
import NodeShader.Proofs.Pass.Prepared

/-!
# Evaluation asks for pins that are there

A kind reads inputs and writes outputs by position, and `Kind.evaluate` takes no notice of one that is
not there. The functions of this module evaluate with every access checked, as `Positions.resolve`
resolves: an access to a pin that the node lacks has no answer but the position it asked for.

* `Positions.evaluate_eq`: a kind that stays within the pins of a node (`Kind.StaysWithin`) asks for no
  others, whatever has reached it.
* `Kind.staysWithin_of_catalogue`: the kinds of the catalogue stay within the pins of their archetypes,
  and so does what users make of them (`Kind.Altered.staysWithin`). Kinds that come with archetypes of
  other registries need not: `Registry.StaysWithin` and `Graph.StaysWithin` are the condition for it.
* `Pass.outcome_in_range`: under this condition no node of any pass, be it finished or ended by a cycle,
  asks for a pin that it lacks.
-/

namespace NodeShader

/-! ## Checked evaluation -/

namespace Positions

variable {C : Type}

/-- The value of input `i`. -/
def input (s : NodeState C) (i : Nat) : Except OutOfRange (Value C) := do
  let slot ← read s.inputs i
  return slot.value

/-- A change of output `i`. -/
def changeOutput (s : NodeState C) (i : Nat) (change : NodeState C → NodeState C) :
    Except OutOfRange (NodeState C) := do
  let _ ← read s.outputs i
  return change s

/-- Stores a value on output `i`. -/
def set (s : NodeState C) (i : Nat) (v : Value C) : Except OutOfRange (NodeState C) :=
  changeOutput s i (·.set i v)

/-- Stores source code on output `i`. -/
def setCode (s : NodeState C) (i : Nat) (code : C) : Except OutOfRange (NodeState C) :=
  changeOutput s i (·.setCode i code)

/-- Records a problem with input `i`. -/
def fail (s : NodeState C) (i : Nat) (problem : String) : Except OutOfRange (NodeState C) := do
  let _ ← read s.inputs i
  return s.fail i problem

variable [Code C]

/-- Component `i` of a vector that is put together: the value of input `i`, or zero. -/
def component (s : NodeState C) (i : Nat) : Except OutOfRange (Value C) := do
  let v ← input s i
  return Kind.orElse v (.literal .zero)

/-- Stores component `i` of a vector that is taken apart on output `i`; zero if there is none. -/
def storeComponent (v : Value C) (s : NodeState C) (i : Nat) : Except OutOfRange (NodeState C) :=
  if v.isValid then do
    let letter ← read Kind.swizzles i
    setCode s i (Code.select v.code letter)
  else set s i (.literal .zero)

/-- Stores calls of a template's function on all outputs. -/
def storeCalls (function : String) (args : List C) (s : NodeState C) :
    Except OutOfRange (NodeState C) :=
  if function = "" then .ok s
  else
    (List.range s.outputs.length).foldlM
      (fun s i => setCode s i (Code.apply (function ++ Number.natText i) args)) s

/-- Stores a value of a template. Values for outputs that the node does not have are skipped. -/
def storeValue (s : NodeState C) (entry : Option Value × Nat) : Except OutOfRange (NodeState C) :=
  match entry with
  | (some v, i) => if i < s.outputs.length then set s i v.verbatim else .ok s
  | (none, _) => .ok s

/-- What a template does to a node. -/
def takeAction (action : Template.Action) (stage : Stage) (s : NodeState C) :
    Except OutOfRange (Outcome C) := do
  let args := Kind.templateArguments s
  let called ← storeCalls action.function args s
  let valued ← action.values.zipIdx.foldlM storeValue called
  let failed ← action.problems.foldlM (fun s (i, problem) => fail s i problem) valued
  return {
    state := failed
    declarations := action.declarations
    statements := action.statements.map fun f => Code.remark (Code.apply f args) stage.text }

/-- Sets the outputs from the resolved inputs. -/
def evaluate (k : Kind) (stage : Stage) (s : NodeState C) : Except OutOfRange (Outcome C) :=
  match k with
  | .scalar value => do return { state := ← set s 0 (.literal value) }
  | .vector values => do
    return { state := ← set s 0 (.compose (.gen (UInt8.ofNat values.length)) (values.map .literal)) }
  | .parameter name => do
    let id := identifier name
    return {
      state := ← set s 0 ⟨.float, Code.verbatim id⟩
      declarations := ["uniform float " ++ id ++ ";"] }
  | .globalVar value declaration => do
    return {
      state := ← set s 0 value.verbatim
      declarations := if declaration = "" then [] else [declaration] }
  | .binaryOp operator _ => do
    let x ← input s 0
    let y ← input s 1
    if x.isValid && y.isValid then
      return { state := ← setCode s 0 (Code.binary operator x.code y.code) }
    else return { state := s }
  | .transform => do
    let m ← input s 0
    let v ← input s 1
    if m.isValid then return { state := ← setCode s 0 (Code.binary "*" m.code v.code) }
    else return { state := ← set s 0 v }
  | .call function _ => do
    if s.inputs.all (·.value.isValid) then
      return { state := ← setCode s 0 (Code.apply function (s.inputs.map (·.value.code))) }
    else return { state := s }
  | .sample => do
    let texture ← input s 0
    let uv ← input s 1
    if texture.isValid then
      return {
        state := ← setCode s 0
          (Code.apply "texture2D" [texture.code, (Kind.orElse uv Kind.texCoord).code]) }
    else return { state := ← set s 0 (.splat .zero .vec4) }
  | .makeVec arity _ => do
    let x ← input s 0
    if Kind.onlyFirstLinked s.inputs then return { state := ← set s 0 (x.convert (.gen arity)) }
    else do
      let args ← (List.range arity.toNat).mapM (component s)
      return { state := ← set s 0 (.compose (.gen arity) args) }
  | .breakVec arity => do
    let v ← input s 0
    return { state := ← (List.range arity.toNat).foldlM (storeComponent v) s }
  | .append => do
    let a ← input s 0
    let b ← input s 1
    if !a.isValid || !b.isValid then return { state := s }
    else
      match a.ty.arity?, b.ty.arity? with
      | none, _ => return { state := ← fail s 0 Kind.appendNotGen }
      | some _, none => return { state := ← fail s 1 Kind.appendNotGen }
      | some m, some n =>
        if 4 < m + n then
          return { state := ← fail (← fail s 0 Kind.appendTooWide) 1 Kind.appendTooWide }
        else return { state := ← set s 0 (.compose (.gen (m + n)) [a, b]) }
  | .vertexOut _ => do
    let color := Kind.orElse (← input s 0) (.splat .half .vec3)
    let alpha := Kind.orElse (← input s 1) (.literal .one)
    return {
      state := s
      statements :=
        [Code.assign "gl_FrontColor" (Code.apply "vec4" [color.code, alpha.code]),
          Code.assign "gl_Position"
            (Code.binary "*" (Code.verbatim "gl_ModelViewProjectionMatrix")
              (Code.verbatim "gl_Vertex")),
          Code.assign "gl_TexCoord[0]"
            (Code.binary "*" (Code.verbatim "gl_TextureMatrix[0]")
              (Code.verbatim "gl_MultiTexCoord0"))] }
  | .fragmentOut => do
    let color := Kind.orElse (← input s 0) ⟨.vec4, Code.verbatim "gl_Color"⟩
    return { state := s, statements := [Code.assign "gl_FragColor" color.code] }
  | .bridge => do return { state := ← set s 0 (← input s 0) }
  | .template t => takeAction (t.act stage (Kind.templateInputs s)) stage s

/-- Resolves and evaluates a node whose inputs have their values. -/
def outcome (c : Cell C) (stage : Stage) : Except OutOfRange (Outcome C) := do
  match ← resolve c.state c.archetype c.kind with
  | (true, s) => evaluate c.kind stage s
  | (false, s) => return { state := s }

end Positions

/-! ## Kinds that stay within pins -/

namespace Kind

/-- How many pins a built-in kind asks for. -/
def reach : Kind → PinCount
  | .scalar _ | .vector _ | .parameter _ | .globalVar .. | .call .. => ⟨0, 1⟩
  | .binaryOp .. | .transform | .sample | .append => ⟨2, 1⟩
  | .makeVec arity _ => ⟨max 1 arity.toNat, 1⟩
  | .breakVec arity => ⟨1, arity.toNat⟩
  | .vertexOut _ => ⟨2, 0⟩
  | .fragmentOut => ⟨1, 0⟩
  | .bridge => ⟨1, 1⟩
  | .template _ => ⟨0, 0⟩

/-- How many letters a kind selects components with. -/
def letterCount : Kind → Nat
  | .breakVec arity => arity.toNat
  | _ => 0

/-- The inputs that a template may have problems with are below the bound. -/
def BlamesBelow (bound : Nat) : Kind → Prop
  | .template t => ∀ stage given, ∀ problem ∈ (t.act stage given).problems, problem.1 < bound
  | _ => True

/-- Evaluating the kind asks for no pins but these. -/
structure StaysWithin (k : Kind) (pins : PinCount) : Prop where
  inputs : k.reach.inputs ≤ pins.inputs
  outputs : k.reach.outputs ≤ pins.outputs
  letters : k.letterCount ≤ swizzles.length
  problems : k.BlamesBelow pins.inputs

/-- What a user makes of a kind asks for the same pins. -/
theorem Altered.staysWithin {k k' : Kind} (h : k.Altered k') {pins : PinCount}
    (hk : k.StaysWithin pins) : k'.StaysWithin pins := by
  have hsame : k'.reach = k.reach ∧ k'.letterCount = k.letterCount ∧
      (k.BlamesBelow pins.inputs → k'.BlamesBelow pins.inputs) := by
    cases h with
    | variant h => cases h <;> exact ⟨rfl, rfl, id⟩
    | operator | function => exact ⟨rfl, rfl, id⟩
  obtain ⟨hreach, hletters, hproblems⟩ := hsame
  exact ⟨hreach ▸ hk.inputs, hreach ▸ hk.outputs, hletters ▸ hk.letters, hproblems hk.problems⟩

/-- The kinds of the catalogue stay within the pins of their archetypes. -/
theorem staysWithin_of_catalogue {e : Registration} (h : e ∈ Catalogue.registrations) :
    e.initial.StaysWithin ⟨e.archetype.inputs.length, e.archetype.outputs.length⟩ := by
  have hall : ∀ e ∈ Catalogue.registrations, e.initial.isTemplate = false ∧
      e.initial.reach.inputs ≤ e.archetype.inputs.length ∧
      e.initial.reach.outputs ≤ e.archetype.outputs.length ∧
      e.initial.letterCount ≤ swizzles.length := by decide
  obtain ⟨hbuiltin, hinputs, houtputs, hletters⟩ := hall e h
  refine ⟨hinputs, houtputs, hletters, ?_⟩
  revert hbuiltin
  cases e.initial with
  | template t => exact fun hbuiltin => absurd hbuiltin (by simp [isTemplate])
  | _ => exact fun _ => trivial

end Kind

/-! ## In range -/

namespace NodeState

variable {C : Type}

@[simp] theorem length_outputs_set (s : NodeState C) (i : Nat) (v : Value C) :
    (s.set i v).outputs.length = s.outputs.length := List.length_modify _ _ _

@[simp] theorem length_outputs_setCode (s : NodeState C) (i : Nat) (x : C) :
    (s.setCode i x).outputs.length = s.outputs.length := List.length_modify _ _ _

@[simp] theorem length_inputs_fail (s : NodeState C) (i : Nat) (problem : String) :
    (s.fail i problem).inputs.length = s.inputs.length := List.length_modify _ _ _

/-- An output that is not there does not change. -/
theorem set_of_le {s : NodeState C} {i : Nat} (h : s.outputs.length ≤ i) (v : Value C) :
    s.set i v = s := by
  simp only [set, mapOutput, List.modify_eq_self h]

end NodeState

namespace Positions

variable {C : Type} {s : NodeState C} {i : Nat}

theorem input_eq [Code C] (h : i < s.inputs.length) : input s i = .ok (s.input i) := by
  simp only [input, read_eq h, NodeState.input, List.getElem?_eq_getElem h, Option.map_some,
    Option.getD_some]
  rfl

theorem set_eq (h : i < s.outputs.length) (v : Value C) : set s i v = .ok (s.set i v) := by
  simp only [set, changeOutput, read_eq h]
  rfl

theorem setCode_eq (h : i < s.outputs.length) (x : C) : setCode s i x = .ok (s.setCode i x) := by
  simp only [setCode, changeOutput, read_eq h]
  rfl

theorem fail_eq (h : i < s.inputs.length) (problem : String) :
    fail s i problem = .ok (s.fail i problem) := by
  simp only [fail, read_eq h]
  rfl

/-- A loop all of whose steps are in range, as long as what they keep holds. -/
theorem foldlM_eq_ok {σ β : Type} {f : σ → β → Except OutOfRange σ} {g : σ → β → σ}
    {I : σ → Prop} {l : List β}
    (hstep : ∀ x ∈ l, ∀ s, I s → f s x = .ok (g s x) ∧ I (g s x)) :
    ∀ s, I s → l.foldlM f s = .ok (l.foldl g s) ∧ I (l.foldl g s) := by
  induction l with
  | nil => exact fun s hs => ⟨rfl, hs⟩
  | cons x rest ih =>
      intro s hs
      obtain ⟨hx, hrest⟩ := List.forall_mem_cons.mp hstep
      obtain ⟨hfirst, hs'⟩ := hx s hs
      rw [List.foldlM_cons, hfirst]
      exact ih hrest _ hs'

variable [Code C]

theorem components_eq {count : Nat} (h : count ≤ s.inputs.length) :
    (List.range count).mapM (component s) =
      .ok ((List.range count).map fun i => Kind.orElse (s.input i) (.literal .zero)) := by
  refine mapM_eq_ok (List.forall₂_map_right_iff.mpr (List.forall₂_same.mpr fun i hi => ?_))
  rw [component, input_eq (Nat.lt_of_lt_of_le (List.mem_range.mp hi) h)]
  rfl

theorem storeComponents_eq {count : Nat} (hout : count ≤ s.outputs.length)
    (hletters : count ≤ Kind.swizzles.length) (v : Value C) :
    (List.range count).foldlM (storeComponent v) s =
      .ok ((Kind.swizzles.take count).zipIdx.foldl (fun s (letter, i) =>
        if v.isValid then s.setCode i (Code.select v.code letter) else s.set i (.literal .zero)) s) := by
  have hzip : ∀ n ≤ Kind.swizzles.length, (Kind.swizzles.take n).zipIdx =
      (List.range n).map fun i => (Kind.swizzles.getD i "", i) := by decide
  rw [hzip count hletters, List.foldl_map]
  refine (foldlM_eq_ok (I := fun s' => s'.outputs.length = s.outputs.length)
    (fun i hi s' hs' => ?_) s rfl).1
  have hi' : i < count := List.mem_range.mp hi
  have hslot : i < s'.outputs.length := hs' ▸ Nat.lt_of_lt_of_le hi' hout
  have hletter : read Kind.swizzles i = .ok (Kind.swizzles.getD i "") := by
    have hlt : i < Kind.swizzles.length := Nat.lt_of_lt_of_le hi' hletters
    rw [read_eq hlt, List.getD_eq_getElem?_getD, List.getElem?_eq_getElem hlt, Option.getD_some]
  simp only [storeComponent, hletter, bind, Except.bind, setCode_eq hslot, set_eq hslot]
  split
  · exact ⟨rfl, by simp [hs']⟩
  · exact ⟨rfl, by simp [hs']⟩

theorem storeCalls_eq (function : String) (args : List C) (s : NodeState C) :
    ∃ called : NodeState C, storeCalls function args s = .ok called ∧
      called.inputs.length = s.inputs.length ∧ called = if function = "" then s else
        (List.range s.outputs.length).foldl
          (fun s i => s.setCode i (Code.apply (function ++ Number.natText i) args)) s := by
  unfold storeCalls
  split
  · exact ⟨s, rfl, rfl, rfl⟩
  · obtain ⟨hfold, hinputs, -⟩ := foldlM_eq_ok (l := List.range s.outputs.length)
      (f := fun s i => setCode s i (Code.apply (function ++ Number.natText i) args))
      (g := fun s i => s.setCode i (Code.apply (function ++ Number.natText i) args))
      (I := fun s' => s'.inputs.length = s.inputs.length ∧ s'.outputs.length = s.outputs.length)
      (fun i hi s' hs' => ⟨setCode_eq (hs'.2 ▸ List.mem_range.mp hi) _, hs'.1, by simp [hs'.2]⟩)
      s ⟨rfl, rfl⟩
    exact ⟨_, hfold, hinputs, rfl⟩

/-- A value of a template on its output, whether that is there or not. -/
def putValue (s : NodeState C) (entry : Option Value × Nat) : NodeState C :=
  match entry.1 with
  | some v => s.set entry.2 v.verbatim
  | none => s

/-- Values for outputs that are not there are skipped, which is no change. -/
theorem storeValues_eq (entries : List (Option Value × Nat)) (s : NodeState C) :
    entries.foldlM storeValue s = .ok (entries.foldl putValue s) ∧
      (entries.foldl putValue s).inputs.length = s.inputs.length := by
  refine foldlM_eq_ok (I := fun s' => s'.inputs.length = s.inputs.length)
    (fun entry _ s' hs' => ?_) s rfl
  obtain ⟨_ | v, i⟩ := entry
  · exact ⟨rfl, hs'⟩
  · refine ⟨?_, hs'⟩
    simp only [storeValue, putValue]
    split
    · rename_i hi
      exact set_eq hi _
    · rename_i hi
      rw [NodeState.set_of_le (Nat.le_of_not_lt hi)]

omit [Code C] in
theorem problems_eq {problems : List (Nat × String)}
    (h : ∀ problem ∈ problems, problem.1 < s.inputs.length) :
    problems.foldlM (fun s problem => fail s problem.1 problem.2) s =
      .ok (problems.foldl (fun s problem => s.fail problem.1 problem.2) s) := by
  refine (foldlM_eq_ok (I := fun s' => s'.inputs.length = s.inputs.length)
    (fun problem hproblem s' hs' => ?_) s rfl).1
  exact ⟨fail_eq (hs' ▸ h problem hproblem) _, by simp [hs']⟩

/-- A template that finds problems with inputs of the node is in range. -/
theorem takeAction_eq {action : Template.Action}
    (h : ∀ problem ∈ action.problems, problem.1 < s.inputs.length) (stage : Stage) :
    takeAction action stage s = .ok (Kind.takeAction action stage s) := by
  obtain ⟨called, hcalls, hcalled, hsame⟩ :=
    storeCalls_eq action.function (Kind.templateArguments s) s
  obtain ⟨hvalues, hvalued⟩ := storeValues_eq action.values.zipIdx called
  have hproblems := problems_eq fun problem hproblem =>
    (hvalued.trans hcalled).symm ▸ h problem hproblem
  simp only [takeAction, hcalls, hvalues, hproblems, bind, Except.bind, pure, Except.pure]
  rw [hsame]
  rfl

/-- A kind that stays within the pins of a node asks for no others. -/
theorem evaluate_eq {k : Kind} (h : k.StaysWithin ⟨s.inputs.length, s.outputs.length⟩)
    (stage : Stage) : evaluate k stage s = .ok (k.evaluate stage s) := by
  obtain ⟨hin, hout, hletters, hproblems⟩ := h
  cases k with
  | scalar | vector | parameter | globalVar =>
      simp only [evaluate, set_eq hout]
      rfl
  | binaryOp operator edited =>
      have hfirst : 0 < s.inputs.length := Nat.lt_of_succ_lt hin
      simp only [evaluate, input_eq hfirst, input_eq hin, setCode_eq hout, bind, Except.bind, pure,
        Except.pure, Kind.evaluate]
      split <;> rfl
  | transform =>
      have hfirst : 0 < s.inputs.length := Nat.lt_of_succ_lt hin
      simp only [evaluate, input_eq hfirst, input_eq hin, setCode_eq hout, set_eq hout, bind,
        Except.bind, pure, Except.pure, Kind.evaluate]
      split <;> rfl
  | call function edited =>
      simp only [evaluate, setCode_eq hout, bind, Except.bind, pure, Except.pure, Kind.evaluate]
      split <;> rfl
  | sample =>
      have hfirst : 0 < s.inputs.length := Nat.lt_of_succ_lt hin
      simp only [evaluate, input_eq hfirst, input_eq hin, setCode_eq hout, set_eq hout, bind,
        Except.bind, pure, Except.pure, Kind.evaluate]
      split <;> rfl
  | makeVec arity edited =>
      have hfirst : 0 < s.inputs.length := Nat.lt_of_lt_of_le (Nat.le_max_left _ _) hin
      have hcount : arity.toNat ≤ s.inputs.length := Nat.le_trans (Nat.le_max_right _ _) hin
      simp only [evaluate, input_eq hfirst, components_eq hcount, set_eq hout, bind, Except.bind, pure,
        Except.pure, Kind.evaluate]
      split <;> rfl
  | breakVec arity =>
      have hcount : arity.toNat ≤ s.outputs.length := hout
      have hletter : arity.toNat ≤ Kind.swizzles.length := hletters
      simp only [evaluate, input_eq hin, storeComponents_eq hcount hletter, bind, Except.bind]
      rfl
  | append =>
      have hfirst : 0 < s.inputs.length := Nat.lt_of_succ_lt hin
      have hsecond : 1 < (s.fail 0 Kind.appendTooWide).inputs.length := by
        rw [NodeState.length_inputs_fail]
        exact hin
      simp only [evaluate, input_eq hfirst, input_eq hin, set_eq hout, fail_eq hfirst, fail_eq hin,
        fail_eq hsecond, bind, Except.bind, pure, Except.pure, Kind.evaluate]
      split
      · rfl
      · cases (s.input 0).ty.arity? with
        | none => rfl
        | some m =>
            cases (s.input 1).ty.arity? with
            | none => rfl
            | some n =>
                dsimp only
                split <;> rfl
  | vertexOut edited =>
      have hfirst : 0 < s.inputs.length := Nat.lt_of_succ_lt hin
      simp only [evaluate, input_eq hfirst, input_eq hin]
      rfl
  | fragmentOut =>
      simp only [evaluate, input_eq hin]
      rfl
  | bridge =>
      simp only [evaluate, input_eq hin, bind, Except.bind, set_eq hout]
      rfl
  | template t => exact takeAction_eq (hproblems stage _) stage

-- a sum of two inputs at a node that has one
example : evaluate (C := String) (.binaryOp "+" []) .fragment
    { node := 1, inputs := [blankInput], outputs := [blankOutput] } = .error ⟨1, 1⟩ := rfl

end Positions

/-! ## Registries and graphs -/

/-- Every kind that the registry hands out stays within the pins of its archetype. -/
def Registry.StaysWithin (r : Registry) : Prop :=
  ∀ handle entry, r.get? handle = some entry →
    entry.initial.StaysWithin ⟨entry.archetype.inputs.length, entry.archetype.outputs.length⟩

/-- The kind of every node stays within the pins of the node's archetype. -/
def Graph.StaysWithin (g : ShaderGraph) (r : Registry) : Prop :=
  ∀ n ∈ g.nodes, ∀ e, n.node = .expression e → ∀ a, r.archetype? e.handle = some a →
    e.kind.StaysWithin ⟨a.inputs.length, a.outputs.length⟩

theorem Registry.staysWithin_builtin : Registry.builtin.StaysWithin := by
  intro handle entry hentry
  obtain ⟨e, he, hinitial, hshape⟩ := exists_catalogue_of_get?_builtin hentry
  have hwithin := Kind.staysWithin_of_catalogue he
  rwa [← hshape.inputs, ← hshape.outputs, ← hinitial] at hwithin

/-- Whatever users make of the nodes of such a registry, their kinds stay within their pins. -/
theorem Registry.StaysWithin.graph {r : Registry} (h : r.StaysWithin) {g : ShaderGraph}
    (hg : ∀ n ∈ g.nodes, ∀ e, n.node = .expression e → e.IsAltered r) : g.StaysWithin r := by
  intro n hn e he a ha
  obtain ⟨entry, hentry, -, hkind⟩ := hg n hn e he
  rw [archetype?_of_get? hentry, Option.some.injEq] at ha
  exact ha ▸ hkind.staysWithin (h _ _ hentry)

theorem Graph.Drawn.staysWithin {r : Registry} (h : r.StaysWithin) {g : ShaderGraph}
    (hg : g.Drawn r) : g.StaysWithin r := by
  refine h.graph fun n hn e he => ?_
  obtain ⟨e', he', haltered⟩ := hg.tidy.instances n hn
  cases he.symm.trans he'
  exact haltered

theorem Graph.IsCatalogued.staysWithin {g : ShaderGraph} (hg : g.IsCatalogued) :
    g.StaysWithin .builtin := by
  refine Registry.staysWithin_builtin.graph fun n hn e he => ?_
  obtain ⟨entry, hentry, hpins, hkind⟩ := hg n hn e he
  exact ⟨entry, hentry, hpins, .variant hkind⟩

/-! ## Cells -/

section Cells

variable {C : Type} [Code C]

/-- The state has the slots of the archetype, as have its signatures, and the kind stays within
them. -/
structure Cell.Shaped (c : Cell C) : Prop where
  inputs : c.state.inputs.length = c.archetype.inputs.length
  outputs : c.state.outputs.length = c.archetype.outputs.length
  signatures : ∀ o ∈ c.archetype.overloads, o.HasShapeOf c.archetype
  within : c.kind.StaysWithin ⟨c.archetype.inputs.length, c.archetype.outputs.length⟩

/-- Resolving and evaluating asks for slots that are there. -/
theorem Cell.Shaped.outcome_eq {c : Cell C} (h : c.Shaped) (stage : Stage) :
    Positions.outcome c stage = .ok (c.outcome stage) := by
  have hresolve : Positions.resolve c.state c.archetype c.kind =
      .ok (c.state.resolve c.archetype c.kind) :=
    Positions.resolve_eq c.kind fun o ho => by
      rw [h.inputs, h.outputs]
      exact h.signatures o ho
  have hin := c.state.length_inputs_resolve c.archetype c.kind
  have hout := c.state.length_outputs_resolve c.archetype c.kind
  rw [h.inputs] at hin
  rw [h.outputs] at hout
  rw [Positions.outcome, Cell.outcome, hresolve]
  revert hin hout
  rcases c.state.resolve c.archetype c.kind with ⟨_ | _, s⟩ <;> intro hin hout
  · rfl
  · have hwithin : c.kind.StaysWithin ⟨s.inputs.length, s.outputs.length⟩ := by
      rw [hin, hout]
      exact h.within
    exact Positions.evaluate_eq hwithin stage

end Cells

/-! ## Passes -/

namespace Pass

variable {C : Type} [Code C] {g : ShaderGraph} {r : Registry} {p q : Pass C}

/-- The passes that evaluation goes through from the first: values reach inputs of nodes that are not
evaluated yet, and such nodes are completed. -/
inductive Reached (p : Pass C) : Pass C → Prop
  | start : Reached p p
  | receive {q : Pass C} (id : NodeId) (i : Nat) (v : Value C) (hopen : q.IsOpen id) :
      Reached p q → Reached p (q.mapState id (·.receive i v))
  | complete {q : Pass C} {c : Cell C} (hcell : q.cell? c.id = some c)
      (hopen : c.state.evaluated = false) : Reached p q → Reached p (q.complete c)

/-- A run is made of these changes, be it finished or ended by a cycle. -/
theorem exists_reached_of_run (g : ShaderGraph) (p : Pass C) : ∃ m, Reached p m ∧
    (p.run g = (.ok (), m.finish) ∨ ∃ e, p.run g = (.error e, m)) :=
  (runs_iff.mpr rfl).invariant_end (I := Reached p)
    (fun _ id i v hopen hq => hq.receive id i v hopen)
    (fun _ _ hcell hopen hq => hq.complete hcell hopen) .start

def Shaped (p : Pass C) : Prop := ∀ id c, p.cell? id = some c → c.Shaped

omit [Code C] in
theorem Shaped.receive (h : p.Shaped) (id : NodeId) (i : Nat) (v : Value C) :
    (p.mapState id (·.receive i v)).Shaped := by
  intro j c' hc'
  obtain ⟨c, s, hc, rfl, -, hinputs, houtputs⟩ := exists_cell_of_receive hc'
  have hshaped := h j c hc
  exact ⟨hinputs.trans hshaped.inputs, (congrArg List.length houtputs).trans hshaped.outputs,
    hshaped.signatures, hshaped.within⟩

theorem Shaped.complete (h : p.Shaped) {c : Cell C} (hc : p.cell? c.id = some c) :
    (p.complete c).Shaped := by
  intro j c' hc'
  by_cases hj : j = c.id
  · subst hj
    rw [cell?_complete_self hc] at hc'
    cases hc'
    have hshaped := h _ c hc
    exact ⟨(c.length_inputs_outcome p.stage).trans hshaped.inputs,
      (c.length_outputs_outcome p.stage).trans hshaped.outputs, hshaped.signatures, hshaped.within⟩
  · rw [cell?_complete_ne p hj] at hc'
    exact h j c' hc'

theorem Reached.shaped (h : Reached p q) (hp : p.Shaped) : q.Shaped := by
  induction h with
  | start => exact hp
  | receive id i v _ _ ih => exact ih.receive id i v
  | complete hcell _ _ ih => exact ih.complete hcell

theorem shaped_start (hr : r.Reachable) (hg : g.StaysWithin r) (stage : Stage) (o : Options) :
    (start g r stage o : Pass C).Shaped := by
  intro id c hc
  obtain ⟨n, hn, e, a, he, ha, rfl⟩ := mem_cells_start (mem_of_cell? hc)
  exact ⟨by simp [Archetype.freshState], by simp [Archetype.freshState], hr.shape ha, hg n hn e he a ha⟩

/-- No node asks for a pin that it lacks, in whatever pass evaluation has come to. -/
theorem outcome_in_range (hr : r.Reachable) (hg : g.StaysWithin r) {stage : Stage} {o : Options}
    (h : Reached (start g r stage o) q) {id : NodeId} {c : Cell C} (hc : q.cell? id = some c) :
    Positions.outcome c stage = .ok (c.outcome stage) :=
  (h.shaped (shaped_start hr hg stage o) id c hc).outcome_eq stage

end Pass

end NodeShader
