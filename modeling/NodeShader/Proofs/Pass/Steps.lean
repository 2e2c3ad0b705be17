import Mathlib.Logic.Relation
import NodeShader.Pass.Evaluate
import NodeShader.Proofs.Graph.Pin

/-!
# Passes as sequences of steps

Evaluation is a recursion through the links with the pass as its state. What it does to the pass is
a sequence of two kinds of step: an input of an unfinished node receives the value its producer left,
and a node all of whose inputs have received theirs is completed. `Step` names the two, with all that
is known when they happen, and `evaluateNode_steps` says that evaluating a node is a
sequence of them at whose end the node is evaluated. What holds of every pass is proved of the steps
(`run_invariant`), without another look at the recursion.

The recursion never touches the cell of a node it is still evaluating, except to hand it values. That
is the frame condition of `visitWithin_steps`, and the reason why a value that was received stays the
value its producer offers.
-/

namespace NodeShader.Pass

open Relation (ReflTransGen)

variable {C : Type}

/-! ## Cells under the operations of a pass -/

theorem id_of_cell? {p : Pass C} {id : NodeId} {c : Cell C} (h : p.cell? id = some c) :
    c.id = id := by
  simpa using List.find?_some h

theorem mem_of_cell? {p : Pass C} {id : NodeId} {c : Cell C} (h : p.cell? id = some c) :
    c ∈ p.cells := List.mem_of_find?_eq_some h

theorem cell?_congr {p q : Pass C} (h : p.cells = q.cells) (id : NodeId) :
    p.cell? id = q.cell? id := by
  simp only [cell?, h]

theorem cell?_mapState (p : Pass C) (id j : NodeId) (f : NodeState C → NodeState C) :
    (p.mapState id f).cell? j =
      (p.cell? j).map fun c => if c.id = id then { c with state := f c.state } else c := by
  have hid : ((fun c : Cell C => decide (c.id = j)) ∘
      fun c => if c.id = id then { c with state := f c.state } else c) =
        fun c => decide (c.id = j) := by
    funext c
    simp only [Function.comp_apply]
    split <;> rfl
  simp only [cell?, mapState, List.find?_map, hid]

theorem cell?_mapState_self {p : Pass C} {id : NodeId} {c : Cell C} (h : p.cell? id = some c)
    (f : NodeState C → NodeState C) :
    (p.mapState id f).cell? id = some { c with state := f c.state } := by
  rw [cell?_mapState, h, Option.map_some, if_pos (id_of_cell? h)]

theorem cell?_mapState_ne {p : Pass C} {id j : NodeId} (h : j ≠ id)
    (f : NodeState C → NodeState C) : (p.mapState id f).cell? j = p.cell? j := by
  rw [cell?_mapState]
  cases hc : p.cell? j with
  | none => rfl
  | some c =>
      have hne : c.id ≠ id := fun hid => h ((id_of_cell? hc).symm.trans hid)
      rw [Option.map_some, if_neg hne]

theorem foldl_declare_eq (ds : List String) (p : Pass C) :
    ds.foldl declare p = { p with declarations := (ds.foldl declare p).declarations } := by
  induction ds generalizing p with
  | nil => rfl
  | cons d rest ih =>
      rw [List.foldl_cons, ih]
      unfold declare
      split <;> rfl

/-- What is declared depends on what has been declared, and not on the rest of the pass. -/
theorem declarations_foldl_declare {D : Type} (ds : List String) {p : Pass C} {q : Pass D}
    (h : p.declarations = q.declarations) :
    (ds.foldl declare p).declarations = (ds.foldl declare q).declarations := by
  induction ds generalizing p q with
  | nil => exact h
  | cons d rest ih =>
      rw [List.foldl_cons, List.foldl_cons]
      apply ih
      unfold declare
      rw [h]
      split
      · exact h
      · rfl

theorem foldl_emit_eq (ss : List C) (p : Pass C) :
    ss.foldl emit p = { p with body := p.body ++ ss } := by
  induction ss generalizing p with
  | nil => simp
  | cons s rest ih => simp [ih, emit]

theorem length_inputs_receive (s : NodeState C) (i : Nat) (v : Value C) :
    (s.receive i v).inputs.length = s.inputs.length := by
  simp [NodeState.receive, NodeState.mapInput]

theorem receive_getElem?_self {s : NodeState C} {i : Nat} {v : Value C} {slot : InputSlot C}
    (h : (s.receive i v).inputs[i]? = some slot) : slot.value = v := by
  simp only [NodeState.receive, NodeState.mapInput, List.getElem?_modify_eq,
    Option.map_eq_map, Option.map_eq_some_iff] at h
  obtain ⟨old, -, rfl⟩ := h
  rfl

theorem receive_getElem?_ne {s : NodeState C} {i j : Nat} {v : Value C} (h : i ≠ j) :
    (s.receive i v).inputs[j]? = s.inputs[j]? := by
  simp [NodeState.receive, NodeState.mapInput, List.getElem?_modify_ne, h]

/-- What can have become of a cell when a value has reached an input of some node. -/
theorem exists_cell_of_receive {p : Pass C} {id j : NodeId} {i : Nat} {v : Value C} {c' : Cell C}
    (h : (p.mapState id (·.receive i v)).cell? j = some c') :
    ∃ c s, p.cell? j = some c ∧ c' = { c with state := s } ∧
      s.evaluated = c.state.evaluated ∧ s.inputs.length = c.state.inputs.length ∧
      s.outputs = c.state.outputs := by
  rw [cell?_mapState, Option.map_eq_some_iff] at h
  obtain ⟨c, hc, rfl⟩ := h
  split
  · exact ⟨c, _, hc, rfl, rfl, length_inputs_receive _ _ _, rfl⟩
  · exact ⟨c, c.state, hc, rfl, rfl, rfl, rfl⟩

variable [Code C]

/-- What binding an output does: nothing, or it keeps the value, or it stores the value in a
variable. -/
theorem bind_cases (p : Pass C) (pin : Pin) (o : OutputSlot C) :
    (o.fanOut = 0 ∨ o.value.isValid = false) ∧ p.bind pin o = p ∨
      o.value.isValid = true ∧
        ((o.value.ty.isOpaque = true ∨ p.isHoisted o = false) ∧
            p.bind pin o = p.remember pin o.value ∨
          o.value.ty.isOpaque = false ∧ p.bind pin o = p.hoist pin o) := by
  unfold bind
  split
  · rename_i hunused
    exact .inl ⟨by simpa using hunused, rfl⟩
  · rename_i hused
    simp only [Bool.or_eq_true, decide_eq_true_eq, Bool.not_eq_eq_eq_not, Bool.not_true, not_or,
      Bool.not_eq_false] at hused
    refine .inr ⟨hused.2, ?_⟩
    split
    · rename_i hplace
      exact .inl ⟨by simpa using hplace, rfl⟩
    · rename_i hstored
      simp only [Bool.or_eq_true, not_or, Bool.not_eq_true] at hstored
      exact .inr ⟨hstored.1, rfl⟩

theorem cells_bind (p : Pass C) (pin : Pin) (o : OutputSlot C) : (p.bind pin o).cells = p.cells := by
  rcases p.bind_cases pin o with ⟨-, h⟩ | ⟨-, ⟨-, h⟩ | ⟨-, h⟩⟩ <;> rw [h] <;> rfl

theorem cells_bindOutputs (id : NodeId) (i : Nat) (os : List (OutputSlot C)) (p : Pass C) :
    (bindOutputs id i os p).cells = p.cells := by
  induction os generalizing i p with
  | nil => rfl
  | cons o rest ih => rw [bindOutputs, ih, cells_bind]

/-- The state that completing a cell leaves behind. -/
def finished (p : Pass C) (c : Cell C) : NodeState C :=
  { (c.outcome p.stage).state with evaluated := true }

/-- A pass after a node has been evaluated and before its outputs are bound. -/
def evaluated (p : Pass C) (c : Cell C) : Pass C :=
  { p with
    cells := (p.mapState c.id fun _ => p.finished c).cells
    declarations := ((c.outcome p.stage).declarations.foldl declare p).declarations
    body := p.body ++ (c.outcome p.stage).statements
    stats := { p.stats with nodes := p.stats.nodes + 1 }
    events := p.events ++ [.evaluated c.id c.archetype.id (p.finished c).overload] }

theorem complete_eq (p : Pass C) (c : Cell C) :
    p.complete c = bindOutputs c.id 0 (p.finished c).outputs (p.evaluated c) := by
  simp only [complete]
  rw [foldl_emit_eq, foldl_declare_eq]
  rfl

theorem cells_complete (p : Pass C) (c : Cell C) :
    (p.complete c).cells = (p.mapState c.id fun _ => p.finished c).cells := by
  rw [complete_eq, cells_bindOutputs]
  rfl

theorem cell?_complete_self {p : Pass C} {id : NodeId} {c : Cell C} (h : p.cell? id = some c) :
    (p.complete c).cell? id = some { c with state := p.finished c } := by
  have hid := id_of_cell? h
  subst hid
  rw [cell?_congr (cells_complete p c), cell?_mapState_self h]

theorem cell?_complete_ne (p : Pass C) {c : Cell C} {j : NodeId} (h : j ≠ c.id) :
    (p.complete c).cell? j = p.cell? j := by
  rw [cell?_congr (cells_complete p c), cell?_mapState_ne h]

/-- A cell after some node has been completed: that of the node, or one that was there before. -/
theorem cell_of_complete {p : Pass C} {c c' : Cell C} {j : NodeId} (hcell : p.cell? c.id = some c)
    (h : (p.complete c).cell? j = some c') :
    j = c.id ∧ c' = { c with state := p.finished c } ∨ p.cell? j = some c' := by
  by_cases hj : j = c.id
  · subst hj
    rw [cell?_complete_self hcell] at h
    exact .inl ⟨rfl, (Option.some.inj h).symm⟩
  · exact .inr ((cell?_complete_ne p hj).symm.trans h)

/-- What binding one output after the other keeps. -/
theorem bindOutputs_invariant {I : Pass C → Prop} {id : NodeId} (os : List (OutputSlot C)) (i : Nat)
    (hI : ∀ j o p, os[j]? = some o → I p → I (p.bind (.output id (i + j)) o)) (p : Pass C)
    (hp : I p) : I (bindOutputs id i os p) := by
  induction os generalizing i p with
  | nil => exact hp
  | cons o rest ih =>
      refine ih (i + 1) (fun j o' p' ho' hp' => ?_) _ (hI 0 o p rfl hp)
      have := hI (j + 1) o' p' ho' hp'
      rwa [show i + (j + 1) = i + 1 + j by omega] at this

theorem stats_complete (p : Pass C) (c : Cell C) :
    (p.complete c).stats.nodes = p.stats.nodes + 1 ∧ (p.complete c).stage = p.stage := by
  rw [complete_eq]
  refine bindOutputs_invariant
    (I := fun q : Pass C => q.stats.nodes = p.stats.nodes + 1 ∧ q.stage = p.stage) _ 0 ?_ _ ⟨rfl, rfl⟩
  intro j o q _ hq
  rcases q.bind_cases (.output c.id (0 + j)) o with ⟨-, h⟩ | ⟨-, ⟨-, h⟩ | ⟨-, h⟩⟩ <;>
    rw [h] <;> exact hq

/-! ## The memo under the operations of a pass -/

theorem lookup_bind_of_ne (p : Pass C) {pin out : Pin} (o : OutputSlot C) (h : out ≠ pin) :
    (p.bind pin o).memo.lookup out = p.memo.lookup out := by
  have hne : (out == pin) = false := by simpa using h
  rcases p.bind_cases pin o with ⟨-, h⟩ | ⟨-, ⟨-, h⟩ | ⟨-, h⟩⟩ <;> rw [h]
  · simp only [remember, List.lookup_cons, hne]
  · simp only [hoist, List.lookup_cons, hne]

theorem lookup_bindOutputs_of_ne {id : NodeId} (hid : id ≤ NodeId.greatest) {out : Pin}
    (h : out.node ≠ id) (i : Nat) (os : List (OutputSlot C)) (p : Pass C) :
    (bindOutputs id i os p).memo.lookup out = p.memo.lookup out := by
  induction os generalizing i p with
  | nil => rfl
  | cons o rest ih =>
      have hne : out ≠ .output id i := fun heq => h (heq ▸ Pin.node_output i hid)
      rw [bindOutputs, ih, lookup_bind_of_ne p o hne]

/-- Binding outputs leaves those before them as they were. -/
theorem lookup_bindOutputs_of_lt {id : NodeId} (hid : id ≤ NodeId.greatest) {j : Nat} (i : Nat)
    (hj : j < i) (os : List (OutputSlot C)) (hlen : i + os.length ≤ Pin.greatestIndex + 1)
    (p : Pass C) :
    (bindOutputs id i os p).memo.lookup (.output id j) = p.memo.lookup (.output id j) := by
  induction os generalizing i p with
  | nil => rfl
  | cons o rest ih =>
      rw [List.length_cons] at hlen
      have hne : Pin.output id j ≠ .output id i := by
        intro heq
        have := Pin.pack_inj hid (by omega) (by omega) heq
        omega
      rw [bindOutputs, ih (i + 1) (by omega) (by omega), lookup_bind_of_ne p o hne]

/-- Completing a node leaves the outputs of all others as they were. -/
theorem lookup_complete_of_ne (p : Pass C) {c : Cell C} {out : Pin} (hid : c.id ≤ NodeId.greatest)
    (h : out.node ≠ c.id) : (p.complete c).memo.lookup out = p.memo.lookup out := by
  rw [complete_eq, lookup_bindOutputs_of_ne hid h]
  rfl

/-! ## Supply and demand -/

/-- Following links backwards: `producer` feeds an input of `consumer`. -/
def Feeds (g : ShaderGraph) (consumer producer : NodeId) : Prop :=
  ∃ i l, g.linkInto? (.input consumer i) = some l ∧ l.source.node = producer

theorem feeds_of_supplier? {g : ShaderGraph} {id : NodeId} {i : Nat} {out : Pin}
    (hid : id ≤ NodeId.greatest) (hi : i < Registry.pinLimit)
    (h : supplier? g (.input id i) = some out) : Feeds g id out.node := by
  have hin := Pin.isInput_input hid (Nat.le_of_lt_succ hi)
  simp only [supplier?, hin, if_true, Option.map_eq_some_iff] at h
  obtain ⟨l, hl, rfl⟩ := h
  exact ⟨i, l, hl, rfl⟩

/-- The nodes from which links lead to a node, the node itself included. -/
def Upstream (g : ShaderGraph) : NodeId → NodeId → Prop := ReflTransGen (Feeds g)

/-- The node has been evaluated, if the pass knows it at all. -/
def Settled (p : Pass C) (id : NodeId) : Prop :=
  ∀ c, p.cell? id = some c → c.state.evaluated = true

/-- The producer of the value at a pin, if there is one, is settled. -/
def Ready (g : ShaderGraph) (p : Pass C) (pin : Pin) : Prop :=
  ∀ out, supplier? g pin = some out → p.Settled out.node

/-- What the memo offers to a pin. -/
def supply (g : ShaderGraph) (p : Pass C) (pin : Pin) : Value C :=
  match supplier? g pin with
  | none => .null
  | some out => (p.memo.lookup out).getD .null

/-- The first `n` inputs of a cell hold what the memo offers them. -/
def Filled (g : ShaderGraph) (p : Pass C) (c : Cell C) (n : Nat) : Prop :=
  ∀ i slot, i < n → c.state.inputs[i]? = some slot →
    p.Ready g (.input c.id i) ∧ slot.value = p.supply g (.input c.id i)

/-- What has reached the inputs of a cell comes from the memo. -/
theorem Filled.value {g : ShaderGraph} {p : Pass C} {c : Cell C}
    (h : p.Filled g c c.state.inputs.length) {slot : InputSlot C} (hslot : slot ∈ c.state.inputs) :
    slot.value = .null ∨ ∃ out, p.memo.lookup out = some slot.value := by
  obtain ⟨i, hi⟩ := List.mem_iff_getElem?.mp hslot
  rw [(h i slot (List.getElem?_eq_some_iff.mp hi).1 hi).2]
  unfold supply
  split
  · exact .inl rfl
  · rename_i out _
    cases hout : p.memo.lookup out with
    | none => exact .inl rfl
    | some v => exact .inr ⟨out, hout⟩

/-- What can happen to a pass during the evaluation of a root. -/
inductive Step (g : ShaderGraph) (root : NodeId) : Pass C → Pass C → Prop
  | receive {p : Pass C} {id : NodeId} {c : Cell C} (i : Nat) (hcell : p.cell? id = some c)
      (hopen : c.state.evaluated = false) (hready : p.Ready g (.input id i)) :
      Step g root p (p.mapState id (·.receive i (p.supply g (.input id i))))
  | complete {p : Pass C} {c : Cell C} (hcell : p.cell? c.id = some c)
      (hopen : c.state.evaluated = false) (hup : Upstream g root c.id)
      (hfilled : p.Filled g c c.state.inputs.length) : Step g root p (p.complete c)

omit [Code C] in
/-- Receiving a value settles nothing. -/
theorem settled_receive {p : Pass C} {id j : NodeId} {i : Nat} {v : Value C}
    (h : (p.mapState id (·.receive i v)).Settled j) : p.Settled j := by
  intro c hc
  by_cases hj : j = id
  · subst hj
    exact h { c with state := c.state.receive i v } (cell?_mapState_self hc _)
  · exact h c ((cell?_mapState_ne hj _).trans hc)

/-- Completing a node settles no other. -/
theorem settled_complete {p : Pass C} {c : Cell C} {j : NodeId} (hj : j ≠ c.id)
    (h : (p.complete c).Settled j) : p.Settled j :=
  fun d hd => h d ((cell?_complete_ne p hj).trans hd)

/-- Any number of steps. -/
abbrev Steps (g : ShaderGraph) (root : NodeId) : Pass C → Pass C → Prop :=
  ReflTransGen (Step g root)

/-- Node numbers and the positions of inputs fit into pins, and the memo holds outputs of settled
nodes only. -/
structure Orderly (p : Pass C) : Prop where
  ids : ∀ id c, p.cell? id = some c → c.id ≤ NodeId.greatest
  inputs : ∀ id c, p.cell? id = some c → c.state.evaluated = false →
    c.state.inputs.length ≤ Registry.pinLimit
  memo : ∀ out v, p.memo.lookup out = some v → p.Settled out.node

/-! ## What steps keep -/

variable {g : ShaderGraph} {root : NodeId} {p q : Pass C}

/-- A step changes one cell, which is not evaluated, and leaves its number. -/
theorem Step.cell? (h : Step g root p q) (j : NodeId) :
    q.cell? j = p.cell? j ∨ ∃ c s, p.cell? j = some c ∧ c.state.evaluated = false ∧
      q.cell? j = some { c with state := s } ∧
      (s.evaluated = false → s.inputs.length = c.state.inputs.length) := by
  cases h with
  | @receive id c i hcell hopen hready =>
      by_cases hj : j = id
      · subst hj
        exact .inr ⟨c, _, hcell, hopen, cell?_mapState_self hcell _,
          fun _ => length_inputs_receive _ _ _⟩
      · exact .inl (cell?_mapState_ne hj _)
  | @complete c hcell hopen hup hfilled =>
      by_cases hj : j = c.id
      · subst hj
        exact .inr ⟨c, _, hcell, hopen, cell?_complete_self hcell, by simp [finished]⟩
      · exact .inl (cell?_complete_ne p hj)

theorem Step.settled (h : Step g root p q) {id : NodeId} (hid : p.Settled id) : q.Settled id := by
  intro c hc
  rcases h.cell? id with heq | ⟨c₀, s, hc₀, hopen, -, -⟩
  · exact hid c (heq ▸ hc)
  · exact absurd (hid c₀ hc₀) (by simp [hopen])

theorem Step.ready (h : Step g root p q) {pin : Pin} (hpin : p.Ready g pin) : q.Ready g pin :=
  fun out hout => h.settled (hpin out hout)

theorem Step.orderly (hs : p.Orderly) (h : Step g root p q) : q.Orderly := by
  refine ⟨?_, ?_, ?_⟩
  · intro id c hc
    rcases h.cell? id with heq | ⟨c₀, s, hc₀, -, heq, -⟩
    · exact hs.ids id c (heq ▸ hc)
    · rw [heq] at hc
      cases hc
      exact hs.ids id c₀ hc₀
  · intro id c hc hopen
    rcases h.cell? id with heq | ⟨c₀, s, hc₀, hopen₀, heq, hlen⟩
    · exact hs.inputs id c (heq ▸ hc) hopen
    · rw [heq] at hc
      cases hc
      exact (hlen hopen).symm ▸ hs.inputs id c₀ hc₀ hopen₀
  · intro out v hv
    have hstep := h
    cases h with
    | receive i hcell hopen hready => exact hstep.settled (hs.memo out v hv)
    | @complete c hcell hopen hup hfilled =>
        by_cases hout : out.node = c.id
        · -- the memo's new entries are outputs of the node that is now evaluated
          intro c' hc'
          rw [hout, cell?_complete_self hcell] at hc'
          cases hc'
          rfl
        · rw [lookup_complete_of_ne p (hs.ids _ c hcell) hout] at hv
          exact hstep.settled (hs.memo out v hv)

/-- Once a producer is settled, what it offers does not change. -/
theorem Step.supply (hs : p.Orderly) (h : Step g root p q) {pin : Pin} (hpin : p.Ready g pin) :
    q.supply g pin = p.supply g pin := by
  cases h with
  | receive => rfl
  | @complete c hcell hopen hup hfilled =>
      unfold Pass.supply
      cases hsup : supplier? g pin with
      | none => rfl
      | some out =>
          have hne : out.node ≠ c.id := by
            intro heq
            have := hpin out hsup c (heq ▸ hcell)
            simp [hopen] at this
          simp only [lookup_complete_of_ne p (hs.ids _ c hcell) hne]

theorem Step.filled (hs : p.Orderly) (h : Step g root p q) {c : Cell C} {n : Nat}
    (hc : p.Filled g c n) : q.Filled g c n := by
  intro i slot hi hslot
  obtain ⟨hready, hvalue⟩ := hc i slot hi hslot
  exact ⟨h.ready hready, hvalue.trans (h.supply hs hready).symm⟩

theorem Steps.orderly (hs : p.Orderly) (h : Steps g root p q) : q.Orderly := by
  induction h with
  | refl => exact hs
  | tail _ hstep ih => exact hstep.orderly ih

theorem Steps.settled (h : Steps g root p q) {id : NodeId} (hid : p.Settled id) :
    q.Settled id := by
  induction h with
  | refl => exact hid
  | tail _ hstep ih => exact hstep.settled ih

theorem Steps.filled (hs : p.Orderly) (h : Steps g root p q) {c : Cell C} {n : Nat}
    (hc : p.Filled g c n) : q.Filled g c n := by
  induction h with
  | refl => exact hc
  | tail hsteps hstep ih => exact hstep.filled (Steps.orderly hs hsteps) ih

/-! ## The recursion takes steps -/

/-- What a call of the recursion does for one node: it takes steps, settles the node and leaves the
cells on the path alone. -/
def VisitTakesSteps (g : ShaderGraph) (root : NodeId) (path : List NodeId)
    (visit : NodeId → Pass C → Except Cycle Unit × Pass C) : Prop :=
  ∀ id p q, p.Orderly → Upstream g root id → visit id p = (.ok (), q) →
    Steps g root p q ∧ q.Settled id ∧ ∀ j ∈ path, q.cell? j = p.cell? j

section Recursion

variable {path : List NodeId} {visit : NodeId → Pass C → Except Cycle Unit × Pass C}

/-- A demand that is met has taken steps to a pass that offers what it answers. -/
theorem demand_steps (hvisit : VisitTakesSteps g root path visit) (hs : p.Orderly) {id : NodeId}
    {i : Nat} (hup : Upstream g root id) (hid : id ≤ NodeId.greatest)
    (hi : i < Registry.pinLimit) {v : Value C} {r : Pass C}
    (h : demand g visit (.input id i) p = (.ok v, r)) :
    Steps g root p r ∧ r.Ready g (.input id i) ∧ v = r.supply g (.input id i) ∧
      ∀ j ∈ path, r.cell? j = p.cell? j := by
  unfold demand at h
  unfold Ready supply
  cases hsup : supplier? g (.input id i) with
  | none =>
      simp only [hsup] at h
      cases h
      exact ⟨.refl, by simp, rfl, fun _ _ => rfl⟩
  | some out =>
      simp only [hsup] at h
      have hfeeds : Feeds g id out.node := feeds_of_supplier? hid hi hsup
      cases hmemo : p.memo.lookup out with
      | some w =>
          simp only [hmemo] at h
          cases h
          refine ⟨.refl, ?_, by simp [hmemo], fun _ _ => rfl⟩
          intro out' hout'
          cases hout'
          exact hs.memo out v hmemo
      | none =>
          simp only [hmemo] at h
          cases hres : visit out.node p with
          | mk result p' =>
              rw [hres] at h
              cases result with
              | error c => exact absurd h (by simp)
              | ok u =>
                  cases h
                  obtain ⟨hsteps, hsettled, hframe⟩ :=
                    hvisit out.node p r hs (hup.tail hfeeds) hres
                  refine ⟨hsteps, ?_, rfl, hframe⟩
                  intro out' hout'
                  cases hout'
                  exact hsettled

/-- Fetching inputs takes steps to a pass in which the cell holds what it is offered. -/
theorem fetchInputs_steps {id : NodeId} (hvisit : VisitTakesSteps g root (id :: path) visit)
    (hup : Upstream g root id) (hpath : id ∉ path) (count : Nat) :
    ∀ (i : Nat) (p q : Pass C) (c : Cell C), p.Orderly → p.cell? id = some c →
      c.state.evaluated = false → i + count = c.state.inputs.length → p.Filled g c i →
      fetchInputs g visit id i count p = (.ok (), q) →
      ∃ c', Steps g root p q ∧ q.cell? id = some c' ∧ c'.state.evaluated = false ∧
        q.Filled g c' c'.state.inputs.length ∧ ∀ j ∈ path, q.cell? j = p.cell? j := by
  induction count with
  | zero =>
      intro i p q c hs hcell hopen hlen hfilled h
      simp only [fetchInputs, Prod.mk.injEq, true_and] at h
      subst h
      rw [Nat.add_zero] at hlen
      exact ⟨c, .refl, hcell, hopen, hlen ▸ hfilled, fun _ _ => rfl⟩
  | succ count ih =>
      intro i p q c hs hcell hopen hlen hfilled h
      have hcid := id_of_cell? hcell
      have hid : id ≤ NodeId.greatest := hcid ▸ hs.ids id c hcell
      have hi : i < Registry.pinLimit := by
        have := hs.inputs id c hcell hopen
        omega
      unfold fetchInputs at h
      cases hdemand : demand g visit (.input id i) p with
      | mk result r =>
          rw [hdemand] at h
          cases result with
          | error e => exact absurd h (by simp)
          | ok v =>
              obtain ⟨hsteps, hready, hv, hframe⟩ := demand_steps hvisit hs hup hid hi hdemand
              have hr : r.cell? id = some c := (hframe id (by simp)).trans hcell
              have hstep : Step g root r (r.mapState id (·.receive i v)) :=
                hv ▸ Step.receive i hr hopen hready
              have hs' : (r.mapState id (·.receive i v)).Orderly :=
                hstep.orderly (Steps.orderly hs hsteps)
              have hfilled' : (r.mapState id (·.receive i v)).Filled g
                  { c with state := c.state.receive i v } (i + 1) := by
                intro j slot hj hslot
                dsimp only at hslot ⊢
                rw [hcid]
                by_cases hij : i = j
                · subst hij
                  rw [receive_getElem?_self hslot]
                  exact ⟨hstep.ready hready, hv⟩
                · rw [receive_getElem?_ne hij] at hslot
                  have hold := hstep.filled (Steps.orderly hs hsteps)
                    (Steps.filled hs hsteps hfilled) j slot (by omega) hslot
                  rwa [hcid] at hold
              have hlen' : i + 1 + count = (c.state.receive i v).inputs.length := by
                rw [length_inputs_receive]
                omega
              obtain ⟨c', hmore, hc', hopen', hfill', hframe'⟩ :=
                ih (i + 1) _ q _ hs' (cell?_mapState_self hr _) hopen hlen' hfilled' h
              refine ⟨c', (hsteps.tail hstep).trans hmore, hc', hopen', hfill', ?_⟩
              intro j hj
              have hne : j ≠ id := fun heq => hpath (heq ▸ hj)
              rw [hframe' j hj, cell?_mapState_ne hne, hframe j (List.mem_cons_of_mem _ hj)]

end Recursion

/-- The recursion takes steps, at every depth. -/
theorem visitWithin_steps (depth : Nat) :
    ∀ path : List NodeId,
      VisitTakesSteps (C := C) g root path (visitWithin g depth path) := by
  induction depth with
  | zero =>
      intro path id p q hs hup h
      exact absurd h (by simp [visitWithin])
  | succ depth ih =>
      intro path id p q hs hup h
      unfold visitWithin at h
      cases hcell : p.cell? id with
      | none =>
          simp only [hcell, Prod.mk.injEq, true_and] at h
          subst h
          exact ⟨.refl, by simp [Settled, hcell], fun _ _ => rfl⟩
      | some c =>
          simp only [hcell] at h
          split at h
          · rename_i heval
            cases h
            refine ⟨.refl, ?_, fun _ _ => rfl⟩
            intro c' hc'
            rw [hcell] at hc'
            cases hc'
            exact heval
          · rename_i hopen
            split at h
            · exact absurd h (by simp)
            · rename_i hnew
              have hpath : id ∉ path := by simpa using hnew
              have hopen' : c.state.evaluated = false := by simpa using hopen
              cases hfetch : fetchInputs g (visitWithin g depth (id :: path)) id 0
                  c.state.inputs.length p with
              | mk result r =>
                  rw [hfetch] at h
                  cases result with
                  | error e => exact absurd h (by simp)
                  | ok u =>
                      obtain ⟨c', hsteps, hc', hopen'', hfilled, hframe⟩ :=
                        fetchInputs_steps (ih (id :: path)) hup hpath _ 0 p r c hs hcell hopen'
                          (by simp) (by intro j slot hj; omega) hfetch
                      simp only [hc'] at h
                      cases h
                      have hid := id_of_cell? hc'
                      subst hid
                      refine ⟨hsteps.tail (.complete hc' hopen'' hup hfilled), ?_, ?_⟩
                      · intro c'' hc''
                        rw [cell?_complete_self hc'] at hc''
                        cases hc''
                        rfl
                      · intro j hj
                        have hne : j ≠ c'.id := fun heq => hpath (heq ▸ hj)
                        rw [cell?_complete_ne r hne, hframe j hj]

theorem evaluateNode_steps {id : NodeId} (hs : p.Orderly)
    (h : evaluateNode g id p = (.ok (), q)) : Steps g id p q ∧ q.Settled id := by
  obtain ⟨hsteps, hsettled, -⟩ := visitWithin_steps p.depthLimit [] id p q hs .refl h
  exact ⟨hsteps, hsettled⟩

/-! ## Whole runs -/

/-- What every step keeps, a sequence of steps keeps. -/
theorem Steps.invariant {I : Pass C → Prop}
    (hI : ∀ p q : Pass C, p.Orderly → I p → Step g root p q → I q) (hs : p.Orderly) (hp : I p)
    (h : Steps g root p q) : I q := by
  induction h with
  | refl => exact hp
  | tail hsteps hstep ih => exact hI _ _ (Steps.orderly hs hsteps) ih hstep

/-- Evaluating nodes in turn: `J done` holds when those in `done` have been evaluated. -/
theorem evaluateAll_induction {J : List NodeId → Pass C → Prop} {all : List NodeId}
    (hJ : ∀ done root rest (p q : Pass C), done ++ root :: rest = all → p.Orderly → J done p →
      Steps g root p q → q.Settled root → J (done ++ [root]) q) (rest : List NodeId) :
    ∀ (done : List NodeId) (p q : Pass C), done ++ rest = all → p.Orderly → J done p →
      evaluateAll g rest p = (.ok (), q) → J all q := by
  induction rest with
  | nil =>
      intro done p q hall hs hp h
      cases h
      rw [List.append_nil] at hall
      exact hall ▸ hp
  | cons root rest ih =>
      intro done p q hall hs hp h
      unfold evaluateAll at h
      cases hnode : evaluateNode g root p with
      | mk result r =>
          rw [hnode] at h
          cases result with
          | error e => exact absurd h (by simp)
          | ok u =>
              obtain ⟨hsteps, hsettled⟩ := evaluateNode_steps hs hnode
              refine ih (done ++ [root]) r q ?_ (Steps.orderly hs hsteps)
                (hJ done root rest p r hall hs hp hsteps hsettled) h
              rw [List.append_assoc]
              exact hall

/-- What holds before the first root is evaluated, and is carried from root to root, holds when the
pass is closed. -/
theorem run_induction {J : List NodeId → Pass C → Prop}
    (hJ : ∀ done root rest (p' q : Pass C), done ++ root :: rest = p.roots g → p'.Orderly →
      J done p' → Steps g root p' q → q.Settled root → J (done ++ [root]) q)
    (hs : p.Orderly) (hp : J [] p) (h : p.run g = (.ok (), q)) :
    ∃ m : Pass C, J (p.roots g) m ∧ q = m.finish := by
  unfold run at h
  cases hall : evaluateAll g (p.roots g) p with
  | mk result m =>
      rw [hall] at h
      cases result with
      | error e => exact absurd h (by simp)
      | ok u =>
          cases h
          exact ⟨m, evaluateAll_induction hJ (p.roots g) [] p m rfl hs hp hall, rfl⟩

/-- What holds at the start and is kept by every step holds when the pass is closed. -/
theorem run_invariant {I : Pass C → Prop}
    (hI : ∀ root (p q : Pass C), p.Orderly → I p → Step g root p q → I q)
    (hs : p.Orderly) (hp : I p) (h : p.run g = (.ok (), q)) : ∃ m : Pass C, I m ∧ q = m.finish :=
  run_induction (J := fun _ => I)
    (fun _ root _ _ _ _ hs hp hsteps _ => Steps.invariant (hI root) hs hp hsteps) hs hp h

/-- A run that ends well is its own witness. -/
theorem run_eq_ok (h : (p.run g).1 = .ok ()) : p.run g = (.ok (), (p.run g).2) := Prod.ext h rfl

end NodeShader.Pass
