import NodeShader.Proofs.Document.Decoded
import NodeShader.Proofs.Node.Fields

/-!
# Graphs that are drawn

`Graph.Drawn` is the class of graphs that an editor makes from an empty graph or from documents: new
nodes come under the next number, nodes are removed or edited in place, and pins are linked and
unlinked. A node can be edited in every field, also in those that are not saved. Unlike restoring a
node this keeps the nodes in the order of their numbers, which is the order in which a document gives
them back. With what holds of every reachable graph this is all that writing a graph down and reading
it back needs (`Graph.Drawn.tidy`).
-/

namespace NodeShader

/-! ## Instances with edited fields -/

/-- The node has the pins of its archetype and what a user made of a kind of it. -/
def Expression.IsAltered (e : Expression) (r : Registry) : Prop :=
  ∃ entry, r.get? e.handle = some entry ∧
    e.pins = ⟨entry.archetype.inputs.length, entry.archetype.outputs.length⟩ ∧
    entry.initial.Altered e.kind

/-- The node has the pins of its archetype and a kind of it, with as many values as it starts with. -/
def Expression.IsFilled (e : Expression) (r : Registry) : Prop :=
  ∃ entry, r.get? e.handle = some entry ∧
    e.pins = ⟨entry.archetype.inputs.length, entry.archetype.outputs.length⟩ ∧
    entry.initial.Fills e.kind

/-- The second node is the first with something else in its fields, or at another place. -/
structure Expression.Edits (e e' : Expression) : Prop where
  handle : e'.handle = e.handle
  pins : e'.pins = e.pins
  kind : e.kind.Altered e'.kind

namespace Expression

variable {r : Registry} {e e' : Expression}

theorem IsFilled.isAltered (h : e.IsFilled r) : e.IsAltered r := by
  obtain ⟨entry, hentry, hpins, hkind⟩ := h
  exact ⟨entry, hentry, hpins, .variant hkind.variant⟩

theorem IsAltered.edits (h : e.IsAltered r) (hedit : e.Edits e') : e'.IsAltered r := by
  obtain ⟨entry, hentry, hpins, hkind⟩ := h
  exact ⟨entry, hedit.handle ▸ hentry, hedit.pins.trans hpins, hkind.trans hedit.kind⟩

theorem isFilled_of_create {id : String} (h : r.create id = .ok e) : e.IsFilled r := by
  obtain ⟨entry, hentry, hpins, hkind⟩ := Registry.exists_entry_of_create h
  exact ⟨entry, hentry, hpins, hkind ▸ .refl _⟩

/-- A record says nothing about how many values there are. -/
theorem IsFilled.load (h : e.IsFilled r) {fields : Record} (hload : e.load fields = .ok e') :
    e'.IsFilled r := by
  obtain ⟨entry, hentry, hpins, hkind⟩ := h
  obtain ⟨k, hk, rfl⟩ := load_ok hload
  exact ⟨entry, hentry, hpins, hkind.trans (Kind.fills_of_load hk)⟩

theorem edits_of_load {fields : Record} (h : e.load fields = .ok e') : e.Edits e' := by
  obtain ⟨k, hk, rfl⟩ := load_ok h
  exact ⟨rfl, rfl, .variant (Kind.variant_of_load hk)⟩

end Expression

/-- An entry describes a node of its archetype, with as many values. -/
theorem NodeEntry.isFilled_of_toNode {r : Registry} {n : NodeEntry} {e : Expression}
    (h : n.toNode r = .ok e) : e.IsFilled r := by
  unfold toNode at h
  split at h
  · exact absurd h (by simp)
  · split at h
    · exact absurd h (by simp)
    · rename_i created hcreate
      have hnew := Expression.isFilled_of_create hcreate
      split at h
      · cases h
        exact hnew
      · split at h
        · rename_i loaded hload
          cases h
          exact (hnew.load hload : loaded.IsFilled r)
        · exact absurd h (by simp)

/-! ## Drawing -/

namespace Graph

/-- The graphs that are drawn over a registry, from nothing or from documents. Clearing a graph starts
over. -/
inductive Drawn (r : Registry) : ShaderGraph → Prop
  | empty : Drawn r empty
  | decoded {d : Document} {decoded : Decoded} : d.toGraph r = .ok decoded → Drawn r decoded.graph
  | add {g : ShaderGraph} {e : Expression} (he : e.IsAltered r) (hnext : g.lastId < g.lastId + 1) :
      Drawn r g → Drawn r (g.add (.expression e)).2
  | remove {g : ShaderGraph} (id : NodeId) : Drawn r g → Drawn r (g.remove id)
  | edit {g : ShaderGraph} (id : NodeId) {f : Expression → Expression}
      (hf : ∀ e : Expression, e.Edits (f e)) : Drawn r g → Drawn r (g.modifyExpression id f)
  | link {g g' : ShaderGraph} (a b : Pin) {l : Link} :
      Drawn r g → g.link a b = .ok (l, g') → Drawn r g'
  | unlink {g : ShaderGraph} (l : Link) : Drawn r g → Drawn r (g.unlink l)
  | unlinkPin {g : ShaderGraph} (p : Pin) : Drawn r g → Drawn r (g.unlinkPin p)

/-- What drawing keeps. -/
structure Tidy (g : ShaderGraph) (r : Registry) : Prop where
  reachable : g.Reachable
  ascending : g.ids.Pairwise (· < ·)
  instances : ∀ n ∈ g.nodes, ∃ e, n.node = .expression e ∧ e.IsAltered r

/-- The nodes have the operators and functions of their archetypes, and as many values. -/
def IsFilled (r : Registry) (g : ShaderGraph) : Prop :=
  ∀ n ∈ g.nodes, ∃ e, n.node = .expression e ∧ e.IsFilled r

variable {r : Registry} {g g' : ShaderGraph}

/-- What is read has as many values in each node as the archetype. -/
theorem isFilled_toGraph {d : Document} {decoded : Decoded} (h : d.toGraph r = .ok decoded) :
    decoded.graph.IsFilled r := by
  refine Document.toGraph_invariant (I := fun g => g.IsFilled r) (by simp [IsFilled, Graph.empty])
    (fun entry _ e g g' hg he hr n hn => ?_) (fun a b l g g' hg hl => ?_) h
  · obtain ⟨-, -, rfl⟩ := restore_eq_ok hr
    rcases List.mem_append.mp hn with hn | hn
    · exact hg n hn
    · rw [List.mem_singleton.mp hn]
      exact ⟨e, rfl, NodeEntry.isFilled_of_toNode he⟩
  · obtain ⟨-, -, rfl⟩ := link_eq_ok hl
    exact hg

theorem tidy_toGraph {d : Document} {decoded : Decoded} (h : d.toGraph r = .ok decoded) :
    decoded.graph.Tidy r where
  reachable := Document.reachable_toGraph h
  ascending := Document.ascending_toGraph h
  instances n hn := by
    obtain ⟨e, he, hfilled⟩ := isFilled_toGraph h n hn
    exact ⟨e, he, hfilled.isAltered⟩

/-- A new node has a number above all others. -/
theorem Tidy.add (h : g.Tidy r) {e : Expression} (he : e.IsAltered r)
    (hnext : g.lastId < g.lastId + 1) : (g.add (.expression e)).2.Tidy r where
  reachable := .add _ hnext h.reachable
  ascending := by
    have hids : (g.add (.expression e)).2.ids = g.ids ++ [g.lastId + 1] := List.map_append
    rw [hids, List.pairwise_append]
    refine ⟨h.ascending, List.pairwise_singleton _ _, fun id hid next hlast => ?_⟩
    rw [List.mem_singleton.mp hlast]
    exact UInt32.lt_of_le_of_lt (h.reachable.consistent.le_lastId hid) hnext
  instances n hn := by
    rcases List.mem_append.mp hn with hn | hn
    · exact h.instances n hn
    · rw [List.mem_singleton.mp hn]
      exact ⟨e, rfl, he⟩

theorem Tidy.remove (h : g.Tidy r) (id : NodeId) : (g.remove id).Tidy r := by
  have hsub : (g.remove id).nodes.Sublist g.nodes := by
    unfold Graph.remove
    split
    · exact .refl _
    · exact List.eraseIdx_sublist _ _
  exact ⟨.remove id h.reachable, h.ascending.sublist (hsub.map _),
    fun n hn => h.instances n (hsub.subset hn)⟩

theorem Tidy.edit (h : g.Tidy r) (id : NodeId) {f : Expression → Expression}
    (hf : ∀ e : Expression, e.Edits (f e)) : (g.modifyExpression id f).Tidy r where
  reachable := by
    refine .edit id _ (fun n => ?_) h.reachable
    cases n with
    | expression e => exact congrArg some (hf e).pins
    | foreign => rfl
  ascending := by
    have hids : (g.modifyExpression id f).ids = g.ids := by
      simp only [Graph.ids, modifyExpression, modify, List.map_map]
      refine List.map_congr_left fun n _ => ?_
      simp only [Function.comp_apply]
      split <;> rfl
    rw [hids]
    exact h.ascending
  instances n hn := by
    obtain ⟨m, hm, rfl⟩ := List.mem_map.mp hn
    obtain ⟨e, he, hinst⟩ := h.instances m hm
    split
    · simp only [he]
      exact ⟨f e, rfl, hinst.edits (hf e)⟩
    · exact ⟨e, he, hinst⟩

/-- A change of the links alone. -/
theorem Tidy.relink (h : g.Tidy r) (hreach : g'.Reachable) (hnodes : g'.nodes = g.nodes) :
    g'.Tidy r where
  reachable := hreach
  ascending := by
    rw [Graph.ids, hnodes]
    exact h.ascending
  instances := hnodes ▸ h.instances

theorem Drawn.tidy (h : g.Drawn r) : g.Tidy r := by
  induction h with
  | empty => exact ⟨.empty, List.Pairwise.nil, by simp [Graph.empty]⟩
  | decoded hd => exact tidy_toGraph hd
  | add he hnext _ ih => exact ih.add he hnext
  | remove id _ ih => exact ih.remove id
  | edit id hf _ ih => exact ih.edit id hf
  | link a b _ hl ih => exact ih.relink (.link a b ih.reachable hl) (by rw [(link_eq_ok hl).2.2])
  | unlink l _ ih => exact ih.relink (.unlink l ih.reachable) rfl
  | unlinkPin p _ ih => exact ih.relink (.unlinkPin p ih.reachable) rfl

/-! ## Sketches are drawn -/

theorem Drawn.addNew (h : g.Drawn .builtin) (archetype : String) (hnext : g.lastId < g.lastId + 1) :
    (g.addNew archetype).Drawn .builtin := by
  unfold Graph.addNew
  split
  · rename_i e he
    exact .add (Expression.isFilled_of_create he).isAltered hnext h
  · exact h

theorem Drawn.tryLink (h : g.Drawn r) (ends : Pin × Pin) : (g.tryLink ends).Drawn r := by
  unfold Graph.tryLink
  split
  · rename_i l g' hlink
    exact .link _ _ h hlink
  · exact h

theorem Drawn.takeFields (h : g.Drawn r) (id : NodeId) (fields : Record) :
    (g.takeFields id fields).Drawn r := by
  refine .edit id (fun e => ?_) h
  split
  · rename_i e' he
    exact Expression.edits_of_load he
  · exact ⟨rfl, rfl, .refl _⟩

theorem drawn_sketch (archetypes : List String) (links : List (Pin × Pin))
    (h : archetypes.length < 2 ^ 24) : (sketch archetypes links).Drawn .builtin := by
  refine sketch_induction .empty (fun g a hg hroom => hg.addNew a ?_)
    (fun _ ends hg => hg.tryLink ends) archetypes links h
  rw [UInt32.lt_iff_toNat_lt, UInt32.toNat_add]
  show _ < (g.lastId.toNat + 1) % 2 ^ 32
  omega

/-! ## Fields that were only loaded -/

theorem IsFilled.addNew (h : g.IsFilled .builtin) (archetype : String) :
    (g.addNew archetype).IsFilled .builtin := by
  unfold Graph.addNew
  split
  · rename_i e he
    intro n hn
    rcases List.mem_append.mp hn with hn | hn
    · exact h n hn
    · rw [List.mem_singleton.mp hn]
      exact ⟨e, rfl, Expression.isFilled_of_create he⟩
  · exact h

theorem IsFilled.tryLink (h : g.IsFilled r) (ends : Pin × Pin) : (g.tryLink ends).IsFilled r := by
  unfold Graph.tryLink
  split
  · rename_i l g' hlink
    rw [(link_eq_ok hlink).2.2]
    exact h
  · exact h

theorem IsFilled.takeFields (h : g.IsFilled r) (id : NodeId) (fields : Record) :
    (g.takeFields id fields).IsFilled r := by
  intro n hn
  obtain ⟨m, hm, rfl⟩ := List.mem_map.mp hn
  obtain ⟨e, he, hfilled⟩ := h m hm
  split
  · simp only [he]
    refine ⟨_, rfl, ?_⟩
    split
    · rename_i e' hload
      exact hfilled.load hload
    · exact hfilled
  · exact ⟨e, he, hfilled⟩

theorem isFilled_sketch (archetypes : List String) (links : List (Pin × Pin))
    (h : archetypes.length < 2 ^ 24) : (sketch archetypes links).IsFilled .builtin :=
  sketch_induction (fun _ hn => absurd hn (by simp [Graph.empty])) (fun _ a hg _ => hg.addNew a)
    (fun _ ends hg => hg.tryLink ends) archetypes links h

end Graph

end NodeShader
