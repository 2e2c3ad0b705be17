import NodeShader.Node.Catalogue
import NodeShader.Proofs.Node.Registry

/-!
# Graphs of built-in nodes

A node of a registry is an instance of one of its archetypes: it has the pins of the archetype and
the kind that new nodes start with, up to the values that users edit (`Kind.Variant`). The built-in
registry holds the archetypes of the catalogue, some of them with a title they did not bring along.
`Graph.IsBuiltin` is the class of graphs that the theory of generated code is about: whatever edits
have made of an empty graph, as long as its nodes are instances of built-in archetypes under numbers
that fit into pins.
-/

namespace NodeShader

/-! ## Kinds up to their edited values -/

/-- The second kind is the first with other values in its fields. -/
inductive Kind.Variant : Kind → Kind → Prop
  | same (k : Kind) : Variant k k
  | scalar (x y : Number.Single) : Variant (.scalar x) (.scalar y)
  | vector {xs ys : List Number.Single} (h : xs.length = ys.length) :
      Variant (.vector xs) (.vector ys)
  | parameter (a b : String) : Variant (.parameter a) (.parameter b)
  | binaryOp (operator : String) (xs ys : List Number.Single) :
      Variant (.binaryOp operator xs) (.binaryOp operator ys)
  | call (function : String) (xs ys : List Number.Single) :
      Variant (.call function xs) (.call function ys)
  | makeVec (arity : UInt8) (xs ys : List Number.Single) :
      Variant (.makeVec arity xs) (.makeVec arity ys)
  | vertexOut (xs ys : List Number.Single) : Variant (.vertexOut xs) (.vertexOut ys)

theorem Kind.Variant.trans {k k' k'' : Kind} (h : k.Variant k') (h' : k'.Variant k'') :
    k.Variant k'' := by
  cases h with
  | same => exact h'
  | scalar => cases h' <;> exact .scalar _ _
  | vector hlen =>
      cases h' with
      | same => exact .vector hlen
      | vector hlen' => exact .vector (hlen.trans hlen')
  | parameter => cases h' <;> exact .parameter _ _
  | binaryOp => cases h' <;> exact .binaryOp _ _ _
  | call => cases h' <;> exact .call _ _ _
  | makeVec => cases h' <;> exact .makeVec _ _ _
  | vertexOut => cases h' <;> exact .vertexOut _ _

/-- Loading fields only changes edited values. -/
theorem Kind.variant_of_load {k k' : Kind} {r : Record} (h : k.load r = .ok k') :
    Kind.Variant k k' := by
  have hok : ∀ {α β : Type} {x : Except FieldError α} {f : α → Except FieldError β} {b : β},
      (x >>= f) = .ok b → ∃ a, f a = .ok b := by
    intro α β x f b hx
    cases x with
    | error e => exact absurd hx (by simp [bind, Except.bind])
    | ok a => exact ⟨a, hx⟩
  cases k <;> simp only [Kind.load] at h
  case scalar =>
    obtain ⟨x, hx⟩ := hok h
    cases hx
    exact .scalar _ _
  case vector values =>
    obtain ⟨x, hx⟩ := hok h
    split at hx
    · cases hx
      exact .same _
    · split at hx
      · rename_i hlen
        cases hx
        exact .vector hlen.symm
      · exact absurd hx (by simp [throw, throwThe, MonadExceptOf.throw])
  case parameter =>
    obtain ⟨x, hx⟩ := hok h
    cases hx
    exact .parameter _ _
  case binaryOp =>
    obtain ⟨x, hx⟩ := hok h
    cases hx
    exact .binaryOp _ _ _
  case call =>
    obtain ⟨x, hx⟩ := hok h
    cases hx
    exact .call _ _ _
  case makeVec =>
    obtain ⟨x, hx⟩ := hok h
    cases hx
    exact .makeVec _ _ _
  case vertexOut =>
    obtain ⟨x, hx⟩ := hok h
    cases hx
    exact .vertexOut _ _
  all_goals
    cases h
    exact .same _

/-! ## What is registered -/

/-- The same pins and signatures. -/
structure Archetype.SameShape (a b : Archetype) : Prop where
  inputs : a.inputs = b.inputs
  outputs : a.outputs = b.outputs
  overloads : a.overloads = b.overloads

namespace Registry

/-- What registering archetypes one by one leaves in a registry is what was there and what was
given, perhaps under another title. -/
theorem mem_entries_registerAll (l : List Registration) (r : Registry) (e : Registration)
    (h : e ∈ (r.registerAll l).2.entries) :
    e ∈ r.entries ∨ ∃ e' ∈ l, e.initial = e'.initial ∧ e.archetype.SameShape e'.archetype := by
  induction l generalizing r with
  | nil => exact .inl h
  | cons x rest ih =>
      have hlater : (∃ e' ∈ rest, e.initial = e'.initial ∧ e.archetype.SameShape e'.archetype) →
          ∃ e' ∈ x :: rest, e.initial = e'.initial ∧ e.archetype.SameShape e'.archetype :=
        fun ⟨e', he', hsame⟩ => ⟨e', List.mem_cons_of_mem _ he', hsame⟩
      unfold registerAll at h
      split at h
      · rename_i id r' hreg
        rcases ih r' h with hold | hnew
        · obtain ⟨-, k, hk, hadded⟩ := register_eq_ok hreg
          cases hk
          rw [hadded, List.mem_append, List.mem_singleton] at hold
          rcases hold with hold | rfl
          · exact .inl hold
          · exact .inr ⟨x, by simp, rfl, Archetype.inputs_titled _, Archetype.outputs_titled _,
              Archetype.overloads_titled _⟩
        · exact .inr (hlater hnew)
      · rcases ih r h with hold | hnew
        · exact .inl hold
        · exact .inr (hlater hnew)

/-- Every built-in archetype is one of the catalogue. -/
theorem exists_catalogue_of_get?_builtin {h : Handle} {e : Registration}
    (he : builtin.get? h = some e) :
    ∃ e' ∈ Catalogue.registrations, e.initial = e'.initial ∧
      e.archetype.SameShape e'.archetype := by
  have hmem : e ∈ builtin.entries := List.mem_of_getElem? he
  rcases mem_entries_registerAll Catalogue.registrations empty e hmem with hnone | hsome
  · exact absurd hnone (by simp [empty])
  · exact hsome

end Registry

/-! ## Graphs -/

/-- The node has the pins of its archetype and a kind of it. -/
def Expression.IsInstance (e : Expression) (r : Registry) : Prop :=
  ∃ entry, r.get? e.handle = some entry ∧
    e.pins = ⟨entry.archetype.inputs.length, entry.archetype.outputs.length⟩ ∧
    entry.initial.Variant e.kind

/-- The graphs that edits make of built-in nodes under numbers that fit into pins. -/
structure Graph.IsBuiltin (g : ShaderGraph) : Prop where
  reachable : g.Reachable
  ids : ∀ n ∈ g.nodes, n.id.isValid = true
  instances : ∀ n ∈ g.nodes, ∃ e, n.node = .expression e ∧ e.IsInstance .builtin

/-- Whatever the numbers of its nodes and the links between them, the expressions of the graph are
instances of built-in archetypes. -/
def Graph.IsCatalogued (g : ShaderGraph) : Prop :=
  ∀ n ∈ g.nodes, ∀ e, n.node = .expression e → e.IsInstance .builtin

theorem Graph.IsBuiltin.isCatalogued {g : ShaderGraph} (h : g.IsBuiltin) : g.IsCatalogued := by
  intro n hn e he
  obtain ⟨e', he', hinst⟩ := h.instances n hn
  rw [he] at he'
  cases he'
  exact hinst

theorem Graph.IsBuiltin.isOver {g : ShaderGraph} (h : g.IsBuiltin) : g.IsOver .builtin where
  registry := Registry.reachable_builtin
  reachable := h.reachable
  ids := h.ids
  expressions n hn := by
    obtain ⟨e, he, entry, hentry, hpins, -⟩ := h.instances n hn
    exact ⟨e, entry.archetype, he, Registry.archetype?_of_get? hentry, hpins⟩

/-- New nodes have the pins of their archetype and the kind it starts with. -/
theorem Registry.exists_entry_of_create {r : Registry} {id : String} {e : Expression}
    (he : r.create id = .ok e) : ∃ entry, r.get? e.handle = some entry ∧
      e.pins = ⟨entry.archetype.inputs.length, entry.archetype.outputs.length⟩ ∧
      e.kind = entry.initial := by
  unfold create at he
  split at he
  · rename_i e' hsome
    cases he
    obtain ⟨h, -, hnew⟩ := Option.bind_eq_some_iff.mp hsome
    simp only [instantiate?, Option.map_eq_some_iff] at hnew
    obtain ⟨entry, hentry, rfl⟩ := hnew
    exact ⟨entry, hentry, rfl, rfl⟩
  · exact absurd he (by simp)

theorem Registry.isInstance_of_create {r : Registry} {id : String} {e : Expression}
    (he : r.create id = .ok e) : e.IsInstance r := by
  obtain ⟨entry, hentry, hpins, hkind⟩ := exists_entry_of_create he
  exact ⟨entry, hentry, hpins, hkind ▸ .same _⟩

theorem Expression.load_ok {e e' : Expression} {fields : Record} (h : e.load fields = .ok e') :
    ∃ k, e.kind.load fields = .ok k ∧ e' = { e with kind := k } := by
  unfold Expression.load at h
  cases hk : e.kind.load fields with
  | error err => simp [hk, bind, Except.bind] at h
  | ok k =>
      simp only [hk, bind, Except.bind, pure, Except.pure, Except.ok.injEq] at h
      exact ⟨k, rfl, h.symm⟩

/-! ## Sketches

The class is closed under what an editor does; a graph can be written down as a list of archetypes
and a list of links. -/

namespace Graph

/-- Adds a new node by the identifier of its archetype, if there is one. -/
def addNew (g : ShaderGraph) (archetype : String) : ShaderGraph :=
  match Registry.builtin.create archetype with
  | .ok e => (g.add (.expression e)).2
  | .error _ => g

/-- Links two pins, if that is allowed. -/
def tryLink (g : ShaderGraph) (ends : Pin × Pin) : ShaderGraph :=
  match g.link ends.1 ends.2 with
  | .ok (_, g') => g'
  | .error _ => g

/-- Lets a node take fields over, if it can. -/
def takeFields (g : ShaderGraph) (id : NodeId) (fields : Record) : ShaderGraph :=
  g.modifyExpression id fun e =>
    match e.load fields with
    | .ok e' => e'
    | .error _ => e

/-- New nodes, numbered from one, with links between them. -/
def sketch (archetypes : List String) (links : List (Pin × Pin)) : ShaderGraph :=
  links.foldl tryLink (archetypes.foldl addNew empty)

theorem IsBuiltin.empty : (Graph.empty : ShaderGraph).IsBuiltin :=
  ⟨.empty, by simp [Graph.empty], by simp [Graph.empty]⟩

theorem IsBuiltin.addNew {g : ShaderGraph} (h : g.IsBuiltin) (archetype : String)
    (hroom : g.lastId.toNat + 1 < 2 ^ 24) :
    (g.addNew archetype).IsBuiltin ∧ (g.addNew archetype).lastId.toNat ≤ g.lastId.toNat + 1 := by
  unfold Graph.addNew
  split
  · rename_i e he
    have hnext : (g.lastId + 1).toNat = g.lastId.toNat + 1 := by
      rw [UInt32.toNat_add]
      show (g.lastId.toNat + 1) % 2 ^ 32 = _
      omega
    have hvalid : (g.lastId + 1).isValid = true := by
      have hpos : g.lastId + 1 ≠ 0 := by
        intro hzero
        rw [hzero] at hnext
        simp at hnext
      have hle : g.lastId + 1 ≤ NodeId.greatest := by
        rw [UInt32.le_iff_toNat_le, hnext]
        show _ ≤ 0xffffff
        omega
      simp [NodeId.isValid, hpos, hle]
    refine ⟨⟨.add _ ?_ h.reachable, ?_, ?_⟩, by simp [Graph.add, hnext]⟩
    · rw [UInt32.lt_iff_toNat_lt, hnext]
      omega
    · intro n hn
      rcases List.mem_append.mp hn with hn | hn
      · exact h.ids n hn
      · rw [List.mem_singleton] at hn
        subst hn
        exact hvalid
    · intro n hn
      rcases List.mem_append.mp hn with hn | hn
      · exact h.instances n hn
      · rw [List.mem_singleton] at hn
        subst hn
        exact ⟨e, rfl, Registry.isInstance_of_create he⟩
  · exact ⟨h, by omega⟩

theorem IsBuiltin.tryLink {g : ShaderGraph} (h : g.IsBuiltin) (ends : Pin × Pin) :
    (g.tryLink ends).IsBuiltin := by
  unfold Graph.tryLink
  split
  · rename_i l g' hlink
    have hnodes : g'.nodes = g.nodes := by rw [(link_eq_ok hlink).2.2]
    exact ⟨.link _ _ h.reachable hlink, hnodes ▸ h.ids, hnodes ▸ h.instances⟩
  · exact h

theorem IsBuiltin.takeFields {g : ShaderGraph} (h : g.IsBuiltin) (id : NodeId) (fields : Record) :
    (g.takeFields id fields).IsBuiltin := by
  have hids : (g.takeFields id fields).nodes.map Numbered.id = g.nodes.map Numbered.id := by
    simp only [Graph.takeFields, modifyExpression, modify, List.map_map]
    refine List.map_congr_left fun n _ => ?_
    simp only [Function.comp_apply]
    split <;> rfl
  have hreach : (g.takeFields id fields).Reachable := by
    unfold Graph.takeFields modifyExpression
    refine .edit id _ ?_ h.reachable
    intro n
    cases n with
    | foreign => rfl
    | expression e =>
        dsimp only
        split
        · rename_i e' he
          obtain ⟨k, -, rfl⟩ := Expression.load_ok he
          rfl
        · rfl
  refine ⟨hreach, ?_, ?_⟩
  · intro n hn
    have hmem : n.id ∈ g.nodes.map Numbered.id := hids ▸ List.mem_map_of_mem hn
    obtain ⟨m, hm, heq⟩ := List.mem_map.mp hmem
    exact heq ▸ h.ids m hm
  · intro n hn
    obtain ⟨m, hm, rfl⟩ := List.mem_map.mp hn
    obtain ⟨e, he, entry, hentry, hpins, hvar⟩ := h.instances m hm
    split
    · simp only [he]
      refine ⟨_, rfl, ?_⟩
      split
      · rename_i e' hload
        obtain ⟨k, hk, rfl⟩ := Expression.load_ok hload
        exact ⟨entry, hentry, hpins, hvar.trans (Kind.variant_of_load hk)⟩
      · exact ⟨entry, hentry, hpins, hvar⟩
    · exact ⟨e, he, entry, hentry, hpins, hvar⟩

theorem lastId_addNew_le (g : ShaderGraph) (archetype : String) :
    (g.addNew archetype).lastId.toNat ≤ g.lastId.toNat + 1 := by
  unfold Graph.addNew
  split
  · show (g.lastId + 1).toNat ≤ _
    rw [UInt32.toNat_add]
    exact Nat.mod_le _ _
  · exact Nat.le_succ _

/-- What adding new nodes and linking pins keep holds of every sketch. -/
theorem sketch_induction {I : ShaderGraph → Prop} (hempty : I Graph.empty)
    (hadd : ∀ g a, I g → g.lastId.toNat + 1 < 2 ^ 24 → I (g.addNew a))
    (hlink : ∀ g ends, I g → I (g.tryLink ends)) (archetypes : List String)
    (links : List (Pin × Pin)) (h : archetypes.length < 2 ^ 24) : I (sketch archetypes links) := by
  have hnodes : ∀ (l : List String) (g : ShaderGraph), I g →
      g.lastId.toNat + l.length < 2 ^ 24 → I (l.foldl Graph.addNew g) := by
    intro l
    induction l with
    | nil => exact fun _ hg _ => hg
    | cons a rest ih =>
        intro g hg hroom
        rw [List.length_cons] at hroom
        have hlast := g.lastId_addNew_le a
        exact ih _ (hadd g a hg (by omega)) (by omega)
  have hlinks : ∀ (l : List (Pin × Pin)) (g : ShaderGraph), I g → I (l.foldl Graph.tryLink g) := by
    intro l
    induction l with
    | nil => exact fun _ hg => hg
    | cons ends rest ih => exact fun g hg => ih _ (hlink g ends hg)
  refine hlinks links _ (hnodes archetypes _ hempty ?_)
  show 0 + archetypes.length < 2 ^ 24
  omega

theorem isBuiltin_sketch (archetypes : List String) (links : List (Pin × Pin))
    (h : archetypes.length < 2 ^ 24) : (sketch archetypes links).IsBuiltin :=
  sketch_induction .empty (fun _ a hg hroom => (hg.addNew a hroom).1)
    (fun _ ends hg => hg.tryLink ends) archetypes links h

/-- A texture, tinted by a parameter and brightened: the tinted colour is used twice. -/
def tinted : ShaderGraph :=
  sketch ["parameter", "uv", "texture", "sample", "mul", "add", "out_fragment"]
    [(.output 3 0, .input 4 0), (.output 2 0, .input 4 1), (.output 4 0, .input 5 0),
      (.output 1 0, .input 5 1), (.output 5 0, .input 6 0), (.output 5 0, .input 6 1),
      (.output 6 0, .input 7 0)]

theorem isBuiltin_tinted : tinted.IsBuiltin := isBuiltin_sketch _ _ (by decide)

/-- A texture, tinted by a parameter of the same name. -/
def shadowed : ShaderGraph :=
  (sketch ["parameter", "texture", "sample", "mul", "out_fragment"]
    [(.output 2 0, .input 3 0), (.output 3 0, .input 4 0), (.output 1 0, .input 4 1),
      (.output 4 0, .input 5 0)]).takeFields 1 (Record.empty.putText "name" "texture")

theorem isBuiltin_shadowed : shadowed.IsBuiltin :=
  (isBuiltin_sketch _ _ (by decide)).takeFields 1 _

/-- A parameter that is shown, and beside it two sums that feed each other. -/
def detached : ShaderGraph :=
  sketch ["parameter", "add", "add", "out_fragment"]
    [(.output 1 0, .input 4 0), (.output 2 0, .input 3 0), (.output 3 0, .input 2 0)]

theorem isBuiltin_detached : detached.IsBuiltin := isBuiltin_sketch _ _ (by decide)

/-- Two sums that feed each other, one of which is shown. -/
def looped : ShaderGraph :=
  sketch ["add", "add", "out_fragment"]
    [(.output 1 0, .input 2 0), (.output 2 0, .input 1 0), (.output 2 0, .input 3 0)]

theorem isBuiltin_looped : looped.IsBuiltin := isBuiltin_sketch _ _ (by decide)

/-- A colour put together from a coordinate and a parameter, passed on halfway. -/
def joined : ShaderGraph :=
  sketch ["parameter", "uv", "append", "bridge", "append", "out_fragment"]
    [(.output 2 0, .input 3 0), (.output 1 0, .input 3 1), (.output 3 0, .input 4 0),
      (.output 4 0, .input 5 0), (.output 1 0, .input 5 1), (.output 5 0, .input 6 0)]

theorem isBuiltin_joined : joined.IsBuiltin := isBuiltin_sketch _ _ (by decide)

end Graph

end NodeShader
