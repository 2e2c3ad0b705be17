import NodeShader.Proofs.Document.Drawn
import NodeShader.Proofs.Document.Identity
import NodeShader.Proofs.Document.Rebuilt
import NodeShader.Proofs.Pass.Seen

/-!
# Graphs written down and read back

Every graph that is drawn can be written down, and what was written can be read back, even when the
document says the numbers in its fields in another way (`Document.Restates`). The numbers of the nodes
and their order, archetypes, places and links are those of the graph, and no link is dropped. A node is
a new one of its archetype that has taken over the fields (`Expression.Reread`). That is not always the
node that was written: as many values in the place of inputs are taken over as the archetype starts with,
and operators and functions are not written down at all. `Document.roundTrip` says all this, and
exactly when nothing else is written the second time (`Graph.IsComplete`). Where a pass sees no
difference between a node and what its archetype takes over of it (`Graph.IsRestorable`), every stage
compiles to the same source or fails at the same node.

Each entry describes what is read for the node it was written for, by way of the registry and the
fields. The entries stand in the order of their numbers already, so they are restored as they stand,
and then the links are those of a consistent graph in their order.
-/

namespace NodeShader

/-! ## What is read -/

/-- The second node is what is read for the first: one of its archetype, at its place, with what its
archetype takes over of its fields, up to payloads. -/
structure Expression.Reread (r : Registry) (e e' : Expression) : Prop where
  handle : e'.handle = e.handle
  pins : e'.pins = e.pins
  position : e'.position = e.position
  kind : ∃ entry, r.get? e.handle = some entry ∧
    e'.kind.plain = (entry.initial.takeOver e.kind).plain

@[inherit_doc Expression.Reread]
def Numbered.Reread (r : Registry) (n n' : Numbered Node) : Prop :=
  n.id = n'.id ∧ ∃ e e', n.node = .expression e ∧ n'.node = .expression e' ∧ e.Reread r e'

/-- The second graph is what is read for the first: the same numbers in the same order, what is read
for each node, and the same links. -/
structure Graph.Reread (r : Registry) (g g' : ShaderGraph) : Prop where
  nodes : List.Forall₂ (Numbered.Reread r) g.nodes g'.nodes
  links : g.links = g'.links

/-- Has the node as many values in the place of inputs as its archetype? -/
def Expression.IsComplete (r : Registry) (e : Expression) : Prop :=
  ∃ entry, r.get? e.handle = some entry ∧ entry.initial.edited.length = e.kind.edited.length

def Graph.IsComplete (r : Registry) (g : ShaderGraph) : Prop :=
  ∀ n ∈ g.nodes, ∀ e, n.node = .expression e → e.IsComplete r

instance (r : Registry) (e : Expression) : Decidable (e.IsComplete r) :=
  match hget : r.get? e.handle with
  | some entry =>
    decidable_of_iff (entry.initial.edited.length = e.kind.edited.length)
      ⟨fun hlength => ⟨entry, hget, hlength⟩, fun ⟨_, hget', hlength⟩ => by
        cases hget.symm.trans hget'
        exact hlength⟩
  | none => isFalse fun ⟨_, hget', _⟩ => absurd (hget.symm.trans hget') (by simp)

instance (r : Registry) (n : Node) : Decidable (∀ e, n = .expression e → e.IsComplete r) :=
  match n with
  | .expression e => decidable_of_iff (e.IsComplete r) (by simp)
  | .foreign .. => isTrue fun _ h => nomatch h

instance (r : Registry) (g : ShaderGraph) : Decidable (g.IsComplete r) :=
  inferInstanceAs (Decidable (∀ n ∈ g.nodes, ∀ e, n.node = .expression e → e.IsComplete r))

/-- Does a pass see no difference between the node and what its archetype takes over of it? The
operator or function is that of the archetype then, and at each input stands the same number. -/
def Expression.IsRestorable (r : Registry) (e : Expression) : Prop :=
  ∃ entry, r.get? e.handle = some entry ∧
    (entry.initial.takeOver e.kind).seen entry.archetype.inputs.length =
      e.kind.seen entry.archetype.inputs.length

def Graph.IsRestorable (r : Registry) (g : ShaderGraph) : Prop :=
  ∀ n ∈ g.nodes, ∀ e, n.node = .expression e → e.IsRestorable r

namespace Graph.IsFilled

variable {r : Registry} {g : ShaderGraph}

theorem isComplete (h : g.IsFilled r) : g.IsComplete r := by
  intro n hn e he
  obtain ⟨e', he', entry, hentry, -, hfills⟩ := h n hn
  cases he.symm.trans he'
  exact ⟨entry, hentry, hfills.length⟩

theorem isRestorable (h : g.IsFilled r) : g.IsRestorable r := by
  intro n hn e he
  obtain ⟨e', he', entry, hentry, -, hfills⟩ := h n hn
  cases he.symm.trans he'
  exact ⟨entry, hentry, by rw [Kind.takeOver_of_fills hfills]⟩

end Graph.IsFilled

/-! ## Documents that say the same -/

/-- The first entry says what the second says, perhaps with other representations of numbers. -/
structure NodeEntry.Restates (n n' : NodeEntry) : Prop where
  id : n.id = n'.id
  type : n.type = n'.type
  position : n.position = n'.position
  fields : Option.Rel Record.Restates n.fields n'.fields

@[inherit_doc NodeEntry.Restates]
structure Document.Restates (d d' : Document) : Prop where
  version : d.version = d'.version
  id : d.id = d'.id
  nodes : List.Forall₂ NodeEntry.Restates d.nodeList d'.nodeList
  links : d.linkList = d'.linkList

theorem NodeEntry.Restates.refl (n : NodeEntry) : n.Restates n :=
  ⟨rfl, rfl, rfl, by cases n.fields <;> constructor; exact .refl _⟩

theorem Document.Restates.refl (d : Document) : d.Restates d :=
  ⟨rfl, rfl, List.forall₂_same.mpr fun n _ => .refl n, rfl⟩

/-- The entry with one pattern for every number in its fields that is none. -/
def NodeEntry.plain (n : NodeEntry) : NodeEntry := { n with fields := n.fields.map Record.plain }

@[inherit_doc NodeEntry.plain]
def Document.plain (d : Document) : Document :=
  { d with nodes := d.nodes.map (List.map NodeEntry.plain) }

/-! ## Writing -/

namespace NodeEntry

variable {r : Registry}

theorem filter_save? (k : Kind) : (k.save?.filter fun fields => !fields.isEmpty) = k.save? := by
  cases hsave : k.save? with
  | none => rfl
  | some fields => simp [Kind.isEmpty_of_save? hsave]

theorem ofNode_eq_ok {n : Numbered Node} {e : Expression} {a : Archetype}
    (hnode : n.node = .expression e) (ha : r.archetype? e.handle = some a) :
    ofNode r n = .ok
      { id := n.id, type := a.id, position := e.position, fields := e.kind.save? } := by
  simp only [ofNode, hnode, ha, filter_save?]

/-- What is read for a node is written down like the node, exactly if the node is complete. -/
theorem ofNode_reread {n n' : Numbered Node} {e : Expression} (hnode : n.node = .expression e)
    (haltered : e.IsAltered r) (h : n.Reread r n') {entry : NodeEntry}
    (hentry : ofNode r n = .ok entry) :
    ∃ entry', ofNode r n' = .ok entry' ∧ (entry'.plain = entry.plain ↔ e.IsComplete r) := by
  obtain ⟨hid, e₁, e', he₁, he', hhandle, -, hposition, registration, hget, hkind⟩ := h
  cases he₁.symm.trans hnode
  obtain ⟨_, hget', -, haltered⟩ := haltered
  cases hget'.symm.trans hget
  have ha := Registry.archetype?_of_get? hget
  rw [ofNode_eq_ok hnode ha] at hentry
  cases hentry
  refine ⟨_, ofNode_eq_ok he' (hhandle ▸ ha), ?_⟩
  have hsave : e'.kind.save?.map Record.plain =
      (registration.initial.takeOver e.kind).save?.map Record.plain := by
    rw [← Kind.plain_save? e'.kind, hkind, Kind.plain_save?]
  have hplain := Kind.plain_save?_takeOver_iff haltered
  simp only [plain, hid, hposition, hsave, NodeEntry.mk.injEq, true_and, hplain]
  refine ⟨fun hlength => ⟨registration, hget, hlength⟩, fun ⟨registration', hget', hlength⟩ => ?_⟩
  cases hget'.symm.trans hget
  exact hlength

/-- An entry that says what was written down describes what is read for the node. -/
theorem describes_of_restates (hr : r.Reachable) {n : Numbered Node} (hvalid : n.id.isValid = true)
    {e : Expression} (hnode : n.node = .expression e) (haltered : e.IsAltered r)
    {entry entry' : NodeEntry} (hentry : ofNode r n = .ok entry) (h : entry'.Restates entry) :
    ∃ n', entry'.Describes r n' ∧ n.Reread r n' := by
  obtain ⟨registration, hget, hpins, hkind⟩ := haltered
  rw [ofNode_eq_ok hnode (Registry.archetype?_of_get? hget)] at hentry
  cases hentry
  obtain ⟨hid, htype, hposition, hfields⟩ := h
  dsimp only at hid htype hposition hfields
  have hnumber : ¬ NodeId.greatest < entry'.id :=
    UInt32.not_lt.mpr (hid ▸ NodeId.le_of_isValid hvalid)
  have hcreate := htype ▸ hr.create_id hget
  -- what is left to show is that the fields of the node are taken over
  have hsuffices : ∀ k : Kind, k.plain = (registration.initial.takeOver e.kind).plain →
      entry'.toNode r = .ok
        { handle := e.handle, kind := k, pins := e.pins, position := entry'.position } →
      ∃ n', entry'.Describes r n' ∧ n.Reread r n' := fun k hk hto =>
    ⟨⟨entry'.id, _⟩, ⟨rfl, _, hto, rfl⟩, hid.symm, e, _, hnode, rfl, rfl, rfl, hposition,
      registration, hget, hk⟩
  generalize hgiven : entry'.fields = given at hfields
  generalize hsave : e.kind.save? = saved at hfields
  cases hfields with
  | none =>
      refine hsuffices registration.initial ?_ ?_
      · rw [Kind.takeOver_of_save? hsave]
      · simp only [toNode, if_neg hnumber, hcreate, hgiven, hpins]
  | some hrestates =>
      obtain ⟨k, hload, hplain⟩ := Kind.load_restated hkind hsave hrestates
      refine hsuffices k hplain ?_
      simp only [toNode, if_neg hnumber, hcreate, hgiven, Expression.load, hload, bind, Except.bind,
        pure, Except.pure, hpins]

end NodeEntry

/-! ## Reading -/

theorem Numbered.Reread.pinCount? {r : Registry} {n n' : Numbered Node} (h : n.Reread r n') :
    CountsPins.pinCount? n'.node = CountsPins.pinCount? n.node := by
  obtain ⟨-, e, e', he, he', hread⟩ := h
  rw [he, he']
  exact congrArg some hread.pins

/-- What is read for nodes can be linked like the nodes. -/
theorem Graph.Consistent.relinked {r : Registry} {g g' : ShaderGraph} (h : g.Consistent)
    (h' : g'.Consistent) (hnodes : List.Forall₂ (Numbered.Reread r) g.nodes g'.nodes) :
    Graph.Consistent { g' with links := g.links } where
  sorted := h.sorted
  single := h.single
  sources l hl := (h.sources l hl).mono fun n hn hid => by
    obtain ⟨n', hn', hread⟩ := exists_mem_of_forall₂ hnodes hn
    exact ⟨n', hn', hread.1 ▸ hid, hread.pinCount?⟩
  targets l hl := (h.targets l hl).mono fun n hn hid => by
    obtain ⟨n', hn', hread⟩ := exists_mem_of_forall₂ hnodes hn
    exact ⟨n', hn', hread.1 ▸ hid, hread.pinCount?⟩
  apart := h.apart
  indexed := h'.indexed
  bounded := h'.bounded

/-- Of what is read for a restorable node a pass sees the same. -/
theorem Expression.Reread.seenAs {r : Registry} {e e' : Expression} (h : e.Reread r e')
    (hrestorable : e.IsRestorable r) : e.SeenAs r e' where
  handle := h.handle.symm
  kind a ha := by
    obtain ⟨entry, hget, hkind⟩ := h.kind
    obtain ⟨entry', hget', hseen⟩ := hrestorable
    cases hget'.symm.trans hget
    cases ha.symm.trans (Registry.archetype?_of_get? hget)
    rw [← hseen, ← Kind.seen_plain, ← hkind, Kind.seen_plain]

theorem Graph.Reread.seenAs {r : Registry} {g g' : ShaderGraph} (h : g.Reread r g')
    (hrestorable : g.IsRestorable r) : g.SeenAs r g' where
  nodes := by
    have hboth := (List.forall₂_and_left (p := (· ∈ g.nodes)) _ _).mpr ⟨fun n hn => hn, h.nodes⟩
    refine hboth.imp ?_
    rintro n n' ⟨hn, hid, e, e', he, he', hread⟩
    exact ⟨hid, e, e', he, he', hread.seenAs (hrestorable n hn e he)⟩
  links := h.links

/-- The entries were written for the nodes. -/
def Graph.WrittenAs (r : Registry) (nodes : List (Numbered Node)) (entries : List NodeEntry) : Prop :=
  List.Forall₂ (fun n entry => NodeEntry.ofNode r n = .ok entry) nodes entries

namespace Graph.WrittenAs

variable {r : Registry} {nodes nodes' : List (Numbered Node)} {entries entries' : List NodeEntry}

theorem exists_of_altered (h : ∀ n ∈ nodes, ∃ e, n.node = .expression e ∧ e.IsAltered r) :
    ∃ entries, WrittenAs r nodes entries := by
  induction nodes with
  | nil => exact ⟨[], .nil⟩
  | cons n rest ih =>
      obtain ⟨⟨e, he, registration, hget, -⟩, hrest⟩ := List.forall_mem_cons.mp h
      obtain ⟨entries, hentries⟩ := ih hrest
      have hentry := NodeEntry.ofNode_eq_ok he (Registry.archetype?_of_get? hget)
      exact ⟨_ :: entries, .cons hentry hentries⟩

/-- What is read is written down again, and in the same way exactly if every node is complete. -/
theorem reread (h : WrittenAs r nodes entries)
    (haltered : ∀ n ∈ nodes, ∃ e, n.node = .expression e ∧ e.IsAltered r)
    (hnodes : List.Forall₂ (Numbered.Reread r) nodes nodes') :
    ∃ entries', WrittenAs r nodes' entries' ∧
      (entries'.map NodeEntry.plain = entries.map NodeEntry.plain ↔
        ∀ n ∈ nodes, ∀ e, n.node = .expression e → e.IsComplete r) := by
  induction h generalizing nodes' with
  | nil =>
      cases hnodes
      exact ⟨[], .nil, by simp⟩
  | @cons n entry nodes entries hn _ ih =>
      obtain ⟨n', rest', hread, hrest, rfl⟩ := List.forall₂_cons_left_iff.mp hnodes
      obtain ⟨⟨e, he, hinstance⟩, haltered⟩ := List.forall_mem_cons.mp haltered
      obtain ⟨entry', hentry, hsame⟩ := NodeEntry.ofNode_reread he hinstance hread hn
      obtain ⟨entries', hentries, hsames⟩ := ih haltered hrest
      refine ⟨entry' :: entries', .cons hentry hentries, ?_⟩
      have honly : (∀ e, n.node = .expression e → e.IsComplete r) ↔ e.IsComplete r :=
        ⟨fun hall => hall e he, fun hone e' he' => by cases he.symm.trans he'; exact hone⟩
      rw [List.map_cons, List.map_cons, List.cons.injEq, List.forall_mem_cons, hsame, hsames, honly]

theorem described (h : WrittenAs r nodes entries) (hr : r.Reachable)
    (hvalid : ∀ n ∈ nodes, n.id.isValid = true)
    (haltered : ∀ n ∈ nodes, ∃ e, n.node = .expression e ∧ e.IsAltered r)
    (hentries : List.Forall₂ NodeEntry.Restates entries' entries) :
    ∃ nodes', List.Forall₂ (NodeEntry.Describes r) entries' nodes' ∧
      List.Forall₂ (Numbered.Reread r) nodes nodes' := by
  induction h generalizing entries' with
  | nil =>
      cases hentries
      exact ⟨[], .nil, .nil⟩
  | @cons n entry _ _ hn _ ih =>
      obtain ⟨entry', rest', hrestates, hrest, rfl⟩ := List.forall₂_cons_right_iff.mp hentries
      obtain ⟨⟨e, he, hinstance⟩, haltered⟩ := List.forall_mem_cons.mp haltered
      obtain ⟨hnumber, hvalid⟩ := List.forall_mem_cons.mp hvalid
      obtain ⟨n', hdescribes, hread⟩ :=
        NodeEntry.describes_of_restates hr hnumber he hinstance hn hrestates
      obtain ⟨nodes', hall, hreads⟩ := ih hvalid haltered hrest
      exact ⟨n' :: nodes', .cons hdescribes hall, .cons hread hreads⟩

end Graph.WrittenAs

namespace Document

variable {r : Registry} {g g' : ShaderGraph} {entries : List NodeEntry}

/-- The document of a graph whose nodes were written as these entries. -/
def ofEntries (g : ShaderGraph) (entries : List NodeEntry) (id : Uuid) : Document :=
  { version := currentVersion, id := id.text, nodes := some entries
    links := if g.links.isEmpty then none else some (g.links.map LinkEntry.ofLink) }

theorem ofGraph_eq_ok (h : Graph.WrittenAs r g.nodes entries) (id fresh : Uuid) :
    ofGraph g r id fresh = .ok (ofEntries g entries (id.orFresh fresh)) := by
  rw [ofGraph, mapM_eq_ok h]
  rfl

theorem linkList_ofEntries (id : Uuid) :
    (ofEntries g entries id).linkList = g.links.map LinkEntry.ofLink := by
  unfold linkList ofEntries
  cases g.links <;> rfl

/-- Two documents with the same identity and links agree if their entries do. -/
theorem plain_ofEntries_iff {entries' : List NodeEntry} (hlinks : g.links = g'.links) (id : Uuid) :
    (ofEntries g' entries' id).plain = (ofEntries g entries id).plain ↔
      entries'.map NodeEntry.plain = entries.map NodeEntry.plain := by
  simp only [plain, ofEntries, Option.map_some, hlinks, Document.mk.injEq, Option.some.injEq,
    true_and, and_true]

/-- The entries of a tidy graph are restored as they stand, and then the links are added. -/
theorem exists_restored (hr : r.Reachable) (h : g.Tidy r)
    (hids : ∀ n ∈ g.nodes, n.id.isValid = true) {id : Uuid} (hid : id.bytes.length = 16)
    (hentries : Graph.WrittenAs r g.nodes entries) {d : Document}
    (hd : d.Restates (ofEntries g entries id)) :
    ∃ g₁, d.nodeList.foldlM (NodeEntry.restoreInto r) Graph.empty = .ok g₁ ∧ g₁.Consistent ∧
      g₁.links = [] ∧ List.Forall₂ (Numbered.Reread r) g.nodes g₁.nodes ∧
      d.toGraph r = .ok (LinkEntry.addAll g₁ (g.links.map LinkEntry.ofLink)) := by
  obtain ⟨nodes, hdescribed, hread⟩ := hentries.described hr hids h.instances hd.nodes
  have hsame : nodes.map Numbered.id = g.ids := (map_eq_of_forall₂ (fun _ _ hn => hn.1) hread).symm
  have hnumbers : d.nodeList.map NodeEntry.id = g.ids :=
    (map_eq_of_forall₂ (fun _ _ hn => hn.1) hdescribed).trans hsame
  -- the entries are in order, so sorting leaves them alone
  have hsorted : d.sortedNodes = d.nodeList := by
    have hascending := hnumbers ▸ h.ascending
    refine List.mergeSort_of_pairwise ((List.pairwise_map.mp hascending).imp fun hlt => ?_)
    exact decide_eq_true (UInt32.le_of_lt hlt)
  have hvalid : ∀ n ∈ nodes, n.id.isValid = true := by
    intro n hn
    have hmem : n.id ∈ g.ids := hsame ▸ List.mem_map_of_mem hn
    obtain ⟨m, hm, hid⟩ := List.mem_map.mp hmem
    exact hid ▸ hids m hm
  obtain ⟨g₁, hrestored, hconsistent, hnodes, hlinks⟩ := NodeEntry.restoreAll_eq_ok hdescribed
    Graph.consistent_empty hvalid (hsame ▸ h.reachable.consistent.distinct)
  rw [show (Graph.empty : ShaderGraph).nodes = [] from rfl, List.nil_append] at hnodes
  have hidentity : Uuid.read d.id = .ok id := (congrArg Uuid.read hd.id).trans (Uuid.read_text hid)
  have hgraph := toGraph_of_restored hd.version hidentity (hsorted ▸ hrestored)
  rw [hd.links.trans (linkList_ofEntries id)] at hgraph
  exact ⟨g₁, hrestored, hconsistent, hlinks, hnodes ▸ hread, hgraph⟩

/-- What says the same as the document of a tidy graph is read, and no link is dropped. -/
theorem toGraph_restated (hr : r.Reachable) (h : g.Tidy r)
    (hids : ∀ n ∈ g.nodes, n.id.isValid = true) {id : Uuid} (hid : id.bytes.length = 16)
    (hentries : Graph.WrittenAs r g.nodes entries) {d : Document}
    (hd : d.Restates (ofEntries g entries id)) :
    ∃ g', d.toGraph r = .ok { graph := g' } ∧ g.Reread r g' := by
  obtain ⟨g₁, -, hconsistent, hlinks, hread, hgraph⟩ := exists_restored hr h hids hid hentries hd
  have hlinked : Graph.Consistent { g₁ with links := g₁.links ++ g.links } := by
    rw [hlinks]
    exact h.reachable.consistent.relinked hconsistent hread
  have hvalid : ∀ n ∈ g₁.nodes, n.id.isValid = true := by
    intro n hn
    obtain ⟨m, hm, hid, -⟩ := exists_mem_of_forall₂ hread.flip hn
    exact hid ▸ hids m hm
  rw [LinkEntry.addAll_ofLink hlinked hvalid, hlinks] at hgraph
  exact ⟨_, hgraph, hread, rfl⟩

/-- What writing down and reading back keeps. A drawn graph whose numbers fit into pins is written
down, under a fresh identity if it is given none. Whatever says the same as its document is read as a
graph with the same numbers in the same order, archetypes, places and links, none of them dropped, and
with what the archetypes take over of the fields. Under the identity it has, that graph is written down
as the same document exactly if all nodes were complete. If a pass sees no difference between the nodes
and what is taken over of them, each stage compiles to the same source or fails at the same node. All
this is up to payloads of what is not a number. -/
theorem roundTrip (hr : r.Reachable) (h : g.Drawn r) (hids : ∀ n ∈ g.nodes, n.id.isValid = true)
    (id fresh : Uuid) (hid : id.bytes.length = 16) (hfresh : fresh.IsRandom) :
    ∃ d, ofGraph g r id fresh = .ok d ∧ (id = .nil → d.id = fresh.text) ∧
      (id ≠ .nil → d.id = id.text) ∧ d.Restates d ∧
      ∀ d' : Document, d'.Restates d → ∃ g', d'.toGraph r = .ok { graph := g', dropped := [] } ∧
        g.Reread r g' ∧
        (∃ d'', (∀ other, ofGraph g' r (id.orFresh fresh) other = .ok d'') ∧
          (d''.plain = d.plain ↔ g.IsComplete r)) ∧
        (g.IsRestorable r → ∀ stage o,
          (compileStage g' r stage o).outcome = (compileStage g r stage o).outcome) := by
  have hinstances := h.tidy.instances
  obtain ⟨entries, hentries⟩ := Graph.WrittenAs.exists_of_altered hinstances
  refine ⟨_, ofGraph_eq_ok hentries id fresh, fun hnil => ?_, fun hne => ?_, .refl _,
    fun d' hd' => ?_⟩
  · exact congrArg Uuid.text (if_pos hnil)
  · exact congrArg Uuid.text (if_neg hne)
  obtain ⟨g', hgraph, hread⟩ :=
    toGraph_restated hr h.tidy hids (Uuid.length_orFresh hid hfresh) hentries hd'
  obtain ⟨entries', hentries', hsame⟩ := hentries.reread hinstances hread.nodes
  refine ⟨g', hgraph, hread, ⟨ofEntries g' entries' (id.orFresh fresh), fun other => ?_, ?_⟩,
    fun hrestorable => compileStage_seen (hread.seenAs hrestorable)⟩
  · rw [ofGraph_eq_ok hentries', Uuid.orFresh_orFresh hfresh]
  · exact (plain_ofEntries_iff hread.links _).trans hsame

/-- A tinted texture whose parameter was renamed survives, and gets an identity. -/
theorem roundTrip_shadowed :
    Graph.shadowed.Drawn .builtin ∧ ∃ d g',
      ofGraph Graph.shadowed .builtin .nil .leastRandom = .ok d ∧ d.id = Uuid.leastRandom.text ∧
      d.toGraph .builtin = .ok { graph := g', dropped := [] } ∧
      Graph.shadowed.Reread .builtin g' ∧
      (∃ d'', (∀ other, ofGraph g' .builtin .leastRandom other = .ok d'') ∧ d''.plain = d.plain) ∧
      ∀ stage o, (compileStage g' .builtin stage o).outcome =
        (compileStage Graph.shadowed .builtin stage o).outcome := by
  have hdrawn : Graph.shadowed.Drawn .builtin := (Graph.drawn_sketch _ _ (by decide)).takeFields 1 _
  have hfilled : Graph.shadowed.IsFilled .builtin :=
    (Graph.isFilled_sketch _ _ (by decide)).takeFields 1 _
  obtain ⟨d, hd, hnil, -, hsame, hread⟩ := roundTrip Registry.reachable_builtin hdrawn
    Graph.isBuiltin_shadowed.ids .nil .leastRandom (by decide) Uuid.isRandom_leastRandom
  obtain ⟨g', hgraph, hreread, ⟨d'', hd'', hiff⟩, hcompile⟩ := hread d hsame
  exact ⟨hdrawn, d, g', hd, hnil rfl, hgraph, hreread, ⟨d'', hd'', hiff.mpr hfilled.isComplete⟩,
    hcompile hfilled.isRestorable⟩

end Document

/-! ## What is lost -/

/-- An operation with another operator and other values in the place of inputs. -/
def Kind.asOperation (operator : String) (values : List Number.Single) : Kind → Kind
  | .binaryOp _ _ => .binaryOp operator values
  | k => k

theorem Kind.altered_asOperation (operator : String) (values : List Number.Single) (k : Kind) :
    k.Altered (k.asOperation operator values) := by
  cases k with
  | binaryOp => exact .operator _ _ _ _
  | _ => exact .refl _

namespace Graph

/-- A product that is shown, with another operator and other values. -/
def product (operator : String) (values : List Number.Single) : ShaderGraph :=
  (sketch ["mul", "out_fragment"] [(.output 1 0, .input 2 0)]).modifyExpression 1 fun e =>
    { e with kind := e.kind.asOperation operator values }

theorem drawn_product (operator : String) (values : List Number.Single) :
    (product operator values).Drawn .builtin :=
  .edit 1 (fun e => ⟨rfl, rfl, e.kind.altered_asOperation operator values⟩)
    (drawn_sketch _ _ (by decide))

/-- The source of the fragment stage, if there is one. -/
def fragmentSource (r : Registry) (g : ShaderGraph) : Option String :=
  (compileStage g r .fragment {}).outcome.toOption.map Compiled.source

/-- The source of the fragment stage of what is read for a graph. -/
def rereadSource (r : Registry) (g : ShaderGraph) : Option String := do
  let entries ← (g.nodes.mapM (NodeEntry.ofNode r)).toOption
  let g₁ ← (entries.foldlM (NodeEntry.restoreInto r) Graph.empty).toOption
  fragmentSource r (LinkEntry.addAll g₁ (g.links.map LinkEntry.ofLink)).graph

end Graph

/-- What comes of a drawn graph when it is written, read and written again. -/
theorem Document.exists_reread {r : Registry} (hr : r.Reachable) {g : ShaderGraph} (h : g.Drawn r)
    (hids : ∀ n ∈ g.nodes, n.id.isValid = true) {id : Uuid} (hid : id.IsRandom) :
    ∃ d g' d'', ofGraph g r id id = .ok d ∧ d.toGraph r = .ok { graph := g' } ∧
      ofGraph g' r id id = .ok d'' ∧ (d''.plain = d.plain ↔ g.IsComplete r) ∧
      g'.fragmentSource r = g.rereadSource r := by
  have hsame : id.orFresh id = id := if_neg hid.ne_nil
  have hwrite : ∀ {g : ShaderGraph} {entries : List NodeEntry},
      Graph.WrittenAs r g.nodes entries → ofGraph g r id id = .ok (ofEntries g entries id) :=
    fun h => (ofGraph_eq_ok h id id).trans (by rw [hsame])
  obtain ⟨entries, hentries⟩ := Graph.WrittenAs.exists_of_altered h.tidy.instances
  have hd := Restates.refl (ofEntries g entries id)
  obtain ⟨g₁, hrestored, -, -, -, hadded⟩ := exists_restored hr h.tidy hids hid.length hentries hd
  obtain ⟨g', hgraph, hread⟩ := toGraph_restated hr h.tidy hids hid.length hentries hd
  obtain ⟨entries', hentries', hcomplete⟩ := hentries.reread h.tidy.instances hread.nodes
  refine ⟨_, g', _, hwrite hentries, hgraph, hwrite hentries',
    (plain_ofEntries_iff hread.links id).trans hcomplete, ?_⟩
  have hrestored : entries.foldlM (NodeEntry.restoreInto r) Graph.empty = .ok g₁ := hrestored
  have hlast := Except.ok.inj (hgraph.symm.trans hadded)
  simp only [Graph.rereadSource, mapM_eq_ok hentries, Except.toOption, hrestored, bind,
    Option.bind_some, ← hlast]

/-- Without one of its two values a product comes back with that of its archetype: the document that
is written the second time is another one, and so is the source. A difference that was made of a
product is read as a product, although the documents agree. -/
theorem Document.not_lossless_product :
    (∀ operator values, (Graph.product operator values).Drawn .builtin ∧
        ∀ n ∈ (Graph.product operator values).nodes, n.id.isValid = true) ∧
      (∃ d g' d'', ofGraph (Graph.product "*" [.ofInt 5]) .builtin .leastRandom .leastRandom = .ok d ∧
        d.toGraph .builtin = .ok { graph := g' } ∧
        ofGraph g' .builtin .leastRandom .leastRandom = .ok d'' ∧ d''.plain ≠ d.plain ∧
        g'.fragmentSource .builtin ≠ (Graph.product "*" [.ofInt 5]).fragmentSource .builtin) ∧
      ∃ d g' d'',
        ofGraph (Graph.product "-" [.one, .one]) .builtin .leastRandom .leastRandom = .ok d ∧
        d.toGraph .builtin = .ok { graph := g' } ∧
        ofGraph g' .builtin .leastRandom .leastRandom = .ok d'' ∧ d''.plain = d.plain ∧
        g'.fragmentSource .builtin ≠ (Graph.product "-" [.one, .one]).fragmentSource .builtin := by
  have hids : ∀ operator values, ∀ n ∈ (Graph.product operator values).nodes,
      n.id.isValid = true := by
    intro operator values n hn
    obtain ⟨m, hm, rfl⟩ := List.mem_map.mp hn
    have hid : m.id.isValid = true := (Graph.isBuiltin_sketch _ _ (by decide)).ids m hm
    split <;> exact hid
  have hread := fun operator values =>
    exists_reread Registry.reachable_builtin (Graph.drawn_product operator values)
      (hids operator values) Uuid.isRandom_leastRandom
  refine ⟨fun operator values => ⟨Graph.drawn_product operator values, hids operator values⟩, ?_, ?_⟩
  · obtain ⟨d, g', d'', hd, hg', hd'', hcomplete, hsource⟩ := hread "*" [.ofInt 5]
    refine ⟨d, g', d'', hd, hg', hd'', fun hsame => absurd (hcomplete.mp hsame) (by decide +kernel), ?_⟩
    rw [hsource]
    decide +kernel
  · obtain ⟨d, g', d'', hd, hg', hd'', hcomplete, hsource⟩ := hread "-" [.one, .one]
    refine ⟨d, g', d'', hd, hg', hd'', hcomplete.mpr (by decide +kernel), ?_⟩
    rw [hsource]
    decide +kernel

end NodeShader
