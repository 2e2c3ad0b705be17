import Mathlib.Data.List.TakeWhile
import NodeShader.Proofs.Document.Decoded

/-!
# Graphs rebuilt from entries

When does decoding lose nothing? Entries that describe nodes under free numbers are restored as these
nodes (`NodeEntry.restoreAll_eq_ok`). The entries of links that make a consistent graph and stand in
ascending order are all accepted: each comes behind the links that are there, and nothing leads to its
target yet (`LinkEntry.addAll_ofLink`).
-/

namespace NodeShader

/-! ## Links at their place -/

theorem LinkList.insert_of_lt {l : Link} {ls : List Link} (h : ∀ x ∈ ls, x < l) :
    insert l ls = ls ++ [l] := by
  have hbelow : below l ls = ls := List.takeWhile_eq_self_iff.mpr (by simpa using h)
  have hatLeast : atLeast l ls = [] := List.dropWhile_eq_nil_iff.mpr (by simpa using h)
  rw [insert, hbelow, hatLeast]

theorem PinEntry.check_ofPin {p : Pin} (hindex : 0 ≤ p.index) :
    (PinEntry.ofPin p).check = .ok () := by
  have hle := p.index_le
  have hrange : ¬ (p.index < 0 ∨ (Pin.greatestIndex : Int) < p.index) := by omega
  have hnode : ¬ NodeId.greatest < p.node := UInt32.not_lt.mpr p.node_le
  unfold check
  exact (if_neg hrange).trans (if_neg hnode)

namespace Graph

variable {g : ShaderGraph}

/-- A link may end at a pin of a node. -/
theorem Consistent.checkPin_of_hasPin (h : g.Consistent)
    (hids : ∀ n ∈ g.nodes, n.id.isValid = true) {d : Direction} {p : Pin} (hp : g.HasPin d p) :
    g.checkPin p = .ok () := by
  obtain ⟨hdir, hindex, n, hn, hid, hcount⟩ := hp
  have hnode : g.node? p.node = some n.node := hid ▸ h.node?_of_mem hn
  have hvalid : p.isValid = true := by
    have hnonzero : p.node ≠ 0 := by
      intro hzero
      have := hids n hn
      rw [hid, hzero] at this
      exact absurd this (by decide)
    have hfield : (p.bits >>> 24) &&& 0x7f ≠ 0 := by
      intro hzero
      rw [Pin.index, hzero] at hindex
      exact absurd hindex (by decide)
    simp [Pin.isValid, hnonzero, hfield]
  unfold checkPin
  simp only [hvalid, hnode, Bool.not_true, Bool.false_eq_true, if_false]
  cases hpins : CountsPins.pinCount? n.node with
  | none => rfl
  | some count =>
      have hlt := hcount count hpins
      simp only [hdir, if_neg (Int.not_le.mpr hlt)]

/-- A link from an output to an input of another node that nothing leads to yet may be made. -/
theorem Consistent.link_of_free (h : g.Consistent) (hids : ∀ n ∈ g.nodes, n.id.isValid = true)
    {a b : Pin} (ha : g.HasPin .output a) (hb : g.HasPin .input b) (hapart : a.node ≠ b.node)
    (hfree : g.linkInto? b = none) :
    g.link a b =
      .ok (.pack a b, { g with links := LinkList.insert (.pack a b) g.links }) := by
  have hdirections : a.direction ≠ b.direction := by
    rw [ha.1, hb.1]
    decide
  have hbetween : Link.between a b = .pack a b := by
    rw [Link.between, Pin.isInput_eq_false.mpr ha.1]
    rfl
  have hnew : g.hasLink (.pack a b) = false := by
    refine Bool.eq_false_iff.mpr fun hhas => ?_
    have hmem := (LinkList.has_iff h.sorted).mp hhas
    rw [h.linkInto?_eq_some_iff.mpr ⟨hmem, Link.target_pack a b⟩] at hfree
    exact absurd hfree (by simp)
  have hcan : g.canLink a b = .ok () := by
    unfold canLink
    rw [if_neg fun heq => hdirections (congrArg Pin.direction heq), if_neg hdirections,
      if_neg hapart, h.checkPin_of_hasPin hids ha, h.checkPin_of_hasPin hids hb, hbetween, hnew]
    rfl
  simp only [Graph.link, hcan, hbetween, Link.target_pack, hfree, bind, Except.bind]

/-- A link between pins of different nodes, behind the others and into a free input, may be made. -/
theorem Consistent.link_eq_append {l : Link} (h : Consistent { g with links := g.links ++ [l] })
    (hids : ∀ n ∈ g.nodes, n.id.isValid = true) :
    g.linkInto? l.target = none ∧
      g.link l.source l.target = .ok (l, { g with links := g.links ++ [l] }) := by
  have hbefore : g.Consistent := h.fewerLinks (List.sublist_append_left _ _)
  have hmem : l ∈ g.links ++ [l] := by simp
  have hlast : ∀ x ∈ g.links, x < l := fun x hx =>
    (List.pairwise_append.mp h.sorted).2.2 x hx l (by simp)
  have hfree : g.linkInto? l.target = none := by
    refine Option.eq_none_iff_forall_ne_some.mpr fun x hx => ?_
    obtain ⟨hx, htarget⟩ := hbefore.linkInto?_eq_some_iff.mp hx
    have heq := h.single x (List.mem_append_left _ hx) l hmem htarget
    exact Link.not_lt_self l (heq ▸ hlast x hx)
  refine ⟨hfree, ?_⟩
  rw [hbefore.link_of_free hids (h.sources l hmem) (h.targets l hmem) (h.apart l hmem) hfree,
    Link.pack_ends, LinkList.insert_of_lt hlast]

end Graph

/-! ## Links from entries -/

namespace LinkEntry

variable {g : ShaderGraph}

theorem addTo_ofLink {l : Link} (h : Graph.Consistent { g with links := g.links ++ [l] })
    (hids : ∀ n ∈ g.nodes, n.id.isValid = true) :
    (ofLink l).addTo g = .ok { g with links := g.links ++ [l] } := by
  have hmem : l ∈ g.links ++ [l] := by simp
  obtain ⟨hout, hsource, -⟩ := h.sources l hmem
  obtain ⟨hin, htarget, -⟩ := h.targets l hmem
  obtain ⟨hfree, hlink⟩ := h.link_eq_append hids
  have hpacked : Pin.pack l.source.node l.source.index .output = l.source :=
    hout ▸ Pin.pack_parts l.source
  have hpacked' : Pin.pack l.target.node l.target.index .input = l.target :=
    hin ▸ Pin.pack_parts l.target
  simp only [addTo, ofLink, PinEntry.check_ofPin hsource, PinEntry.check_ofPin htarget]
  simp only [PinEntry.ofPin, hpacked, hpacked', hfree, hlink, bind, Except.bind, pure, Except.pure]

/-- No link of a consistent graph is dropped when its links are added in their order. -/
theorem addAll_ofLink {ls : List Link} (h : Graph.Consistent { g with links := g.links ++ ls })
    (hids : ∀ n ∈ g.nodes, n.id.isValid = true) :
    addAll g (ls.map ofLink) = { graph := { g with links := g.links ++ ls } } := by
  induction ls generalizing g with
  | nil =>
      rw [List.append_nil]
      rfl
  | cons l rest ih =>
      have hassoc : g.links ++ l :: rest = g.links ++ [l] ++ rest := by
        rw [List.append_assoc, List.singleton_append]
      rw [hassoc] at h ⊢
      have hfirst : Graph.Consistent { g with links := g.links ++ [l] } :=
        h.fewerLinks (List.sublist_append_left _ _)
      rw [List.map_cons, addAll, addTo_ofLink hfirst hids]
      exact ih h hids

end LinkEntry

/-! ## Nodes from entries -/

theorem exists_mem_of_forall₂ {α β : Type} {R : α → β → Prop} {l : List α} {l' : List β}
    (h : List.Forall₂ R l l') {x : α} (hx : x ∈ l) : ∃ y ∈ l', R x y := by
  induction h with
  | nil => cases hx
  | @cons a b _ _ hab _ ih =>
      rcases List.mem_cons.mp hx with rfl | hx
      · exact ⟨b, List.mem_cons_self, hab⟩
      · obtain ⟨y, hy, hxy⟩ := ih hx
        exact ⟨y, List.mem_cons_of_mem _ hy, hxy⟩

/-- The entry describes the node. -/
def NodeEntry.Describes (r : Registry) (entry : NodeEntry) (n : Numbered Node) : Prop :=
  entry.id = n.id ∧ ∃ e, entry.toNode r = .ok e ∧ n.node = .expression e

theorem Graph.restore_of_new {g : ShaderGraph} {id : NodeId} (hvalid : id.isValid = true)
    (hnew : g.contains id = false) (node : Node) :
    g.restore id node = .ok { g.insert id node with lastId := max g.lastId id } := by
  simp only [Graph.restore, hvalid, hnew, Bool.not_true, Bool.false_eq_true, if_false]

/-- Nodes under free numbers are restored one behind the other. -/
theorem NodeEntry.restoreAll_eq_ok {r : Registry} {entries : List NodeEntry}
    {nodes : List (Numbered Node)} (hnodes : List.Forall₂ (NodeEntry.Describes r) entries nodes)
    {g : ShaderGraph} (h : g.Consistent) (hvalid : ∀ n ∈ nodes, n.id.isValid = true)
    (hnew : (g.ids ++ nodes.map Numbered.id).Nodup) :
    ∃ g', entries.foldlM (NodeEntry.restoreInto r) g = .ok g' ∧ g'.Consistent ∧
      g'.nodes = g.nodes ++ nodes ∧ g'.links = g.links := by
  induction hnodes generalizing g with
  | nil => exact ⟨g, rfl, h, (List.append_nil _).symm, rfl⟩
  | @cons entry n entries nodes hn _ ih =>
      obtain ⟨hid, e, he, hnode⟩ := hn
      have hfree : g.contains n.id = false := by
        refine Bool.eq_false_iff.mpr fun hcontains => ?_
        have hmem := h.indexed.contains_iff.mp hcontains
        exact (List.nodup_append.mp hnew).2.2 n.id hmem n.id (by simp) rfl
      have hrestore := Graph.restore_of_new (hvalid n (by simp)) hfree n.node
      have hinto : entry.restoreInto r g =
          .ok { g.insert n.id n.node with lastId := max g.lastId n.id } := by
        simp only [NodeEntry.restoreInto, he, bind, Except.bind, hid, ← hnode, hrestore]
        rfl
      obtain ⟨g', hfold, hconsistent, hnodes', hlinks'⟩ := ih (h.restore hrestore)
        (fun m hm => hvalid m (List.mem_cons_of_mem _ hm)) (by
          rw [Graph.ids, Graph.insert, List.map_append, List.append_assoc]
          exact hnew)
      refine ⟨g', ?_, hconsistent, ?_, hlinks'⟩
      · rw [List.foldlM_cons, hinto]
        exact hfold
      · rw [hnodes', Graph.insert, List.append_assoc, List.singleton_append]

/-- A document of the current version with an identity, whose nodes can be restored, becomes a
graph. -/
theorem Document.toGraph_of_restored {r : Registry} {d : Document} {u : Uuid} {g : ShaderGraph}
    (hversion : d.version = currentVersion) (hid : Uuid.read d.id = .ok u)
    (hnodes : d.sortedNodes.foldlM (NodeEntry.restoreInto r) Graph.empty = .ok g) :
    d.toGraph r = .ok (LinkEntry.addAll g d.linkList) := by
  have hcurrent : ¬ (d.version < 1 ∨ currentVersion < d.version) := by
    simp only [hversion, currentVersion]
    omega
  unfold sortedNodes at hnodes
  simp only [toGraph, hcurrent, if_false, hid, hnodes, bind, Except.bind, pure, Except.pure]

end NodeShader
