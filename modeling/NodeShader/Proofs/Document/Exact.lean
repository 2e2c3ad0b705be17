import NodeShader.Proofs.Document.Rebuilt
import NodeShader.Proofs.Node.Fields

/-!
# What a document becomes

Decoding restores nodes and then offers links, one after the other, to a graph that changes on the
way. Read from outside it is a filter. A document can be read (`Document.IsReadable`) or it cannot,
whatever its links are. The graph has the nodes its entries make (`NodeEntry.Makes`), by number, and of
the links those that are legal on their own (`Document.isLegal`) and the first of their kind into
their target (`Document.keeps`).

* `NodeEntry.describes_iff`, `NodeEntry.exists_makes_iff`: when an entry is a node, and which.
* `Document.hasPin_iff`: pins of the document are pins of the graph, packed into words.
* `LinkEntry.addTo_eq_ok_iff`, `Document.Offered.addAll`: one link, and the list of links.
* `Document.toGraph_spec`: which documents become graphs, and which graphs they become.
-/

namespace NodeShader

variable {r : Registry}

/-! ## Nodes -/

/-- The second kind is the first with the fields of an entry, if it has any. -/
def Kind.Takes (k : Kind) (fields : Option Record) (k' : Kind) : Prop :=
  match fields with
  | none => k' = k
  | some fields => k.load fields = .ok k'

/-- The pins of the nodes of an archetype. -/
def Archetype.pinCount (a : Archetype) : PinCount := ⟨a.inputs.length, a.outputs.length⟩

namespace NodeEntry

/-- The node of an entry: an instance of the archetype that the entry names, with the fields of the
entry, at its position. -/
def Makes (r : Registry) (entry : NodeEntry) (n : Numbered Node) : Prop :=
  n.id = entry.id ∧ ∃ handle registration k, r.get? handle = some registration ∧
    registration.archetype.id = entry.type ∧ registration.initial.Takes entry.fields k ∧
    n.node = .expression
      { handle, kind := k, pins := registration.archetype.pinCount, position := entry.position }

/-- The entry has a number that fits into pins, a registered type, and fields that nodes of this type
can have. -/
structure IsReadable (r : Registry) (entry : NodeEntry) : Prop where
  id : entry.id ≠ 0 ∧ entry.id ≤ NodeId.greatest
  type : ∃ registration ∈ r.entries, registration.archetype.id = entry.type
  fields : ∀ registration ∈ r.entries, registration.archetype.id = entry.type →
    ∃ k, registration.initial.Takes entry.fields k

end NodeEntry

/-- A new node by an identifier is an instance of the archetype that has it. -/
theorem Registry.create_eq_ok {id : String} {e : Expression} (h : r.create id = .ok e) :
    ∃ handle registration, r.get? handle = some registration ∧ registration.archetype.id = id ∧
      e = { handle, kind := registration.initial, pins := registration.archetype.pinCount } := by
  unfold Registry.create at h
  split at h
  · rename_i e' hsome
    cases h
    obtain ⟨handle, hlookup, hinst⟩ := Option.bind_eq_some_iff.mp hsome
    obtain ⟨registration, hget, hid⟩ := get?_of_lookup? hlookup
    rw [instantiate?, hget, Option.map_some, Option.some.injEq] at hinst
    exact ⟨handle, registration, hget, hid, hinst.symm⟩
  · exact absurd h (by simp)

namespace NodeEntry

/-- What an entry becomes. -/
theorem toNode_eq_ok_iff (hr : r.Reachable) {entry : NodeEntry} {e : Expression} :
    entry.toNode r = .ok e ↔ entry.id ≤ NodeId.greatest ∧ ∃ handle registration k,
      r.get? handle = some registration ∧ registration.archetype.id = entry.type ∧
      registration.initial.Takes entry.fields k ∧
      e = { handle, kind := k, pins := registration.archetype.pinCount,
            position := entry.position } := by
  constructor
  · intro h
    unfold toNode at h
    split at h
    · exact absurd h (by simp)
    · rename_i hid
      refine ⟨UInt32.not_lt.mp hid, ?_⟩
      split at h
      · exact absurd h (by simp)
      · rename_i created hcreate
        obtain ⟨handle, registration, hget, htype, rfl⟩ := Registry.create_eq_ok hcreate
        split at h
        · rename_i hfields
          cases h
          exact ⟨handle, registration, _, hget, htype, by rw [hfields]; rfl, rfl⟩
        · rename_i fields hfields
          split at h
          · rename_i loaded hload
            cases h
            simp only [Expression.load, bind, Except.bind] at hload
            split at hload
            · exact absurd hload (by simp)
            · rename_i k hk
              cases hload
              exact ⟨handle, registration, k, hget, htype, by rw [hfields]; exact hk, rfl⟩
          · exact absurd h (by simp)
  · rintro ⟨hid, handle, registration, k, hget, htype, htakes, rfl⟩
    rw [toNode, if_neg (UInt32.not_lt.mpr hid), ← htype, hr.create_id hget]
    cases hfields : entry.fields with
    | none =>
        rw [hfields] at htakes
        rw [show k = registration.initial from htakes]
        rfl
    | some fields =>
        rw [hfields] at htakes
        have hload : registration.initial.load fields = .ok k := htakes
        simp only [Expression.load, hload, bind, Except.bind, pure, Except.pure]
        rfl

theorem describes_iff (hr : r.Reachable) {entry : NodeEntry} {n : Numbered Node} :
    entry.Describes r n ↔ entry.id ≤ NodeId.greatest ∧ entry.Makes r n := by
  constructor
  · rintro ⟨hid, e, he, hnode⟩
    obtain ⟨hle, handle, registration, k, hget, htype, htakes, rfl⟩ := (toNode_eq_ok_iff hr).mp he
    exact ⟨hle, hid.symm, handle, registration, k, hget, htype, htakes, hnode⟩
  · rintro ⟨hle, hid, handle, registration, k, hget, htype, htakes, hnode⟩
    exact ⟨hid.symm, _, (toNode_eq_ok_iff hr).mpr
      ⟨hle, handle, registration, k, hget, htype, htakes, rfl⟩, hnode⟩

/-- An entry with a proper number makes a node when it can be read. -/
theorem exists_makes_iff (hr : r.Reachable) {entry : NodeEntry} :
    NodeId.isValid entry.id = true ∧ (∃ n, entry.Makes r n) ↔ entry.IsReadable r := by
  rw [NodeId.isValid_iff]
  constructor
  · rintro ⟨hid, n, -, handle, registration, k, hget, htype, htakes, -⟩
    have hmem := List.mem_of_getElem? hget
    refine ⟨hid, ⟨registration, hmem, htype⟩, fun other hother hsame => ?_⟩
    have heq : other = registration :=
      List.inj_on_of_nodup_map hr.distinct hother hmem (hsame.trans htype.symm)
    exact ⟨k, heq ▸ htakes⟩
  · intro h
    obtain ⟨registration, hmem, htype⟩ := h.type
    obtain ⟨handle, hget⟩ := List.getElem?_of_mem hmem
    obtain ⟨k, hk⟩ := h.fields registration hmem htype
    exact ⟨h.id, ⟨entry.id, _⟩, rfl, handle, registration, k, hget, htype, hk, rfl⟩

/-- Entries that are restored describe the nodes that come behind the others, under proper numbers. -/
theorem describes_of_restoreAll {entries : List NodeEntry} {g g' : ShaderGraph}
    (h : entries.foldlM (NodeEntry.restoreInto r) g = .ok g') :
    ∃ nodes, List.Forall₂ (Describes r) entries nodes ∧ g'.nodes = g.nodes ++ nodes ∧
      g'.links = g.links ∧ ∀ n ∈ nodes, n.id.isValid = true := by
  induction entries generalizing g with
  | nil =>
      cases h
      exact ⟨[], .nil, (List.append_nil _).symm, rfl, by simp⟩
  | cons entry rest ih =>
      rw [List.foldlM_cons] at h
      cases hn : entry.restoreInto r g with
      | error cause => simp [hn, bind, Except.bind] at h
      | ok g₁ =>
          simp only [hn, bind, Except.bind] at h
          obtain ⟨e, he, hrestore⟩ := restoreInto_eq_ok hn
          obtain ⟨hvalid, -, rfl⟩ := Graph.restore_eq_ok hrestore
          obtain ⟨nodes, hnodes, hg', hlinks, hids⟩ := ih h
          refine ⟨⟨entry.id, .expression e⟩ :: nodes, .cons ⟨rfl, e, he, rfl⟩ hnodes, ?_, hlinks,
            List.forall_mem_cons.mpr ⟨hvalid, hids⟩⟩
          rw [hg', Graph.insert, List.append_assoc, List.singleton_append]

/-- The archetype that an entry names. -/
def archetype? (r : Registry) (entry : NodeEntry) : Option Archetype :=
  (r.lookup? entry.type).bind r.archetype?

theorem Makes.exists_archetype (hr : r.Reachable) {entry : NodeEntry} {n : Numbered Node}
    (h : entry.Makes r n) : ∃ a, entry.archetype? r = some a ∧ a.inputs.length ≤ Registry.pinLimit ∧
      a.outputs.length ≤ Registry.pinLimit ∧ CountsPins.pinCount? n.node = some a.pinCount := by
  obtain ⟨-, handle, registration, k, hget, htype, -, hnode⟩ := h
  have hfits := hr.fits (List.mem_of_getElem? hget)
  refine ⟨registration.archetype, ?_, hfits.1, hfits.2, by rw [hnode]; rfl⟩
  rw [archetype?, ← htype, hr.lookup?_id hget, Option.bind_some, Registry.archetype?_of_get? hget]

end NodeEntry

/-! ## Links that are legal on their own -/

namespace PinEntry

/-- The pin of an entry on one side of its node. -/
def pin (p : PinEntry) (dir : Direction) : Pin := .pack p.node p.index dir

variable {p q : PinEntry}

theorem check_eq_ok_iff :
    p.check = .ok () ↔ (0 ≤ p.index ∧ p.index ≤ Pin.greatestIndex) ∧ p.node ≤ NodeId.greatest := by
  unfold check
  by_cases hindex : p.index < 0 ∨ (Pin.greatestIndex : Int) < p.index
  · rw [if_pos hindex]
    exact iff_of_false (by simp) fun h => by omega
  · rw [if_neg hindex]
    by_cases hnode : NodeId.greatest < p.node
    · rw [if_pos hnode]
      exact iff_of_false (by simp) fun h => absurd h.2 (UInt32.not_le.mpr hnode)
    · rw [if_neg hnode]
      exact iff_of_true rfl ⟨by omega, UInt32.not_lt.mp hnode⟩

/-- What can name a pin is packed without loss. -/
theorem parts_pin (h : p.check = .ok ()) (dir : Direction) :
    (p.pin dir).node = p.node ∧ (p.pin dir).index = p.index ∧ (p.pin dir).direction = dir := by
  obtain ⟨⟨hnonneg, hle⟩, hnode⟩ := check_eq_ok_iff.mp h
  have hindex : p.index = (p.index.toNat : Int) := (Int.toNat_of_nonneg hnonneg).symm
  have hsmall : p.index.toNat ≤ Pin.greatestIndex := by omega
  have hpin : p.pin dir = .pack p.node (p.index.toNat : Int) dir := by rw [pin, ← hindex]
  rw [hpin]
  exact ⟨Pin.node_pack _ dir hnode, (Pin.index_pack dir hnode hsmall).trans hindex.symm,
    Pin.direction_pack dir hnode hsmall⟩

theorem pin_inj (hp : p.check = .ok ()) (hq : q.check = .ok ()) {dir : Direction}
    (h : p.pin dir = q.pin dir) : p = q := by
  obtain ⟨hpn, hpi, -⟩ := parts_pin hp dir
  obtain ⟨hqn, hqi, -⟩ := parts_pin hq dir
  have hnode : p.node = q.node := by rw [← hpn, ← hqn, h]
  have hindex : p.index = q.index := by rw [← hpi, ← hqi, h]
  cases p
  cases q
  simp_all

end PinEntry

/-- The link of an entry. -/
def LinkEntry.link (l : LinkEntry) : Link := .pack (l.source.pin .output) (l.target.pin .input)

theorem LinkEntry.target_link (l : LinkEntry) : l.link.target = l.target.pin .input :=
  Link.target_pack _ _

namespace Document

/-- Does the entry name a pin on one side of a node of the document? -/
def hasPin (r : Registry) (d : Document) (dir : Direction) (p : PinEntry) : Bool :=
  d.nodeList.any fun entry => entry.id = p.node &&
    (entry.archetype? r).any fun a => 0 ≤ p.index && p.index < (a.pinCount.on dir : Int)

/-- Does the link lead from an output to an input of different nodes of the document? -/
def isLegal (r : Registry) (d : Document) (l : LinkEntry) : Bool :=
  d.hasPin r .output l.source && d.hasPin r .input l.target && l.source.node ≠ l.target.node

/-- Is the link legal, and is no legal link into its target among those before it? -/
def keeps (r : Registry) (d : Document) (before : List LinkEntry) (l : LinkEntry) : Bool :=
  d.isLegal r l && !before.any fun l' => d.isLegal r l' && l'.target = l.target

/-- The links that become links of the graph. -/
def keptLinks (r : Registry) (d : Document) : List LinkEntry :=
  (d.linkList.zipIdx.filter fun l => d.keeps r (d.linkList.take l.2) l.1).map (·.1)

/-- The other links. -/
def droppedLinks (r : Registry) (d : Document) : List LinkEntry :=
  (d.linkList.zipIdx.filter fun l => !d.keeps r (d.linkList.take l.2) l.1).map (·.1)

/-- The graph has the nodes of the document in the order of their numbers. -/
structure IsLaidOut (r : Registry) (d : Document) (g : ShaderGraph) : Prop where
  consistent : g.Consistent
  nodes : List.Forall₂ (NodeEntry.Makes r) d.sortedNodes g.nodes
  ids : ∀ n ∈ g.nodes, n.id.isValid = true

variable {d : Document} {g g' : ShaderGraph}

/-- A pin of the document is a pin of the graph, and it can be packed. -/
theorem hasPin_iff (hr : r.Reachable) (h : d.IsLaidOut r g) {dir : Direction} {p : PinEntry} :
    d.hasPin r dir p = true ↔ p.check = .ok () ∧ g.HasPin dir (p.pin dir) := by
  simp only [hasPin, List.any_eq_true, Bool.and_eq_true, decide_eq_true_eq, Option.any_eq_true]
  constructor
  · rintro ⟨entry, hentry, hid, a, ha, hnonneg, hlt⟩
    obtain ⟨n, hn, hmakes⟩ := exists_mem_of_forall₂ h.nodes (List.mem_mergeSort.mpr hentry)
    obtain ⟨a', ha', hin, hout, hcount⟩ := hmakes.exists_archetype hr
    rw [ha, Option.some.injEq] at ha'
    subst ha'
    have hsmall : p.index ≤ Pin.greatestIndex := by
      have hlimit : Registry.pinLimit = Pin.greatestIndex + 1 := rfl
      cases dir <;> simp only [PinCount.on, Archetype.pinCount] at hlt <;> omega
    have hnode : p.node ≤ NodeId.greatest := by
      rw [← hid, ← hmakes.1]
      exact NodeId.le_of_isValid (h.ids n hn)
    have hcheck := PinEntry.check_eq_ok_iff.mpr ⟨⟨hnonneg, hsmall⟩, hnode⟩
    obtain ⟨hpnode, hpindex, hpdir⟩ := PinEntry.parts_pin hcheck dir
    refine ⟨hcheck, hpdir, by omega, n, hn, ?_, fun count hcount' => ?_⟩
    · rw [hpnode, ← hid, hmakes.1]
    · rw [hcount, Option.some.injEq] at hcount'
      rw [hpindex, ← hcount']
      exact hlt
  · rintro ⟨hcheck, -, -, n, hn, hnid, hbound⟩
    obtain ⟨hpnode, hpindex, -⟩ := PinEntry.parts_pin hcheck dir
    obtain ⟨entry, hentry, hmakes⟩ := exists_mem_of_forall₂ (List.Forall₂.flip h.nodes) hn
    obtain ⟨a, ha, -, -, hcount⟩ := NodeEntry.Makes.exists_archetype hr hmakes
    refine ⟨entry, List.mem_mergeSort.mp hentry, ?_, a, ha,
      (PinEntry.check_eq_ok_iff.mp hcheck).1.1, hpindex ▸ hbound _ hcount⟩
    rw [← hmakes.1, hnid, hpnode]

theorem isLegal_iff (hr : r.Reachable) (h : d.IsLaidOut r g) {l : LinkEntry} :
    d.isLegal r l = true ↔ (l.source.check = .ok () ∧ l.target.check = .ok ()) ∧
      g.HasPin .output (l.source.pin .output) ∧ g.HasPin .input (l.target.pin .input) ∧
      (l.source.pin .output).node ≠ (l.target.pin .input).node := by
  simp only [isLegal, Bool.and_eq_true, decide_eq_true_eq, hasPin_iff hr h]
  constructor
  · rintro ⟨⟨⟨hs, hsource⟩, ht, htarget⟩, hapart⟩
    refine ⟨⟨hs, ht⟩, hsource, htarget, ?_⟩
    rw [(PinEntry.parts_pin hs _).1, (PinEntry.parts_pin ht _).1]
    exact hapart
  · rintro ⟨⟨hs, ht⟩, hsource, htarget, hapart⟩
    rw [(PinEntry.parts_pin hs _).1, (PinEntry.parts_pin ht _).1] at hapart
    exact ⟨⟨⟨hs, hsource⟩, ht, htarget⟩, hapart⟩

/-- A link is added when it is legal and its target is free. -/
theorem addTo_eq_ok_iff (hr : r.Reachable) (h : d.IsLaidOut r g) {l : LinkEntry} :
    l.addTo g = .ok g' ↔ d.isLegal r l = true ∧ g.linkInto? (l.target.pin .input) = none ∧
      g' = { g with links := LinkList.insert l.link g.links } := by
  rw [isLegal_iff hr h]
  constructor
  · intro hadd
    obtain ⟨hs, ht, hfree, link, hlink⟩ := LinkEntry.addTo_eq_ok hadd
    change g.linkInto? (l.target.pin .input) = none at hfree
    change g.link (l.source.pin .output) (l.target.pin .input) = .ok (link, g') at hlink
    have hout : (l.source.pin .output).isInput = false :=
      Pin.isInput_eq_false.mpr (PinEntry.parts_pin hs .output).2.2
    have hends := h.consistent.ends_of_canLink (Graph.link_eq_ok hlink).1
    simp only [Link.source_between, Link.target_between, hout, Bool.false_eq_true, if_false] at hends
    have hgraph := h.consistent.link_of_free h.ids hends.1 hends.2.1 hends.2.2 hfree
    rw [hgraph, Except.ok.injEq, Prod.mk.injEq] at hlink
    exact ⟨⟨⟨hs, ht⟩, hends⟩, hfree, hlink.2.symm⟩
  · rintro ⟨⟨⟨hs, ht⟩, hsource, htarget, hapart⟩, hfree, rfl⟩
    have hgraph := h.consistent.link_of_free h.ids hsource htarget hapart hfree
    simp only [PinEntry.pin] at hfree hgraph
    simp only [LinkEntry.addTo, hs, ht, hfree, hgraph, bind, Except.bind, pure, Except.pure]
    rfl

/-! ## Links in turn -/

/-- The graph after some links of the document were offered to it: an input is taken when a legal link
into it was among them. -/
structure Offered (r : Registry) (d : Document) (before : List LinkEntry) (g : ShaderGraph) : Prop
    extends d.IsLaidOut r g where
  taken : ∀ l : LinkEntry, d.isLegal r l = true →
    ((∃ old, g.linkInto? (l.target.pin .input) = some old) ↔
      ∃ l' ∈ before, d.isLegal r l' = true ∧ l'.target = l.target)

variable {before : List LinkEntry} {l : LinkEntry}

/-- The link that is offered next is added when it is kept. -/
theorem Offered.addTo_iff (hr : r.Reachable) (h : d.Offered r before g) :
    l.addTo g = .ok g' ↔ d.keeps r before l = true ∧
      g' = { g with links := LinkList.insert l.link g.links } := by
  rw [addTo_eq_ok_iff hr h.toIsLaidOut, ← and_assoc, keeps, Bool.and_eq_true, Bool.not_eq_true',
    List.any_eq_false]
  refine and_congr_left fun _ => and_congr_right fun hlegal => ?_
  have htaken := h.taken l hlegal
  simp only [Bool.and_eq_true, decide_eq_true_eq]
  constructor
  · intro hfree l' hl' hsame
    obtain ⟨old, hold⟩ := htaken.mpr ⟨l', hl', hsame⟩
    rw [hfree] at hold
    exact absurd hold (by simp)
  · intro hnone
    cases hinto : g.linkInto? (l.target.pin .input) with
    | none => rfl
    | some old =>
        obtain ⟨l', hl', hsame⟩ := htaken.mp ⟨old, hinto⟩
        exact absurd hsame (hnone l' hl')

/-- A link that was added takes its target. -/
theorem Offered.added (hr : r.Reachable) (h : d.Offered r before g) (hadd : l.addTo g = .ok g') :
    d.Offered r (before ++ [l]) g' := by
  obtain ⟨hlegal, hfree, rfl⟩ := (addTo_eq_ok_iff hr h.toIsLaidOut).mp hadd
  obtain ⟨⟨hs, ht⟩, hsource, htarget, hapart⟩ := (isLegal_iff hr h.toIsLaidOut).mp hlegal
  have hlink : g.link (l.source.pin .output) (l.target.pin .input) =
      .ok (l.link, { g with links := LinkList.insert l.link g.links }) :=
    h.consistent.link_of_free h.ids hsource htarget hapart hfree
  have hlinks := (h.consistent.links_link hlink).2
  have hconsistent := h.consistent.link hlink
  refine ⟨⟨hconsistent, h.nodes, h.ids⟩, fun other hother => ?_⟩
  obtain ⟨-, hot⟩ := ((isLegal_iff hr h.toIsLaidOut).mp hother).1
  have hold := h.taken other hother
  simp only [h.consistent.linkInto?_eq_some_iff] at hold
  simp only [hconsistent.linkInto?_eq_some_iff, List.mem_append, List.mem_singleton]
  constructor
  · rintro ⟨x, hx, hxtarget⟩
    rcases (hlinks x).mp hx with rfl | ⟨hx, -⟩
    · rw [l.target_link] at hxtarget
      exact ⟨l, .inr rfl, hlegal, PinEntry.pin_inj ht hot hxtarget⟩
    · obtain ⟨l', hl', hsame⟩ := hold.mp ⟨x, hx, hxtarget⟩
      exact ⟨l', .inl hl', hsame⟩
  · rintro ⟨l', hl' | rfl, hl'legal, hsame⟩
    · obtain ⟨x, hx, hxtarget⟩ := hold.mpr ⟨l', hl', hl'legal, hsame⟩
      by_cases hx' : x.target = l.target.pin .input
      · exact ⟨_, (hlinks _).mpr (.inl rfl), by rw [l.target_link, ← hxtarget, hx']⟩
      · exact ⟨x, (hlinks x).mpr (.inr ⟨hx, by rwa [l.target_link]⟩), hxtarget⟩
    · exact ⟨_, (hlinks _).mpr (.inl rfl), by rw [LinkEntry.target_link, hsame]⟩

/-- A link that was refused changes nothing: it is illegal, or its target was taken before. -/
theorem Offered.refused (h : d.Offered r before g) (hkeeps : d.keeps r before l = false) :
    d.Offered r (before ++ [l]) g := by
  refine ⟨h.toIsLaidOut, fun other hother => (h.taken other hother).trans ?_⟩
  constructor
  · rintro ⟨l', hl', hsame⟩
    exact ⟨l', List.mem_append_left _ hl', hsame⟩
  · rintro ⟨l', hl', hlegal, hsame⟩
    rcases List.mem_append.mp hl' with hl' | hl'
    · exact ⟨l', hl', hlegal, hsame⟩
    · rw [List.mem_singleton] at hl'
      subst hl'
      rw [keeps, hlegal, Bool.true_and, Bool.not_eq_false', List.any_eq_true] at hkeeps
      obtain ⟨first, hfirst, hboth⟩ := hkeeps
      simp only [Bool.and_eq_true, decide_eq_true_eq] at hboth
      exact ⟨first, hfirst, hboth.1, hboth.2.trans hsame⟩

theorem perm_insert (l : Link) (ls : List Link) : (LinkList.insert l ls).Perm (l :: ls) := by
  have hcut := LinkList.below_append_atLeast l ls
  calc (LinkList.insert l ls).Perm (l :: (LinkList.below l ls ++ LinkList.atLeast l ls)) :=
        List.perm_middle
    _ = l :: ls := by rw [hcut]

/-- Of the links that are still to be offered, those that are kept join the links of the graph, and
the others are dropped in their order. -/
theorem Offered.addAll (hr : r.Reachable) {rest : List LinkEntry}
    (hlist : d.linkList = before ++ rest) (h : d.Offered r before g) :
    (LinkEntry.addAll g rest).graph.links.Perm
        (g.links ++ ((rest.zipIdx before.length).filter fun l =>
          d.keeps r (d.linkList.take l.2) l.1).map fun l => l.1.link) ∧
      (LinkEntry.addAll g rest).dropped.map DroppedLink.link =
        ((rest.zipIdx before.length).filter fun l =>
          !d.keeps r (d.linkList.take l.2) l.1).map (·.1) := by
  induction rest generalizing before g with
  | nil => exact ⟨by simp [LinkEntry.addAll], by simp [LinkEntry.addAll]⟩
  | cons l rest ih =>
      have hbefore : d.linkList.take before.length = before := by
        rw [hlist, List.take_left]
      have hnext : d.linkList = (before ++ [l]) ++ rest := by simp [hlist]
      have hlength : (before ++ [l]).length = before.length + 1 := by simp
      rw [LinkEntry.addAll, List.zipIdx_cons, List.filter_cons, List.filter_cons, hbefore]
      cases hadd : l.addTo g with
      | ok g₁ =>
          obtain ⟨hkeeps, hg₁⟩ := (h.addTo_iff hr).mp hadd
          obtain ⟨hlinks, hdropped⟩ := ih hnext (h.added hr hadd)
          rw [hlength] at hlinks hdropped
          simp only [hkeeps, if_true, Bool.not_true, Bool.false_eq_true, if_false]
          refine ⟨hlinks.trans ?_, hdropped⟩
          rw [hg₁, List.map_cons]
          exact ((perm_insert _ _).append_right _).trans List.perm_middle.symm
      | error reason =>
          have hkeeps : d.keeps r before l = false := by
            refine Bool.eq_false_iff.mpr fun hkeeps => ?_
            rw [(h.addTo_iff hr).mpr ⟨hkeeps, rfl⟩] at hadd
            exact absurd hadd (by simp)
          obtain ⟨hlinks, hdropped⟩ := ih hnext (h.refused hkeeps)
          rw [hlength] at hlinks hdropped
          simp only [hkeeps, Bool.false_eq_true, if_false, Bool.not_false, if_true]
          exact ⟨hlinks, by rw [List.map_cons, List.map_cons, hdropped]⟩

/-! ## Documents -/

/-- The document is of the current version, has an identity, and its entries can be read and have
numbers of their own. Nothing is asked of its links. -/
structure IsReadable (r : Registry) (d : Document) : Prop where
  version : d.version = currentVersion
  identity : ∃ u, Uuid.read d.id = .ok u
  entries : ∀ entry ∈ d.nodeList, entry.IsReadable r
  distinct : (d.nodeList.map NodeEntry.id).Nodup

theorem isLaidOut_of_restored (hr : r.Reachable)
    (h : d.sortedNodes.foldlM (NodeEntry.restoreInto r) Graph.empty = .ok g) :
    d.IsLaidOut r g ∧ g.links = [] := by
  have hconsistent : g.Consistent := by
    refine NodeEntry.restoreAll_invariant (fun n _ g g' hg hn => ?_) Graph.consistent_empty h
    obtain ⟨e, -, hrestore⟩ := NodeEntry.restoreInto_eq_ok hn
    exact hg.restore hrestore
  obtain ⟨nodes, hnodes, hg, hlinks, hids⟩ := NodeEntry.describes_of_restoreAll h
  have hall : g.nodes = nodes := hg
  refine ⟨⟨hconsistent, ?_, hall ▸ hids⟩, hlinks⟩
  rw [hall]
  exact hnodes.imp fun entry n hn => ((NodeEntry.describes_iff hr).mp hn).2

theorem exists_forall₂ {α β : Type} {R : α → β → Prop} {l : List α} (h : ∀ x ∈ l, ∃ y, R x y) :
    ∃ l', List.Forall₂ R l l' := by
  induction l with
  | nil => exact ⟨[], .nil⟩
  | cons x rest ih =>
      obtain ⟨hx, hrest⟩ := List.forall_mem_cons.mp h
      obtain ⟨y, hy⟩ := hx
      obtain ⟨l', hl'⟩ := ih hrest
      exact ⟨y :: l', .cons hy hl'⟩

theorem exists_restored_iff (hr : r.Reachable) :
    (∃ g, d.sortedNodes.foldlM (NodeEntry.restoreInto r) Graph.empty = .ok g) ↔
      (∀ entry ∈ d.nodeList, entry.IsReadable r) ∧ (d.nodeList.map NodeEntry.id).Nodup := by
  have hperm : d.sortedNodes.Perm d.nodeList := List.mergeSort_perm _ _
  constructor
  · rintro ⟨g, hg⟩
    obtain ⟨hlaid, -⟩ := isLaidOut_of_restored hr hg
    constructor
    · intro entry hentry
      obtain ⟨n, hn, hmakes⟩ := exists_mem_of_forall₂ hlaid.nodes (hperm.mem_iff.mpr hentry)
      have hvalid := hlaid.ids n hn
      rw [hmakes.1] at hvalid
      exact (NodeEntry.exists_makes_iff hr).mp ⟨hvalid, n, hmakes⟩
    · have hids : g.ids = d.sortedNodes.map NodeEntry.id := NodeEntry.ids_restoreAll hg
      have hdistinct := hlaid.consistent.distinct
      rw [hids] at hdistinct
      exact (hperm.map NodeEntry.id).nodup_iff.mp hdistinct
  · rintro ⟨hreadable, hdistinct⟩
    have hdescribed : ∀ entry ∈ d.sortedNodes, ∃ n, entry.Describes r n := by
      intro entry hentry
      obtain ⟨hvalid, n, hmakes⟩ :=
        (NodeEntry.exists_makes_iff hr).mpr (hreadable entry (hperm.mem_iff.mp hentry))
      exact ⟨n, (NodeEntry.describes_iff hr).mpr ⟨NodeId.le_of_isValid hvalid, hmakes⟩⟩
    obtain ⟨nodes, hnodes⟩ := exists_forall₂ hdescribed
    have hids : d.sortedNodes.map NodeEntry.id = nodes.map Numbered.id :=
      map_eq_of_forall₂ (fun _ _ hn => hn.1) hnodes
    have hvalid : ∀ n ∈ nodes, n.id.isValid = true := by
      intro n hn
      obtain ⟨entry, hentry, hdescribes⟩ := exists_mem_of_forall₂ (List.Forall₂.flip hnodes) hn
      rw [← hdescribes.1]
      exact NodeId.isValid_iff.mpr (hreadable entry (hperm.mem_iff.mp hentry)).id
    have hnew : ((Graph.empty : ShaderGraph).ids ++ nodes.map Numbered.id).Nodup := by
      rw [← hids]
      exact (hperm.map NodeEntry.id).nodup_iff.mpr hdistinct
    obtain ⟨g, hg, -⟩ := NodeEntry.restoreAll_eq_ok hnodes Graph.consistent_empty hvalid hnew
    exact ⟨g, hg⟩

/-- Entries with numbers of their own are in one order after sorting, whatever it was before. -/
theorem sortedNodes_of_perm (hdistinct : (d.nodeList.map NodeEntry.id).Nodup)
    {entries : List NodeEntry} (hperm : entries.Perm d.nodeList) :
    ({ d with nodes := some entries } : Document).sortedNodes = d.sortedNodes := by
  have hfirst : ({ d with nodes := some entries } : Document).sortedNodes.Perm d.nodeList :=
    (List.mergeSort_perm _ _).trans hperm
  have hsecond : d.sortedNodes.Perm d.nodeList := List.mergeSort_perm _ _
  refine List.Perm.eq_of_pairwise (fun a b ha hb hab hba => ?_) (pairwise_sortedNodes _)
    d.pairwise_sortedNodes (hfirst.trans hsecond.symm)
  exact List.inj_on_of_nodup_map hdistinct (hfirst.mem_iff.mp ha) (hsecond.mem_iff.mp hb)
    (UInt32.le_antisymm hab hba)

/-- Which documents become graphs, and which graphs they become: the nodes of the entries in the order
of their numbers, and the links that are legal and the first into their target; the others are
reported in the order of the document. The order of the entries does not matter. -/
theorem toGraph_spec (hr : r.Reachable) (d : Document) :
    ((∃ decoded, d.toGraph r = .ok decoded) ↔ d.IsReadable r) ∧
    ∀ decoded, d.toGraph r = .ok decoded →
      decoded.graph.Consistent ∧ decoded.graph.ids.Pairwise (· < ·) ∧
      (∃ entries, entries.Perm d.nodeList ∧
        List.Forall₂ (NodeEntry.Makes r) entries decoded.graph.nodes) ∧
      decoded.graph.links.Perm ((d.keptLinks r).map LinkEntry.link) ∧
      decoded.dropped.map DroppedLink.link = d.droppedLinks r ∧
      ∀ entries, entries.Perm d.nodeList →
        Document.toGraph { d with nodes := some entries } r = .ok decoded := by
  constructor
  · constructor
    · rintro ⟨decoded, hdecoded⟩
      obtain ⟨hversion, hid, g, hg, -⟩ := toGraph_eq_ok hdecoded
      obtain ⟨hentries, hdistinct⟩ := (exists_restored_iff hr).mp ⟨g, hg⟩
      exact ⟨hversion, hid, hentries, hdistinct⟩
    · intro h
      obtain ⟨u, hu⟩ := h.identity
      obtain ⟨g, hg⟩ := (exists_restored_iff hr).mpr ⟨h.entries, h.distinct⟩
      exact ⟨_, toGraph_of_restored h.version hu hg⟩
  · intro decoded hdecoded
    obtain ⟨hversion, ⟨u, hu⟩, g, hg, hadded⟩ := toGraph_eq_ok hdecoded
    obtain ⟨hlaid, hlinks⟩ := isLaidOut_of_restored hr hg
    obtain ⟨-, hdistinct⟩ := (exists_restored_iff hr).mp ⟨g, hg⟩
    have hnodes : decoded.graph.nodes = g.nodes := by
      rw [hadded]
      refine LinkEntry.addAll_invariant (I := fun g' => g'.nodes = g.nodes)
        (fun l g₁ g₂ h₁ hl => ?_) _ rfl
      obtain ⟨-, -, -, link, hl⟩ := LinkEntry.addTo_eq_ok hl
      obtain ⟨-, -, rfl⟩ := Graph.link_eq_ok hl
      exact h₁
    have hoffered : d.Offered r [] g := by
      refine ⟨hlaid, fun l _ => ?_⟩
      simp [hlaid.consistent.linkInto?_eq_some_iff, hlinks]
    have hlist : d.linkList = [] ++ d.linkList := rfl
    obtain ⟨hkept, hdropped⟩ := hoffered.addAll hr hlist
    refine ⟨(reachable_toGraph hdecoded).consistent, ascending_toGraph hdecoded,
      ⟨d.sortedNodes, List.mergeSort_perm _ _, hnodes ▸ hlaid.nodes⟩, ?_, ?_, fun entries hperm => ?_⟩
    · rw [hlinks, List.nil_append] at hkept
      rw [hadded, keptLinks, List.map_map]
      exact hkept
    · rw [hadded]
      exact hdropped
    · rw [hadded]
      refine toGraph_of_restored hversion hu ?_
      rw [sortedNodes_of_perm hdistinct hperm]
      exact hg

/-- Nodes in no order, and of six links one that is legal and first. -/
def tangled : Document :=
  { version := 1, id := "6ba7b810-9dad-11d1-80b4-00c04fd430c8"
    nodes := some [⟨5, "out_fragment", {}, none⟩, ⟨3, "vec4", {}, none⟩, ⟨4, "scalar", {}, none⟩]
    links := some [⟨⟨3, 0⟩, ⟨9, 0⟩⟩, ⟨⟨3, -1⟩, ⟨5, 0⟩⟩, ⟨⟨3, 0⟩, ⟨5, 0⟩⟩, ⟨⟨4, 0⟩, ⟨5, 0⟩⟩,
      ⟨⟨5, 0⟩, ⟨5, 0⟩⟩, ⟨⟨3, 128⟩, ⟨5, 0⟩⟩] }

theorem toGraph_spec_tangled : ∃ decoded, tangled.toGraph .builtin = .ok decoded ∧
    decoded.graph.ids.Pairwise (· < ·) ∧
    decoded.graph.links.Perm [(⟨⟨3, 0⟩, ⟨5, 0⟩⟩ : LinkEntry).link] ∧
    decoded.dropped.map DroppedLink.link = [⟨⟨3, 0⟩, ⟨9, 0⟩⟩, ⟨⟨3, -1⟩, ⟨5, 0⟩⟩, ⟨⟨4, 0⟩, ⟨5, 0⟩⟩,
      ⟨⟨5, 0⟩, ⟨5, 0⟩⟩, ⟨⟨3, 128⟩, ⟨5, 0⟩⟩] := by
  have hfields : ∀ entry ∈ tangled.nodeList, entry.fields = none := by decide
  have htypes : ∀ entry ∈ tangled.nodeList,
      ∃ registration ∈ Registry.builtin.entries, registration.archetype.id = entry.type := by
    decide +kernel
  have hids : ∀ entry ∈ tangled.nodeList, entry.id ≠ 0 ∧ entry.id ≤ NodeId.greatest := by decide
  have hreadable : tangled.IsReadable .builtin :=
    { version := rfl
      identity := by
        have hread : (Uuid.read tangled.id).toOption.isSome = true := by decide +kernel
        cases hu : Uuid.read tangled.id with
        | error cause => simp [hu, Except.toOption] at hread
        | ok u => exact ⟨u, rfl⟩
      entries := fun entry h => ⟨hids entry h, htypes entry h, fun registration _ _ =>
        ⟨registration.initial, by rw [hfields entry h]; rfl⟩⟩
      distinct := by decide }
  obtain ⟨hexists, hspec⟩ := toGraph_spec Registry.reachable_builtin tangled
  obtain ⟨decoded, hdecoded⟩ := hexists.mpr hreadable
  obtain ⟨-, hascending, -, hlinks, hdropped, -⟩ := hspec decoded hdecoded
  have hkept : tangled.keptLinks .builtin = [⟨⟨3, 0⟩, ⟨5, 0⟩⟩] := by decide +kernel
  rw [hkept] at hlinks
  exact ⟨decoded, hdecoded, hascending, hlinks, hdropped.trans (by decide +kernel)⟩

end Document

end NodeShader
