import Mathlib.Data.List.InsertIdx
import Mathlib.Data.List.Nodup
import NodeShader.Graph.Basic
import NodeShader.Proofs.Graph.LinkList

/-!
# Graphs that arise by editing

`Graph.Reachable` holds of the graphs that any sequence of edits makes from an empty one: nodes are
added under the next number or restored under their own, removed and changed in place, and pins are
linked and unlinked. An edit that is refused changes nothing and needs no rule. The counter of node
numbers has 32 bits; a history ends before it starts again.

A graph keeps a list of nodes, an index of their numbers, a sorted list of links and the counter.
`Graph.Consistent` says how these belong together: the index lists the nodes, the links are sorted
and lead from outputs to inputs of different nodes that are there, one to each input at most, and no
number is above the counter. There is one lemma for each edit, and so it holds of every reachable
graph.
-/

namespace NodeShader

/-! ## Indexes of lists -/

namespace Index

/-- The index has the positions of the numbers in a list, and no others. -/
def Lists (ix : Index) (ids : List NodeId) : Prop :=
  ∀ id i, ix.position? id = some i ↔ ids[i]? = some id

variable {ix : Index} {ids : List NodeId}

theorem Lists.nodup (h : ix.Lists ids) : ids.Nodup := by
  refine List.nodup_iff_getElem?_ne_getElem?.mpr fun i j hij hj heq => ?_
  have hid : ids[j]? = some ids[j] := List.getElem?_eq_getElem hj
  have hi := (h _ i).mpr (heq.trans hid)
  rw [(h _ j).mpr hid, Option.some.injEq] at hi
  omega

theorem Lists.mem_iff (h : ix.Lists ids) {id : NodeId} :
    (ix.position? id).isSome = true ↔ id ∈ ids := by
  rw [Option.isSome_iff_exists, List.mem_iff_getElem?]
  exact exists_congr fun i => h id i

/-- A new number is entered with the position it gets at the end of the list. -/
theorem Lists.put (h : ix.Lists ids) {id : NodeId} (hnew : id ∉ ids) :
    (ix.put id ids.length).Lists (ids ++ [id]) := by
  intro j i
  rw [position?_put]
  by_cases hj : j = id
  · subst hj
    rw [if_pos rfl, Option.some.injEq]
    constructor
    · rintro rfl
      exact List.getElem?_concat_length
    · intro hi
      rcases Nat.lt_or_ge i ids.length with hlt | hge
      · rw [List.getElem?_append_left hlt] at hi
        exact absurd (List.mem_of_getElem? hi) hnew
      · have := (List.getElem?_eq_some_iff.mp hi).1
        rw [List.length_append, List.length_singleton] at this
        omega
  · rw [if_neg hj, h j i]
    rcases Nat.lt_or_ge i ids.length with hlt | hge
    · rw [List.getElem?_append_left hlt]
    · rw [List.getElem?_eq_none hge, List.getElem?_append_right hge]
      refine iff_of_false (by simp) fun hi => hj ?_
      exact (List.mem_singleton.mp (List.mem_of_getElem? hi))

/-- When a number leaves the list, those behind it are entered anew. -/
theorem Lists.erase (h : ix.Lists ids) {id : NodeId} {i : Nat} (hi : ix.position? id = some i) :
    ((ix.erase id).putFrom i ((ids.eraseIdx i).drop i)).Lists (ids.eraseIdx i) := by
  have hnodup : (ids.eraseIdx i).Nodup := h.nodup.sublist (List.eraseIdx_sublist ids i)
  have hgone : ids[i]? = some id := (h id i).mp hi
  -- what stands before the gap has its old position, what stands behind it comes one earlier
  have hget : ∀ k, (ids.eraseIdx i)[k]? = if k < i then ids[k]? else ids[k + 1]? := fun k =>
    List.getElem?_eraseIdx
  intro j k
  rw [position?_putFrom _ (hnodup.sublist (List.drop_sublist _ _)), position?_erase]
  by_cases hj : j ∈ (ids.eraseIdx i).drop i
  · rw [if_pos hj, Option.some.injEq]
    have hplace : (ids.eraseIdx i)[i + ((ids.eraseIdx i).drop i).idxOf j]? = some j := by
      rw [← List.getElem?_drop]
      exact List.getElem?_idxOf hj
    constructor
    · rintro rfl
      exact hplace
    · intro hk
      have hlt := (List.getElem?_eq_some_iff.mp hplace).1
      exact (List.getElem?_inj hlt hnodup).mp (hplace.trans hk.symm)
  · rw [if_neg hj]
    have hbehind : ∀ k, i ≤ k → (ids.eraseIdx i)[k]? ≠ some j := by
      intro k hk heq
      refine hj (List.mem_of_getElem? (i := k - i) ?_)
      rw [List.getElem?_drop, show i + (k - i) = k by omega]
      exact heq
    rcases Nat.lt_or_ge k i with hlt | hge
    · rw [hget, if_pos hlt]
      by_cases hjid : j = id
      · subst hjid
        rw [if_pos rfl]
        refine iff_of_false (by simp) fun hk => ?_
        have := (h j k).mpr hk
        rw [hi, Option.some.injEq] at this
        omega
      · rw [if_neg hjid, h j k]
    · refine iff_of_false ?_ (hbehind k hge)
      by_cases hjid : j = id
      · rw [if_pos hjid]
        simp
      · rw [if_neg hjid, h j k]
        intro hk
        rcases Nat.lt_or_eq_of_le hge with hlt | rfl
        · refine hbehind (k - 1) (by omega) ?_
          rw [hget, if_neg (by omega), show k - 1 + 1 = k by omega]
          exact hk
        · rw [hgone, Option.some.injEq] at hk
          exact hjid hk.symm

end Index

theorem NodeId.le_max (a b : NodeId) : a ≤ max a b ∧ b ≤ max a b := by
  show a ≤ (if a ≤ b then b else a) ∧ b ≤ (if a ≤ b then b else a)
  split
  · exact ⟨‹_›, UInt32.le_refl _⟩
  · exact ⟨UInt32.le_refl _, UInt32.le_of_lt (UInt32.not_le.mp ‹_›)⟩

theorem LinkList.mem_of_into? {p : Pin} {l : Link} {ls : List Link} (h : into? p ls = some l) :
    l ∈ ls := by
  have hhead : (atLeast (Link.floorOf p) ls).head? = some l := (Option.filter_eq_some_iff.mp h).1
  exact (List.dropWhile_sublist _).subset (List.mem_of_head? hhead)

namespace Graph

variable {α : Type} {g g' : Graph α}

/-! ## Nodes by number -/

/-- The numbers of the nodes. -/
def ids (g : Graph α) : List NodeId := g.nodes.map Numbered.id

/-- The index of the graph has the positions of its nodes, and no others. -/
def Indexed (g : Graph α) : Prop := g.index.Lists g.ids

theorem Indexed.node?_eq_some_iff (h : g.Indexed) {id : NodeId} {n : α} :
    g.node? id = some n ↔ ⟨id, n⟩ ∈ g.nodes := by
  have hpos : ∀ i, g.index.position? id = some i ↔ (g.nodes[i]?).map Numbered.id = some id :=
    fun i => (h id i).trans (by rw [ids, List.getElem?_map])
  rw [node?, Option.bind_eq_some_iff, List.mem_iff_getElem?]
  refine exists_congr fun i => ?_
  rw [hpos i]
  cases hget : g.nodes[i]? with
  | none => simp
  | some m =>
      obtain ⟨mid, mnode⟩ := m
      simp only [Option.map_some, Option.some.injEq, Numbered.mk.injEq]

theorem Indexed.contains_iff (h : g.Indexed) {id : NodeId} : g.contains id = true ↔ id ∈ g.ids :=
  h.mem_iff

/-- Changing a node leaves the numbers as they are. -/
theorem ids_modify (g : Graph α) (id : NodeId) (f : α → α) : (g.modify id f).ids = g.ids := by
  simp only [ids, modify, List.map_map]
  refine List.map_congr_left fun n _ => ?_
  show Numbered.id (if n.id = id then { n with node := f n.node } else n) = n.id
  split <;> rfl

theorem mem_links_of_linkInto? {p : Pin} {l : Link} (h : g.linkInto? p = some l) :
    l ∈ g.links := by
  unfold linkInto? at h
  split at h
  · exact LinkList.mem_of_into? h
  · exact absurd h (by simp)

/-- A node is restored under a number that fits into pins and is free. -/
theorem restore_eq_ok {id : NodeId} {node : α} (hr : g.restore id node = .ok g') :
    id.isValid = true ∧ g.contains id = false ∧
      g' = { g.insert id node with lastId := max g.lastId id } := by
  unfold Graph.restore at hr
  split at hr
  · exact absurd hr (by simp)
  · rename_i hvalid
    split at hr
    · exact absurd hr (by simp)
    · rename_i hnew
      cases hr
      exact ⟨by simpa using hvalid, by simpa using hnew, rfl⟩

/-! ## Links by their targets -/

/-- What the links of a graph are among themselves: sorted, from outputs to inputs, and never two into
one input. It does not depend on the nodes. -/
structure WellLinked (g : Graph α) : Prop where
  sorted : LinkList.Sorted g.links
  single : ∀ l ∈ g.links, ∀ l' ∈ g.links, l.target = l'.target → l = l'
  sources : ∀ l ∈ g.links, l.source.direction = .output
  targets : ∀ l ∈ g.links, l.target.direction = .input

namespace WellLinked

/-- The look-up at a pin finds exactly the link that leads there. -/
theorem linkInto?_eq_some_iff (h : g.WellLinked) {p : Pin} {l : Link} :
    g.linkInto? p = some l ↔ l ∈ g.links ∧ l.target = p := by
  have hinto := LinkList.into?_eq_some_iff (p := p) (l := l) h.sorted h.single
  unfold linkInto?
  split
  · exact hinto
  · rename_i hout
    refine iff_of_false (by simp) ?_
    rintro ⟨hl, rfl⟩
    exact hout (Pin.isInput_eq_true.mpr (h.targets l hl))

/-- The links that stay when another one takes the place of the link into a pin: those into other
pins. -/
theorem displaced_eq_filter (h : g.WellLinked) (p : Pin) :
    (match g.linkInto? p with
      | some old => LinkList.erase old g.links
      | none => g.links) = g.links.filter (·.target ≠ p) := by
  cases hold : g.linkInto? p with
  | none =>
      have hnone : ∀ x ∈ g.links, x.target ≠ p := by
        intro x hx heq
        rw [h.linkInto?_eq_some_iff.mpr ⟨hx, heq⟩] at hold
        exact absurd hold (by simp)
      exact (List.filter_eq_self.mpr fun x hx => decide_eq_true (hnone x hx)).symm
  | some old =>
      obtain ⟨hmem, htarget⟩ := h.linkInto?_eq_some_iff.mp hold
      show LinkList.erase old g.links = _
      rw [LinkList.erase_eq_filter h.sorted]
      refine List.filter_congr fun x hx => decide_eq_decide.mpr (not_congr ?_)
      exact ⟨fun heq => heq ▸ htarget, fun heq => h.single x hx old hmem (heq.trans htarget.symm)⟩

/-- The links after a link has taken the place of the one into the same pin. -/
theorem insert_filter (h : g.WellLinked) (l : Link) :
    LinkList.Sorted (LinkList.insert l (g.links.filter (·.target ≠ l.target))) ∧
      ∀ x, x ∈ LinkList.insert l (g.links.filter (·.target ≠ l.target)) ↔
        x = l ∨ x ∈ g.links ∧ x.target ≠ l.target := by
  have hsorted : LinkList.Sorted (g.links.filter (·.target ≠ l.target)) :=
    h.sorted.sublist List.filter_sublist
  refine ⟨LinkList.sorted_insert hsorted (by simp), fun x => ?_⟩
  rw [LinkList.mem_insert, List.mem_filter, decide_eq_true_eq]

end WellLinked

/-! ## Histories -/

variable [CountsPins α]

/-- The graphs that edits make from an empty one. Clearing a graph starts over. -/
inductive Reachable : Graph α → Prop
  | empty : Reachable empty
  | add {g : Graph α} (node : α) (hnext : g.lastId < g.lastId + 1) :
      Reachable g → Reachable (g.add node).2
  | restore {g g' : Graph α} (id : NodeId) (node : α) :
      Reachable g → g.restore id node = .ok g' → Reachable g'
  | remove {g : Graph α} (id : NodeId) : Reachable g → Reachable (g.remove id)
  | edit {g : Graph α} (id : NodeId) (f : α → α)
      (hf : ∀ n, CountsPins.pinCount? (f n) = CountsPins.pinCount? n) :
      Reachable g → Reachable (g.modify id f)
  | link {g g' : Graph α} (a b : Pin) {l : Link} :
      Reachable g → g.link a b = .ok (l, g') → Reachable g'
  | unlink {g : Graph α} (l : Link) : Reachable g → Reachable (g.unlink l)
  | unlinkPin {g : Graph α} (p : Pin) : Reachable g → Reachable (g.unlinkPin p)

/-- A pin is on this side of a node of the graph, below the number of its pins there if the node
counts them. -/
def HasPin (g : Graph α) (d : Direction) (p : Pin) : Prop :=
  p.direction = d ∧ 0 ≤ p.index ∧ ∃ n ∈ g.nodes, n.id = p.node ∧
    ∀ count, CountsPins.pinCount? n.node = some count → p.index < count.on d

/-- What every edit keeps. -/
structure Consistent (g : Graph α) : Prop where
  sorted : LinkList.Sorted g.links
  single : ∀ l ∈ g.links, ∀ l' ∈ g.links, l.target = l'.target → l = l'
  sources : ∀ l ∈ g.links, g.HasPin .output l.source
  targets : ∀ l ∈ g.links, g.HasPin .input l.target
  apart : ∀ l ∈ g.links, l.source.node ≠ l.target.node
  indexed : g.Indexed
  bounded : ∀ n ∈ g.nodes, n.id ≤ g.lastId

namespace Consistent

theorem distinct (h : g.Consistent) : g.ids.Nodup := h.indexed.nodup

theorem node?_of_mem (h : g.Consistent) {n : Numbered α} (hn : n ∈ g.nodes) :
    g.node? n.id = some n.node := h.indexed.node?_eq_some_iff.mpr hn

/-- There is one node under a number. -/
theorem eq_of_id (h : g.Consistent) {m n : Numbered α} (hm : m ∈ g.nodes) (hn : n ∈ g.nodes)
    (hid : m.id = n.id) : m = n := List.inj_on_of_nodup_map h.distinct hm hn hid

/-- The links of a consistent graph are well formed among themselves. -/
theorem wellLinked (h : g.Consistent) : g.WellLinked where
  sorted := h.sorted
  single := h.single
  sources l hl := (h.sources l hl).1
  targets l hl := (h.targets l hl).1

theorem linkInto?_eq_some_iff (h : g.Consistent) {p : Pin} {l : Link} :
    g.linkInto? p = some l ↔ l ∈ g.links ∧ l.target = p := h.wellLinked.linkInto?_eq_some_iff

end Consistent

/-! ## One lemma for each edit -/

theorem HasPin.mono {d : Direction} {p : Pin} (h : g.HasPin d p)
    (hnode : ∀ n ∈ g.nodes, n.id = p.node → ∃ n' ∈ g'.nodes, n'.id = p.node ∧
      CountsPins.pinCount? n'.node = CountsPins.pinCount? n.node) : g'.HasPin d p := by
  obtain ⟨hdir, hindex, n, hn, hid, hcount⟩ := h
  obtain ⟨n', hn', hid', hsame⟩ := hnode n hn hid
  exact ⟨hdir, hindex, n', hn', hid', fun count h => hcount count (hsame ▸ h)⟩

/-- Fewer links between the same nodes. -/
theorem Consistent.fewerLinks (h : g.Consistent) {links : List Link} (hsub : links.Sublist g.links) :
    Consistent { g with links } where
  sorted := h.sorted.sublist hsub
  single l hl l' hl' := h.single l (hsub.subset hl) l' (hsub.subset hl')
  sources l hl := h.sources l (hsub.subset hl)
  targets l hl := h.targets l (hsub.subset hl)
  apart l hl := h.apart l (hsub.subset hl)
  indexed := h.indexed
  bounded := h.bounded

/-- A graph with one more node, under a number above or beside all others. -/
theorem Consistent.insertNode (h : g.Consistent) {id last : NodeId} (node : α) (hnew : id ∉ g.ids)
    (hlast : g.lastId ≤ last) (hid : id ≤ last) :
    Consistent { g.insert id node with lastId := last } where
  sorted := h.sorted
  single := h.single
  sources l hl := (h.sources l hl).mono fun n hn hn' => ⟨n, List.mem_append_left _ hn, hn', rfl⟩
  targets l hl := (h.targets l hl).mono fun n hn hn' => ⟨n, List.mem_append_left _ hn, hn', rfl⟩
  apart := h.apart
  indexed := by
    have hput := Index.Lists.put h.indexed hnew
    have hlength : g.ids.length = g.nodes.length := List.length_map _
    rw [hlength] at hput
    have hids : ({ g.insert id node with lastId := last } : Graph α).ids = g.ids ++ [id] :=
      List.map_append
    rw [Indexed, hids]
    exact hput
  bounded n hn := by
    rcases List.mem_append.mp hn with hn | hn
    · exact UInt32.le_trans (h.bounded n hn) hlast
    · rw [List.mem_singleton] at hn
      subst hn
      exact hid

theorem Consistent.le_lastId (h : g.Consistent) {id : NodeId} (hid : id ∈ g.ids) :
    id ≤ g.lastId := by
  obtain ⟨n, hn, rfl⟩ := List.mem_map.mp hid
  exact h.bounded n hn

theorem Consistent.add (h : g.Consistent) (node : α) (hnext : g.lastId < g.lastId + 1) :
    (g.add node).2.Consistent := by
  refine h.insertNode node ?_ (UInt32.le_of_lt hnext) (UInt32.le_refl _)
  intro hmem
  exact absurd hnext (UInt32.not_lt.mpr (h.le_lastId hmem))

theorem Consistent.restore (h : g.Consistent) {id : NodeId} {node : α}
    (hr : g.restore id node = .ok g') : g'.Consistent := by
  obtain ⟨-, hnew, rfl⟩ := restore_eq_ok hr
  refine h.insertNode node ?_ (NodeId.le_max _ _).1 (NodeId.le_max _ _).2
  intro hmem
  rw [h.indexed.contains_iff.mpr hmem] at hnew
  exact absurd hnew (by simp)

theorem Consistent.remove (h : g.Consistent) (id : NodeId) : (g.remove id).Consistent := by
  unfold Graph.remove
  split
  · exact h
  · rename_i i hi
    have hgone : g.ids[i]? = some id := (h.indexed id i).mp hi
    have hids : (g.nodes.eraseIdx i).map Numbered.id = g.ids.eraseIdx i :=
      (List.eraseIdx_map _ _ _).symm
    -- a node that a remaining link touches has another number and stays
    have hstay : ∀ p : Pin, p.node ≠ id → ∀ n ∈ g.nodes, n.id = p.node →
        ∃ n' ∈ g.nodes.eraseIdx i, n'.id = p.node ∧
          CountsPins.pinCount? n'.node = CountsPins.pinCount? n.node := by
      intro p hp n hn hid
      obtain ⟨k, hk⟩ := List.mem_iff_getElem?.mp hn
      refine ⟨n, List.mem_eraseIdx_iff_getElem?.mpr ⟨k, ?_, hk⟩, hid, rfl⟩
      rintro rfl
      rw [ids, List.getElem?_map, hk, Option.map_some, Option.some.injEq] at hgone
      exact hp (hid.symm.trans hgone)
    have hkeep := h.fewerLinks (List.filter_sublist (l := g.links) (p := (!·.touches id)))
    have htouch : ∀ l ∈ g.links.filter (!·.touches id),
        l.source.node ≠ id ∧ l.target.node ≠ id := by
      intro l hl
      simpa [Link.touches] using (List.mem_filter.mp hl).2
    refine { hkeep with sources := ?_, targets := ?_, indexed := ?_, bounded := ?_ }
    · exact fun l hl => (hkeep.sources l hl).mono (hstay l.source (htouch l hl).1)
    · exact fun l hl => (hkeep.targets l hl).mono (hstay l.target (htouch l hl).2)
    · have herase := h.indexed.erase hi
      show Index.Lists (Index.putFrom _ i (((g.nodes.eraseIdx i).drop i).map Numbered.id))
        ((g.nodes.eraseIdx i).map Numbered.id)
      rw [List.map_drop, hids]
      exact herase
    · exact fun n hn => h.bounded n ((List.eraseIdx_sublist _ _).subset hn)

theorem Consistent.edit (h : g.Consistent) (id : NodeId) (f : α → α)
    (hf : ∀ n, CountsPins.pinCount? (f n) = CountsPins.pinCount? n) :
    (g.modify id f).Consistent := by
  have hsame : ∀ n : Numbered α,
      (if n.id = id then { n with node := f n.node } else n).id = n.id ∧
      CountsPins.pinCount? (if n.id = id then { n with node := f n.node } else n).node =
        CountsPins.pinCount? n.node := by
    intro n
    split
    · exact ⟨rfl, hf n.node⟩
    · exact ⟨rfl, rfl⟩
  have hpins : ∀ p : Pin, ∀ n ∈ g.nodes, n.id = p.node → ∃ n' ∈ (g.modify id f).nodes,
      n'.id = p.node ∧ CountsPins.pinCount? n'.node = CountsPins.pinCount? n.node :=
    fun p n hn hid => ⟨_, List.mem_map_of_mem hn, (hsame n).1.trans hid, (hsame n).2⟩
  refine { sorted := h.sorted, single := h.single, sources := ?_, targets := ?_, apart := h.apart,
           indexed := ?_, bounded := ?_ }
  · exact fun l hl => (h.sources l hl).mono (hpins l.source)
  · exact fun l hl => (h.targets l hl).mono (hpins l.target)
  · rw [Indexed, ids_modify]
    exact h.indexed
  · intro n hn
    obtain ⟨m, hm, rfl⟩ := List.mem_map.mp hn
    rw [(hsame m).1]
    exact h.bounded m hm

theorem Consistent.hasPin_of_checkPin (h : g.Consistent) {p : Pin} (hp : g.checkPin p = .ok ()) :
    g.HasPin p.direction p := by
  unfold checkPin at hp
  split at hp
  · exact absurd hp (by simp)
  · rename_i hvalid
    have hindex : 0 ≤ p.index := (Pin.isValid_iff.mp (by simpa using hvalid)).2
    split at hp
    · exact absurd hp (by simp)
    · rename_i n hn
      refine ⟨rfl, hindex, _, h.indexed.node?_eq_some_iff.mp hn, rfl, ?_⟩
      intro count hcount
      simp only [hcount] at hp
      split at hp
      · exact absurd hp (by simp)
      · rename_i hlt
        exact Int.not_le.mp hlt

/-- Two pins that may be linked are pins of different nodes on different sides, and there is no link
between them. -/
theorem canLink_ok {a b : Pin} (h : g.canLink a b = .ok ()) :
    a.direction ≠ b.direction ∧ a.node ≠ b.node ∧ g.checkPin a = .ok () ∧ g.checkPin b = .ok () ∧
      g.hasLink (.between a b) = false := by
  unfold canLink at h
  split at h
  · exact absurd h (by simp)
  · split at h
    · exact absurd h (by simp)
    · rename_i hdir
      split at h
      · exact absurd h (by simp)
      · rename_i hnode
        refine ⟨hdir, hnode, ?_⟩
        cases ha : g.checkPin a with
        | error e => simp [ha, bind, Except.bind] at h
        | ok _ =>
          cases hb : g.checkPin b with
          | error e => simp [ha, hb, bind, Except.bind] at h
          | ok _ =>
            cases hl : g.hasLink (.between a b) with
            | true => simp [ha, hb, hl, bind, Except.bind] at h
            | false => exact ⟨rfl, rfl, rfl⟩

/-- Linking two pins changes the links only: the new one takes the place of the one that led to the
same input. -/
theorem link_eq_ok {a b : Pin} {l : Link} (hl : g.link a b = .ok (l, g')) :
    g.canLink a b = .ok () ∧ l = .between a b ∧
      g' = { g with links := LinkList.insert l (match g.linkInto? l.target with
        | some old => LinkList.erase old g.links
        | none => g.links) } := by
  unfold Graph.link at hl
  cases hcan : g.canLink a b with
  | error e => simp [hcan, bind, Except.bind] at hl
  | ok _ =>
    simp only [hcan, bind, Except.bind, Except.ok.injEq, Prod.mk.injEq] at hl
    obtain ⟨rfl, rfl⟩ := hl
    exact ⟨rfl, rfl, rfl⟩

/-- A new link takes the place of the one that led to the same input. -/
theorem WellLinked.link (h : g.WellLinked) {a b : Pin} {l : Link}
    (hl : g.link a b = .ok (l, g')) : g'.WellLinked := by
  obtain ⟨hcan, rfl, rfl⟩ := link_eq_ok hl
  obtain ⟨hsource, htarget⟩ := Link.directions_between (canLink_ok hcan).1
  obtain ⟨hsorted, hmem⟩ := h.insert_filter (.between a b)
  rw [← h.displaced_eq_filter] at hsorted hmem
  refine { sorted := hsorted, single := ?_, sources := ?_, targets := ?_ }
  · intro x hx y hy heq
    rcases (hmem x).mp hx with rfl | ⟨hx, hxne⟩ <;> rcases (hmem y).mp hy with rfl | ⟨hy, hyne⟩
    · rfl
    · exact absurd heq.symm hyne
    · exact absurd heq hxne
    · exact h.single x hx y hy heq
  · intro x hx
    rcases (hmem x).mp hx with rfl | ⟨hx, -⟩
    · exact hsource
    · exact h.sources x hx
  · intro x hx
    rcases (hmem x).mp hx with rfl | ⟨hx, -⟩
    · exact htarget
    · exact h.targets x hx

theorem Consistent.links_link (h : g.Consistent) {a b : Pin} {l : Link}
    (hl : g.link a b = .ok (l, g')) :
    LinkList.Sorted g'.links ∧
      ∀ x, x ∈ g'.links ↔ x = l ∨ x ∈ g.links ∧ x.target ≠ l.target := by
  obtain ⟨-, -, rfl⟩ := link_eq_ok hl
  show LinkList.Sorted (LinkList.insert l _) ∧ ∀ x, x ∈ LinkList.insert l _ ↔ _
  rw [h.wellLinked.displaced_eq_filter]
  exact h.wellLinked.insert_filter l

/-- The ends of a link between two pins that may be linked. -/
theorem Consistent.ends_of_canLink (h : g.Consistent) {a b : Pin} (hcan : g.canLink a b = .ok ()) :
    g.HasPin .output (Link.between a b).source ∧ g.HasPin .input (Link.between a b).target ∧
      (Link.between a b).source.node ≠ (Link.between a b).target.node := by
  obtain ⟨hdir, hnode, ha, hb, -⟩ := canLink_ok hcan
  have hpa := h.hasPin_of_checkPin ha
  have hpb := h.hasPin_of_checkPin hb
  rw [Link.source_between, Link.target_between]
  cases hda : a.direction with
  | input =>
      have hdb : b.direction = .output := by
        cases hdb : b.direction with
        | input => exact absurd (hda.trans hdb.symm) hdir
        | output => rfl
      rw [hda] at hpa
      rw [hdb] at hpb
      simp only [Pin.isInput_eq_true.mpr hda, if_true]
      exact ⟨hpb, hpa, Ne.symm hnode⟩
  | output =>
      have hdb : b.direction = .input := by
        cases hdb : b.direction with
        | input => rfl
        | output => exact absurd (hda.trans hdb.symm) hdir
      rw [hda] at hpa
      rw [hdb] at hpb
      simp only [Pin.isInput_eq_false.mpr hda]
      exact ⟨hpa, hpb, hnode⟩

theorem Consistent.link (h : g.Consistent) {a b : Pin} {l : Link}
    (hl : g.link a b = .ok (l, g')) : g'.Consistent := by
  obtain ⟨-, hmem⟩ := h.links_link hl
  have hlinks := h.wellLinked.link hl
  obtain ⟨hcan, rfl, rfl⟩ := link_eq_ok hl
  obtain ⟨hsource, htarget, hapart⟩ := h.ends_of_canLink hcan
  refine { sorted := hlinks.sorted, single := hlinks.single, sources := ?_, targets := ?_,
           apart := ?_, indexed := h.indexed, bounded := h.bounded }
  · intro x hx
    rcases (hmem x).mp hx with rfl | ⟨hx, -⟩
    · exact hsource
    · exact h.sources x hx
  · intro x hx
    rcases (hmem x).mp hx with rfl | ⟨hx, -⟩
    · exact htarget
    · exact h.targets x hx
  · intro x hx
    rcases (hmem x).mp hx with rfl | ⟨hx, -⟩
    · exact hapart
    · exact h.apart x hx

theorem consistent_empty : (Graph.empty : Graph α).Consistent where
  sorted := List.Pairwise.nil
  single := by simp [Graph.empty]
  sources := by simp [Graph.empty]
  targets := by simp [Graph.empty]
  apart := by simp [Graph.empty]
  indexed id i := by simp [Graph.empty, Index.position?, ids]
  bounded := by simp [Graph.empty]

/-- Every graph that edits make is consistent. -/
theorem Reachable.consistent (h : g.Reachable) : g.Consistent := by
  induction h with
  | empty => exact consistent_empty
  | add node hnext _ ih => exact ih.add node hnext
  | restore id node _ hr ih => exact ih.restore hr
  | remove id _ ih => exact ih.remove id
  | edit id f hf _ ih => exact ih.edit id f hf
  | link a b _ hl ih => exact ih.link hl
  | unlink l _ ih =>
      refine ih.fewerLinks ?_
      rw [LinkList.erase_eq_filter ih.sorted]
      exact List.filter_sublist
  | unlinkPin p _ ih => exact ih.fewerLinks List.filter_sublist

end Graph

end NodeShader
