import Mathlib.Data.Set.Card
import NodeShader.Proofs.Graph.Edited
import NodeShader.Proofs.Node.Builtin

/-!
# Links as a partial map

Queries about links cut the sorted list at a key, and the key for an input pin is itself never a link.
Seen from outside the links are a partial map from input pins to output pins (`Graph.sourceOf?`), found
by going through the list from the front. `Graph.LinksAgree` says of each query and of each removal
what it does to this map and to the list, in terms of membership alone, and `Graph.linksAgree` says
that it holds of every graph that calls can make.
-/

namespace NodeShader

namespace Graph

variable {α : Type} {g : Graph α}

/-- The output pin that leads to a pin. -/
def sourceOf? (g : Graph α) (p : Pin) : Option Pin :=
  (g.links.find? (·.target = p)).map Link.source

/-- The second graph is the first without a node that it has under a number, and without the links that
touch this number. The other nodes and links are in their order. -/
structure LosesNode (g g' : Graph α) (id : NodeId) (n : α) : Prop where
  nodes : ∃ before after, g.nodes = before ++ ⟨id, n⟩ :: after ∧ g'.nodes = before ++ after
  gone : g'.node? id = none
  links : g'.links = g.links.filter fun l => ¬(l.source.node = id ∨ l.target.node = id)
  lastId : g'.lastId = g.lastId

/-- The queries and removals of a graph do what they do to a partial map from input pins to output
pins. -/
structure LinksAgree (g : Graph α) : Prop where
  /-- The list has the links of the map. -/
  mem : ∀ l, l ∈ g.links ↔ g.sourceOf? l.target = some l.source
  sides : ∀ p o, g.sourceOf? p = some o → p.direction = .input ∧ o.direction = .output
  linkInto : ∀ p l, g.linkInto? p = some l ↔
    p.direction = .input ∧ l ∈ g.links ∧ ∃ o, g.sourceOf? p = some o ∧ l = .pack o p
  hasLink : ∀ l, g.hasLink l = true ↔ l ∈ g.links
  unlink : ∀ l, g.tryUnlink l = (decide (l ∈ g.links), { g with links := g.links.filter (· ≠ l) })
  unlinkAll : ∀ p, g.unlinkAll p =
    (g.links.countP fun l => l.source = p ∨ l.target = p,
      { g with links := g.links.filter fun l => ¬(l.source = p ∨ l.target = p) })
  removeAbsent : ∀ id, g.node? id = none → g.tryRemove id = (false, g)
  remove : ∀ id n, g.node? id = some n →
    ∃ g', g.tryRemove id = (true, g') ∧ g.LosesNode g' id n
  linksFrom : ∀ o, g.fanOut o = (g.linksFrom o).length
  fanOut : ∀ o, (g.fanOut o : ℕ∞) =
    Set.encard { p : Pin | p.direction = .input ∧ ∃ l, g.linkInto? p = some l ∧ l.source = o }

/-! ## The map -/

theorem WellLinked.find?_eq_some_iff (h : g.WellLinked) {p : Pin} {l : Link} :
    g.links.find? (·.target = p) = some l ↔ l ∈ g.links ∧ l.target = p := by
  constructor
  · intro hfind
    exact ⟨List.mem_of_find?_eq_some hfind, by simpa using List.find?_some hfind⟩
  · rintro ⟨hl, htarget⟩
    cases hfind : g.links.find? (·.target = p) with
    | none => exact absurd htarget (by simpa using List.find?_eq_none.mp hfind l hl)
    | some x =>
        have hx : x.target = p := by simpa using List.find?_some hfind
        rw [h.single x (List.mem_of_find?_eq_some hfind) l hl (hx.trans htarget.symm)]

theorem WellLinked.sourceOf?_eq_some_iff (h : g.WellLinked) {p o : Pin} :
    g.sourceOf? p = some o ↔ .pack o p ∈ g.links := by
  rw [sourceOf?, Option.map_eq_some_iff]
  constructor
  · rintro ⟨l, hfind, rfl⟩
    obtain ⟨hl, rfl⟩ := h.find?_eq_some_iff.mp hfind
    rwa [Link.pack_ends]
  · intro hmem
    exact ⟨_, h.find?_eq_some_iff.mpr ⟨hmem, Link.target_pack o p⟩, Link.source_pack o p⟩

/-! ## Removals -/

theorem WellLinked.tryUnlink_eq (h : g.WellLinked) (l : Link) :
    g.tryUnlink l = (decide (l ∈ g.links), { g with links := g.links.filter (· ≠ l) }) := by
  unfold tryUnlink
  split
  · rename_i hhas
    have hmem := (LinkList.has_iff h.sorted).mp hhas
    rw [decide_eq_true hmem, Graph.unlink, LinkList.erase_eq_filter h.sorted]
  · rename_i hhas
    have hmem : l ∉ g.links := fun hmem => hhas ((LinkList.has_iff h.sorted).mpr hmem)
    have hall : g.links.filter (· ≠ l) = g.links :=
      List.filter_eq_self.mpr fun x hx => decide_eq_true fun heq => hmem (heq ▸ hx)
    rw [decide_eq_false hmem, hall]

theorem unlinkAll_eq (g : Graph α) (p : Pin) :
    g.unlinkAll p = (g.links.countP fun l => l.source = p ∨ l.target = p,
      { g with links := g.links.filter fun l => ¬(l.source = p ∨ l.target = p) }) := by
  have huses : ∀ l : Link, (!l.uses p) = decide ¬(l.source = p ∨ l.target = p) := by
    intro l
    simp [Link.uses]
  have hlinks : g.links.filter (!·.uses p) =
      g.links.filter fun l => ¬(l.source = p ∨ l.target = p) :=
    List.filter_congr fun l _ => huses l
  -- those at the pin and the others are all links
  have hsum := List.length_eq_countP_add_countP (fun l : Link => l.source = p ∨ l.target = p)
    (l := g.links)
  have hother : (g.links.filter fun l => ¬(l.source = p ∨ l.target = p)).length =
      g.links.countP fun l => ¬(l.source = p ∨ l.target = p) := by
    rw [List.countP_eq_length_filter]
  unfold unlinkAll unlinkPin
  simp only [hlinks, Prod.mk.injEq, and_true, hother]
  simp only [decide_eq_true_eq] at hsum
  omega

/-- Removing the node that is found under a number. -/
theorem losesNode_remove (h : g.index.PointsInto g.ids) {id : NodeId} {n : α}
    (hn : g.node? id = some n) : g.LosesNode (g.remove id) id n := by
  obtain ⟨before, after, hnodes, hpos⟩ := exists_split_of_node? h hn
  have herase : g.nodes.eraseIdx before.length = before ++ after := by
    rw [hnodes, List.eraseIdx_append_of_length_le (Nat.le_refl _)]
    simp
  have hindex : (g.remove id).index.position? id = none := by
    have hgone := (h.erase hpos).2
    rw [ids, List.eraseIdx_map, ← List.map_drop] at hgone
    simpa only [Graph.remove, hpos] using hgone
  have hlinks : g.links.filter (!·.touches id) =
      g.links.filter fun l => ¬(l.source.node = id ∨ l.target.node = id) :=
    List.filter_congr fun l _ => by simp [Link.touches]
  refine ⟨⟨before, after, hnodes, ?_⟩, ?_, ?_, ?_⟩
  · simp only [Graph.remove, hpos, herase]
  · rw [node?, hindex]
    rfl
  · simp only [Graph.remove, hpos, hlinks]
  · simp only [Graph.remove, hpos]

/-! ## Fan-outs -/

/-- The pins that links from an output pin lead to are as many as the links. -/
theorem WellLinked.fanOut_eq_encard (h : g.WellLinked) (o : Pin) : (g.fanOut o : ℕ∞) =
    Set.encard { p : Pin | p.direction = .input ∧ ∃ l, g.linkInto? p = some l ∧ l.source = o } := by
  have hlength : g.fanOut o = ((g.linksFrom o).map Link.target).length := by
    rw [fanOut, List.countP_eq_length_filter, List.length_map, linksFrom]
  have hmem : ∀ l ∈ g.linksFrom o, l ∈ g.links := fun l hl => List.filter_sublist.subset hl
  have hnodup : ((g.linksFrom o).map Link.target).Nodup := by
    have hlinks : (g.linksFrom o).Nodup := by
      refine List.Pairwise.imp (fun {a b} hlt heq => ?_) (h.sorted.sublist List.filter_sublist)
      exact Link.not_lt_self a (heq ▸ hlt)
    exact hlinks.map_on fun x hx y hy heq => h.single x (hmem x hx) y (hmem y hy) heq
  have hset : { p : Pin | p.direction = .input ∧ ∃ l, g.linkInto? p = some l ∧ l.source = o } =
      (((g.linksFrom o).map Link.target).toFinset : Set Pin) := by
    ext p
    simp only [Set.mem_ofPred_eq, List.coe_toFinset, List.mem_map, linksFrom, List.mem_filter,
      decide_eq_true_eq, h.linkInto?_eq_some_iff]
    constructor
    · rintro ⟨-, l, ⟨hl, htarget⟩, hsource⟩
      exact ⟨l, ⟨hl, hsource⟩, htarget⟩
    · rintro ⟨l, ⟨hl, hsource⟩, rfl⟩
      exact ⟨h.targets l hl, l, ⟨hl, rfl⟩, hsource⟩
  rw [hset, Set.encard_coe_eq_coe_finsetCard, List.toFinset_card_of_nodup hnodup, hlength]

variable [CountsPins α]

/-- In every graph that calls can make, the queries that cut the sorted list of links agree with the
partial map that the links are. -/
theorem linksAgree (h : g.Edited) : g.LinksAgree := by
  have hlinks := h.wellLinked
  have hcontains := contains_eq_isSome_node? h.pointed
  refine
    { mem := fun l => ?_
      sides := fun p o ho => ?_
      linkInto := fun p l => ?_
      hasLink := fun l => LinkList.has_iff hlinks.sorted
      unlink := hlinks.tryUnlink_eq
      unlinkAll := unlinkAll_eq g
      removeAbsent := fun id hn => by simp [tryRemove, hcontains, hn]
      remove := fun id n hn => ⟨g.remove id, by simp [tryRemove, hcontains, hn], ?_⟩
      linksFrom := fun o => by rw [Graph.fanOut, List.countP_eq_length_filter, Graph.linksFrom]
      fanOut := hlinks.fanOut_eq_encard }
  · rw [hlinks.sourceOf?_eq_some_iff, Link.pack_ends]
  · have hmem := hlinks.sourceOf?_eq_some_iff.mp ho
    have htarget := hlinks.targets _ hmem
    have hsource := hlinks.sources _ hmem
    rw [Link.target_pack] at htarget
    rw [Link.source_pack] at hsource
    exact ⟨htarget, hsource⟩
  · rw [hlinks.linkInto?_eq_some_iff]
    constructor
    · rintro ⟨hl, rfl⟩
      refine ⟨hlinks.targets l hl, hl, l.source, ?_, l.pack_ends.symm⟩
      rwa [hlinks.sourceOf?_eq_some_iff, Link.pack_ends]
    · rintro ⟨-, hl, o, -, rfl⟩
      exact ⟨hl, Link.target_pack o p⟩
  · exact losesNode_remove h.pointed hn

/-- The parameter of this graph leads to two inputs. Without the node in the middle the links before
and behind it are gone and the others stay. -/
theorem linksAgree_joined :
    joined.Edited ∧ joined.LinksAgree ∧
    Set.encard { p : Pin | p.direction = .input ∧
      ∃ l, joined.linkInto? p = some l ∧ l.source = .output 1 0 } = 2 ∧
    ∃ g' n, joined.tryRemove 4 = (true, g') ∧ joined.LosesNode g' 4 n ∧
      g'.links = [.pack (.output 2 0) (.input 3 0), .pack (.output 5 0) (.input 6 0),
        .pack (.output 1 0) (.input 3 1), .pack (.output 1 0) (.input 5 1)] := by
  have hedited : joined.Edited := isBuiltin_joined.reachable.edited
  have hagree := linksAgree hedited
  have hfan : joined.fanOut (.output 1 0) = 2 := by decide +kernel
  obtain ⟨n, hn⟩ : ∃ n, joined.node? 4 = some n := Option.isSome_iff_exists.mp (by decide +kernel)
  obtain ⟨g', hremoved, hloses⟩ := hagree.remove 4 n hn
  refine ⟨hedited, hagree, ?_, g', n, hremoved, hloses, ?_⟩
  · rw [← hagree.fanOut, hfan]
    rfl
  · rw [hloses.links]
    decide +kernel

end Graph

end NodeShader
