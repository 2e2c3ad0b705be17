import NodeShader.Document.Graph
import NodeShader.Proofs.Graph.History

/-!
# Graphs made of documents

A document becomes a graph in three steps: its nodes are put in the order of their numbers, restored
one after the other, and then its links are added, those that are refused being dropped. So a decoded
graph is made by restoring nodes and linking pins (`Document.toGraph_invariant`): it is reachable, its
counter stands within the numbers that fit into pins, and its nodes stand in ascending order.
-/

namespace NodeShader

variable {r : Registry} {g g' : ShaderGraph}

/-! ## The steps -/

/-- An entry is restored as the node it describes, under its own number. -/
theorem NodeEntry.restoreInto_eq_ok {n : NodeEntry} (h : n.restoreInto r g = .ok g') :
    ∃ e, n.toNode r = .ok e ∧ g.restore n.id (.expression e) = .ok g' := by
  unfold restoreInto at h
  cases he : n.toNode r with
  | error cause => simp [he, bind, Except.bind] at h
  | ok e =>
      refine ⟨e, rfl, ?_⟩
      simp only [he, bind, Except.bind] at h
      cases hg : g.restore n.id (.expression e) with
      | error cause => simp [hg, throw, throwThe, MonadExceptOf.throw] at h
      | ok g₁ => simpa [hg, pure, Except.pure] using h

/-- A link is added between an output and an input that fit into pins, where nothing leads to the
input yet. -/
theorem LinkEntry.addTo_eq_ok {l : LinkEntry} (h : l.addTo g = .ok g') :
    l.source.check = .ok () ∧ l.target.check = .ok () ∧
      g.linkInto? (.pack l.target.node l.target.index .input) = none ∧
      ∃ link, g.link (.pack l.source.node l.source.index .output)
        (.pack l.target.node l.target.index .input) = .ok (link, g') := by
  unfold addTo at h
  cases hs : l.source.check with
  | error cause => simp [hs, bind, Except.bind] at h
  | ok _ =>
      cases ht : l.target.check with
      | error cause => simp [hs, ht, bind, Except.bind] at h
      | ok _ =>
          simp only [hs, ht, bind, Except.bind] at h
          split at h
          · exact absurd h (by simp [throw, throwThe, MonadExceptOf.throw])
          · rename_i hfree
            split at h
            · rename_i link g₁ hlink
              cases h
              exact ⟨rfl, rfl, hfree, link, hlink⟩
            · exact absurd h (by simp [throw, throwThe, MonadExceptOf.throw])

/-- The nodes of a document in the order in which they are restored. -/
def Document.sortedNodes (d : Document) : List NodeEntry :=
  d.nodeList.mergeSort fun a b => a.id ≤ b.id

theorem Document.pairwise_sortedNodes (d : Document) :
    d.sortedNodes.Pairwise fun a b => a.id ≤ b.id := by
  have hpairwise : d.sortedNodes.Pairwise fun a b => decide (a.id ≤ b.id) = true := by
    refine List.pairwise_mergeSort (fun a b c hab hbc => ?_) (fun a b => ?_) d.nodeList
    · rw [decide_eq_true_eq] at hab hbc ⊢
      exact UInt32.le_trans hab hbc
    · simpa using UInt32.le_total a.id b.id
  exact hpairwise.imp of_decide_eq_true

/-- A document that becomes a graph has the current version and an identity, its nodes can be
restored, and its links are added to them. -/
theorem Document.toGraph_eq_ok {d : Document} {decoded : Decoded} (h : d.toGraph r = .ok decoded) :
    d.version = currentVersion ∧ (∃ u, Uuid.read d.id = .ok u) ∧
      ∃ g, d.sortedNodes.foldlM (NodeEntry.restoreInto r) Graph.empty = .ok g ∧
        decoded = LinkEntry.addAll g d.linkList := by
  unfold toGraph at h
  by_cases hversion : d.version < 1 ∨ currentVersion < d.version
  · simp [hversion, throw, throwThe, MonadExceptOf.throw, bind, Except.bind] at h
  · have hone : d.version = currentVersion := by
      simp only [currentVersion] at hversion ⊢
      omega
    simp only [hversion, if_false, pure, Except.pure, bind, Except.bind] at h
    cases hid : Uuid.read d.id with
    | error cause => simp [hid, throw, throwThe, MonadExceptOf.throw] at h
    | ok u =>
        simp only [hid] at h
        split at h
        · exact absurd h (by simp)
        · rename_i g₁ hnodes
          cases h
          exact ⟨hone, ⟨u, rfl⟩, g₁, hnodes, rfl⟩

/-! ## What decoding keeps -/

/-- What restoring each of some entries keeps, restoring them in turn keeps. -/
theorem NodeEntry.restoreAll_invariant {I : ShaderGraph → Prop} {entries : List NodeEntry}
    (hI : ∀ n ∈ entries, ∀ g g', I g → n.restoreInto r g = .ok g' → I g') (hg : I g)
    (h : entries.foldlM (NodeEntry.restoreInto r) g = .ok g') : I g' := by
  induction entries generalizing g with
  | nil =>
      cases h
      exact hg
  | cons n rest ih =>
      rw [List.foldlM_cons] at h
      cases hn : n.restoreInto r g with
      | error cause => simp [hn, bind, Except.bind] at h
      | ok g₁ =>
          simp only [hn, bind, Except.bind] at h
          exact ih (fun m hm => hI m (List.mem_cons_of_mem _ hm)) (hI n (by simp) g g₁ hg hn) h

/-- What adding a link keeps, adding links in turn keeps, whatever is dropped. -/
theorem LinkEntry.addAll_invariant {I : ShaderGraph → Prop}
    (hI : ∀ (l : LinkEntry) g g', I g → l.addTo g = .ok g' → I g') (links : List LinkEntry)
    (hg : I g) : I (LinkEntry.addAll g links).graph := by
  induction links generalizing g with
  | nil => exact hg
  | cons l rest ih =>
      unfold LinkEntry.addAll
      split
      · rename_i g₁ hl
        exact ih (hI l g g₁ hg hl)
      · exact ih hg

/-- What restoring a node of the document and linking two pins keep holds of the decoded graph. -/
theorem Document.toGraph_invariant {I : ShaderGraph → Prop} {d : Document} {decoded : Decoded}
    (hempty : I Graph.empty)
    (hrestore : ∀ n ∈ d.nodeList, ∀ e g g', I g → n.toNode r = .ok e →
      g.restore n.id (.expression e) = .ok g' → I g')
    (hlink : ∀ a b l (g g' : ShaderGraph), I g → g.link a b = .ok (l, g') → I g')
    (h : d.toGraph r = .ok decoded) : I decoded.graph := by
  obtain ⟨-, -, g, hnodes, rfl⟩ := toGraph_eq_ok h
  refine LinkEntry.addAll_invariant (fun l g g' hg hl => ?_) d.linkList ?_
  · obtain ⟨-, -, -, link, hl⟩ := LinkEntry.addTo_eq_ok hl
    exact hlink _ _ link g g' hg hl
  · refine NodeEntry.restoreAll_invariant (fun n hn g g' hg hn' => ?_) hempty hnodes
    obtain ⟨e, he, hr⟩ := NodeEntry.restoreInto_eq_ok hn'
    exact hrestore n (List.mem_mergeSort.mp hn) e g g' hg he hr

theorem Document.reachable_toGraph {d : Document} {decoded : Decoded}
    (h : d.toGraph r = .ok decoded) : decoded.graph.Reachable :=
  toGraph_invariant (I := Graph.Reachable) .empty (fun _ _ _ _ _ hg _ hr => .restore _ _ hg hr)
    (fun _ _ _ _ _ hg hl => .link _ _ hg hl) h

/-- Restored nodes come behind the others in the order of their entries. -/
theorem NodeEntry.ids_restoreAll {entries : List NodeEntry}
    (h : entries.foldlM (NodeEntry.restoreInto r) g = .ok g') :
    g'.ids = g.ids ++ entries.map NodeEntry.id := by
  induction entries generalizing g with
  | nil =>
      cases h
      exact (List.append_nil _).symm
  | cons n rest ih =>
      rw [List.foldlM_cons] at h
      cases hn : n.restoreInto r g with
      | error cause => simp [hn, bind, Except.bind] at h
      | ok g₁ =>
          simp only [hn, bind, Except.bind] at h
          obtain ⟨e, -, hr⟩ := restoreInto_eq_ok hn
          obtain ⟨-, -, rfl⟩ := Graph.restore_eq_ok hr
          rw [ih h, Graph.ids, Graph.insert, List.map_append, List.append_assoc]
          rfl

/-- The nodes of a decoded graph stand in the order of their numbers. -/
theorem Document.ascending_toGraph {d : Document} {decoded : Decoded}
    (h : d.toGraph r = .ok decoded) : decoded.graph.ids.Pairwise (· < ·) := by
  have hdistinct := (reachable_toGraph h).consistent.distinct
  obtain ⟨-, -, g, hnodes, rfl⟩ := toGraph_eq_ok h
  have hids : (LinkEntry.addAll g d.linkList).graph.ids = d.sortedNodes.map NodeEntry.id := by
    refine LinkEntry.addAll_invariant (I := fun g => g.ids = d.sortedNodes.map NodeEntry.id)
      (fun l g g' hg hl => ?_) _ (NodeEntry.ids_restoreAll hnodes)
    obtain ⟨-, -, -, link, hl⟩ := LinkEntry.addTo_eq_ok hl
    obtain ⟨-, -, rfl⟩ := Graph.link_eq_ok hl
    exact hg
  rw [hids] at hdistinct ⊢
  refine List.pairwise_map.mpr (d.pairwise_sortedNodes.imp₂ ?_ (List.pairwise_map.mp hdistinct))
  exact fun a b hle hne => UInt32.lt_of_le_of_ne hle hne

end NodeShader
