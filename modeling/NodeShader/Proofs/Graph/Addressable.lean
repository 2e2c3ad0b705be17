import NodeShader.Proofs.Document.Decoded
import NodeShader.Proofs.Graph.Edits

/-!
# Which graphs pins can address

A pin has room for 24 bits of a node's number, and the counter of a graph has 32. Restoring a node
checks that its number fits into a pin; adding one takes the next number whatever it is. As long as
the counter stays within the numbers that fit, the nodes of the graph are addressable: a pin leads
back to its node, and pins of two nodes differ. The first node that is added beyond shares its pins
with no node or with another one, so this is also necessary (`addressable_iff`).
-/

namespace NodeShader.Graph

variable {α : Type} {g : Graph α}

/-- Pins tell the nodes of the graph apart: every number fits into a pin, a pin leads back to the
node it was made for, and no two nodes share a pin. -/
structure Addressable (g : Graph α) : Prop where
  valid : ∀ n ∈ g.nodes, n.id.isValid = true
  owner : ∀ n ∈ g.nodes, ∀ i ≤ Pin.greatestIndex, ∀ d, (Pin.pack n.id i d).node = n.id
  apart : g.nodes.Pairwise fun m n => ∀ i ≤ Pin.greatestIndex, ∀ j ≤ Pin.greatestIndex,
    ∀ d e, Pin.pack m.id i d ≠ Pin.pack n.id j e

/-- Pins of different nodes lead back to different numbers. -/
theorem Consistent.addressable [CountsPins α] (h : g.Consistent)
    (hvalid : ∀ n ∈ g.nodes, n.id.isValid = true) : g.Addressable := by
  have howner : ∀ n ∈ g.nodes, ∀ (i : Nat) d, (Pin.pack n.id i d).node = n.id :=
    fun n hn i d => Pin.node_pack i d (NodeId.le_of_isValid (hvalid n hn))
  refine ⟨hvalid, fun n hn i _ d => howner n hn i d, ?_⟩
  have hdistinct : g.nodes.Pairwise fun m n => m.id ≠ n.id := List.pairwise_map.mp h.distinct
  refine hdistinct.imp_of_mem fun {m n} hm hn hne i _ j _ d e heq => hne ?_
  rw [← howner m hm i d, heq, howner n hn j e]

/-! ## One edit -/

/-- A number after one that fits into a pin is not zero. -/
theorem isValid_succ_iff (hlast : g.lastId ≤ NodeId.greatest) :
    (g.lastId + 1).isValid = true ↔ g.lastId + 1 ≤ NodeId.greatest := by
  have hlt := NodeId.toNat_lt_of_le hlast
  have hne : g.lastId + 1 ≠ 0 := by
    intro hzero
    have := congrArg UInt32.toNat hzero
    rw [UInt32.toNat_add] at this
    change (g.lastId.toNat + 1) % 2 ^ 32 = 0 at this
    omega
  simp [NodeId.isValid, hne]

theorem lt_succ_of_le (hlast : g.lastId ≤ NodeId.greatest) : g.lastId < g.lastId + 1 := by
  have hlt := NodeId.toNat_lt_of_le hlast
  rw [UInt32.lt_iff_toNat_lt, UInt32.toNat_add]
  show _ < (g.lastId.toNat + 1) % 2 ^ 32
  omega

/-- Restoring a node leaves the counter where it was or moves it to the node's number. -/
theorem lastId_restore_le {g' : Graph α} {id : NodeId} {node : α}
    (hr : g.restore id node = .ok g') (hlast : g.lastId ≤ NodeId.greatest) :
    g'.lastId ≤ NodeId.greatest := by
  obtain ⟨hid, -, rfl⟩ := restore_eq_ok hr
  show (if g.lastId ≤ id then id else g.lastId) ≤ NodeId.greatest
  split
  · exact NodeId.le_of_isValid hid
  · exact hlast

variable [CountsPins α]

theorem hasNumbersFor_of_le (hlast : g.lastId ≤ NodeId.greatest) (e : Edit α) :
    g.hasNumbersFor [e] = true := by
  cases e with
  | add node => simp [hasNumbersFor, lt_succ_of_le hlast]
  | _ => rfl

/-- Among graphs whose numbers fit into pins an edit leads out exactly when it moves the counter
out. -/
theorem valid_apply_iff (hvalid : ∀ n ∈ g.nodes, n.id.isValid = true)
    (hlast : g.lastId ≤ NodeId.greatest) (e : Edit α) :
    (∀ n ∈ (g.apply e).nodes, n.id.isValid = true) ↔ (g.apply e).lastId ≤ NodeId.greatest := by
  cases e with
  | add node =>
      show (∀ n ∈ g.nodes ++ [⟨g.lastId + 1, node⟩], n.id.isValid = true) ↔
        g.lastId + 1 ≤ NodeId.greatest
      rw [← isValid_succ_iff hlast]
      simp only [List.mem_append, List.mem_singleton]
      constructor
      · intro hall
        exact hall _ (.inr rfl)
      · rintro hnew n (hn | rfl)
        · exact hvalid n hn
        · exact hnew
  | restore id node =>
      simp only [Graph.apply]
      split
      · rename_i g' hr
        refine iff_of_true ?_ (lastId_restore_le hr hlast)
        obtain ⟨hid, -, rfl⟩ := restore_eq_ok hr
        intro n hn
        rcases List.mem_append.mp hn with hn | hn
        · exact hvalid n hn
        · rw [List.mem_singleton.mp hn]
          exact hid
      · exact iff_of_true hvalid hlast
  | remove id =>
      show (∀ n ∈ (g.remove id).nodes, _) ↔ (g.remove id).lastId ≤ _
      unfold Graph.remove
      split
      · exact iff_of_true hvalid hlast
      · exact iff_of_true (fun n hn => hvalid n ((List.eraseIdx_sublist _ _).subset hn)) hlast
  | link a b =>
      simp only [Graph.apply]
      split
      · rename_i l g' hl
        obtain ⟨-, -, rfl⟩ := link_eq_ok hl
        exact iff_of_true hvalid hlast
      · exact iff_of_true hvalid hlast
  | unlink l => exact iff_of_true hvalid hlast
  | unlinkPin p => exact iff_of_true hvalid hlast
  | clear => exact iff_of_true (by simp [Graph.apply, Graph.empty]) (UInt32.zero_le)

/-! ## Sequences -/

/-- All graphs on the way have numbers that fit into pins exactly when the counter stays among
these. -/
theorem valid_scanl_iff (edits : List (Edit α)) (hvalid : ∀ n ∈ g.nodes, n.id.isValid = true)
    (hlast : g.lastId ≤ NodeId.greatest) :
    (∀ s ∈ edits.scanl apply g, ∀ n ∈ s.nodes, n.id.isValid = true) ↔
      ∀ s ∈ edits.scanl apply g, s.lastId ≤ NodeId.greatest := by
  induction edits generalizing g with
  | nil => simpa using iff_of_true hvalid hlast
  | cons e rest ih =>
      have hstep := valid_apply_iff hvalid hlast e
      have hfirst : g.apply e ∈ rest.scanl apply (g.apply e) := by
        cases rest <;> simp
      simp only [List.scanl_cons, List.mem_cons, forall_eq_or_imp]
      constructor
      · rintro ⟨-, hall⟩
        have hnext := hall _ hfirst
        exact ⟨hlast, (ih hnext (hstep.mp hnext)).mp hall⟩
      · rintro ⟨-, hall⟩
        have hnext := hall _ hfirst
        exact ⟨hvalid, (ih (hstep.mpr hnext) hnext).mpr hall⟩

/-- A counter among the numbers that fit into pins does not start again. -/
theorem Reachable.scanl (h : g.Reachable) (edits : List (Edit α))
    (hall : ∀ s ∈ edits.scanl Graph.apply g, s.lastId ≤ NodeId.greatest) :
    ∀ s ∈ edits.scanl Graph.apply g, s.Reachable := by
  induction edits generalizing g with
  | nil => simpa using h
  | cons e rest ih =>
      simp only [List.scanl_cons, List.mem_cons, forall_eq_or_imp] at hall ⊢
      exact ⟨h, ih (h.apply (hasNumbersFor_of_le hall.1 e)) hall.2⟩

/-- A graph to begin with: an empty one, or one made of a document. -/
def IsOpened (g : ShaderGraph) : Prop :=
  g = empty ∨ ∃ (d : Document) (r : Registry) (decoded : Decoded),
    d.toGraph r = .ok decoded ∧ g = decoded.graph

theorem IsOpened.reachable {g : ShaderGraph} (h : g.IsOpened) : g.Reachable := by
  rcases h with rfl | ⟨d, r, decoded, hd, rfl⟩
  · exact .empty
  · exact Document.reachable_toGraph hd

/-- Documents number their nodes within pins. -/
theorem IsOpened.within {g : ShaderGraph} (h : g.IsOpened) :
    (∀ n ∈ g.nodes, n.id.isValid = true) ∧ g.lastId ≤ NodeId.greatest := by
  rcases h with rfl | ⟨d, r, decoded, hd, rfl⟩
  · exact ⟨by simp [Graph.empty], UInt32.zero_le⟩
  · refine Document.toGraph_invariant (I := fun g : ShaderGraph =>
      (∀ n ∈ g.nodes, n.id.isValid = true) ∧ g.lastId ≤ NodeId.greatest)
      ⟨by simp [Graph.empty], UInt32.zero_le⟩ ?_ ?_ hd
    · intro n _ e g g' hg _ hr
      have hlast := lastId_restore_le hr hg.2
      have hstep := valid_apply_iff hg.1 hg.2 (.restore n.id (.expression e))
      simp only [Graph.apply, hr] at hstep
      exact ⟨hstep.mpr hlast, hlast⟩
    · intro a b l g g' hg hl
      obtain ⟨-, -, rfl⟩ := link_eq_ok hl
      exact hg

/-- When every stored node is addressable. Whatever edits are made of an empty or a decoded graph,
the refused ones included: on all the way the numbers fit into pins, pins lead back to their nodes and
no two nodes share one exactly when the counter stays among the numbers that fit into pins. -/
theorem addressable_iff {g : ShaderGraph} (h : g.IsOpened) (edits : List (Edit Node)) :
    (∀ s ∈ edits.scanl apply g, s.Addressable) ↔
      ∀ s ∈ edits.scanl apply g, s.lastId ≤ NodeId.greatest := by
  obtain ⟨hvalid, hlast⟩ := h.within
  rw [← valid_scanl_iff edits hvalid hlast]
  constructor
  · intro hall s hs
    exact (hall s hs).valid
  · intro hall s hs
    have hreach := h.reachable.scanl edits ((valid_scanl_iff edits hvalid hlast).mp hall)
    exact (hreach s hs).consistent.addressable (hall s hs)

/-- The last number that fits into a pin is given out. -/
def brimful : List (Edit Node) :=
  let node := Node.foreign "probe" (some ⟨1, 1⟩)
  [.add node, .restore 0xfffffe node, .add node, .link (.output 1 0) (.input 0xffffff 0)]

theorem addressable_brimful :
    (Graph.empty : ShaderGraph).IsOpened ∧ (replay brimful).ids = [1, 0xfffffe, 0xffffff] ∧
      (replay brimful).Addressable := by
  have hopened : (Graph.empty : ShaderGraph).IsOpened := .inl rfl
  have hlast : ∀ s ∈ brimful.scanl apply empty, s.lastId ≤ NodeId.greatest := by decide
  have hmem : replay brimful ∈ brimful.scanl apply empty :=
    List.mem_of_getLast? List.getLast?_scanl
  exact ⟨hopened, by decide, (addressable_iff hopened brimful).mpr hlast _ hmem⟩

/-- Two nodes are added after the last number that fits into a pin. -/
def overrun : List (Edit Node) :=
  let node := Node.foreign "probe" (some ⟨1, 1⟩)
  [.restore 1 node, .restore 0xffffff node, .add node, .add node]

/-- The last node has the pins of the first. -/
theorem not_addressable_overrun :
    (replay overrun).ids = [1, 0xffffff, 0x1000000, 0x1000001] ∧
      Pin.input 0x1000001 0 = .input 1 0 ∧ (Pin.output 0x1000001 0).node ≠ 0x1000001 ∧
      ¬ (replay overrun).Addressable := by
  have hmem : 0x1000001 ∈ (replay overrun).ids := by decide
  refine ⟨by decide, by decide, by decide, fun h => ?_⟩
  obtain ⟨n, hn, hid⟩ := List.mem_map.mp hmem
  exact absurd (hid ▸ h.valid n hn) (by decide)

end NodeShader.Graph
