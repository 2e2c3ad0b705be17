import NodeShader.Node.Expression
import NodeShader.Proofs.Graph.History

/-!
# Sequences of edits

A graph is edited by calls with arbitrary arguments, and a call that is refused leaves it as it was.
`Graph.replay` makes the graph of a whole sequence of calls from an empty one. As long as the counter
of node numbers does not start again (`Graph.hasNumbersFor`), every such graph is reachable and so it
is consistent. The counter only grows until the graph is cleared, which makes the number of a new
node one that no node had since then.
-/

namespace NodeShader

/-- A call that changes a graph. -/
inductive Edit (α : Type) where
  | add (node : α)
  | restore (id : NodeId) (node : α)
  | remove (id : NodeId)
  | link (a b : Pin)
  | unlink (l : Link)
  | unlinkPin (p : Pin)
  | clear
  deriving Repr

namespace Graph

variable {α : Type} [CountsPins α] {g : Graph α}

/-- The graph after an edit, or the same graph when the edit is refused. -/
def apply (g : Graph α) : Edit α → Graph α
  | .add node => (g.add node).2
  | .restore id node =>
    match g.restore id node with
    | .ok g' => g'
    | .error _ => g
  | .remove id => g.remove id
  | .link a b =>
    match g.link a b with
    | .ok (_, g') => g'
    | .error _ => g
  | .unlink l => g.unlink l
  | .unlinkPin p => g.unlinkPin p
  | .clear => empty

/-- The graph that a sequence of edits makes of an empty one. -/
def replay (edits : List (Edit α)) : Graph α := edits.foldl apply empty

/-- Does every node that the edits add find a number above the last one? -/
def hasNumbersFor (g : Graph α) : List (Edit α) → Bool
  | [] => true
  | .add node :: rest => g.lastId < g.lastId + 1 && (g.add node).2.hasNumbersFor rest
  | e :: rest => (g.apply e).hasNumbersFor rest

/-! ## One edit -/

theorem hasNumbersFor_cons (e : Edit α) (rest : List (Edit α)) :
    g.hasNumbersFor (e :: rest) = true ↔
      g.hasNumbersFor [e] = true ∧ (g.apply e).hasNumbersFor rest = true := by
  cases e <;> simp [hasNumbersFor, apply]

theorem hasNumbersFor_append (first second : List (Edit α)) :
    g.hasNumbersFor (first ++ second) = true ↔
      g.hasNumbersFor first = true ∧ (first.foldl apply g).hasNumbersFor second = true := by
  induction first generalizing g with
  | nil => simp [hasNumbersFor]
  | cons e rest ih =>
      rw [List.cons_append, hasNumbersFor_cons, ih, hasNumbersFor_cons e rest, List.foldl_cons,
        and_assoc]

/-- One edit leads from reachable graphs to reachable graphs. -/
theorem Reachable.apply (h : g.Reachable) {e : Edit α} (hroom : g.hasNumbersFor [e] = true) :
    (g.apply e).Reachable := by
  cases e with
  | add node =>
      simp only [hasNumbersFor, Bool.and_true, decide_eq_true_eq] at hroom
      exact .add node hroom h
  | restore id node =>
      simp only [Graph.apply]
      split
      · rename_i g' hr
        exact .restore id node h hr
      · exact h
  | remove id => exact .remove id h
  | link a b =>
      simp only [Graph.apply]
      split
      · rename_i l g' hl
        exact .link a b h hl
      · exact h
  | unlink l => exact .unlink l h
  | unlinkPin p => exact .unlinkPin p h
  | clear => exact .empty

/-- No edit but clearing turns the counter back. -/
theorem lastId_le_apply {e : Edit α} (hroom : g.hasNumbersFor [e] = true) (he : e ≠ .clear) :
    g.lastId ≤ (g.apply e).lastId := by
  cases e with
  | add node =>
      simp only [hasNumbersFor, Bool.and_true, decide_eq_true_eq] at hroom
      exact UInt32.le_of_lt hroom
  | restore id node =>
      simp only [Graph.apply]
      split
      · rename_i g' hr
        obtain ⟨-, -, rfl⟩ := restore_eq_ok hr
        exact (NodeId.le_max g.lastId id).1
      · exact UInt32.le_refl _
  | remove id =>
      show g.lastId ≤ (g.remove id).lastId
      unfold Graph.remove
      split <;> exact UInt32.le_refl _
  | link a b =>
      simp only [Graph.apply]
      split
      · rename_i l g' hl
        obtain ⟨-, -, rfl⟩ := link_eq_ok hl
        exact UInt32.le_refl _
      · exact UInt32.le_refl _
  | unlink l => exact UInt32.le_refl _
  | unlinkPin p => exact UInt32.le_refl _
  | clear => exact absurd rfl he

/-! ## Sequences -/

theorem Reachable.applyAll (h : g.Reachable) {edits : List (Edit α)}
    (hroom : g.hasNumbersFor edits = true) : (edits.foldl Graph.apply g).Reachable := by
  induction edits generalizing g with
  | nil => exact h
  | cons e rest ih =>
      obtain ⟨hfirst, hrest⟩ := (hasNumbersFor_cons e rest).mp hroom
      exact ih (h.apply hfirst) hrest

theorem lastId_le_applyAll {edits : List (Edit α)} (hroom : g.hasNumbersFor edits = true)
    (hclear : .clear ∉ edits) : g.lastId ≤ (edits.foldl apply g).lastId := by
  induction edits generalizing g with
  | nil => exact UInt32.le_refl _
  | cons e rest ih =>
      obtain ⟨hfirst, hrest⟩ := (hasNumbersFor_cons e rest).mp hroom
      simp only [List.mem_cons, not_or] at hclear
      exact UInt32.le_trans (lastId_le_apply hfirst (Ne.symm hclear.1)) (ih hrest hclear.2)

/-- The store invariant. Whatever edits were made, the refused ones included, and as long as the
counter has not started again: the links are sorted, lead from outputs to inputs of different nodes
of the graph and only one to each input; the index has the positions of the nodes and no others; no
two nodes share a number and none is above the counter. The number that a new node gets has not been
in the graph since it was last cleared. -/
theorem consistent_replay (edits : List (Edit α))
    (h : (empty : Graph α).hasNumbersFor edits = true) :
    (replay edits).Consistent ∧ (replay edits).ids.Nodup ∧
    ∀ node : α, (empty : Graph α).hasNumbersFor (edits ++ [.add node]) = true →
      ∀ earlier later, edits = earlier ++ later → .clear ∉ later →
        ((replay edits).add node).1 ∉ (replay earlier).ids := by
  have hconsistent := (Reachable.empty.applyAll h).consistent
  refine ⟨hconsistent, hconsistent.distinct, ?_⟩
  rintro node hadd earlier later rfl hclear hmem
  obtain ⟨hearlier, hlater⟩ := (hasNumbersFor_append earlier later).mp h
  have hnext := ((hasNumbersFor_append _ _).mp hadd).2
  simp only [hasNumbersFor, Bool.and_true, decide_eq_true_eq] at hnext
  have hold := (Reachable.empty.applyAll hearlier).consistent.le_lastId hmem
  have hgrown := lastId_le_applyAll hlater hclear
  rw [← List.foldl_append] at hgrown
  exact absurd hnext (UInt32.not_lt.mpr (UInt32.le_trans hold hgrown))

/-- Two nodes are linked, a third one takes the place of the first, and then the first goes. The
second link and the second restoring under one number are refused. -/
def rewired : List (Edit Node) :=
  let node := Node.foreign "probe" (some ⟨1, 1⟩)
  [.add node, .add node, .link (.output 1 0) (.input 2 0), .link (.input 2 0) (.output 1 0),
    .restore 7 node, .restore 7 node, .link (.input 2 0) (.output 7 0), .remove 1]

theorem consistent_replay_rewired :
    (empty : Graph Node).hasNumbersFor rewired = true ∧
      (replay rewired).ids = [2, 7] ∧ (replay rewired).links = [.between (.output 7 0) (.input 2 0)] ∧
      (replay rewired).Consistent ∧
      ((replay rewired).add (.foreign "probe" none)).1 ∉ (replay (rewired.take 7)).ids := by
  have hroom : (empty : Graph Node).hasNumbersFor rewired = true := by decide
  have hall := consistent_replay rewired hroom
  refine ⟨hroom, by decide, by decide, hall.1, ?_⟩
  exact hall.2.2 _ (by decide) (rewired.take 7) (rewired.drop 7) (by simp) (by simp [rewired])

end Graph

end NodeShader
