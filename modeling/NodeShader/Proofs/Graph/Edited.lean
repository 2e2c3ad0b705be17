import NodeShader.Proofs.Graph.Edits

/-!
# Every graph that calls can make

`Graph.Reachable` stops before the counter of node numbers starts again. `Graph.Edited` does not: it
holds of whatever any sequence of calls makes of an empty graph, the refused calls and the changes of
single nodes included. Two nodes may then have one number, and not all of `Graph.Consistent` is left.
What is left is enough for links and for taking nodes out.

* `Graph.Edited.wellLinked`: the links are sorted, lead from outputs to inputs, one to each input.
* `Graph.Edited.pointed`: the index leads to nodes with the number looked up, and to the last one of
  each number.
-/

namespace NodeShader

/-! ## Indexes of lists with repetitions -/

namespace Index

/-- The index leads only to places of a list where the number looked up stands for the last time. -/
def PointsInto (ix : Index) (ids : List NodeId) : Prop :=
  ∀ id i, ix.position? id = some i → ids[i]? = some id ∧ id ∉ ids.drop (i + 1)

variable {ix : Index} {ids : List NodeId}

theorem PointsInto.put (h : ix.PointsInto ids) (id : NodeId) :
    (ix.put id ids.length).PointsInto (ids ++ [id]) := by
  intro j i hj
  rw [position?_put] at hj
  by_cases hjid : j = id
  · rw [if_pos hjid, Option.some.injEq] at hj
    subst hjid hj
    simp
  · rw [if_neg hjid] at hj
    obtain ⟨hget, hlast⟩ := h j i hj
    have hlt := (List.getElem?_eq_some_iff.mp hget).1
    rw [List.getElem?_append_left hlt, List.drop_append_of_le_length (by omega)]
    exact ⟨hget, by simp [hlast, hjid]⟩

/-- Entering the end of a list anew: the index leads into the list when it did so for the numbers
that are not entered. -/
theorem PointsInto.putFrom {before rest : List NodeId} (hids : ids = before ++ rest)
    (h : ∀ j i, j ∉ rest → ix.position? j = some i → ids[i]? = some j ∧ j ∉ ids.drop (i + 1)) :
    (ix.putFrom before.length rest).PointsInto ids := by
  induction rest generalizing ix before with
  | nil => exact fun j i hj => h j i (by simp) hj
  | cons id rest ih =>
      have hlength : (before ++ [id]).length = before.length + 1 := by simp
      rw [Index.putFrom, ← hlength]
      refine ih (by rw [hids, List.append_cons]) fun j i hrest hj => ?_
      rw [position?_put] at hj
      by_cases hjid : j = id
      · rw [if_pos hjid, Option.some.injEq] at hj
        subst hjid hj hids
        have hdrop : (before ++ j :: rest).drop (before.length + 1) = rest := by
          rw [List.append_cons, ← hlength, List.drop_left]
        exact ⟨by simp, by rw [hdrop]; exact hrest⟩
      · rw [if_neg hjid] at hj
        exact h j i (by simp [hjid, hrest]) hj

theorem position?_putFrom_of_notMem {j : NodeId} (hj : j ∉ ids) (i : Nat) :
    (ix.putFrom i ids).position? j = ix.position? j := by
  induction ids generalizing ix i with
  | nil => rfl
  | cons id rest ih =>
      rw [List.mem_cons, not_or] at hj
      rw [putFrom, ih hj.2, position?_put, if_neg hj.1]

/-- When a place leaves the list, those behind it are entered anew, and its number is not among
them. -/
theorem PointsInto.erase (h : ix.PointsInto ids) {id : NodeId} {i : Nat}
    (hi : ix.position? id = some i) :
    ((ix.erase id).putFrom i ((ids.eraseIdx i).drop i)).PointsInto (ids.eraseIdx i) ∧
      ((ix.erase id).putFrom i ((ids.eraseIdx i).drop i)).position? id = none := by
  obtain ⟨hget, hlast⟩ := h id i hi
  have hlt := (List.getElem?_eq_some_iff.mp hget).1
  have hlength : (ids.take i).length = i := by
    rw [List.length_take]
    omega
  have hsplit : ids.eraseIdx i = ids.take i ++ ids.drop (i + 1) :=
    List.eraseIdx_eq_take_drop_succ ids i
  have hbehind : (ids.eraseIdx i).drop i = ids.drop (i + 1) := by
    rw [hsplit, List.drop_left' hlength]
  rw [hbehind]
  constructor
  · have hput := @PointsInto.putFrom (ix.erase id) _ _ _ hsplit
    rw [hlength] at hput
    refine hput fun j k hj hk => ?_
    rw [position?_erase] at hk
    by_cases hjid : j = id
    · rw [if_pos hjid] at hk
      exact absurd hk (by simp)
    · rw [if_neg hjid] at hk
      obtain ⟨hjget, hjlast⟩ := h j k hk
      -- a number that is not entered anew stands before the gap
      have hki : k < i := by
        rcases Nat.lt_trichotomy k i with hlt | rfl | hgt
        · exact hlt
        · rw [hget, Option.some.injEq] at hjget
          exact absurd hjget.symm hjid
        · refine absurd (List.mem_of_getElem? (i := k - (i + 1)) ?_) hj
          rw [List.getElem?_drop, show i + 1 + (k - (i + 1)) = k by omega]
          exact hjget
      rw [List.getElem?_eraseIdx, if_pos hki]
      exact ⟨hjget, fun hmem => hjlast (((List.eraseIdx_sublist ids i).drop _).subset hmem)⟩
  · rw [position?_putFrom_of_notMem hlast, position?_erase, if_pos rfl]

end Index

namespace Graph

variable {α : Type} {g g' : Graph α}

/-! ## Links -/

theorem wellLinked_empty : (Graph.empty : Graph α).WellLinked := by
  refine ⟨List.Pairwise.nil, ?_, ?_, ?_⟩ <;> simp [Graph.empty]

/-- Fewer links. -/
theorem WellLinked.sublist (h : g.WellLinked) (hsub : g'.links.Sublist g.links) : g'.WellLinked where
  sorted := h.sorted.sublist hsub
  single l hl l' hl' := h.single l (hsub.subset hl) l' (hsub.subset hl')
  sources l hl := h.sources l (hsub.subset hl)
  targets l hl := h.targets l (hsub.subset hl)

variable [CountsPins α]

theorem WellLinked.apply (h : g.WellLinked) (e : Edit α) : (g.apply e).WellLinked := by
  cases e with
  | add node => exact h.sublist (List.Sublist.refl _)
  | restore id node =>
      simp only [Graph.apply]
      split
      · rename_i g' hr
        obtain ⟨-, -, rfl⟩ := restore_eq_ok hr
        exact h.sublist (List.Sublist.refl _)
      · exact h
  | remove id =>
      show (g.remove id).WellLinked
      unfold Graph.remove
      split
      · exact h
      · exact h.sublist List.filter_sublist
  | link a b =>
      simp only [Graph.apply]
      split
      · rename_i l g' hl
        exact h.link hl
      · exact h
  | unlink l =>
      refine h.sublist ?_
      show (LinkList.erase l g.links).Sublist g.links
      rw [LinkList.erase_eq_filter h.sorted]
      exact List.filter_sublist
  | unlinkPin p => exact h.sublist List.filter_sublist
  | clear => exact wellLinked_empty

/-! ## Nodes by number -/

omit [CountsPins α] in
/-- The node that is found under a number stands in the list, behind all others of the number. -/
theorem exists_split_of_node? (h : g.index.PointsInto g.ids) {id : NodeId} {n : α}
    (hn : g.node? id = some n) : ∃ before after, g.nodes = before ++ ⟨id, n⟩ :: after ∧
      g.index.position? id = some before.length := by
  obtain ⟨i, hi, hnode⟩ := Option.bind_eq_some_iff.mp hn
  obtain ⟨m, hm, rfl⟩ := Option.map_eq_some_iff.mp hnode
  obtain ⟨hlt, hget⟩ := List.getElem?_eq_some_iff.mp hm
  have hid : m.id = id := by
    have hids := (h id i hi).1
    rw [ids, List.getElem?_map, hm, Option.map_some, Option.some.injEq] at hids
    exact hids
  have hlength : (g.nodes.take i).length = i := by
    rw [List.length_take]
    omega
  refine ⟨g.nodes.take i, g.nodes.drop (i + 1), ?_, by rw [hlength]; exact hi⟩
  rw [← hid, ← hget, List.getElem_cons_drop, List.take_append_drop]

omit [CountsPins α] in
/-- A number that the index has leads to a node. -/
theorem contains_eq_isSome_node? (h : g.index.PointsInto g.ids) (id : NodeId) :
    g.contains id = (g.node? id).isSome := by
  unfold contains node?
  cases hi : g.index.position? id with
  | none => rfl
  | some i =>
      have hlt := (List.getElem?_eq_some_iff.mp (h id i hi).1).1
      rw [ids, List.length_map] at hlt
      simp [hlt]

theorem pointed_apply (h : g.index.PointsInto g.ids) (e : Edit α) :
    (g.apply e).index.PointsInto (g.apply e).ids := by
  have hinsert : ∀ id node, (g.insert id node).index.PointsInto (g.insert id node).ids := by
    intro id node
    have hlength : g.ids.length = g.nodes.length := List.length_map _
    have hput := h.put id
    rw [hlength] at hput
    have hids : (g.insert id node).ids = g.ids ++ [id] := List.map_append
    rw [hids]
    exact hput
  cases e with
  | add node => exact hinsert _ node
  | restore id node =>
      simp only [Graph.apply]
      split
      · rename_i g' hr
        obtain ⟨-, -, rfl⟩ := restore_eq_ok hr
        exact hinsert id node
      · exact h
  | remove id =>
      show (g.remove id).index.PointsInto (g.remove id).ids
      unfold Graph.remove
      split
      · exact h
      · rename_i i hi
        have hids : (g.nodes.eraseIdx i).map Numbered.id = g.ids.eraseIdx i :=
          (List.eraseIdx_map _ _ _).symm
        show Index.PointsInto (Index.putFrom _ i (((g.nodes.eraseIdx i).drop i).map Numbered.id))
          ((g.nodes.eraseIdx i).map Numbered.id)
        rw [List.map_drop, hids]
        exact (h.erase hi).1
  | link a b =>
      simp only [Graph.apply]
      split
      · rename_i l g' hl
        obtain ⟨-, -, rfl⟩ := link_eq_ok hl
        exact h
      · exact h
  | unlink l => exact h
  | unlinkPin p => exact h
  | clear => exact fun id i hi => by simp [Graph.apply, Graph.empty, Index.position?] at hi

/-! ## Sequences of calls -/

/-- The graphs that calls make from an empty one: edits with any arguments, those that are refused
and those after the counter has started again included, and changes of single nodes. -/
inductive Edited : Graph α → Prop
  | empty : Edited empty
  | apply {g : Graph α} (e : Edit α) : Edited g → Edited (g.apply e)
  | modify {g : Graph α} (id : NodeId) (f : α → α) : Edited g → Edited (g.modify id f)

theorem Edited.wellLinked (h : g.Edited) : g.WellLinked := by
  induction h with
  | empty => exact wellLinked_empty
  | apply e _ ih => exact ih.apply e
  | modify id f _ ih => exact ih.sublist (List.Sublist.refl _)

theorem Edited.pointed (h : g.Edited) : g.index.PointsInto g.ids := by
  induction h with
  | empty => exact fun id i hi => by simp [Graph.empty, Index.position?] at hi
  | apply e _ ih => exact pointed_apply ih e
  | modify id f _ ih =>
      rw [ids_modify]
      exact ih

theorem edited_replay (edits : List (Edit α)) : (replay edits).Edited := by
  have hrun : ∀ (edits : List (Edit α)) (g : Graph α), g.Edited → (edits.foldl apply g).Edited := by
    intro edits
    induction edits with
    | nil => exact fun g h => h
    | cons e rest ih => exact fun g h => ih (g.apply e) (h.apply e)
  exact hrun edits empty .empty

/-- Graphs whose counter has not started again are among them. -/
theorem Reachable.edited (h : g.Reachable) : g.Edited := by
  induction h with
  | empty => exact .empty
  | add node _ _ ih => exact ih.apply (.add node)
  | restore id node _ hr ih =>
      have happly := ih.apply (.restore id node)
      simp only [Graph.apply, hr] at happly
      exact happly
  | remove id _ ih => exact ih.apply (.remove id)
  | edit id f _ _ ih => exact ih.modify id f
  | link a b _ hl ih =>
      have happly := ih.apply (.link a b)
      simp only [Graph.apply, hl] at happly
      exact happly
  | unlink l _ ih => exact ih.apply (.unlink l)
  | unlinkPin p _ ih => exact ih.apply (.unlinkPin p)

end Graph

end NodeShader
