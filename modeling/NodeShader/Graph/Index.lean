import NodeShader.Graph.Pin

/-!
# Where nodes stand

A graph keeps its nodes in a list and finds them by number through an index, which gives the position
of every number that is in use. Taking a node out of the list moves those behind it, and they are
entered again with the positions they have then.
-/

namespace NodeShader

/-- Numbers of nodes with their positions. No number is entered twice. -/
structure Index where
  entries : List (NodeId × Nat) := []
  deriving DecidableEq, Repr, Inhabited

namespace Index

/-- The position of a number. -/
def position? (ix : Index) (id : NodeId) : Option Nat := ix.entries.lookup id

/-- Takes a number out. -/
def erase (ix : Index) (id : NodeId) : Index := ⟨ix.entries.filter (·.1 ≠ id)⟩

/-- Enters a number. A position it had before is gone. -/
def put (ix : Index) (id : NodeId) (i : Nat) : Index := ⟨(id, i) :: (ix.erase id).entries⟩

/-- Enters numbers with the positions from `i` on. -/
def putFrom (ix : Index) : Nat → List NodeId → Index
  | _, [] => ix
  | i, id :: rest => (ix.put id i).putFrom (i + 1) rest

theorem position?_erase (ix : Index) (id j : NodeId) :
    (ix.erase id).position? j = if j = id then none else ix.position? j := by
  simp only [erase, position?]
  induction ix.entries with
  | nil => simp
  | cons e rest ih =>
      obtain ⟨k, i⟩ := e
      by_cases hk : k = id
      · rw [List.filter_cons_of_neg (by simpa using hk), ih]
        by_cases hj : j = id
        · simp [hj]
        · have hne : (j == k) = false := by simpa [hk] using hj
          simp [List.lookup_cons, hne]
      · rw [List.filter_cons_of_pos (by simpa using hk), List.lookup_cons, List.lookup_cons, ih]
        by_cases hj : j = k
        · simp [hj, hk]
        · have hne : (j == k) = false := by simpa using hj
          simp [hne]

theorem position?_put (ix : Index) (id j : NodeId) (i : Nat) :
    (ix.put id i).position? j = if j = id then some i else ix.position? j := by
  have herase := ix.position?_erase id j
  simp only [put, position?, List.lookup_cons] at herase ⊢
  by_cases hj : j = id
  · simp [hj]
  · have hne : (j == id) = false := by simpa using hj
    simp only [hne, herase, if_neg hj]

/-- A number that is entered once among others has its place among them as its position. -/
theorem position?_putFrom (ids : List NodeId) (h : ids.Nodup) (ix : Index) (i : Nat) (j : NodeId) :
    (ix.putFrom i ids).position? j =
      if j ∈ ids then some (i + ids.idxOf j) else ix.position? j := by
  induction ids generalizing ix i with
  | nil => simp [putFrom]
  | cons id rest ih =>
      obtain ⟨hnew, hrest⟩ := List.nodup_cons.mp h
      rw [putFrom, ih hrest, position?_put]
      by_cases hj : j = id
      · subst hj
        simp [hnew]
      · have hne : (id == j) = false := by simpa using Ne.symm hj
        by_cases hmem : j ∈ rest
        · rw [if_pos hmem, if_pos (List.mem_cons_of_mem _ hmem), List.idxOf_cons, hne]
          simp only [cond_false]
          congr 1
          omega
        · simp [hmem, hj]

end Index

end NodeShader
