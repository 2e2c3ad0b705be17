import Mathlib.Order.Bounds.Basic
import Mathlib.Order.MinMax
import NodeShader.Text.EditDistance

/-!
# What the edit distance is

The rows of `editDistance` hold the least number of insertions, deletions and replacements of single
characters that turn one text into another (`isLeast_editDistance`).

Edits may touch any place in any order. What they amount to is an alignment: it goes through both
texts once and says of each character whether it is kept, replaced, inserted or deleted. Alignments
of two texts are built from alignments of shorter ones, so the least cost follows a recursion
(`cost`), and entry `j` of a row is the cost for the first `j` characters of the target. As rows are
computed from the front and alignments are built at the front, texts are turned around in between.
-/

namespace NodeShader.Text

/-! ## Edits -/

/-- One character is inserted, deleted or replaced. -/
inductive Edit : List Char → List Char → Prop
  | insert (left right : List Char) (c : Char) : Edit (left ++ right) (left ++ c :: right)
  | delete (left right : List Char) (c : Char) : Edit (left ++ c :: right) (left ++ right)
  | replace (left right : List Char) (c d : Char) : Edit (left ++ c :: right) (left ++ d :: right)

/-- The first text is turned into the second by so many edits. -/
inductive Edits : Nat → List Char → List Char → Prop
  | none (s : List Char) : Edits 0 s s
  | more {n : Nat} {s t u : List Char} (h : Edit s t) (rest : Edits n t u) : Edits (n + 1) s u

theorem Edit.cons {s t : List Char} (h : Edit s t) (c : Char) : Edit (c :: s) (c :: t) := by
  cases h with
  | insert left right d => exact .insert (c :: left) right d
  | delete left right d => exact .delete (c :: left) right d
  | replace left right d e => exact .replace (c :: left) right d e

theorem Edit.reverse {s t : List Char} (h : Edit s t) : Edit s.reverse t.reverse := by
  cases h with
  | insert left right c => simpa using Edit.insert right.reverse left.reverse c
  | delete left right c => simpa using Edit.delete right.reverse left.reverse c
  | replace left right c d => simpa using Edit.replace right.reverse left.reverse c d

theorem Edits.cons {n : Nat} {s t : List Char} (h : Edits n s t) (c : Char) :
    Edits n (c :: s) (c :: t) := by
  induction h with
  | none s => exact .none _
  | more h _ ih => exact .more (h.cons c) ih

theorem Edits.reverse {n : Nat} {s t : List Char} (h : Edits n s t) :
    Edits n s.reverse t.reverse := by
  induction h with
  | none s => exact .none _
  | more h _ ih => exact .more h.reverse ih

theorem edits_reverse_iff {n : Nat} {s t : List Char} :
    Edits n s.reverse t.reverse ↔ Edits n s t :=
  ⟨fun h => by simpa using h.reverse, Edits.reverse⟩

/-! ## Alignments -/

/-- One way through both texts, with the number of characters that are not kept. -/
inductive Aligns : Nat → List Char → List Char → Prop
  | nil : Aligns 0 [] []
  | keep {n : Nat} {s t : List Char} (c : Char) (h : Aligns n s t) : Aligns n (c :: s) (c :: t)
  | replace {n : Nat} {s t : List Char} (c d : Char) (h : Aligns n s t) :
      Aligns (n + 1) (c :: s) (d :: t)
  | insert {n : Nat} {s t : List Char} (d : Char) (h : Aligns n s t) : Aligns (n + 1) s (d :: t)
  | delete {n : Nat} {s t : List Char} (c : Char) (h : Aligns n s t) : Aligns (n + 1) (c :: s) t

/-- What is not kept is edited, from the front on. -/
theorem Aligns.edits {n : Nat} {s t : List Char} (h : Aligns n s t) : Edits n s t := by
  induction h with
  | nil => exact .none []
  | keep c _ ih => exact ih.cons c
  | @replace _ s _ c d _ ih => exact .more (.replace [] s c d) (ih.cons d)
  | @insert _ s _ d _ ih => exact .more (.insert [] s d) (ih.cons d)
  | @delete _ s _ c _ ih => exact .more (.delete [] s c) ih

theorem Aligns.refl (s : List Char) : Aligns 0 s s := by
  induction s with
  | nil => exact .nil
  | cons c rest ih => exact .keep c ih

/-- Whatever the second text is aligned with, the first is at one more at most. -/
def Near (s t : List Char) : Prop := ∀ n u, Aligns n t u → ∃ m ≤ n + 1, Aligns m s u

theorem near_tail (c : Char) (s : List Char) : Near s (c :: s) := by
  intro n u h
  -- insertions come before anything is done with `c`, so the induction goes through them
  generalize hs : c :: s = s' at h
  induction h with
  | nil => cases hs
  | @keep n _ _ _ h _ =>
      cases hs
      exact ⟨n + 1, Nat.le_refl _, .insert c h⟩
  | @replace n _ _ _ d h _ =>
      cases hs
      exact ⟨n + 1, Nat.le_succ _, .insert d h⟩
  | insert d _ ih =>
      obtain ⟨m, hm, h⟩ := ih hs
      exact ⟨m + 1, Nat.succ_le_succ hm, .insert d h⟩
  | @delete n _ _ _ h _ =>
      cases hs
      exact ⟨n, by omega, h⟩

theorem near_head (c d : Char) (s : List Char) : Near (c :: s) (d :: s) := by
  intro n u h
  generalize hs : d :: s = s' at h
  induction h with
  | nil => cases hs
  | @keep n _ _ _ h _ =>
      cases hs
      exact ⟨n + 1, Nat.le_refl _, .replace c d h⟩
  | @replace n _ _ _ e h _ =>
      cases hs
      exact ⟨n + 1, Nat.le_succ _, .replace c e h⟩
  | insert e _ ih =>
      obtain ⟨m, hm, h⟩ := ih hs
      exact ⟨m + 1, Nat.succ_le_succ hm, .insert e h⟩
  | @delete n _ _ _ h _ =>
      cases hs
      exact ⟨n + 1, Nat.le_succ _, .delete c h⟩

theorem Near.cons {s t : List Char} (hnear : Near s t) (c : Char) : Near (c :: s) (c :: t) := by
  intro n u h
  generalize ht : c :: t = t' at h
  induction h with
  | nil => cases ht
  | keep _ h _ =>
      cases ht
      obtain ⟨m, hm, h⟩ := hnear _ _ h
      exact ⟨m, hm, .keep c h⟩
  | replace _ d h _ =>
      cases ht
      obtain ⟨m, hm, h⟩ := hnear _ _ h
      exact ⟨m + 1, Nat.succ_le_succ hm, .replace c d h⟩
  | insert d _ ih =>
      obtain ⟨m, hm, h⟩ := ih ht
      exact ⟨m + 1, Nat.succ_le_succ hm, .insert d h⟩
  | delete _ h _ =>
      cases ht
      obtain ⟨m, hm, h⟩ := hnear _ _ h
      exact ⟨m + 1, Nat.succ_le_succ hm, .delete c h⟩

theorem Near.append {s t : List Char} (hnear : Near s t) (left : List Char) :
    Near (left ++ s) (left ++ t) := by
  induction left with
  | nil => exact hnear
  | cons c rest ih => exact ih.cons c

/-- An edit changes the cost of an alignment by one at most. -/
theorem Edit.near {s t : List Char} (h : Edit s t) : Near s t := by
  cases h with
  | insert left right c => exact (near_tail c right).append left
  | delete left right c =>
      refine Near.append (fun n u h => ?_) left
      exact ⟨n + 1, Nat.le_refl _, .delete c h⟩
  | replace left right c d => exact (near_head c d right).append left

theorem Edits.aligns {n : Nat} {s t : List Char} (h : Edits n s t) : ∃ m ≤ n, Aligns m s t := by
  induction h with
  | none s => exact ⟨0, Nat.le_refl 0, .refl s⟩
  | more h _ ih =>
      obtain ⟨m, hm, haligns⟩ := ih
      -- the edit comes before the others, so the alignment is changed at the first text
      obtain ⟨m', hm', haligns'⟩ := h.near m _ haligns
      exact ⟨m', by omega, haligns'⟩

/-! ## The least cost -/

/-- The least cost of an alignment, by the first characters. -/
def cost : List Char → List Char → Nat
  | [], t => t.length
  | c :: s, [] => (c :: s).length
  | c :: s, d :: t =>
    min (min (cost (c :: s) t + 1) (cost s (d :: t) + 1)) (if c = d then cost s t else cost s t + 1)

theorem cost_nil (s : List Char) : cost s [] = s.length := by
  cases s <;> rw [cost]

theorem aligns_cost (s t : List Char) : Aligns (cost s t) s t := by
  fun_induction cost s t with
  | case1 t =>
      induction t with
      | nil => exact .nil
      | cons d rest ih => exact .insert d ih
  | case2 c s =>
      induction s generalizing c with
      | nil => exact .delete c .nil
      | cons d rest ih => exact .delete c (ih d)
  | case3 c s d t ihInsert ihDelete ihBoth =>
      have hboth : Aligns (if c = d then cost s t else cost s t + 1) (c :: s) (d :: t) := by
        split
        · rename_i heq
          subst heq
          exact .keep c ihBoth
        · exact .replace c d ihBoth
      rcases min_choice (min (cost (c :: s) t + 1) (cost s (d :: t) + 1))
        (if c = d then cost s t else cost s t + 1) with h | h
      · rw [h]
        rcases min_choice (cost (c :: s) t + 1) (cost s (d :: t) + 1) with h | h
        · rw [h]
          exact .insert d ihInsert
        · rw [h]
          exact .delete c ihDelete
      · rw [h]
        exact hboth

theorem cost_le {n : Nat} {s t : List Char} (h : Aligns n s t) : cost s t ≤ n := by
  induction h with
  | nil => rw [cost_nil, List.length_nil]
  | keep c _ ih =>
      rw [cost, if_pos rfl]
      exact (min_le_right _ _).trans ih
  | @replace n s t c d _ ih =>
      rw [cost]
      refine (min_le_right _ _).trans ?_
      split <;> omega
  | @insert n s t d _ ih =>
      cases s with
      | nil =>
          rw [cost] at ih ⊢
          exact Nat.succ_le_succ ih
      | cons c s =>
          rw [cost]
          exact (min_le_left _ _).trans ((min_le_left _ _).trans (Nat.succ_le_succ ih))
  | @delete n s t c _ ih =>
      cases t with
      | nil =>
          rw [cost_nil] at ih ⊢
          exact Nat.succ_le_succ ih
      | cons d t =>
          rw [cost]
          exact (min_le_left _ _).trans ((min_le_right _ _).trans (Nat.succ_le_succ ih))

theorem isLeast_cost (s t : List Char) : IsLeast {n | Edits n s t} (cost s t) := by
  refine ⟨(aligns_cost s t).edits, fun n h => ?_⟩
  obtain ⟨m, hm, haligns⟩ := Edits.aligns h
  exact (cost_le haligns).trans hm

/-! ## Rows -/

/-- The entries of the row for `s` behind the one for `t`: the second text grows by one character after
the other. Both texts are turned around. -/
def entries (s t : List Char) : List Char → List Nat
  | [] => []
  | d :: rest => cost s (d :: t) :: entries s (d :: t) rest

/-- The row for a first text that is turned around. -/
def row (s target : List Char) : List Nat := cost s [] :: entries s [] target

theorem nextEntries_entries (c : Char) (s t rest : List Char) :
    nextEntries c (cost (c :: s) t) (cost s t) rest (entries s t rest) = entries (c :: s) t rest := by
  induction rest generalizing t with
  | nil => rfl
  | cons d rest ih =>
      have hentry : cost (c :: s) (d :: t) = min (min (cost (c :: s) t + 1) (cost s (d :: t) + 1))
          (if c = d then cost s t else cost s t + 1) := by rw [cost]
      simp only [entries, nextEntries]
      rw [← hentry, ih]

theorem nextRow_row (c : Char) (s target : List Char) :
    nextRow c target (row s target) = row (c :: s) target := by
  have hfirst : cost s [] + 1 = cost (c :: s) [] := by rw [cost_nil, cost_nil, List.length_cons]
  rw [row, nextRow, hfirst, nextEntries_entries, row]

theorem entries_nil (t rest : List Char) :
    entries [] t rest = List.range' (t.length + 1) rest.length := by
  induction rest generalizing t with
  | nil => rfl
  | cons d rest ih =>
      rw [entries, ih, cost, List.length_cons, List.length_cons, List.range'_succ]

theorem row_nil (target : List Char) : row [] target = List.range (target.length + 1) := by
  rw [row, entries_nil, cost, List.range_eq_range', List.range'_succ]
  rfl

/-- A row goes on with each character of the first text. -/
theorem foldl_nextRow (source s target : List Char) :
    source.foldl (fun row c => nextRow c target row) (row s target) =
      row (source.reverse ++ s) target := by
  induction source generalizing s with
  | nil => rfl
  | cons c rest ih =>
      rw [List.foldl_cons, nextRow_row, ih, List.reverse_cons, List.append_assoc,
        List.singleton_append]

/-- The last entry is that for the whole second text. -/
theorem getLast?_entries (s t rest : List Char) :
    (cost s t :: entries s t rest).getLast? = some (cost s (rest.reverse ++ t)) := by
  induction rest generalizing t with
  | nil => rfl
  | cons d rest ih =>
      rw [entries, List.getLast?_cons_cons, ih, List.reverse_cons, List.append_assoc,
        List.singleton_append]

theorem editDistance_eq (source target : List Char) :
    editDistance source target = cost source.reverse target.reverse := by
  rw [editDistance, ← row_nil, foldl_nextRow, row, getLast?_entries, List.append_nil, List.append_nil]
  rfl

/-- The edit distance of two texts is the least number of edits that turn one into the other. -/
theorem isLeast_editDistance (source target : List Char) :
    IsLeast {n | Edits n source target} (editDistance source target) := by
  rw [editDistance_eq]
  simpa only [edits_reverse_iff] using isLeast_cost source.reverse target.reverse

end NodeShader.Text
