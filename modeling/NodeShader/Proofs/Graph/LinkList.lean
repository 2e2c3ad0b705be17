import NodeShader.Graph.LinkList
import NodeShader.Proofs.Graph.Pin

/-!
# Sorted link lists as sets

In a sorted list the cut at a key separates the links below the key from the others
(`below_eq_filter`, `atLeast_eq_filter`), and the first link after the cut is the least of these
(`head?_atLeast`). So looking a link up decides whether it is in the list, putting it in adds this link
and keeps the list sorted, and taking it out leaves the others where they are (`erase_eq_filter`).
Where no two links lead to one pin, the look-up at the least word of a pin finds the link that leads
there.
-/

namespace NodeShader

namespace Link

theorem not_lt_self (l : Link) : ¬ l < l := by
  rw [lt_iff_toNat]
  omega

theorem lt_trans {a b c : Link} (hab : a < b) (hbc : b < c) : a < c := by
  rw [lt_iff_toNat] at *
  omega

theorem not_lt_of_lt {a b : Link} (h : a < b) : ¬ b < a := fun h' => not_lt_self a (lt_trans h h')

theorem lt_of_not_lt {a b : Link} (h : ¬ a < b) (hne : a ≠ b) : b < a := by
  have hbits : a.bits.toNat ≠ b.bits.toNat := fun heq => hne (eq_of_toNat heq)
  rw [lt_iff_toNat] at *
  omega

end Link

namespace LinkList

variable {l x key : Link} {ls : List Link}

/-! ## The cut at a key -/

theorem below_append_atLeast (key : Link) (ls : List Link) : below key ls ++ atLeast key ls = ls :=
  List.takeWhile_append_dropWhile

theorem below_eq_filter (h : Sorted ls) (key : Link) : below key ls = ls.filter (· < key) := by
  induction ls with
  | nil => rfl
  | cons y rest ih =>
      obtain ⟨hfirst, hrest⟩ := List.pairwise_cons.mp h
      by_cases hy : y < key
      · rw [below, List.takeWhile_cons_of_pos (by simpa using hy),
          List.filter_cons_of_pos (by simpa using hy)]
        exact congrArg (y :: ·) (ih hrest)
      · -- the first link is not below the key, and all others are above it
        have hnone : ∀ z ∈ rest, ¬ z < key := fun z hz hlt => hy (Link.lt_trans (hfirst z hz) hlt)
        rw [below, List.takeWhile_cons_of_neg (by simpa using hy),
          List.filter_cons_of_neg (by simpa using hy)]
        exact (List.filter_eq_nil_iff.mpr fun z hz => by simpa using hnone z hz).symm

theorem atLeast_eq_filter (h : Sorted ls) (key : Link) :
    atLeast key ls = ls.filter (¬ · < key) := by
  induction ls with
  | nil => rfl
  | cons y rest ih =>
      obtain ⟨hfirst, hrest⟩ := List.pairwise_cons.mp h
      by_cases hy : y < key
      · rw [atLeast, List.dropWhile_cons_of_pos (by simpa using hy),
          List.filter_cons_of_neg (by simpa using hy)]
        exact ih hrest
      · have hall : ∀ z ∈ rest, ¬ z < key := fun z hz hlt => hy (Link.lt_trans (hfirst z hz) hlt)
        rw [atLeast, List.dropWhile_cons_of_neg (by simpa using hy),
          List.filter_cons_of_pos (by simpa using hy)]
        exact congrArg (y :: ·) (List.filter_eq_self.mpr fun z hz => by simpa using hall z hz).symm

theorem mem_below (h : Sorted ls) : x ∈ below key ls ↔ x ∈ ls ∧ x < key := by
  simp [below_eq_filter h]

theorem mem_atLeast (h : Sorted ls) : x ∈ atLeast key ls ↔ x ∈ ls ∧ ¬ x < key := by
  rw [atLeast_eq_filter h, List.mem_filter, decide_eq_true_eq]

theorem sorted_atLeast (h : Sorted ls) : Sorted (atLeast key ls) :=
  h.sublist (List.dropWhile_sublist _)

/-- The first link after the cut is the least that is not below the key. -/
theorem head?_atLeast (h : Sorted ls) :
    (atLeast key ls).head? = some l ↔
      l ∈ ls ∧ ¬ l < key ∧ ∀ x ∈ ls, ¬ x < key → ¬ x < l := by
  have hsorted : Sorted (atLeast key ls) := sorted_atLeast h
  have hmem : ∀ x, x ∈ atLeast key ls ↔ x ∈ ls ∧ ¬ x < key := fun _ => mem_atLeast h
  cases hcut : atLeast key ls with
  | nil =>
      rw [hcut] at hmem
      constructor
      · simp
      · rintro ⟨hl, hkey, -⟩
        exact absurd ((hmem l).mpr ⟨hl, hkey⟩) (by simp)
  | cons y rest =>
      rw [hcut] at hmem hsorted
      have hfirst := (List.pairwise_cons.mp hsorted).1
      have hleast : ∀ x ∈ ls, ¬ x < key → ¬ x < y := by
        intro x hx hkey
        rcases List.mem_cons.mp ((hmem x).mpr ⟨hx, hkey⟩) with rfl | hx
        · exact Link.not_lt_self x
        · exact Link.not_lt_of_lt (hfirst x hx)
      have hy := (hmem y).mp List.mem_cons_self
      rw [List.head?_cons, Option.some.injEq]
      constructor
      · rintro rfl
        exact ⟨hy.1, hy.2, hleast⟩
      · rintro ⟨hl, hkey, hmin⟩
        refine Decidable.byContradiction fun hne => ?_
        exact hmin y hy.1 hy.2 (Link.lt_of_not_lt (hleast l hl hkey) (Ne.symm hne))

/-! ## Membership and order -/

theorem has_iff (h : Sorted ls) : has l ls = true ↔ l ∈ ls := by
  rw [has, decide_eq_true_eq, head?_atLeast h]
  exact ⟨fun hl => hl.1, fun hl => ⟨hl, Link.not_lt_self l, fun _ _ hx => hx⟩⟩

theorem mem_insert : x ∈ insert l ls ↔ x = l ∨ x ∈ ls := by
  have hls : x ∈ ls ↔ x ∈ below l ls ∨ x ∈ atLeast l ls := by
    rw [← List.mem_append, below_append_atLeast]
  rw [insert, List.mem_append, List.mem_cons, hls]
  exact or_left_comm

theorem sorted_insert (h : Sorted ls) (hl : l ∉ ls) : Sorted (insert l ls) := by
  have hcut : Sorted (below l ls ++ atLeast l ls) := (below_append_atLeast l ls).symm ▸ h
  obtain ⟨hbelow, habove, hacross⟩ := List.pairwise_append.mp hcut
  refine List.pairwise_append.mpr ⟨hbelow, List.pairwise_cons.mpr ⟨?_, habove⟩, ?_⟩
  · intro x hx
    obtain ⟨hmem, hnot⟩ := (mem_atLeast h).mp hx
    exact Link.lt_of_not_lt hnot fun heq => hl (heq ▸ hmem)
  · intro x hx y hy
    rcases List.mem_cons.mp hy with rfl | hy
    · exact ((mem_below h).mp hx).2
    · exact hacross x hx y hy

/-- Taking a link out leaves the others where they are. -/
theorem erase_eq_filter (h : Sorted ls) : erase l ls = ls.filter (· ≠ l) := by
  by_cases hl : l ∈ ls
  · have hcut : (atLeast l ls).head? = some l := of_decide_eq_true ((has_iff h).mpr hl)
    obtain ⟨rest, hrest⟩ := List.head?_eq_some_iff.mp hcut
    have hafter := (List.pairwise_cons.mp (hrest ▸ (sorted_atLeast h : Sorted (atLeast l ls)))).1
    have hbefore : (below l ls).filter (· ≠ l) = below l ls := by
      refine List.filter_eq_self.mpr fun x hx => ?_
      have hlt := ((mem_below h).mp hx).2
      exact decide_eq_true fun heq => Link.not_lt_self l (heq ▸ hlt)
    have hbehind : rest.filter (· ≠ l) = rest := by
      refine List.filter_eq_self.mpr fun x hx => ?_
      exact decide_eq_true fun heq => Link.not_lt_self l (heq ▸ hafter x hx)
    have hself : (l :: rest).filter (· ≠ l) = rest := by
      rw [List.filter_cons_of_neg (by simp), hbehind]
    rw [erase, if_pos ((has_iff h).mpr hl)]
    have hsplit : ls = below l ls ++ l :: rest := hrest ▸ (below_append_atLeast l ls).symm
    calc below l ls ++ (atLeast l ls).tail
        = below l ls ++ rest := by rw [hrest, List.tail_cons]
      _ = (below l ls ++ l :: rest).filter (· ≠ l) := by rw [List.filter_append, hbefore, hself]
      _ = ls.filter (· ≠ l) := by rw [← hsplit]
  · rw [erase, if_neg (fun hhas => hl ((has_iff h).mp hhas))]
    refine (List.filter_eq_self.mpr fun x hx => ?_).symm
    exact decide_eq_true fun heq => hl (heq ▸ hx)

/-! ## The link into a pin -/

/-- Links into a pin are not below its least word, and no link into another pin lies between. -/
theorem target_of_between {p : Pin} (hl : l.target = p) (hfloor : ¬ x < Link.floorOf p)
    (hx : ¬ l < x) : x.target = p := by
  have hxs := x.source.bits.toNat_lt
  have hls := l.source.bits.toNat_lt
  rw [Link.lt_iff_toNat] at hfloor hx
  rw [Link.toNat_bits_floorOf, Link.toNat_bits] at hfloor
  rw [Link.toNat_bits, Link.toNat_bits, hl] at hx
  have hbits : x.target.bits = p.bits := UInt32.toNat_inj.mp (by omega)
  exact congrArg Pin.mk hbits

theorem not_lt_floorOf {p : Pin} (hl : l.target = p) : ¬ l < Link.floorOf p := by
  rw [Link.lt_iff_toNat, Link.toNat_bits_floorOf, Link.toNat_bits, hl]
  omega

/-- Where no two links lead to one pin, the look-up finds exactly the link that leads there. -/
theorem into?_eq_some_iff {p : Pin} (h : Sorted ls)
    (hsingle : ∀ l ∈ ls, ∀ l' ∈ ls, l.target = l'.target → l = l') :
    into? p ls = some l ↔ l ∈ ls ∧ l.target = p := by
  rw [into?, Option.filter_eq_some_iff, head?_atLeast h, decide_eq_true_eq]
  constructor
  · rintro ⟨⟨hl, -, -⟩, htarget⟩
    exact ⟨hl, htarget⟩
  · rintro ⟨hl, htarget⟩
    refine ⟨⟨hl, not_lt_floorOf htarget, ?_⟩, htarget⟩
    intro x hx hfloor hlt
    have hbetween := target_of_between htarget hfloor (Link.not_lt_of_lt hlt)
    have hsame := hsingle x hx l hl (hbetween.trans htarget.symm)
    exact Link.not_lt_self l (hsame ▸ hlt)

end LinkList

end NodeShader
