import Mathlib.Data.List.Basic
import Mathlib.Data.Prod.Lex
import Mathlib.Data.String.Basic
import NodeShader.Proofs.Node.Registrations
import NodeShader.Proofs.Text.EditDistance

/-!
# Listings

What a registry lists depends on the archetypes that it has and not on the order in which it got them.
Listings are sorted by two keys, the second of which is the identifier. As identifiers are unique, no
two entries have the same keys, and a list with the same entries is sorted in one way only
(`eq_of_sorted_by`). So it does not matter either how it is sorted.

* `Registry.Reachable.lists`: what is in a listing, and in which order.
* `Registry.perm_archetypes_after`: requests in another order leave a registry with the same archetypes,
  if archetypes of one identifier are the same.
* `Registry.listings_agree`: registries with the same archetypes have the same listings.
-/

namespace NodeShader

/-! ## Sorting by a key -/

section Sorting

variable {α κ : Type} [LinearOrder κ] {key : α → κ} {le : α → α → Bool}

/-- A list is sorted strictly if no two entries have the same key. -/
theorem sorted_by_mergeSort (hle : ∀ a b, le a b = true ↔ key a ≤ key b) {l : List α}
    (hkeys : (l.map key).Nodup) : (l.mergeSort le).Pairwise fun a b => key a < key b := by
  have hsorted : (l.mergeSort le).Pairwise fun a b => le a b = true :=
    List.pairwise_mergeSort
      (fun a b c hab hbc => (hle a c).mpr (((hle a b).mp hab).trans ((hle b c).mp hbc)))
      (fun a b => by simpa [hle] using le_total (key a) (key b)) l
  have hne : (l.mergeSort le).Pairwise fun a b => key a ≠ key b :=
    List.pairwise_map.mp (((List.mergeSort_perm l le).map key).nodup_iff.mpr hkeys)
  exact hsorted.imp₂ (fun a b hab hab' => lt_of_le_of_ne ((hle a b).mp hab) hab') hne

/-- There is one way to sort the same entries. -/
theorem eq_of_sorted_by {l l' : List α} (hperm : l.Perm l')
    (h : l.Pairwise fun a b => key a < key b) (h' : l'.Pairwise fun a b => ¬ key b < key a) :
    l = l' := by
  have hkeys : (l.map key).Nodup := List.pairwise_map.mpr (h.imp fun hab => hab.ne)
  refine List.Perm.eq_of_pairwise ?_ (h.imp fun hab hba => lt_asymm hab hba) h' hperm
  intro a b ha hb hab hba
  exact List.inj_on_of_nodup_map hkeys ha (hperm.mem_iff.mpr hb)
    (le_antisymm (not_lt.mp hab) (not_lt.mp hba))

end Sorting

/-! ## Lower case -/

namespace Text

/-- Of the ranges that have a lower case, only that of the letters from `A` to `Z` is in ASCII. -/
theorem range_eq_of_low_lt : ∀ range ∈ lowerRanges.toList,
    range.low < 128 → range.low = 65 ∧ range.high = 90 ∧ range.shift = 32 := by
  decide +kernel

theorem exists_range_letters : ∃ range ∈ lowerRanges.toList,
    range.low = 65 ∧ range.high = 90 ∧ range.stride = 1 := by
  decide +kernel

/-- The lower case of ASCII characters: letters from `A` to `Z` change, and nothing else does. -/
theorem lowerChar_ascii {c : Char} (h : c.toNat < 128) : lowerChar c = c.toLower := by
  unfold lowerChar
  simp only [← Array.find?_toList]
  split
  next range hfind =>
    have hmatch := List.find?_some hfind
    simp only [Bool.and_eq_true, decide_eq_true_eq] at hmatch
    obtain ⟨hlow, hhigh, hshift⟩ :=
      range_eq_of_low_lt range (List.mem_of_find?_eq_some hfind) (by omega)
    have hletters : ∀ n : Nat, n ≤ 90 → 65 ≤ n →
        Char.ofNat ((n : Int) + 32).toNat = (Char.ofNat n).toLower := by
      decide +kernel
    have hc := hletters c.toNat (by omega) (by omega)
    rwa [Char.ofNat_toNat, ← hshift] at hc
  next hfind =>
    obtain ⟨range, hmem, hlow, hhigh, hstride⟩ := exists_range_letters
    have hmatch := List.find?_eq_none.mp hfind range hmem
    simp only [Bool.and_eq_true, decide_eq_true_eq, hlow, hhigh, hstride, Nat.mod_one,
      and_true] at hmatch
    have hsame : c.toLower = c := dif_neg hmatch
    exact hsame.symm

theorem lower_ascii {s : String} (h : ∀ c ∈ s.toList, c.toNat < 128) : lower s = s.toLower := by
  have hchars : s.toList.map lowerChar = s.toList.map Char.toLower :=
    List.map_congr_left fun c hc => lowerChar_ascii (h c hc)
  refine String.toList_inj.mp ?_
  change (s.map lowerChar).toList = (s.map Char.toLower).toList
  rw [String.toList_map, String.toList_map, hchars]

-- letters beyond ASCII have a lower case too
example : lower "Ä\u03a3Ж" = "ä\u03c3ж" := by decide +kernel

end Text

namespace Registry

variable {r r' : Registry}

/-- The archetypes of a registry, in the order they were registered. -/
def archetypes (r : Registry) : List Archetype := r.entries.map (·.archetype)

theorem Reachable.nodup_ids (h : r.Reachable) : (r.archetypes.map Archetype.id).Nodup := by
  simpa [archetypes, Function.comp_def] using h.distinct

theorem Reachable.nodup_archetypes (h : r.Reachable) : r.archetypes.Nodup :=
  List.Nodup.of_map Archetype.id h.nodup_ids

/-! ## All archetypes -/

/-- The keys of a listing: the category, then the identifier. -/
def listingKey (a : Archetype) : String ×ₗ String := toLex (a.category, a.id)

theorem listedBefore_iff (a b : Archetype) :
    listedBefore a b = true ↔ listingKey a ≤ listingKey b := by
  rw [listingKey, listingKey, Prod.Lex.toLex_le_toLex, listedBefore]
  by_cases heq : a.category = b.category
  · simp [heq]
  · simp [heq]

theorem listingKey_lt_iff (a b : Archetype) :
    listingKey a < listingKey b ↔ a.category < b.category ∨ a.category = b.category ∧ a.id < b.id := by
  rw [listingKey, listingKey, Prod.Lex.toLex_lt_toLex]

theorem perm_all (r : Registry) : r.all.Perm r.archetypes := List.mergeSort_perm _ _

theorem Reachable.sorted_all (h : r.Reachable) :
    r.all.Pairwise fun a b => listingKey a < listingKey b := by
  refine sorted_by_mergeSort listedBefore_iff (List.Nodup.of_map (fun k => (ofLex k).2) ?_)
  rw [List.map_map]
  exact h.nodup_ids

/-! ## Categories -/

theorem mem_distinct {c : String} {l : List String} : c ∈ distinct l ↔ c ∈ l := by
  induction l with
  | nil => rfl
  | cons s rest ih =>
      rw [distinct, List.mem_cons, List.mem_cons, List.mem_filter, ih]
      by_cases h : c = s
      · simp [h]
      · simp [h]

theorem nodup_distinct (l : List String) : (distinct l).Nodup := by
  induction l with
  | nil => exact List.nodup_nil
  | cons s rest ih =>
      rw [distinct, List.nodup_cons]
      exact ⟨by simp, ih.filter _⟩

theorem sorted_categories (r : Registry) : r.categories.Pairwise (· < ·) := by
  have hle : ∀ a b : String, decide (a ≤ b) = true ↔ id a ≤ id b := fun _ _ => decide_eq_true_iff
  refine sorted_by_mergeSort hle ?_
  rw [List.map_id]
  exact nodup_distinct _

theorem mem_categories {c : String} :
    c ∈ r.categories ↔ ∃ a ∈ r.archetypes, a.hidden = false ∧ a.category = c := by
  rw [categories, (List.mergeSort_perm _ _).mem_iff, mem_distinct]
  simp [archetypes, and_assoc]

/-! ## Archetypes that match a text -/

theorem occursIn_iff {needle text : List Char} : occursIn needle text = true ↔ needle <:+: text := by
  induction text with
  | nil => simp [occursIn]
  | cons c rest ih => simp [occursIn, ih, List.infix_cons_iff]

/-- The text, in lower case, occurs in another in lower case. -/
def OccursIn (text whole : String) : Prop := (Text.lower text).toList <:+: (Text.lower whole).toList

/-- Upper and lower case of ASCII letters are the same to a search. -/
theorem occursIn_ascii_iff {text whole : String} (htext : ∀ c ∈ text.toList, c.toNat < 128)
    (hwhole : ∀ c ∈ whole.toList, c.toNat < 128) :
    OccursIn text whole ↔ text.toLower.toList <:+: whole.toLower.toList := by
  rw [OccursIn, Text.lower_ascii htext, Text.lower_ascii hwhole]

theorem matchesText_iff {text : String} {a : Archetype} :
    matchesText text a = true ↔
      OccursIn text a.category ∨ OccursIn text a.id ∨ OccursIn text a.title := by
  simp [matchesText, OccursIn, occursIn_iff]

theorem mem_filter {text : String} {a : Archetype} :
    a ∈ r.filter text ↔ a ∈ r.archetypes ∧ a.hidden = false ∧
      (OccursIn text a.category ∨ OccursIn text a.id ∨ OccursIn text a.title) := by
  rw [filter, List.mem_filter, r.perm_all.mem_iff]
  simp [matchesText_iff]

/-! ## Suggestions -/

/-- An identifier with its distance to a name. -/
def measured (name id : String) : Nat × String := (Text.editDistance name.toList id.toList, id)

/-- The first identifier is closer to a name, or comes before the other at the same distance. -/
def Closer (name a b : String) : Prop :=
  Text.editDistance name.toList a.toList < Text.editDistance name.toList b.toList ∨
    Text.editDistance name.toList a.toList = Text.editDistance name.toList b.toList ∧ a < b

instance (name a b : String) : Decidable (Closer name a b) := inferInstanceAs (Decidable (_ ∨ _))

/-- The identifiers that are close enough to a name, in the order they were registered. -/
def near (r : Registry) (name : String) : List String :=
  (r.archetypes.map Archetype.id).filter
    fun id => Text.editDistance name.toList id.toList ≤ Text.byteLength name / 3 + 2

theorem closerThan_iff (a b : Nat × String) : closerThan a b = true ↔ toLex a ≤ toLex b := by
  rw [Prod.Lex.toLex_le_toLex, closerThan]
  by_cases heq : a.1 = b.1
  · simp [heq]
  · simp [heq]

/-- The keys of a suggestion: the distance to a name, then the identifier. -/
def suggestionKey (name id : String) : Nat ×ₗ String := toLex (measured name id)

theorem suggestionKey_lt_iff (name a b : String) :
    suggestionKey name a < suggestionKey name b ↔ Closer name a b :=
  Prod.Lex.toLex_lt_toLex

/-- The identifiers that are close enough to a name, sorted. -/
def sortedNear (r : Registry) (name : String) : List String :=
  (r.near name).mergeSort fun a b => closerThan (measured name a) (measured name b)

/-- Identifiers can be sorted by their distances without being paired with them. -/
theorem suggest_eq (r : Registry) (name : String) : r.suggest name = (r.sortedNear name).take 3 := by
  have hpairs : r.entries.map (fun e => measured name e.archetype.id) =
      (r.archetypes.map Archetype.id).map (measured name) := by
    rw [archetypes, List.map_map, List.map_map]
    rfl
  have hnear : (r.entries.map fun e => measured name e.archetype.id).filter
      (·.1 ≤ distanceLimit name) = (r.near name).map (measured name) := by
    rw [hpairs, List.filter_map]
    rfl
  have hsort : (r.sortedNear name).map (measured name) =
      ((r.near name).map (measured name)).mergeSort closerThan :=
    List.map_mergeSort fun _ _ _ _ => rfl
  calc r.suggest name
    _ = ((((r.entries.map fun e => measured name e.archetype.id).filter
          (·.1 ≤ distanceLimit name)).mergeSort closerThan).take 3).map (·.2) := rfl
    _ = (((r.sortedNear name).map (measured name)).take 3).map (·.2) := by rw [hnear, hsort]
    _ = (r.sortedNear name).take 3 := by
        rw [← List.map_take, List.map_map]
        exact List.map_id _

theorem Reachable.sorted_near (h : r.Reachable) (name : String) :
    (r.sortedNear name).Pairwise fun a b => suggestionKey name a < suggestionKey name b := by
  have hids : (r.near name).Nodup := h.nodup_ids.filter _
  have hkeys : ((r.near name).map (suggestionKey name)).Nodup :=
    hids.map fun _ _ heq => congrArg (fun k => (ofLex k).2) heq
  exact sorted_by_mergeSort (fun a b => closerThan_iff (measured name a) (measured name b)) hkeys

/-- It does not matter in which order identifiers are met and how they are sorted. -/
theorem Reachable.suggest_eq_take (h : r.Reachable) {name : String} {ids : List String}
    (hperm : ids.Perm (r.near name)) (hsorted : ids.Pairwise fun a b => ¬ Closer name b a) :
    r.suggest name = ids.take 3 := by
  have hsame : (r.sortedNear name).Perm ids := (List.mergeSort_perm _ _).trans hperm.symm
  simp only [← suggestionKey_lt_iff] at hsorted
  rw [suggest_eq, eq_of_sorted_by hsame (h.sorted_near name) hsorted]

/-! ## Unknown identifiers -/

theorem lookup?_eq_none_iff {name : String} :
    r.lookup? name = none ↔ ∀ a ∈ r.archetypes, a.id ≠ name := by
  simp [lookup?, archetypes, List.findIdx?_eq_none_iff]

theorem find_eq_error_iff {name : String} {err : UnknownArchetype} :
    r.find name = .error err ↔
      (∀ a ∈ r.archetypes, a.id ≠ name) ∧ err = ⟨name, r.suggest name⟩ := by
  rw [← lookup?_eq_none_iff, find]
  cases r.lookup? name with
  | none => simp [eq_comm]
  | some handle => simp

/-! ## What is listed -/

/-- What the listings of a registry are. Texts are matched in lower case, and identifiers close to a
name are sorted by their distance and then by themselves, in whatever order they are met. -/
structure Lists (r : Registry) : Prop where
  all_perm : r.all.Perm r.archetypes
  all_sorted : r.all.Pairwise fun a b =>
    a.category < b.category ∨ a.category = b.category ∧ a.id < b.id
  categories_sorted : r.categories.Pairwise (· < ·)
  categories : ∀ c, c ∈ r.categories ↔ ∃ a ∈ r.archetypes, a.hidden = false ∧ a.category = c
  filter_sublist : ∀ text, (r.filter text).Sublist r.all
  filter : ∀ text a, a ∈ r.filter text ↔ a ∈ r.archetypes ∧ a.hidden = false ∧
    (OccursIn text a.category ∨ OccursIn text a.id ∨ OccursIn text a.title)
  suggest : ∀ name, ∃ ids : List String, ids.Perm (r.near name) ∧ ids.Pairwise (Closer name) ∧
    r.suggest name = ids.take 3
  suggest_only : ∀ name (ids : List String), ids.Perm (r.near name) →
    (ids.Pairwise fun a b => ¬ Closer name b a) → r.suggest name = ids.take 3
  unknown : ∀ name err, r.find name = .error err ↔
    (∀ a ∈ r.archetypes, a.id ≠ name) ∧ err = ⟨name, r.suggest name⟩

theorem Reachable.lists (h : r.Reachable) : r.Lists where
  all_perm := r.perm_all
  all_sorted := h.sorted_all.imp (listingKey_lt_iff _ _).mp
  categories_sorted := r.sorted_categories
  categories _ := mem_categories
  filter_sublist _ := List.filter_sublist
  filter _ _ := mem_filter
  suggest name := ⟨r.sortedNear name, List.mergeSort_perm _ _,
    (h.sorted_near name).imp (suggestionKey_lt_iff name _ _).mp, r.suggest_eq name⟩
  suggest_only _ _ := h.suggest_eq_take
  unknown _ _ := find_eq_error_iff

/-! ## Registries with the same archetypes -/

theorem Reachable.all_eq (h : r.Reachable) (h' : r'.Reachable)
    (hsame : r.archetypes.Perm r'.archetypes) : r.all = r'.all := by
  have hperm : r.all.Perm r'.all := (r.perm_all.trans hsame).trans r'.perm_all.symm
  exact eq_of_sorted_by hperm h.sorted_all (h'.sorted_all.imp lt_asymm)

theorem categories_eq (hsame : r.archetypes.Perm r'.archetypes) : r.categories = r'.categories := by
  have hperm : r.categories.Perm r'.categories := by
    refine (List.perm_ext_iff_of_nodup r.sorted_categories.nodup r'.sorted_categories.nodup).mpr
      fun c => ?_
    simp only [mem_categories, hsame.mem_iff]
  have hsorted : r'.categories.Pairwise fun a b => ¬ id b < id a :=
    r'.sorted_categories.imp lt_asymm
  exact eq_of_sorted_by hperm r.sorted_categories hsorted

theorem Reachable.suggest_eq_suggest (h : r.Reachable) (h' : r'.Reachable)
    (hsame : r.archetypes.Perm r'.archetypes) (name : String) : r.suggest name = r'.suggest name := by
  have hnear : (r.near name).Perm (r'.near name) := (hsame.map Archetype.id).filter _
  have hperm : (r.sortedNear name).Perm (r'.sortedNear name) :=
    ((List.mergeSort_perm _ _).trans hnear).trans (List.mergeSort_perm _ _).symm
  rw [suggest_eq, suggest_eq,
    eq_of_sorted_by hperm (h.sorted_near name) ((h'.sorted_near name).imp lt_asymm)]

/-! ## Requests in another order -/

/-- An empty registry accepts the request. -/
def Request.Acceptable (q : Request) : Prop := empty.Admits q.archetype ∧ q.initial?.isSome = true

theorem archetypes_of_register {q : Request} {h : Handle}
    (hr : r.register q.archetype q.initial? = .ok (h, r')) :
    q.Acceptable ∧ r'.archetypes = r.archetypes ++ [q.archetype.titled] := by
  obtain ⟨hadmits, k, hk, hentries⟩ := register_eq_ok hr
  refine ⟨⟨{ hadmits with free := rfl }, by rw [hk]; rfl⟩, ?_⟩
  rw [archetypes, hentries, List.map_append]
  rfl

/-- What a registry refuses although an empty one does not has an identifier that is taken. -/
theorem taken_of_register {q : Request} {err : RegistryError} (hq : q.Acceptable)
    (hr : r.register q.archetype q.initial? = .error err) :
    ∃ a ∈ r.archetypes, a.id = q.archetype.id := by
  by_contra hfree
  have hnone : r.lookup? q.archetype.id = none :=
    lookup?_eq_none_iff.mpr fun a ha hid => hfree ⟨a, ha, hid⟩
  have hadmits : r.Admits q.archetype := { hq.1 with free := hnone }
  obtain ⟨h, r', hok⟩ := exists_register_eq_ok_iff.mpr ⟨hadmits, hq.2⟩
  rw [hok] at hr
  cases hr

/-- What is there after requests was there before or has been requested. -/
theorem requested_of_mem {qs : List Request} {a : Archetype}
    (ha : a ∈ (r.registerEach qs).2.archetypes) :
    a ∈ r.archetypes ∨ ∃ q ∈ qs, q.Acceptable ∧ q.archetype.titled = a := by
  induction qs generalizing r with
  | nil => exact .inl ha
  | cons q rest ih =>
      unfold registerEach at ha
      split at ha
      · rename_i hr
        obtain ⟨hq, harchetypes⟩ := archetypes_of_register hr
        obtain hold | ⟨q', hq', hlater⟩ := ih ha
        · rw [harchetypes, List.mem_append, List.mem_singleton] at hold
          exact hold.imp_right fun hnew => ⟨q, List.mem_cons_self, hq, hnew.symm⟩
        · exact .inr ⟨q', List.mem_cons_of_mem q hq', hlater⟩
      · obtain hold | ⟨q', hq', hlater⟩ := ih ha
        · exact .inl hold
        · exact .inr ⟨q', List.mem_cons_of_mem q hq', hlater⟩

/-- What is requested and acceptable is there after the requests, or another with its identifier. -/
theorem taken_registerEach {qs : List Request} {q : Request} (hmem : q ∈ qs) (hq : q.Acceptable) :
    ∃ a ∈ (r.registerEach qs).2.archetypes, a.id = q.archetype.id := by
  induction qs generalizing r with
  | nil => cases hmem
  | cons first rest ih =>
      -- an identifier that is taken stays taken, whoever took it
      have hkept : ∀ r : Registry, (∃ a ∈ r.archetypes, a.id = q.archetype.id) →
          ∃ a ∈ (r.registerEach rest).2.archetypes, a.id = q.archetype.id := by
        rintro r ⟨a, ha, hid⟩
        exact ⟨a, ((r.prefix_registerEach rest).map _).subset ha, hid⟩
      unfold registerEach
      rcases List.mem_cons.mp hmem with rfl | hrest
      · split
        · rename_i r' hr
          obtain ⟨-, harchetypes⟩ := archetypes_of_register hr
          exact hkept r' ⟨q.archetype.titled, by simp [harchetypes], by simp⟩
        · rename_i hr
          exact hkept r (taken_of_register hq hr)
      · split
        · exact ih hrest
        · exact ih hrest

/-- Archetypes of one identifier are the same. -/
def Consistent (qs : List Request) : Prop :=
  ∀ q ∈ qs, ∀ q' ∈ qs, q.archetype.id = q'.archetype.id → q.archetype = q'.archetype

theorem mem_archetypes_after {qs : List Request} (hqs : Consistent qs) {a : Archetype} :
    a ∈ (after qs).archetypes ↔ ∃ q ∈ qs, q.Acceptable ∧ q.archetype.titled = a := by
  constructor
  · intro ha
    exact (requested_of_mem ha).resolve_left List.not_mem_nil
  · rintro ⟨q, hmem, hq, rfl⟩
    -- whatever has the identifier was requested as well, so it is the same archetype
    obtain ⟨a, ha, hid⟩ := taken_registerEach (r := empty) hmem hq
    obtain ⟨q', hmem', -, rfl⟩ := (requested_of_mem ha).resolve_left List.not_mem_nil
    rw [Archetype.id_titled] at hid
    rw [hqs q hmem q' hmem' hid.symm]
    exact ha

/-- The order of requests does not matter for which archetypes there are. -/
theorem perm_archetypes_after {qs qs' : List Request} (hperm : qs.Perm qs') (hqs : Consistent qs) :
    (after qs).archetypes.Perm (after qs').archetypes := by
  have hqs' : Consistent qs' := fun q hq q' hq' =>
    hqs q (hperm.mem_iff.mpr hq) q' (hperm.mem_iff.mpr hq')
  refine (List.perm_ext_iff_of_nodup (reachable_after qs).nodup_archetypes
    (reachable_after qs').nodup_archetypes).mpr fun a => ?_
  simp only [mem_archetypes_after hqs, mem_archetypes_after hqs', hperm.mem_iff]

/-- Registries that have come to have the same archetypes, in whatever order. Their listings are what
`Lists` says and are the same, and so is what is said of unknown identifiers. Distances are the least
numbers of edits. -/
theorem listings_agree {qs qs' : List Request}
    (hsame : (after qs).archetypes.Perm (after qs').archetypes) :
    (after qs).Lists ∧ (after qs').Lists ∧
    (after qs).all = (after qs').all ∧
    (after qs).categories = (after qs').categories ∧
    (∀ text, (after qs).filter text = (after qs').filter text) ∧
    (∀ name, (after qs).suggest name = (after qs').suggest name) ∧
    (∀ name err, (after qs).find name = .error err ↔ (after qs').find name = .error err) ∧
    ∀ source target : List Char,
      IsLeast {n | Text.Edits n source target} (Text.editDistance source target) := by
  have h := reachable_after qs
  have h' := reachable_after qs'
  have hall := h.all_eq h' hsame
  have hsuggest := h.suggest_eq_suggest h' hsame
  refine ⟨h.lists, h'.lists, hall, categories_eq hsame, fun text => ?_, hsuggest, fun name err => ?_,
    Text.isLeast_editDistance⟩
  · rw [filter, filter, hall]
  · rw [find_eq_error_iff, find_eq_error_iff, hsuggest]
    simp only [hsame.mem_iff]

theorem listings_agree_operatorRequests :
    let r := after operatorRequests
    let r' := after operatorRequests.reverse
    r.lookup? "add" = some 0 ∧ r'.lookup? "add" = some 1 ∧ r.all = r'.all ∧
      r.categories = r'.categories ∧ r.filter "SUB" = r'.filter "SUB" ∧
      (r.filter "SUB").map Archetype.id = ["sub"] ∧ r.suggest "aub" = ["sub", "add"] ∧
      r'.suggest "aub" = ["sub", "add"] ∧
      r'.find "aub" = .error ⟨"aub", ["sub", "add"]⟩ := by
  intro r r'
  have hconsistent : Consistent operatorRequests := by
    unfold Consistent
    decide +kernel
  have hperm : operatorRequests.Perm operatorRequests.reverse :=
    (List.reverse_perm operatorRequests).symm
  obtain ⟨hlists, hlists', hall, hcategories, hfilter, hsuggest, -⟩ :=
    listings_agree (perm_archetypes_after hperm hconsistent)
  have haub : r.suggest "aub" = ["sub", "add"] :=
    hlists.suggest_only "aub" ["sub", "add"] (by decide +kernel) (by decide +kernel)
  have haub' : r'.suggest "aub" = ["sub", "add"] := (hsuggest "aub").symm.trans haub
  -- sorting aside, what matches among the archetypes
  have hsub : (r.filter "SUB").map Archetype.id = ["sub"] := by
    have hmatches : (r.archetypes.filter fun a => !a.hidden && matchesText "SUB" a).map Archetype.id =
        ["sub"] := by decide +kernel
    have hperm := (r.perm_all.filter fun a => !a.hidden && matchesText "SUB" a).map Archetype.id
    rw [hmatches] at hperm
    exact List.perm_singleton.mp hperm
  exact ⟨by decide +kernel, by decide +kernel, hall, hcategories, hfilter "SUB", hsub, haub, haub',
    (hlists'.unknown "aub" _).mpr ⟨by decide +kernel, by rw [haub']⟩⟩

end Registry

end NodeShader
