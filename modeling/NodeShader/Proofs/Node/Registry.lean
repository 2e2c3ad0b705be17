import NodeShader.Node.Catalogue
import NodeShader.Node.Expression
import NodeShader.Proofs.Graph.History

/-!
# Graphs over a registry

A registry is made by registering archetypes, and what it accepts has no more pins on a side than
numbers of pins can tell apart (`Registry.Reachable.fits`), signatures of its own shape
(`Registry.Reachable.shape`) and an identifier of its own (`Registry.Reachable.lookup?_id`).
`Graph.IsOver` is the class of graphs that the theory of passes is about: whatever edits have made of
an empty graph, as long as its nodes are expressions with the pins of an archetype of the registry,
under numbers that fit into pins.
-/

namespace NodeShader

/-- The signature has as many slots on each side as the archetype has pins. -/
def Overload.HasShapeOf (o : Overload) (a : Archetype) : Prop :=
  o.inputs.length = a.inputs.length ∧ o.outputs.length = a.outputs.length

/-- The archetype under the title it is registered with: its own, or that of its identifier. -/
def Archetype.titled (a : Archetype) : Archetype :=
  if a.title = "" then { a with title := Text.titleOf a.id } else a

namespace Archetype

@[simp] theorem id_titled (a : Archetype) : a.titled.id = a.id := by
  unfold titled
  split <;> rfl

@[simp] theorem inputs_titled (a : Archetype) : a.titled.inputs = a.inputs := by
  unfold titled
  split <;> rfl

@[simp] theorem outputs_titled (a : Archetype) : a.titled.outputs = a.outputs := by
  unfold titled
  split <;> rfl

@[simp] theorem overloads_titled (a : Archetype) : a.titled.overloads = a.overloads := by
  unfold titled
  split <;> rfl

end Archetype

namespace Registry

/-- What a registry asks of an archetype: an identifier that is free, no more pins on a side than
numbers of pins can tell apart, and signatures of its own shape. -/
structure Admits (r : Registry) (a : Archetype) : Prop where
  named : a.id ≠ ""
  free : r.lookup? a.id = none
  inputs : a.inputs.length ≤ pinLimit
  outputs : a.outputs.length ≤ pinLimit
  shapes : ∀ o ∈ a.overloads, o.HasShapeOf a

theorem badOverload?_eq_none_iff {inputs outputs i : Nat} {os : List Overload} :
    badOverload? inputs outputs i os = none ↔
      ∀ o ∈ os, o.inputs.length = inputs ∧ o.outputs.length = outputs := by
  induction os generalizing i with
  | nil => simp [badOverload?]
  | cons first rest ih =>
      rw [badOverload?, List.forall_mem_cons]
      split
      · rename_i hshape
        refine iff_of_false (by simp) fun h => ?_
        exact hshape.elim (· h.1.1) (· h.1.2)
      · rename_i hshape
        simp only [ne_eq, not_or, Decidable.not_not] at hshape
        rw [ih]
        exact ⟨fun h => ⟨hshape, h⟩, fun h => h.2⟩

/-- What is registered is admitted and has a kind. It goes behind the rest, perhaps with a title it
did not bring along. -/
theorem register_eq_ok_iff {r r' : Registry} {a : Archetype} {initial? : Option Kind} {h : Handle} :
    r.register a initial? = .ok (h, r') ↔
      r.Admits a ∧ ∃ k, initial? = some k ∧ h = r.size ∧ r' = ⟨r.entries ++ [⟨a.titled, k⟩]⟩ := by
  constructor
  · intro hr
    unfold register at hr
    dsimp only at hr
    split at hr
    · exact absurd hr (by simp)
    · rename_i hnamed
      split at hr
      · exact absurd hr (by simp)
      · rename_i hfree
        split at hr
        · exact absurd hr (by simp)
        · rename_i k
          split at hr
          · exact absurd hr (by simp)
          · rename_i hpins
            obtain ⟨hin, hout⟩ := not_or.mp hpins
            split at hr
            · exact absurd hr (by simp)
            · rename_i hshapes
              cases hr
              exact ⟨⟨hnamed, by simpa using hfree, Nat.not_lt.mp hin, Nat.not_lt.mp hout,
                badOverload?_eq_none_iff.mp hshapes⟩, k, rfl, rfl, rfl⟩
  · rintro ⟨hadmits, k, rfl, rfl, rfl⟩
    have hpins : ¬(pinLimit < a.inputs.length ∨ pinLimit < a.outputs.length) :=
      not_or.mpr ⟨Nat.not_lt.mpr hadmits.inputs, Nat.not_lt.mpr hadmits.outputs⟩
    unfold register
    rw [if_neg hadmits.named, if_neg (by simp [hadmits.free])]
    simp only [if_neg hpins, badOverload?_eq_none_iff.mpr hadmits.shapes]
    rfl

theorem register_eq_ok {r r' : Registry} {a : Archetype} {initial? : Option Kind} {h : Handle}
    (hr : r.register a initial? = .ok (h, r')) :
    r.Admits a ∧ ∃ k, initial? = some k ∧ r'.entries = r.entries ++ [⟨a.titled, k⟩] := by
  obtain ⟨hadmits, k, hk, -, rfl⟩ := register_eq_ok_iff.mp hr
  exact ⟨hadmits, k, hk, rfl⟩

/-- The registries that registrations make from an empty one. -/
inductive Reachable : Registry → Prop
  | empty : Reachable empty
  | register {r r' : Registry} (a : Archetype) (initial? : Option Kind) {h : Handle} :
      Reachable r → r.register a initial? = .ok (h, r') → Reachable r'

theorem Reachable.registerAll {r : Registry} (h : r.Reachable) (l : List Registration) :
    (r.registerAll l).2.Reachable := by
  induction l generalizing r with
  | nil => exact h
  | cons e rest ih =>
      unfold Registry.registerAll
      split
      · rename_i hr
        exact ih (.register _ _ h hr)
      · exact ih h

theorem reachable_builtin : builtin.Reachable := Reachable.empty.registerAll _

/-- What the registry has admitted and titles do not matter for holds of all that is in it. -/
theorem Reachable.of_admitted {r : Registry} (h : r.Reachable) {P : Archetype → Prop}
    (hadmitted : ∀ (r : Registry) (a : Archetype), r.Admits a → P a.titled) :
    ∀ e ∈ r.entries, P e.archetype := by
  induction h with
  | empty => exact List.forall_mem_nil _
  | register a initial? _ hr ih =>
      obtain ⟨hadmits, k, -, hentries⟩ := register_eq_ok hr
      rw [hentries]
      exact List.forall_mem_append.mpr ⟨ih, List.forall_mem_singleton.mpr (hadmitted _ a hadmits)⟩

/-- Pins of registered archetypes have numbers of their own. -/
theorem Reachable.fits {r : Registry} (h : r.Reachable) {e : Registration} (he : e ∈ r.entries) :
    e.archetype.inputs.length ≤ pinLimit ∧ e.archetype.outputs.length ≤ pinLimit :=
  h.of_admitted (P := fun a => a.inputs.length ≤ pinLimit ∧ a.outputs.length ≤ pinLimit)
    (fun _ _ hadmits => by simpa using ⟨hadmits.inputs, hadmits.outputs⟩) e he

theorem archetype?_of_get? {r : Registry} {handle : Handle} {e : Registration}
    (he : r.get? handle = some e) : r.archetype? handle = some e.archetype := by
  rw [archetype?, he, Option.map_some]

theorem Reachable.archetype_fits {r : Registry} (h : r.Reachable) {handle : Handle} {a : Archetype}
    (ha : r.archetype? handle = some a) :
    a.inputs.length ≤ pinLimit ∧ a.outputs.length ≤ pinLimit := by
  obtain ⟨e, he, rfl⟩ := Option.map_eq_some_iff.mp ha
  exact h.fits (List.mem_of_getElem? he)

theorem Reachable.shape {r : Registry} (h : r.Reachable) {handle : Handle} {a : Archetype}
    (ha : r.archetype? handle = some a) : ∀ o ∈ a.overloads, o.HasShapeOf a := by
  obtain ⟨e, he, rfl⟩ := Option.map_eq_some_iff.mp ha
  exact h.of_admitted (P := fun a => ∀ o ∈ a.overloads, o.HasShapeOf a)
    (fun _ _ hadmits => by simpa [Overload.HasShapeOf] using hadmits.shapes) e
    (List.mem_of_getElem? he)

/-- Registered archetypes have identifiers. -/
theorem Reachable.named {r : Registry} (h : r.Reachable) {handle : Handle} {a : Archetype}
    (ha : r.archetype? handle = some a) : a.id ≠ "" := by
  obtain ⟨e, he, rfl⟩ := Option.map_eq_some_iff.mp ha
  exact h.of_admitted (P := fun a => a.id ≠ "") (fun _ _ hadmits => by simpa using hadmits.named) e
    (List.mem_of_getElem? he)

theorem Reachable.distinct {r : Registry} (h : r.Reachable) :
    (r.entries.map fun e => e.archetype.id).Nodup := by
  induction h with
  | empty => exact List.nodup_nil
  | register a initial? _ hr ih =>
      obtain ⟨hadmits, k, -, hentries⟩ := register_eq_ok hr
      have hfree := List.findIdx?_eq_none_iff.mp hadmits.free
      rw [hentries, List.map_append, List.map_singleton, Archetype.id_titled, List.nodup_append]
      refine ⟨ih, List.nodup_singleton _, fun id hid x hx heq => ?_⟩
      obtain ⟨e, he, rfl⟩ := List.mem_map.mp hid
      rw [List.mem_singleton] at hx
      simpa [heq, hx] using hfree e he

/-- An identifier leads to the handle of its archetype. -/
theorem Reachable.lookup?_id {r : Registry} (h : r.Reachable) {handle : Handle} {e : Registration}
    (he : r.get? handle = some e) : r.lookup? e.archetype.id = some handle := by
  obtain ⟨hlt, hget⟩ := List.getElem?_eq_some_iff.mp he
  refine List.findIdx?_eq_some_iff_getElem.mpr ⟨hlt, by simp [hget], fun j hj => ?_⟩
  have hne := List.pairwise_iff_getElem.mp h.distinct j handle
    (by rw [List.length_map]; omega) (by rw [List.length_map]; exact hlt) hj
  simpa [hget] using hne

theorem get?_of_lookup? {r : Registry} {id : String} {handle : Handle}
    (h : r.lookup? id = some handle) :
    ∃ registration, r.get? handle = some registration ∧ registration.archetype.id = id := by
  obtain ⟨hlt, hid, -⟩ := List.findIdx?_eq_some_iff_getElem.mp h
  exact ⟨_, List.getElem?_eq_getElem hlt, by simpa using hid⟩

/-- Identifiers lead to the archetypes that have them, and nowhere else. -/
theorem Reachable.lookup?_eq_some_iff {r : Registry} (h : r.Reachable) {id : String}
    {handle : Handle} :
    r.lookup? id = some handle ↔ ∃ a, r.archetype? handle = some a ∧ a.id = id := by
  constructor
  · intro hlookup
    obtain ⟨e, he, hid⟩ := get?_of_lookup? hlookup
    exact ⟨e.archetype, archetype?_of_get? he, hid⟩
  · rintro ⟨a, ha, rfl⟩
    obtain ⟨e, he, rfl⟩ := Option.map_eq_some_iff.mp ha
    exact h.lookup?_id he

theorem Reachable.create_id {r : Registry} (h : r.Reachable) {handle : Handle} {e : Registration}
    (he : r.get? handle = some e) :
    r.create e.archetype.id = .ok
      { handle, kind := e.initial
        pins := ⟨e.archetype.inputs.length, e.archetype.outputs.length⟩ } := by
  simp only [create, h.lookup?_id he, Option.bind_some, instantiate?, he, Option.map_some]

end Registry

/-- The node has the pins of its archetype. -/
def Expression.HasPinsOf (e : Expression) (a : Archetype) : Prop :=
  e.pins = ⟨a.inputs.length, a.outputs.length⟩

/-- The graphs that edits make of expressions of a registry under numbers that fit into pins. The kinds
may be any that registrations bring along, also those that ask for pins which their archetypes lack:
evaluating them takes no notice of such a pin. That no kind does so is a condition of its own,
`Graph.StaysWithin`, which holds of built-in nodes. -/
structure Graph.IsOver (g : ShaderGraph) (r : Registry) : Prop where
  registry : r.Reachable
  reachable : g.Reachable
  ids : ∀ n ∈ g.nodes, n.id.isValid = true
  expressions : ∀ n ∈ g.nodes, ∃ e a, n.node = .expression e ∧
    r.archetype? e.handle = some a ∧ e.HasPinsOf a

end NodeShader
