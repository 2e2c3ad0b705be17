import NodeShader.Proofs.Node.Positions

/-!
# What registrations amount to

A registry checks an archetype once, when it is registered, and nothing is checked again: not when
pins of its nodes are numbered, not when a state is made, and not when a signature is laid over the
slots. Here is why that is enough. Requests to register are made one after another, and some are
refused (`Registry.registerEach`). Whatever they were, the registry has what it was asked for and
accepted, in this order and for good, and what it accepted is fit for all three uses.

* `Registry.handles_registerEach`, `Registry.get?_after_append`: handles are counted up and stay.
* `Registry.Reachable.sound`: what the identifiers and archetypes of a registry are like.
* `Expression.hasOwnPins`: pins of a node tell its number, their index and their direction.
* `Archetype.inRange`: slots that are asked for are there.
* `Registry.sound_after`: all of it, after any requests.
-/

namespace NodeShader

namespace Registry

/-! ## Requests -/

/-- A request to register an archetype. One without a kind is refused. -/
structure Request where
  archetype : Archetype
  initial? : Option Kind

/-- The answers to requests made one after another, and the registry they leave. Refusals leave it as
it is. -/
def registerEach (r : Registry) : List Request → List (Except RegistryError Handle) × Registry
  | [] => ([], r)
  | q :: rest =>
    match r.register q.archetype q.initial? with
    | .ok (h, r') => (.ok h :: (registerEach r' rest).1, (registerEach r' rest).2)
    | .error err => (.error err :: (registerEach r rest).1, (registerEach r rest).2)

/-- What an empty registry becomes. -/
def after (qs : List Request) : Registry := (empty.registerEach qs).2

/-- The handles that an empty registry gives out. -/
def handles (qs : List Request) : List Handle :=
  (empty.registerEach qs).1.filterMap Except.toOption

theorem registerEach_append (r : Registry) (qs later : List Request) :
    (r.registerEach (qs ++ later)).2 = ((r.registerEach qs).2.registerEach later).2 := by
  induction qs generalizing r with
  | nil => rfl
  | cons q rest ih =>
      rw [List.cons_append, registerEach, registerEach]
      split
      · exact ih _
      · exact ih _

theorem after_append (qs later : List Request) :
    after (qs ++ later) = ((after qs).registerEach later).2 := registerEach_append empty qs later

theorem Reachable.registerEach {r : Registry} (h : r.Reachable) (qs : List Request) :
    (r.registerEach qs).2.Reachable := by
  induction qs generalizing r with
  | nil => exact h
  | cons q rest ih =>
      unfold Registry.registerEach
      split
      · rename_i hr
        exact ih (.register _ _ h hr)
      · exact ih h

theorem reachable_after (qs : List Request) : (after qs).Reachable := Reachable.empty.registerEach qs

/-- Later requests leave what is there and add to it. -/
theorem prefix_registerEach (r : Registry) (qs : List Request) :
    r.entries <+: (r.registerEach qs).2.entries := by
  induction qs generalizing r with
  | nil => exact List.prefix_rfl
  | cons q rest ih =>
      unfold registerEach
      split
      · rename_i r' hr
        obtain ⟨-, k, -, hentries⟩ := register_eq_ok hr
        have hadded : r.entries <+: r'.entries := hentries ▸ List.prefix_append ..
        exact hadded.trans (ih r')
      · exact ih r

/-- A handle stands for the same archetype ever after. -/
theorem get?_after_append {qs : List Request} {h : Handle} {e : Registration}
    (he : (after qs).get? h = some e) (later : List Request) :
    (after (qs ++ later)).get? h = some e := by
  obtain ⟨added, hentries⟩ := prefix_registerEach (after qs) later
  have hlt : h < (after qs).entries.length := (List.getElem?_eq_some_iff.mp he).1
  rw [after_append, get?, ← hentries, List.getElem?_append_left hlt]
  exact he

/-- Handles are counted up from the size of the registry. -/
theorem handles_registerEach (r : Registry) (qs : List Request) :
    ∃ n, (r.registerEach qs).1.filterMap Except.toOption = List.range' r.size n ∧
      (r.registerEach qs).2.size = r.size + n := by
  induction qs generalizing r with
  | nil => exact ⟨0, rfl, rfl⟩
  | cons q rest ih =>
      unfold registerEach
      split
      · rename_i h r' hr
        obtain ⟨-, k, -, rfl, hentries⟩ := register_eq_ok_iff.mp hr
        have hsize : r'.size = r.size + 1 := by rw [hentries, size, List.length_append]; rfl
        obtain ⟨n, hhandles, hlast⟩ := ih r'
        have hfirst : (.ok r.size : Except RegistryError Handle).toOption = some r.size := rfl
        refine ⟨n + 1, ?_, by rw [hlast, hsize]; omega⟩
        rw [List.filterMap_cons_some hfirst, hhandles, hsize, List.range'_succ]
      · rename_i err hr
        obtain ⟨n, hhandles, hlast⟩ := ih r
        exact ⟨n, by rw [List.filterMap_cons_none rfl, hhandles], hlast⟩

theorem handles_eq_range (qs : List Request) : handles qs = List.range (after qs).size := by
  obtain ⟨n, hhandles, hsize⟩ := handles_registerEach empty qs
  have hn : (after qs).size = n := hsize.trans (Nat.zero_add n)
  rw [handles, hhandles, hn, List.range_eq_range']
  rfl

/-- Acceptance depends on what the registry has and on what is requested. -/
theorem exists_register_eq_ok_iff {r : Registry} {q : Request} :
    (∃ h r', r.register q.archetype q.initial? = .ok (h, r')) ↔
      r.Admits q.archetype ∧ q.initial?.isSome = true := by
  constructor
  · rintro ⟨h, r', hr⟩
    obtain ⟨hadmits, k, hk, -⟩ := register_eq_ok_iff.mp hr
    exact ⟨hadmits, by rw [hk]; rfl⟩
  · rintro ⟨hadmits, hsome⟩
    obtain ⟨k, hk⟩ := Option.isSome_iff_exists.mp hsome
    exact ⟨_, _, register_eq_ok_iff.mpr ⟨hadmits, k, hk, rfl, rfl⟩⟩

/-- What is accepted gets the next handle, and has it ever after. -/
theorem archetype?_after_register {qs : List Request} {q : Request} {h : Handle} {r' : Registry}
    (hr : (after qs).register q.archetype q.initial? = .ok (h, r')) (later : List Request) :
    (after (qs ++ q :: later)).archetype? h = some q.archetype.titled := by
  obtain ⟨-, k, -, rfl, rfl⟩ := register_eq_ok_iff.mp hr
  have hstep : after (qs ++ [q]) = ⟨(after qs).entries ++ [⟨q.archetype.titled, k⟩]⟩ := by
    rw [after_append, registerEach, hr]
    rfl
  have hlast : (after (qs ++ [q])).get? (after qs).size = some ⟨q.archetype.titled, k⟩ := by
    rw [hstep]
    exact List.getElem?_concat_length
  have hkept := get?_after_append hlast later
  rw [List.append_assoc] at hkept
  exact archetype?_of_get? hkept

/-! ## Archetypes -/

/-- What handles, identifiers and archetypes are like: handles below the size stand for archetypes, an
identifier leads to the archetype that has it, and archetypes have identifiers of their own, at most
127 pins on each side and signatures of their own shape. -/
structure Sound (r : Registry) : Prop where
  issued : ∀ h, (r.archetype? h).isSome = true ↔ h < r.size
  lookup : ∀ id h, r.lookup? id = some h ↔ ∃ a, r.archetype? h = some a ∧ a.id = id
  named : ∀ h a, r.archetype? h = some a → a.id ≠ ""
  distinct : ∀ h h' a a', r.archetype? h = some a → r.archetype? h' = some a' → a.id = a'.id → h = h'
  pins : ∀ h a, r.archetype? h = some a → a.inputs.length ≤ 127 ∧ a.outputs.length ≤ 127
  shapes : ∀ h a, r.archetype? h = some a → ∀ o ∈ a.overloads, o.HasShapeOf a

theorem Reachable.sound {r : Registry} (h : r.Reachable) : r.Sound where
  issued handle := by simp [archetype?, get?, size]
  lookup _ _ := h.lookup?_eq_some_iff
  named _ _ := h.named
  distinct handle handle' a a' ha ha' heq := by
    have hlookup := h.lookup?_eq_some_iff.mpr ⟨a, ha, heq⟩
    rw [h.lookup?_eq_some_iff.mpr ⟨a', ha', rfl⟩, Option.some.injEq] at hlookup
    exact hlookup.symm
  pins _ _ := h.archetype_fits
  shapes _ _ := h.shape

end Registry

/-! ## Pins -/

/-- The pins of the node under a number are valid, tell the number, their index and their direction,
and so are all different. -/
structure Expression.HasOwnPins (e : Expression) (id : NodeId) : Prop where
  valid : ∀ d i, i < e.pins.on d → (Pin.pack id i d).isValid = true
  node : ∀ d i, i < e.pins.on d → (Pin.pack id i d).node = id
  index : ∀ d (i : Nat), i < e.pins.on d → (Pin.pack id i d).index = i
  direction : ∀ d i, i < e.pins.on d → (Pin.pack id i d).direction = d
  distinct : ∀ d d' (i i' : Nat), i < e.pins.on d → i' < e.pins.on d' →
    Pin.pack id i d = Pin.pack id i' d' → d = d' ∧ i = i'

theorem Expression.hasOwnPins {e : Expression} {id : NodeId} (hid : id.isValid = true)
    (hpins : ∀ d, e.pins.on d ≤ Registry.pinLimit) : e.HasOwnPins id := by
  have hle := NodeId.le_of_isValid hid
  have hsmall : ∀ d i, i < e.pins.on d → i ≤ Pin.greatestIndex :=
    fun d i hi => Nat.le_of_lt_succ (Nat.lt_of_lt_of_le hi (hpins d))
  have hdirection : ∀ d i, i < e.pins.on d → (Pin.pack id i d).direction = d :=
    fun d i hi => Pin.direction_pack d hle (hsmall d i hi)
  refine ⟨fun d i hi => Pin.isValid_pack d hid (hsmall d i hi), fun d i _ => Pin.node_pack i d hle,
    fun d i hi => Pin.index_pack d hle (hsmall d i hi), hdirection, ?_⟩
  intro d d' i i' hi hi' heq
  obtain rfl : d = d' := by rw [← hdirection d i hi, heq, hdirection d' i' hi']
  exact ⟨rfl, Pin.pack_inj hle (hsmall d i hi) (hsmall d i' hi') heq⟩

/-! ## Slots -/

/-- However a new state is linked and whatever values it is given, resolving it asks for slots that are
there. -/
def Archetype.InRange (a : Archetype) : Prop :=
  ∀ (id : NodeId) (g : ShaderGraph) (k : Kind) (values : List Value),
    values.length = a.inputs.length →
      (do
        let s ← Positions.freshState a id g
        Positions.resolve (s.given values) a k) =
        .ok (((a.freshState id g).given values).resolve a k)

theorem Archetype.inRange {a : Archetype} (h : ∀ o ∈ a.overloads, o.HasShapeOf a) : a.InRange := by
  intro id g k values hlen
  rw [Positions.freshState_eq]
  refine Positions.resolve_eq k fun o ho => ?_
  obtain ⟨hin, hout⟩ := h o ho
  rw [hin, hout]
  simp [NodeState.given, Archetype.freshState, hlen]

namespace Registry

/-- Whatever has been requested of an empty registry, accepted or refused. A request that is refused
leaves the registry as it is, and it is accepted if and only if the registry admits the archetype.
Handles are 0, 1, 2, … and stand for what they were given out for ever after. Nodes of the registry
have pins of their own under every valid number, and states of its archetypes are made and resolved
without asking for a slot that is not there. -/
theorem sound_after (qs : List Request) :
    (∀ (q : Request) (err : RegistryError),
      (after qs).register q.archetype q.initial? = .error err → after (qs ++ [q]) = after qs) ∧
    (∀ q : Request, (∃ h r', (after qs).register q.archetype q.initial? = .ok (h, r')) ↔
      (after qs).Admits q.archetype ∧ q.initial?.isSome = true) ∧
    handles qs = List.range (after qs).size ∧
    (∀ (q : Request) (h : Handle) (r' : Registry),
      (after qs).register q.archetype q.initial? = .ok (h, r') → h = (after qs).size ∧
        ∀ later, (after (qs ++ q :: later)).archetype? h = some q.archetype.titled) ∧
    (after qs).Sound ∧
    ∀ h e, (after qs).instantiate? h = some e → ∃ a, (after qs).archetype? h = some a ∧
      e.HasPinsOf a ∧ (∀ id : NodeId, id.isValid = true → e.HasOwnPins id) ∧ a.InRange := by
  refine ⟨?_, fun _ => exists_register_eq_ok_iff, handles_eq_range qs, ?_,
    (reachable_after qs).sound, ?_⟩
  · intro q err herr
    rw [after_append, registerEach, herr]
    rfl
  · intro q h r' hr
    obtain ⟨-, _, -, hnext, -⟩ := register_eq_ok_iff.mp hr
    exact ⟨hnext, archetype?_after_register hr⟩
  · intro h e he
    obtain ⟨registration, hget, rfl⟩ := Option.map_eq_some_iff.mp he
    have ha := archetype?_of_get? hget
    obtain ⟨hin, hout⟩ := (reachable_after qs).archetype_fits ha
    refine ⟨_, ha, rfl, fun id hid => Expression.hasOwnPins hid fun d => ?_,
      Archetype.inRange ((reachable_after qs).shape ha)⟩
    cases d with
    | input => exact hin
    | output => exact hout

/-- Two operators among requests that are refused: one without an identifier, one for an identifier
that is taken and one without a kind. -/
def operatorRequests : List Request :=
  let add := Catalogue.operator "add" "Add" "+" .zero
  let sub := Catalogue.operator "sub" "" "-" .zero
  [⟨{ id := "" }, some .append⟩, ⟨add.archetype, some add.initial⟩, ⟨add.archetype, some .append⟩,
    ⟨sub.archetype, none⟩, ⟨sub.archetype, some sub.initial⟩]

theorem sound_after_operatorRequests :
    let r := after operatorRequests
    let values : List Value := [⟨.float, "x"⟩, ⟨.vec3, "y"⟩]
    handles operatorRequests = [0, 1] ∧ r.lookup? "sub" = some 1 ∧
      ∃ e a, r.instantiate? 1 = some e ∧ r.archetype? 1 = some a ∧ a.title = "Sub" ∧
        e.HasOwnPins NodeId.greatest ∧
        (do
          let s ← Positions.freshState a 1 .empty
          Positions.resolve (s.given values) a .append) =
          .ok (((a.freshState 1 .empty).given values).resolve a .append) ∧
        (((a.freshState 1 .empty).given values).resolve a .append).1 = true := by
  intro r values
  let sub := (Catalogue.operator "sub" "Sub" "-" .zero).archetype
  have hsub : r.archetype? 1 = some sub := by decide +kernel
  have hsize : r.size = 2 := by decide +kernel
  obtain ⟨-, -, hhandles, -, hsound, hnodes⟩ := sound_after operatorRequests
  obtain ⟨e, he⟩ : ∃ e, r.instantiate? 1 = some e := Option.isSome_iff_exists.mp (by decide +kernel)
  obtain ⟨a, ha, -, hown, hrange⟩ := hnodes 1 e he
  obtain rfl : a = sub := Option.some.inj (ha.symm.trans hsub)
  exact ⟨hhandles.trans (congrArg List.range hsize), (hsound.lookup "sub" 1).mpr ⟨sub, hsub, rfl⟩,
    e, sub, he, hsub, rfl, hown _ (by decide), hrange 1 .empty .append values rfl, by decide +kernel⟩

end Registry

end NodeShader
