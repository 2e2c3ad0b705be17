import NodeShader.Graph.Pin

/-!
# What the parts of a packed pin are

A pin made from a node number that fits into 24 bits and an index that, plus one, fits into seven has
these parts again, and its word is their sum at fixed places. Every pin is made of its parts. The
number of the node survives whatever the index is, because the index starts above it. A link made from
two pins has these pins as its ends, and links are ordered by their targets first.
-/

namespace NodeShader

namespace NodeId

theorem toNat_lt_of_le {id : NodeId} (h : id ≤ greatest) : id.toNat < 2 ^ 24 := by
  have hle := UInt32.le_iff_toNat_le.mp h
  simp only [greatest, UInt32.reduceToNat] at hle
  omega

theorem isValid_iff {id : NodeId} : id.isValid = true ↔ id ≠ 0 ∧ id ≤ greatest := by
  simp [isValid]

theorem le_of_isValid {id : NodeId} (h : id.isValid) : id ≤ greatest := (isValid_iff.mp h).2

/-- Keeping the low 24 bits changes no number that fits into them. -/
theorem and_mask_of_le {id : NodeId} (h : id ≤ greatest) : id &&& (0xffffff : UInt32) = id := by
  apply UInt32.toNat_inj.mp
  rw [UInt32.toNat_and]
  show id.toNat &&& (2 ^ 24 - 1) = id.toNat
  rw [Nat.and_two_pow_sub_one_eq_mod, Nat.mod_eq_of_lt (toNat_lt_of_le h)]

end NodeId

namespace Pin

theorem toNat_ofInt_index {i : Int} (hlow : -1 ≤ i) (hi : i ≤ greatestIndex) :
    (UInt32.ofInt (i + 1)).toNat = (i + 1).toNat := by
  simp only [greatestIndex] at hi
  rw [UInt32.ofInt]
  simp only [UInt32.toNat_ofNat']
  omega

/-- The word of a pin, as the sum of its parts at their places. The index may be the one below zero,
which leaves its place empty. -/
theorem toNat_bits_pack_of_le {id : NodeId} {i : Int} (d : Direction) (hid : id ≤ NodeId.greatest)
    (hlow : -1 ≤ i) (hi : i ≤ greatestIndex) :
    (pack id i d).bits.toNat = id.toNat + (i + 1).toNat * 2 ^ 24 + d.bit.toNat * 2 ^ 31 := by
  have hnode := NodeId.toNat_lt_of_le hid
  have hindex : (UInt32.ofInt (i + 1) <<< 24).toNat = (i + 1).toNat <<< 24 := by
    rw [UInt32.toNat_shiftLeft, toNat_ofInt_index hlow hi]
    simp only [greatestIndex] at hi
    show (i + 1).toNat <<< 24 % 2 ^ 32 = _
    rw [Nat.mod_eq_of_lt]
    rw [Nat.shiftLeft_eq]
    omega
  have hbit : (d.bit <<< 31).toNat = d.bit.toNat <<< 31 := by
    cases d <;> decide
  simp only [greatestIndex] at hi
  simp only [pack, UInt32.toNat_or, NodeId.and_mask_of_le hid, hindex, hbit]
  rw [Nat.or_comm id.toNat, ← Nat.shiftLeft_add_eq_or_of_lt hnode, Nat.or_comm,
    ← Nat.shiftLeft_add_eq_or_of_lt]
  · simp only [Nat.shiftLeft_eq]
    omega
  · rw [Nat.shiftLeft_eq]
    omega

theorem toNat_bits_pack {id : NodeId} {i : Nat} (d : Direction) (hid : id ≤ NodeId.greatest)
    (hi : i ≤ greatestIndex) :
    (pack id i d).bits.toNat = id.toNat + (i + 1) * 2 ^ 24 + d.bit.toNat * 2 ^ 31 :=
  toNat_bits_pack_of_le d hid (by omega) (by exact_mod_cast hi)

/-- The node of a pin does not depend on its index, even on one that is too large. -/
theorem node_pack {id : NodeId} (i : Int) (d : Direction) (hid : id ≤ NodeId.greatest) :
    (pack id i d).node = id := by
  have hindex : (UInt32.ofInt (i + 1) <<< 24).toNat % 2 ^ 24 = 0 := by
    rw [UInt32.toNat_shiftLeft]
    show (UInt32.ofInt (i + 1)).toNat <<< 24 % 2 ^ 32 % 2 ^ 24 = 0
    rw [Nat.shiftLeft_eq]
    omega
  have hdir : (d.bit <<< 31).toNat % 2 ^ 24 = 0 := by cases d <;> decide
  apply UInt32.toNat_inj.mp
  simp only [node, pack, UInt32.toNat_and, UInt32.toNat_or, NodeId.and_mask_of_le hid]
  show (id.toNat ||| _ ||| _) &&& (2 ^ 24 - 1) = id.toNat
  rw [Nat.and_two_pow_sub_one_eq_mod, Nat.or_mod_two_pow, Nat.or_mod_two_pow, hindex, hdir,
    Nat.or_zero, Nat.or_zero, Nat.mod_eq_of_lt (NodeId.toNat_lt_of_le hid)]

theorem node_output {id : NodeId} (i : Nat) (hid : id ≤ NodeId.greatest) :
    (output id i).node = id := node_pack i .output hid

theorem node_input {id : NodeId} (i : Nat) (hid : id ≤ NodeId.greatest) :
    (input id i).node = id := node_pack i .input hid

/-- Two pins on one side of a node are the same only when they have the same index. -/
theorem pack_inj {id : NodeId} {i j : Nat} {d : Direction} (hid : id ≤ NodeId.greatest)
    (hi : i ≤ greatestIndex) (hj : j ≤ greatestIndex) (h : pack id i d = pack id j d) : i = j := by
  have hword : (pack id i d).bits.toNat = (pack id j d).bits.toNat := by rw [h]
  rw [toNat_bits_pack d hid hi, toNat_bits_pack d hid hj] at hword
  omega

theorem output_eq_output_iff {id id' : NodeId} {i i' : Nat} (hid : id ≤ NodeId.greatest)
    (hid' : id' ≤ NodeId.greatest) (hi : i ≤ greatestIndex) (hi' : i' ≤ greatestIndex) :
    output id i = output id' i' ↔ id = id' ∧ i = i' := by
  constructor
  · intro h
    have hnode : id = id' := by rw [← node_output i hid, h, node_output i' hid']
    subst hnode
    exact ⟨rfl, pack_inj hid hi hi' h⟩
  · rintro ⟨rfl, rfl⟩
    rfl

theorem index_pack_of_le {id : NodeId} {i : Int} (d : Direction) (hid : id ≤ NodeId.greatest)
    (hlow : -1 ≤ i) (hi : i ≤ greatestIndex) : (pack id i d).index = i := by
  have hnode := NodeId.toNat_lt_of_le hid
  have hfield : (((pack id i d).bits >>> 24) &&& 0x7f).toNat = (i + 1).toNat := by
    rw [UInt32.toNat_and, UInt32.toNat_shiftRight, toNat_bits_pack_of_le d hid hlow hi]
    show (id.toNat + (i + 1).toNat * 2 ^ 24 + d.bit.toNat * 2 ^ 31) >>> 24 &&& (2 ^ 7 - 1) = _
    rw [Nat.and_two_pow_sub_one_eq_mod, Nat.shiftRight_eq_div_pow]
    simp only [greatestIndex] at hi
    omega
  rw [index, hfield]
  omega

theorem index_pack {id : NodeId} {i : Nat} (d : Direction) (hid : id ≤ NodeId.greatest)
    (hi : i ≤ greatestIndex) : (pack id i d).index = i :=
  index_pack_of_le d hid (by omega) (by exact_mod_cast hi)

theorem direction_pack_of_le {id : NodeId} {i : Int} (d : Direction) (hid : id ≤ NodeId.greatest)
    (hlow : -1 ≤ i) (hi : i ≤ greatestIndex) : (pack id i d).direction = d := by
  have hnode := NodeId.toNat_lt_of_le hid
  have htop : ((pack id i d).bits >>> 31).toNat = d.bit.toNat := by
    rw [UInt32.toNat_shiftRight, toNat_bits_pack_of_le d hid hlow hi]
    show (id.toNat + (i + 1).toNat * 2 ^ 24 + d.bit.toNat * 2 ^ 31) >>> 31 = _
    rw [Nat.shiftRight_eq_div_pow]
    simp only [greatestIndex] at hi
    omega
  have hbit : (pack id i d).bits >>> 31 = d.bit := UInt32.toNat_inj.mp htop
  rw [direction, hbit]
  cases d <;> rfl

theorem direction_pack {id : NodeId} {i : Nat} (d : Direction) (hid : id ≤ NodeId.greatest)
    (hi : i ≤ greatestIndex) : (pack id i d).direction = d :=
  direction_pack_of_le d hid (by omega) (by exact_mod_cast hi)

theorem isInput_input {id : NodeId} {i : Nat} (hid : id ≤ NodeId.greatest)
    (hi : i ≤ greatestIndex) : (input id i).isInput = true := by
  rw [isInput, input, direction_pack .input hid hi]
  rfl

theorem isInput_eq_true {p : Pin} : p.isInput = true ↔ p.direction = .input := by
  simp [isInput]

theorem isInput_eq_false {p : Pin} : p.isInput = false ↔ p.direction = .output := by
  cases h : p.direction <;> simp [isInput, h]

/-- A valid pin names a node and an index. -/
theorem isValid_iff {p : Pin} : p.isValid = true ↔ p.node ≠ 0 ∧ 0 ≤ p.index := by
  have hfield : (p.bits >>> 24) &&& 0x7f ≠ 0 ↔ 0 ≤ p.index := by
    rw [ne_eq, ← UInt32.toNat_inj, UInt32.toNat_zero, index]
    omega
  rw [isValid, Bool.and_eq_true, decide_eq_true_eq, decide_eq_true_eq, hfield]

theorem isValid_pack {id : NodeId} {i : Nat} (d : Direction) (hid : id.isValid = true)
    (hi : i ≤ greatestIndex) : (pack id i d).isValid = true := by
  obtain ⟨hne, hle⟩ := NodeId.isValid_iff.mp hid
  rw [isValid_iff, node_pack i d hle, index_pack d hle hi]
  exact ⟨hne, Int.natCast_nonneg i⟩

/-- The number in a pin fits into a pin. -/
theorem node_le (p : Pin) : p.node ≤ NodeId.greatest := by
  rw [UInt32.le_iff_toNat_le, node, UInt32.toNat_and]
  exact Nat.and_le_right

/-- The word of any pin, as the sum of its parts at their places. -/
theorem toNat_bits (p : Pin) :
    p.bits.toNat =
      p.node.toNat + (p.index + 1).toNat * 2 ^ 24 + p.direction.bit.toNat * 2 ^ 31 := by
  have hword := p.bits.toNat_lt
  have hnode : p.node.toNat = p.bits.toNat % 2 ^ 24 := by
    rw [node, UInt32.toNat_and]
    exact Nat.and_two_pow_sub_one_eq_mod _ 24
  have hfield : ((p.bits >>> 24) &&& 0x7f).toNat = p.bits.toNat / 2 ^ 24 % 2 ^ 7 := by
    rw [UInt32.toNat_and, UInt32.toNat_shiftRight]
    show p.bits.toNat >>> 24 &&& (2 ^ 7 - 1) = _
    rw [Nat.and_two_pow_sub_one_eq_mod, Nat.shiftRight_eq_div_pow]
  have hshift : (p.bits >>> 31).toNat = p.bits.toNat / 2 ^ 31 := by
    rw [UInt32.toNat_shiftRight]
    show p.bits.toNat >>> 31 = _
    rw [Nat.shiftRight_eq_div_pow]
  have htop : p.direction.bit.toNat = p.bits.toNat / 2 ^ 31 := by
    unfold direction
    split
    · rename_i hzero
      rw [← hshift, hzero]
      rfl
    · rename_i hne
      have hpos : p.bits.toNat / 2 ^ 31 ≠ 0 := fun h0 =>
        hne (UInt32.toNat_inj.mp (hshift.trans h0))
      show 1 = _
      omega
  rw [index, hfield, hnode, htop]
  omega

theorem index_ge (p : Pin) : -1 ≤ p.index := by
  rw [index]
  omega

theorem index_le_greatest (p : Pin) : p.index ≤ greatestIndex := by
  have hlt : ((p.bits >>> 24) &&& 0x7f).toNat ≤ 0x7f := by
    rw [UInt32.toNat_and]
    exact Nat.and_le_right
  simp only [index, greatestIndex]
  omega

theorem index_le {p : Pin} : p.index.toNat ≤ greatestIndex := by
  have hle := p.index_le_greatest
  omega

/-- A pin is made of its parts. -/
theorem pack_parts (p : Pin) : pack p.node p.index p.direction = p := by
  have hbits : (pack p.node p.index p.direction).bits = p.bits := by
    apply UInt32.toNat_inj.mp
    rw [toNat_bits_pack_of_le _ p.node_le p.index_ge p.index_le_greatest, ← toNat_bits]
  exact congrArg Pin.mk hbits

/-- A pin with an index is made of its parts. -/
theorem eq_pack {p : Pin} (hindex : 0 ≤ p.index) : p = pack p.node p.index.toNat p.direction := by
  rw [Int.toNat_of_nonneg hindex, pack_parts]

/-- An output pin is made of its node and its index. -/
theorem eq_output {p : Pin} (hdir : p.direction = .output) (hindex : 0 ≤ p.index) :
    p = output p.node p.index.toNat := by
  rw [output, ← hdir]
  exact eq_pack hindex

/-- An input pin is made of its node and its index. -/
theorem eq_input {p : Pin} (hdir : p.direction = .input) (hindex : 0 ≤ p.index) :
    p = input p.node p.index.toNat := by
  rw [input, ← hdir]
  exact eq_pack hindex

end Pin

namespace Link

theorem source_pack (source target : Pin) : (pack source target).source = source := by
  have hbits : (pack source target).bits.toUInt32 = source.bits := by
    apply UInt32.toNat_inj.mp
    have hs := source.bits.toNat_lt
    simp only [pack, UInt64.toNat_toUInt32, UInt64.toNat_or, UInt64.toNat_shiftLeft,
      UInt32.toNat_toUInt64]
    show (target.bits.toNat <<< 32 % 2 ^ 64 ||| source.bits.toNat) % 2 ^ 32 = _
    rw [Nat.or_mod_two_pow, Nat.shiftLeft_eq]
    have hzero : target.bits.toNat * 2 ^ 32 % 2 ^ 64 % 2 ^ 32 = 0 := by omega
    rw [hzero, Nat.zero_or, Nat.mod_eq_of_lt hs]
  simp only [Link.source, hbits]

theorem target_pack (source target : Pin) : (pack source target).target = target := by
  have hbits : ((pack source target).bits >>> 32).toUInt32 = target.bits := by
    apply UInt32.toNat_inj.mp
    have hs := source.bits.toNat_lt
    have ht := target.bits.toNat_lt
    have hhigh : target.bits.toNat <<< 32 % 2 ^ 64 = target.bits.toNat <<< 32 := by
      rw [Nat.mod_eq_of_lt]
      rw [Nat.shiftLeft_eq]
      omega
    simp only [pack, UInt64.toNat_toUInt32, UInt64.toNat_shiftRight, UInt64.toNat_or,
      UInt64.toNat_shiftLeft, UInt32.toNat_toUInt64]
    show (target.bits.toNat <<< 32 % 2 ^ 64 ||| source.bits.toNat) >>> 32 % 2 ^ 32 = _
    rw [hhigh, ← Nat.shiftLeft_add_eq_or_of_lt hs, Nat.shiftRight_eq_div_pow, Nat.shiftLeft_eq]
    omega
  simp only [Link.target, hbits]

/-- The source of a link between two pins is the one that is not an input. -/
theorem source_between (a b : Pin) : (between a b).source = if a.isInput then b else a := by
  unfold between
  split
  · exact source_pack b a
  · exact source_pack a b

theorem target_between (a b : Pin) : (between a b).target = if a.isInput then a else b := by
  unfold between
  split
  · exact target_pack b a
  · exact target_pack a b

/-- A link between an input and an output leads from the output to the input. -/
theorem directions_between {a b : Pin} (h : a.direction ≠ b.direction) :
    (between a b).source.direction = .output ∧ (between a b).target.direction = .input := by
  rw [source_between, target_between, Pin.isInput]
  cases ha : a.direction <;> cases hb : b.direction <;> simp_all

/-- Between an input and an output the order of the pins does not matter. -/
theorem between_comm {a b : Pin} (h : a.direction ≠ b.direction) : between a b = between b a := by
  unfold between Pin.isInput
  cases ha : a.direction <;> cases hb : b.direction <;> simp_all

/-- The word of a link: its target counts more than its source. -/
theorem toNat_bits (l : Link) :
    l.bits.toNat = l.target.bits.toNat * 2 ^ 32 + l.source.bits.toNat := by
  have hl := l.bits.toNat_lt
  have htarget : l.target.bits.toNat = l.bits.toNat / 2 ^ 32 := by
    show (l.bits >>> 32).toUInt32.toNat = _
    rw [UInt64.toNat_toUInt32, UInt64.toNat_shiftRight]
    show l.bits.toNat >>> 32 % 2 ^ 32 = _
    rw [Nat.shiftRight_eq_div_pow]
    omega
  have hsource : l.source.bits.toNat = l.bits.toNat % 2 ^ 32 := by
    show l.bits.toUInt32.toNat = _
    rw [UInt64.toNat_toUInt32]
  rw [htarget, hsource]
  omega

theorem toNat_bits_floorOf (p : Pin) : (floorOf p).bits.toNat = p.bits.toNat * 2 ^ 32 := by
  have hp := p.bits.toNat_lt
  show (p.bits.toUInt64 <<< 32).toNat = _
  rw [UInt64.toNat_shiftLeft, UInt32.toNat_toUInt64]
  show p.bits.toNat <<< 32 % 2 ^ 64 = _
  rw [Nat.shiftLeft_eq]
  omega

theorem lt_iff_toNat {a b : Link} : a < b ↔ a.bits.toNat < b.bits.toNat := UInt64.lt_iff_toNat_lt

theorem eq_of_toNat {a b : Link} (h : a.bits.toNat = b.bits.toNat) : a = b :=
  congrArg Link.mk (UInt64.toNat_inj.mp h)

/-- A link is made of its ends. -/
theorem pack_ends (l : Link) : pack l.source l.target = l := by
  refine eq_of_toNat ?_
  rw [toNat_bits (pack l.source l.target), toNat_bits l, source_pack, target_pack]

end Link

end NodeShader
