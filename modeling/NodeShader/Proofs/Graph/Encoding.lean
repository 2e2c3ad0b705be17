import NodeShader.Proofs.Graph.Pin
import NodeShader.Proofs.Source.Spelling

/-!
# Pins and links as an encoding

Nothing is lost when a pin is packed into a word, a link into two, or either is written as text. The
parts of a pin and its word determine each other, and so do the ends of a link and its word. The order
of the words is that of the targets first, so that the links into a pin are an interval. In a text the
brackets tell where a number ends, and a number is told by its digits.
-/

namespace NodeShader

/-- What stands before the first mark of a kind is told by the whole, and so is what stands after it. -/
theorem append_mark_inj {α : Type} {mark : α} {xs ys rest rest' : List α} (hxs : mark ∉ xs)
    (hys : mark ∉ ys) (h : xs ++ mark :: rest = ys ++ mark :: rest') : xs = ys ∧ rest = rest' := by
  induction xs generalizing ys with
  | nil =>
      cases ys with
      | nil => exact ⟨rfl, (List.cons.inj h).2⟩
      | cons y ys => exact absurd (List.cons.inj h).1 (List.ne_of_not_mem_cons hys)
  | cons x xs ih =>
      cases ys with
      | nil => exact absurd (List.cons.inj h).1.symm (List.ne_of_not_mem_cons hxs)
      | cons y ys =>
          obtain ⟨rfl, htail⟩ := List.cons.inj h
          obtain ⟨rfl, hrest⟩ := ih (List.not_mem_of_not_mem_cons hxs)
            (List.not_mem_of_not_mem_cons hys) htail
          exact ⟨rfl, hrest⟩

namespace Number

theorem notMem_digitsOf {c : Char} (h : isDigit c = false) (n : Nat) : c ∉ digitsOf n :=
  fun hmem => absurd (isDigit_of_mem_digitsOf hmem) (by simp [h])

theorem toList_intText (n : Int) :
    (intText n).toList = if n < 0 then '-' :: digitsOf n.natAbs else digitsOf n.natAbs :=
  String.toList_ofList

/-- An integer is written with digits, perhaps behind a minus. -/
theorem notMem_intText {c : Char} (h : isDigit c = false) (hminus : c ≠ '-') (n : Int) :
    c ∉ (intText n).toList := by
  rw [toList_intText]
  split
  · exact List.not_mem_cons_of_ne_of_not_mem hminus (notMem_digitsOf h _)
  · exact notMem_digitsOf h _

theorem intText_injective {m n : Int} (h : (intText m).toList = (intText n).toList) : m = n := by
  have hminus : ∀ k, '-' ∉ digitsOf k := notMem_digitsOf (by decide)
  rw [toList_intText, toList_intText] at h
  split at h <;> split at h
  · have habs := digitsOf_injective (List.cons.inj h).2
    omega
  · exact absurd (h ▸ List.mem_cons_self) (hminus _)
  · exact absurd (h ▸ List.mem_cons_self) (hminus _)
  · have habs := digitsOf_injective h
    omega

end Number

open Number (digitsOf intText toList_intText notMem_digitsOf notMem_intText)

namespace Pin

/-! ## Pins as text -/

/-- The mark that a text has for a direction. -/
def arrow : Direction → Char
  | .input => '<'
  | .output => '>'

/-- The text of a pin up to its last bracket. -/
def spelling (p : Pin) : List Char :=
  '(' :: (digitsOf p.node.toNat ++ '[' :: ((intText p.index).toList ++ [']', arrow p.direction]))

theorem toList_text (p : Pin) : p.text.toList = p.spelling ++ [')'] := by
  cases hdir : p.direction <;>
    simp [text, spelling, arrow, hdir, NodeId.text, Number.toList_natText]

/-- The last bracket is the only one of its kind. -/
theorem notMem_spelling (p : Pin) : ')' ∉ p.spelling := by
  have hnode := notMem_digitsOf (c := ')') (by decide) p.node.toNat
  have hindex := notMem_intText (c := ')') (by decide) (by decide) p.index
  have harrow : ')' ≠ arrow p.direction := by cases p.direction <;> decide
  simp [spelling, hnode, hindex, harrow]

theorem arrow_injective {d e : Direction} (h : arrow d = arrow e) : d = e := by
  cases d <;> cases e <;> simp_all [arrow]

theorem spelling_injective {p q : Pin} (h : p.spelling = q.spelling) : p = q := by
  have hsquare := notMem_digitsOf (c := '[') (by decide)
  have hclosed := notMem_intText (c := ']') (by decide) (by decide)
  obtain ⟨hnode, hrest⟩ := append_mark_inj (hsquare _) (hsquare _) (List.cons.inj h).2
  obtain ⟨hindex, hlast⟩ := append_mark_inj (hclosed _) (hclosed _) hrest
  have hnode' : p.node = q.node := UInt32.toNat_inj.mp (Number.digitsOf_injective hnode)
  have hindex' : p.index = q.index := Number.intText_injective hindex
  have hdir : p.direction = q.direction := arrow_injective (List.cons.inj hlast).1
  rw [← pack_parts p, ← pack_parts q, hnode', hindex', hdir]

theorem text_injective : Function.Injective text := by
  intro p q h
  have hchars := congrArg String.toList h
  rw [toList_text, toList_text] at hchars
  exact spelling_injective (List.append_inj_left' hchars rfl)

end Pin

namespace Link

/-! ## Links -/

theorem text_injective : Function.Injective text := by
  intro l m h
  have hchars : ∀ k : Link, k.text.toList = k.source.spelling ++ ')' :: '-' :: k.target.text.toList := by
    intro k
    simp [text, Pin.toList_text]
  have hboth := congrArg String.toList h
  rw [hchars l, hchars m] at hboth
  obtain ⟨hsource, hrest⟩ :=
    append_mark_inj l.source.notMem_spelling m.source.notMem_spelling hboth
  have htarget : l.target = m.target :=
    Pin.text_injective (String.toList_injective (List.cons.inj hrest).2)
  rw [← pack_ends l, ← pack_ends m, Pin.spelling_injective hsource, htarget]

/-- An output and an input are the ends of the link between them, named in either order. -/
theorem between_of_directions {a b : Pin} (ha : a.direction = .output) (hb : b.direction = .input) :
    between a b = pack a b ∧ between b a = pack a b := by
  simp [between, Pin.isInput, ha, hb]

/-- Links are ordered by their targets, and those with one target by their sources. -/
theorem lt_iff_lex (a b : Link) : a < b ↔
    Prod.Lex (· < ·) (· < ·) (a.target.bits, a.source.bits) (b.target.bits, b.source.bits) := by
  have ha := a.source.bits.toNat_lt
  have hb := b.source.bits.toNat_lt
  rw [Prod.lex_def, lt_iff_toNat, toNat_bits a, toNat_bits b]
  dsimp only
  rw [UInt32.lt_iff_toNat_lt, UInt32.lt_iff_toNat_lt, ← UInt32.toNat_inj]
  omega

/-- The links into a pin are an interval. -/
theorem target_eq_iff (l : Link) (p : Pin) : l.target = p ↔
    p.bits.toNat <<< 32 ≤ l.bits.toNat ∧ l.bits.toNat < (p.bits.toNat + 1) <<< 32 := by
  have hsource := l.source.bits.toNat_lt
  have hsame : l.target = p ↔ l.target.bits.toNat = p.bits.toNat := by
    rw [UInt32.toNat_inj]
    exact ⟨congrArg Pin.bits, congrArg Pin.mk⟩
  rw [hsame, toNat_bits l, Nat.shiftLeft_eq, Nat.shiftLeft_eq]
  omega

end Link

/-- Words and texts are faithful names of pins and links. A pin has the parts that it is packed from,
and every word of 32 bits is packed from its parts. An output and an input make one link, whichever is
named first, with these ends; every word of 64 bits with such halves is that of its ends. Links are
ordered by targets and then by sources, and those into a pin are the words from the pin at the high
half up to the next. No two pins and no two links have the same text. -/
theorem encoding_faithful :
    (∀ (node : NodeId) (index : Int) (d : Direction), node ≤ NodeId.greatest → -1 ≤ index →
      index ≤ Pin.greatestIndex →
      (Pin.pack node index d).node = node ∧ (Pin.pack node index d).index = index ∧
        (Pin.pack node index d).direction = d) ∧
    (∀ p : Pin, Pin.pack p.node p.index p.direction = p) ∧
    (∀ a b : Pin, a.direction = .output → b.direction = .input →
      Link.between a b = Link.between b a ∧ (Link.between a b).source = a ∧
        (Link.between a b).target = b) ∧
    (∀ l : Link, l.source.direction = .output → l.target.direction = .input →
      Link.between l.source l.target = l) ∧
    (∀ a b : Link, a < b ↔
      Prod.Lex (· < ·) (· < ·) (a.target.bits, a.source.bits) (b.target.bits, b.source.bits)) ∧
    (∀ (p : Pin) (l : Link), l.target = p ↔
      p.bits.toNat <<< 32 ≤ l.bits.toNat ∧ l.bits.toNat < (p.bits.toNat + 1) <<< 32) ∧
    Function.Injective Pin.text ∧ Function.Injective Link.text := by
  refine ⟨fun node index d hnode hlow hhigh => ?_, Pin.pack_parts, fun a b ha hb => ?_,
    fun l hsource htarget => ?_, Link.lt_iff_lex, fun p l => Link.target_eq_iff l p,
    Pin.text_injective, Link.text_injective⟩
  · exact ⟨Pin.node_pack index d hnode, Pin.index_pack_of_le d hnode hlow hhigh,
      Pin.direction_pack_of_le d hnode hlow hhigh⟩
  · obtain ⟨hab, hba⟩ := Link.between_of_directions ha hb
    rw [hab, hba]
    exact ⟨rfl, Link.source_pack a b, Link.target_pack a b⟩
  · rw [(Link.between_of_directions hsource htarget).1, Link.pack_ends]

/-- At the bounds: the last node with the last index, and the pin without an index. -/
theorem encoding_faithful_bounds :
    (NodeId.greatest ≤ NodeId.greatest ∧
      (Pin.pack NodeId.greatest 126 .output).node = NodeId.greatest ∧
      (Pin.pack NodeId.greatest 126 .output).index = 126 ∧
      (Pin.pack NodeId.greatest 126 .output).direction = .output) ∧
    (Pin.pack 0 (-1) .output).index = -1 ∧
    (Link.between (.pack 2 0 .input) (.pack 1 3 .output)).source = .pack 1 3 .output := by
  obtain ⟨hparts, -, hbetween, -⟩ := encoding_faithful
  obtain ⟨hswap, hsource, -⟩ := hbetween (.pack 1 3 .output) (.pack 2 0 .input)
    (by decide) (by decide)
  exact ⟨⟨by decide, hparts NodeId.greatest 126 .output (by decide) (by decide) (by decide)⟩,
    (hparts 0 (-1) .output (by decide) (by decide) (by decide)).2.1, hswap ▸ hsource⟩

end NodeShader
