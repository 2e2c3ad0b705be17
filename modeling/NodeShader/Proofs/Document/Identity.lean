import NodeShader.Document.Uuid

/-!
# Identities written and read back

The text of an identity is a list of ASCII characters, so its bytes are the numbers of the characters.
They are 36 with dashes where the reader wants them, and between the dashes stand pairs of hexadecimal
digits that read as the bytes they were written for (`Uuid.read_text`).
-/

namespace NodeShader

/-! ## Bytes of ASCII text -/

namespace Text

theorem toList_loop_eq (bytes : ByteArray) (i : Nat) (acc : List UInt8) :
    ByteArray.toList.loop bytes i acc = acc.reverse ++ bytes.data.toList.drop i := by
  fun_induction ByteArray.toList.loop bytes i acc with
  | case1 i acc hlt ih =>
      have hlt' : i < bytes.data.toList.length := by simpa using hlt
      have hget : bytes.get! i = bytes.data.toList[i] := by
        show bytes.data[i]! = _
        rw [getElem!_pos bytes.data i hlt, Array.getElem_toList]
      rw [ih, hget, List.drop_eq_getElem_cons hlt', List.reverse_cons, List.append_assoc,
        List.singleton_append]
  | case2 i acc hge =>
      have hge' : bytes.data.toList.length ≤ i := by simpa using hge
      rw [List.drop_eq_nil_of_le hge', List.append_nil]

/-- The byte of an ASCII character. -/
def asciiByte (c : Char) : UInt8 := UInt8.ofNat c.toNat

def IsAscii (c : Char) : Prop := c.toNat < 128

theorem utf8EncodeChar_ascii {c : Char} (h : IsAscii c) :
    String.utf8EncodeChar c = [asciiByte c] := by
  have hsize : c.utf8Size = 1 := by
    have hle : c.val ≤ 0x7f := UInt32.le_iff_toNat_le.mpr (Nat.le_of_lt_succ h)
    simp [Char.utf8Size, hle]
  rw [String.utf8EncodeChar_eq_singleton hsize]
  rfl

theorem bytesOf_ofList {cs : List Char} (h : ∀ c ∈ cs, IsAscii c) :
    bytesOf (String.ofList cs) = cs.map asciiByte := by
  have hdata : cs.utf8Encode.data.toList = cs.map asciiByte := by
    induction cs with
    | nil => rfl
    | cons c rest ih =>
        rw [List.utf8Encode_cons, ByteArray.toList_data_append,
          ih fun c hc => h c (List.mem_cons_of_mem _ hc), List.utf8Encode_singleton,
          List.toList_data_toByteArray, utf8EncodeChar_ascii (h c List.mem_cons_self)]
        rfl
  show ByteArray.toList.loop (String.ofList cs).toByteArray 0 [] = _
  rw [toList_loop_eq, String.toByteArray_ofList, List.reverse_nil, List.nil_append, List.drop_zero,
    hdata]

theorem ofNat_asciiByte {c : Char} (h : IsAscii c) : Char.ofNat (asciiByte c).toNat = c := by
  have hlt : c.toNat < 2 ^ 8 := Nat.lt_trans h (by decide)
  rw [asciiByte, UInt8.toNat_ofNat', Nat.mod_eq_of_lt hlt, Char.ofNat_toNat]

/-! ## Hexadecimal digits -/

theorem digitValue?_hexDigit : ∀ n < 16, Number.digitValue? 16 (hexDigit n) = some n := by decide

theorem isAscii_hexDigit : ∀ n < 16, IsAscii (hexDigit n) := by
  unfold IsAscii
  decide

theorem hexDigits_two (n : Nat) : hexDigits 2 n = [hexDigit (n / 16 % 16), hexDigit (n % 16)] := rfl

/-- The digits of some bytes. -/
def hexChars (bytes : List UInt8) : List Char := bytes.flatMap fun b => hexDigits 2 b.toNat

theorem isAscii_hexChars {bytes : List UInt8} : ∀ c ∈ hexChars bytes, IsAscii c := by
  intro c hc
  obtain ⟨b, -, hb⟩ := List.mem_flatMap.mp hc
  rw [hexDigits_two] at hb
  simp only [List.mem_cons, List.not_mem_nil, or_false] at hb
  rcases hb with rfl | rfl <;> exact isAscii_hexDigit _ (Nat.mod_lt _ (by decide))

theorem length_hexChars (bytes : List UInt8) : (hexChars bytes).length = 2 * bytes.length := by
  induction bytes with
  | nil => rfl
  | cons b rest ih =>
      rw [hexChars, List.flatMap_cons, List.length_append, ← hexChars, ih, hexDigits_two]
      simp only [List.length_cons, List.length_nil]
      omega

/-- Bytes are read back from their digits. -/
theorem bytesOfHex?_hexChars (bytes : List UInt8) : bytesOfHex? (hexChars bytes) = some bytes := by
  induction bytes with
  | nil => rfl
  | cons b rest ih =>
      have hb := b.toNat_lt
      have hvalue : b.toNat / 16 % 16 * 16 + b.toNat % 16 = b.toNat := by omega
      rw [hexChars, List.flatMap_cons, ← hexChars, hexDigits_two]
      simp only [List.cons_append, List.nil_append, bytesOfHex?,
        digitValue?_hexDigit _ (Nat.mod_lt _ (by decide : 0 < 16)), ih, hvalue, UInt8.ofNat_toNat]

end Text

/-! ## Groups of digits -/

namespace Uuid

open Text

/-- Five groups of bytes with dashes between their digits. -/
def groupedChars (a b c d e : List UInt8) : List Char :=
  hexChars a ++ '-' :: (hexChars b ++ '-' :: (hexChars c ++ '-' :: (hexChars d ++ '-' :: hexChars e)))

theorem isAscii_groupedChars {a b c d e : List UInt8} :
    ∀ x ∈ groupedChars a b c d e, IsAscii x := by
  intro x hx
  have hdash : IsAscii '-' := by
    unfold IsAscii
    decide
  simp only [groupedChars, List.mem_append, List.mem_cons] at hx
  rcases hx with hx | rfl | hx | rfl | hx | rfl | hx | rfl | hx <;>
    first | exact hdash | exact isAscii_hexChars x hx

theorem pairs?_map_asciiByte (bytes : List UInt8) :
    pairs? ((hexChars bytes).map asciiByte) = some bytes := by
  rw [pairs?, List.map_map, List.map_congr_left (g := id), List.map_id, bytesOfHex?_hexChars]
  exact fun c hc => ofNat_asciiByte (isAscii_hexChars c hc)

/-- Five groups of the right lengths are found between their dashes. -/
theorem grouped?_append {a b c d e : List UInt8} (ha : a.length = 8) (hb : b.length = 4)
    (hc : c.length = 4) (hd : d.length = 4) (he : e.length = 12) :
    grouped? (a ++ dash :: (b ++ dash :: (c ++ dash :: (d ++ dash :: e)))) =
      (pairs? (a ++ (b ++ (c ++ (d ++ e))))).map Uuid.mk := by
  have hdashes : [8, 13, 18, 23].all (fun i =>
      (a ++ dash :: (b ++ dash :: (c ++ dash :: (d ++ dash :: e))))[i]? = some dash) = true := by
    simp [List.getElem?_append, List.getElem?_cons, ha, hb, hc, hd]
  rw [grouped?, if_pos hdashes]
  simp (disch := omega) [List.drop_append, List.drop_eq_nil_of_le, List.take_of_length_le, ha, hb, hc,
    hd]

/-- Sixteen bytes in groups are read back from the text of the groups. -/
theorem read_groupedChars {a b c d e : List UInt8} (ha : a.length = 4) (hb : b.length = 2)
    (hc : c.length = 2) (hd : d.length = 2) (he : e.length = 6) :
    read (String.ofList (groupedChars a b c d e)) = .ok ⟨a ++ (b ++ (c ++ (d ++ e)))⟩ := by
  have hsize : ∀ bytes : List UInt8, ((hexChars bytes).map asciiByte).length = 2 * bytes.length :=
    fun bytes => by rw [List.length_map, length_hexChars]
  have hdash : asciiByte '-' = dash := by decide
  have htext : (groupedChars a b c d e).map asciiByte =
      (hexChars a).map asciiByte ++ dash :: ((hexChars b).map asciiByte ++ dash ::
        ((hexChars c).map asciiByte ++ dash :: ((hexChars d).map asciiByte ++ dash ::
          (hexChars e).map asciiByte))) := by
    simp only [groupedChars, List.map_append, List.map_cons, hdash]
  have hlength : ((groupedChars a b c d e).map asciiByte).length = 36 := by
    simp only [htext, List.length_append, List.length_cons, hsize]
    omega
  have hgrouped : grouped? ((groupedChars a b c d e).map asciiByte) =
      some ⟨a ++ (b ++ (c ++ (d ++ e)))⟩ := by
    rw [htext, grouped?_append (by rw [hsize, ha]) (by rw [hsize, hb]) (by rw [hsize, hc])
      (by rw [hsize, hd]) (by rw [hsize, he])]
    simp only [← List.map_append, hexChars, ← List.flatMap_append]
    rw [← hexChars, pairs?_map_asciiByte, Option.map_some]
  simp only [read, bytesOf_ofList isAscii_groupedChars, hlength, hgrouped, orWrongFormat]

/-- An identity of sixteen bytes is read back from its text. -/
theorem read_text {u : Uuid} (h : u.bytes.length = 16) : read u.text = .ok u := by
  have htext : u.text = String.ofList (groupedChars (u.bytes.take 4) ((u.bytes.drop 4).take 2)
      ((u.bytes.drop 6).take 2) ((u.bytes.drop 8).take 2) ((u.bytes.drop 10).take 6)) := by
    refine String.toList_inj.mp ?_
    simp only [text, hexOfBytes, groupedChars, hexChars, String.toList_append, String.toList_ofList,
      List.drop_zero, List.append_assoc]
    rfl
  have hgroups : u.bytes.take 4 ++ ((u.bytes.drop 4).take 2 ++ ((u.bytes.drop 6).take 2 ++
      ((u.bytes.drop 8).take 2 ++ (u.bytes.drop 10).take 6))) = u.bytes := by
    have hstep : ∀ start count, (u.bytes.drop start).take count ++ u.bytes.drop (start + count) =
        u.bytes.drop start := fun start count => by rw [← List.drop_drop, List.take_append_drop]
    have hlast : (u.bytes.drop 10).take 6 = u.bytes.drop 10 :=
      List.take_of_length_le (by simp [h])
    rw [hlast, hstep 8 2, hstep 6 2, hstep 4 2, List.take_append_drop]
  have hread := read_groupedChars (a := u.bytes.take 4) (b := (u.bytes.drop 4).take 2)
    (c := (u.bytes.drop 6).take 2) (d := (u.bytes.drop 8).take 2) (e := (u.bytes.drop 10).take 6)
    (by simp [h]) (by simp [h]) (by simp [h]) (by simp [h]) (by simp [h])
  rw [htext, hread, hgroups]

/-! ## Fresh identities -/

/-- A random identity has sixteen bytes, four bits of which say that it is one. -/
structure IsRandom (u : Uuid) : Prop where
  length : u.bytes.length = 16
  version : ∃ b : UInt8, u.bytes[6]? = some b ∧ b >>> 4 = 4

/-- The random identity with no other bit set. -/
def leastRandom : Uuid := ⟨[0, 0, 0, 0, 0, 0, 0x40, 0, 0x80, 0, 0, 0, 0, 0, 0, 0]⟩

theorem isRandom_leastRandom : leastRandom.IsRandom := ⟨rfl, 0x40, rfl, by decide⟩

theorem IsRandom.ne_nil {u : Uuid} (h : u.IsRandom) : u ≠ nil := by
  rintro rfl
  obtain ⟨b, hb, hversion⟩ := h.version
  cases hb
  exact absurd hversion (by decide)

theorem length_orFresh {u fresh : Uuid} (hu : u.bytes.length = 16) (hfresh : fresh.IsRandom) :
    (u.orFresh fresh).bytes.length = 16 := by
  unfold orFresh
  split
  · exact hfresh.length
  · exact hu

/-- An identity that was given to a document stays. -/
theorem orFresh_orFresh {fresh : Uuid} (hfresh : fresh.IsRandom) (u other : Uuid) :
    (u.orFresh fresh).orFresh other = u.orFresh fresh := by
  refine if_neg ?_
  unfold orFresh
  split
  · exact hfresh.ne_nil
  · assumption

end Uuid

end NodeShader
