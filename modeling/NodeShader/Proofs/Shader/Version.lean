import NodeShader.Proofs.Source.Literals

/-!
# Versions read back

A version that was read has three digits, and its text has these digits again, so that it can be read
back with the same numbers. The profile is another matter. The text names it from version 3 on, and
the reader knows that 100 is a version of the embedded language without being told; between the two a
version that was read as `es` is read back without its profile (`Version.rereads_iff`).
-/

namespace NodeShader

open Number (IsNumeral isDigit digitsOf padLeft takeSign spanDigits)

namespace Number

/-- Zeros before a number fill it up to the width, and no further. -/
theorem length_padLeft {width : Nat} {fill : Char} {cs : List Char} (h : cs.length ≤ width) :
    (padLeft width fill cs).length = width := by
  rw [padLeft, List.length_append, List.length_replicate]
  omega

theorem digits_padLeft (width n : Nat) : ∀ c ∈ padLeft width '0' (digitsOf n), isDigit c = true := by
  intro c hc
  rcases List.mem_append.mp hc with hc | hc
  · rw [List.eq_of_mem_replicate hc]
    rfl
  · exact isDigit_of_mem_digitsOf hc

/-- Zeros before a number change nothing. -/
theorem ofDigitChars_padLeft (width n : Nat) :
    Nat.ofDigitChars 10 (padLeft width '0' (digitsOf n)) 0 = n := by
  rw [padLeft, Nat.ofDigitChars_append, Nat.ofDigitChars_replicate_zero, Nat.mul_zero]
  exact Nat.ofDigitChars_ten_toDigits

end Number

namespace Version

/-- The version as one number, the minor part in its last two digits. -/
def value (v : Version) : Nat := 100 * v.major.toNat + v.minor.toNat

/-- The version has one digit and then two. -/
structure HasThreeDigits (v : Version) : Prop where
  major_pos : 1 ≤ v.major.toNat
  major_le : v.major.toNat ≤ 9
  minor_le : v.minor.toNat ≤ 99

/-! ## Reading -/

theorem not_isInlineBlank_of_isDigit {c : Char} (h : isDigit c = true) : isInlineBlank c = false := by
  simp only [isDigit, Bool.and_eq_true, decide_eq_true_eq, Char.le_def] at h
  have hlow : 48 ≤ c.toNat := h.1
  have hhigh : c.toNat ≤ 57 := h.2
  have hblank : Text.isBlank c = false := by
    simp only [Text.isBlank, Bool.or_eq_false_iff, Bool.and_eq_false_iff, decide_eq_false_iff_not,
      beq_eq_false_iff_ne]
    omega
  simp [isInlineBlank, hblank]

/-- A numeral that fits is read to its end. -/
theorem readInteger?_numeral {cs rest : List Char} (h : IsNumeral cs)
    (hrest : ∀ c ∈ rest.head?, isDigit c = false) (hsmall : Nat.ofDigitChars 10 cs 0 < 2 ^ 63) :
    readInteger? (cs ++ rest) = some ((Nat.ofDigitChars 10 cs 0 : Int), rest) := by
  obtain ⟨c, more, rfl⟩ := List.exists_cons_of_ne_nil h.ne_nil
  have hblank : (c :: more ++ rest).dropWhile isInlineBlank = c :: more ++ rest := by
    rw [List.cons_append, List.dropWhile_cons_of_neg]
    simp [not_isInlineBlank_of_isDigit (h.digits c (by simp))]
  have hrange : -(2 ^ 63) ≤ (Nat.ofDigitChars 10 (c :: more) 0 : Int) ∧
      (Nat.ofDigitChars 10 (c :: more) 0 : Int) < 2 ^ 63 := by omega
  simp only [readInteger?, hblank, Number.takeSign_numeral h, Number.spanDigits_append h.digits hrest,
    Number.digitsValue?_of_digits h.digits, Bool.false_eq_true, if_false]
  exact if_pos hrange

/-- What is read has three digits, and 100 is read as a version of the embedded language. -/
theorem hasThreeDigits_of_parse? {s : String} {v : Version} (h : parse? s = some v) :
    v.HasThreeDigits ∧ (v.value = 100 → v.es = true) := by
  unfold parse? at h
  split at h
  · exact absurd h (by simp)
  · rename_i n rest _
    simp only at h
    split at h
    · rename_i hrange
      cases h
      have hmajor : (UInt8.ofNat (n.toNat / 100)).toNat = n.toNat / 100 := by
        rw [UInt8.toNat_ofNat']
        omega
      have hminor : (UInt8.ofNat (n.toNat % 100)).toNat = n.toNat % 100 := by
        rw [UInt8.toNat_ofNat']
        omega
      refine ⟨⟨?_, ?_, ?_⟩, fun hvalue => ?_⟩
      · rw [hmajor]
        omega
      · rw [hmajor]
        omega
      · rw [hminor]
        omega
      · simp only [value, hmajor, hminor] at hvalue
        have hn : n = 100 := by omega
        simp [hn]
    · exact absurd h (by simp)

/-! ## Writing and reading back -/

theorem isNumeral_number (v : Version) : IsNumeral v.number.toList := by
  rw [number, String.toList_ofList]
  refine ⟨fun hnil => Number.digitsOf_ne_nil _ (List.append_eq_nil_iff.mp hnil).1, fun c hc => ?_⟩
  rcases List.mem_append.mp hc with hc | hc
  · exact Number.isDigit_of_mem_digitsOf hc
  · exact Number.digits_padLeft _ _ c hc

/-- The digits of a version stand for its number. -/
theorem ofDigitChars_number {v : Version} (h : v.HasThreeDigits) :
    Nat.ofDigitChars 10 v.number.toList 0 = v.value := by
  have hlength : (padLeft 2 '0' (digitsOf v.minor.toNat)).length = 2 := by
    refine Number.length_padLeft ((Nat.length_toDigits_le_iff (by decide) (by decide)).mpr ?_)
    exact Nat.lt_succ_of_le h.minor_le
  have hmajor : Nat.ofDigitChars 10 (digitsOf v.major.toNat) 0 = v.major.toNat :=
    Nat.ofDigitChars_ten_toDigits
  rw [number, String.toList_ofList, Nat.ofDigitChars_append, Nat.ofDigitChars_eq_ofDigitChars_zero,
    hlength, hmajor, Number.ofDigitChars_padLeft, value]

/-- Does the text name the profile? -/
def namesProfile (v : Version) : Bool := v.es && 3 ≤ v.major

theorem toList_text (v : Version) :
    v.text.toList = v.number.toList ++ if v.namesProfile then [' ', 'e', 's'] else [] := by
  unfold text namesProfile
  split <;> simp

/-- The numbers of a version are read back from its text. The profile is read where it is named, or
known from the number. -/
theorem parse?_text {v : Version} (h : v.HasThreeDigits) :
    parse? v.text = some { v with es := v.namesProfile || v.value = 100 } := by
  obtain ⟨hpos, hle, hminor⟩ := h
  have hvalue : v.value = 100 * v.major.toNat + v.minor.toNat := rfl
  have hread : ∀ rest : List Char, (∀ c ∈ rest.head?, isDigit c = false) →
      readInteger? (v.number.toList ++ rest) = some ((v.value : Int), rest) := by
    intro rest hrest
    have hnumeral := readInteger?_numeral v.isNumeral_number hrest
    rw [ofDigitChars_number ⟨hpos, hle, hminor⟩] at hnumeral
    exact hnumeral (by omega)
  have hmajor : UInt8.ofNat (v.value / 100) = v.major := by
    apply UInt8.toNat_inj.mp
    rw [UInt8.toNat_ofNat']
    omega
  have hminor' : UInt8.ofNat (v.value % 100) = v.minor := by
    apply UInt8.toNat_inj.mp
    rw [UInt8.toNat_ofNat']
    omega
  have hlow : (100 : Int) ≤ v.value := by omega
  have hhigh : (v.value : Int) ≤ 999 := by omega
  have hhundred : (v.value : Int) = 100 ↔ v.value = 100 := by omega
  have hes : String.ofList (readProfile [' ', 'e', 's']) = "es" := by decide
  have hnone : String.ofList (readProfile []) = "" := rfl
  rw [parse?, toList_text]
  cases v.namesProfile with
  | true =>
      rw [if_pos rfl, hread _ (by simp [isDigit])]
      simp [hes, hlow, hhigh, hmajor, hminor']
  | false =>
      rw [if_neg Bool.false_ne_true, hread _ (by simp)]
      simp [hnone, hlow, hhigh, hmajor, hminor', hhundred]

/-- A version that was read is read back from its text with the same numbers. It is the same version
exactly when its profile was not `es`, or is one that the text shows: from version 3 on, and for 100. -/
theorem rereads_iff {s : String} {v : Version} (h : parse? s = some v) :
    (∃ es, parse? v.text = some { v with es }) ∧
      (parse? v.text = some v ↔ (v.es = true → 3 ≤ v.major ∨ v.value = 100)) := by
  obtain ⟨hdigits, hembedded⟩ := hasThreeDigits_of_parse? h
  rw [parse?_text hdigits]
  refine ⟨⟨_, rfl⟩, ?_⟩
  obtain ⟨major, minor, es⟩ := v
  cases es with
  | false =>
      have hnot : ¬ value ⟨major, minor, false⟩ = 100 :=
        fun hvalue => absurd (hembedded hvalue) (by simp)
      simp [namesProfile, hnot]
  | true => simp [namesProfile]

/-- The embedded language at version 3 keeps its profile, and a version of 1 without one stays so. -/
theorem rereads_embedded :
    (parse? "\t+300  es x" = some ⟨3, 0, true⟩ ∧ parse? (text ⟨3, 0, true⟩) = some ⟨3, 0, true⟩) ∧
      parse? "120core" = some ⟨1, 20, false⟩ ∧ parse? (text ⟨1, 20, false⟩) = some ⟨1, 20, false⟩ := by
  have hembedded : parse? "\t+300  es x" = some ⟨3, 0, true⟩ := by decide
  have hplain : parse? "120core" = some ⟨1, 20, false⟩ := by decide
  exact ⟨⟨hembedded, (rereads_iff hembedded).2.mpr (by decide)⟩, hplain,
    (rereads_iff hplain).2.mpr (by decide)⟩

/-- Version 1.20 with the profile `es` is read, and is read back without it. -/
theorem not_rereads_embedded_early : ¬ ∀ s v, parse? s = some v → parse? v.text = some v := by
  intro hall
  have hread : parse? "120 es" = some ⟨1, 20, true⟩ := by decide
  have hback : parse? (text ⟨1, 20, true⟩) = some ⟨1, 20, false⟩ := by decide
  exact absurd ((hall _ _ hread).symm.trans hback) (by decide)

end Version

end NodeShader
