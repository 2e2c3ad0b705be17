import NodeShader.Proofs.Number.Shortest
import NodeShader.Proofs.Source.Spelling

/-!
# What literals stand for

The literal of a finite number is digits around a point, perhaps with a minus before them, and what
they stand for is the shortest decimal that is rounded to the number. So it can be read back: the
reader of numerals returns the number bit for bit, and different numbers have different literals.
What is not finite is in brackets, and a finite number never is.
-/

namespace NodeShader

open Number (IsNumeral isDigit Decimal Layout Single SignedDecimal decimalLength signed)

/-! ## Digits around a point -/

namespace Number

/-- The number that digits around a point stand for. -/
def fixedValue (whole fraction : List Char) : ℚ :=
  Nat.ofDigitChars 10 (whole ++ fraction) 0 / 10 ^ fraction.length

/-- A zero behind the point changes nothing. -/
theorem fixedValue_zero (whole : List Char) : fixedValue whole ['0'] = fixedValue whole [] := by
  unfold fixedValue
  rw [Nat.ofDigitChars_append, List.append_nil]
  simp [Nat.ofDigitChars_cons, Nat.ofDigitChars_nil]

/-- Positional notation stands for the decimal. -/
theorem Decimal.fixedValue_positionalParts (d : Decimal) :
    fixedValue d.positionalParts.1 d.positionalParts.2 = d.toRat := by
  by_cases hzero : d.coefficient = 0
  · have hparts : d.positionalParts = (['0'], []) := by
      simp [positionalParts, point, digits, hzero]
    rw [hparts, toRat, hzero]
    simp [fixedValue, Nat.ofDigitChars_cons, Nat.ofDigitChars_nil]
  · have hdigits : d.digits = digitsOf d.coefficient := if_neg hzero
    have hpoint : d.point = d.digits.length + d.exponent := if_neg hzero
    have hne : d.digits.isEmpty = false := by
      rw [hdigits]
      simpa using digitsOf_ne_nil d.coefficient
    have hvalue : Nat.ofDigitChars 10 d.digits 0 = d.coefficient := by
      rw [hdigits]
      exact Nat.ofDigitChars_ten_toDigits
    unfold positionalParts fixedValue
    dsimp only
    split
    · -- zeros before the digits, behind the point
      rename_i hle
      have hlength : (-d.point).toNat + d.digits.length = (-d.exponent).toNat := by omega
      rw [hne]
      simp only [Bool.false_eq_true, if_false, List.length_append, List.length_replicate, hlength]
      rw [Nat.ofDigitChars_append, Nat.ofDigitChars_append, Nat.ofDigitChars_replicate_zero]
      have hstart : Nat.ofDigitChars 10 ['0'] 0 = 0 := by decide
      rw [hstart, Nat.mul_zero, hvalue, toRat, ← zpow_natCast, Int.toNat_of_nonneg (by omega),
        zpow_neg, div_inv_eq_mul]
    · rename_i hgt
      rcases Nat.le_total d.point.toNat d.digits.length with hle | hle
      · -- the point among the digits
        have hnone : d.point.toNat - d.digits.length = 0 := by omega
        have hlength : d.digits.length - d.point.toNat = (-d.exponent).toNat := by omega
        rw [hnone, List.replicate_zero, List.append_nil, List.take_append_drop, hvalue,
          List.length_drop, hlength, toRat, ← zpow_natCast, Int.toNat_of_nonneg (by omega), zpow_neg,
          div_inv_eq_mul]
      · -- zeros behind the digits, before the point
        have hlength : d.point.toNat - d.digits.length = d.exponent.toNat := by omega
        rw [List.take_of_length_le hle, List.drop_of_length_le hle, List.append_nil,
          Nat.ofDigitChars_append, Nat.ofDigitChars_replicate_zero, hvalue, hlength, toRat]
        push_cast
        rw [← zpow_natCast, Int.toNat_of_nonneg (by omega), List.length_nil, pow_zero, div_one,
          mul_comm]

/-! ## Reading -/

theorem digitValue?_of_isDigit {c : Char} (h : isDigit c = true) :
    digitValue? 10 c = some (c.toNat - '0'.toNat) := by
  simp only [isDigit, Bool.and_eq_true, decide_eq_true_eq] at h
  have hlt : c.toNat - '0'.toNat < 10 := by
    have hle : c.toNat ≤ '9'.toNat := h.2
    have hnine : '9'.toNat = 57 := rfl
    have hzero : '0'.toNat = 48 := rfl
    omega
  simp only [digitValue?, h.1, h.2, and_self, if_true, Option.filter_some, hlt, decide_true]

theorem digitsValue?_of_digits {cs : List Char} (h : ∀ c ∈ cs, isDigit c = true) (acc : Nat) :
    digitsValue? 10 cs acc = some (Nat.ofDigitChars 10 cs acc) := by
  induction cs generalizing acc with
  | nil => rfl
  | cons c rest ih =>
      rw [digitsValue?, digitValue?_of_isDigit (h c (by simp)), Nat.ofDigitChars_cons]
      dsimp only
      rw [ih fun d hd => h d (List.mem_cons_of_mem _ hd), Nat.mul_comm]

/-- The longest run of digits ends where something else stands. -/
theorem spanDigits_append {cs rest : List Char} (h : ∀ c ∈ cs, isDigit c = true)
    (hrest : ∀ c ∈ rest.head?, isDigit c = false) : spanDigits (cs ++ rest) = (cs, rest) := by
  rw [spanDigits, List.span_eq_takeWhile_dropWhile]
  have hnone : rest.takeWhile isDigit = [] ∧ rest.dropWhile isDigit = rest := by
    cases rest with
    | nil => exact ⟨rfl, rfl⟩
    | cons c more => simp [hrest c (by simp)]
  rw [List.takeWhile_append_of_pos h, List.dropWhile_append_of_pos h, hnone.1, hnone.2,
    List.append_nil]

/-- A digit is no sign. -/
theorem takeSign_numeral {whole : List Char} (h : IsNumeral whole) (rest : List Char) :
    takeSign (whole ++ rest) = (false, whole ++ rest) := by
  cases whole with
  | nil => exact absurd rfl h.ne_nil
  | cons c more =>
      have hc : isDigit c = true := h.digits c (by simp)
      rw [List.cons_append]
      unfold takeSign
      split
      · rename_i heq
        cases heq
        exact absurd hc (by decide)
      · rename_i heq
        cases heq
        exact absurd hc (by decide)
      · rfl

/-- Digits around a point are read as what they stand for. -/
theorem read?_fixed (negative : Bool) {whole fraction : List Char} (hw : IsNumeral whole)
    (hf : IsNumeral fraction) :
    SignedDecimal.read? ((if negative then ['-'] else []) ++ whole ++ '.' :: fraction) =
      some ⟨negative, ⟨Nat.ofDigitChars 10 (whole ++ fraction) 0, 0 - fraction.length⟩⟩ := by
  have hsign : takeSign ((if negative then ['-'] else []) ++ whole ++ '.' :: fraction) =
      (negative, whole ++ '.' :: fraction) := by
    cases negative with
    | false => exact takeSign_numeral hw ('.' :: fraction)
    | true => rfl
  have hwhole : spanDigits (whole ++ '.' :: fraction) = (whole, '.' :: fraction) :=
    spanDigits_append hw.digits (by simp [isDigit])
  have hfraction : spanDigits fraction = (fraction, []) := by
    rw [← List.append_nil fraction, spanDigits_append hf.digits (by simp), List.append_nil]
  have hdigits : ∀ c ∈ whole ++ fraction, isDigit c = true := fun c hc =>
    (List.mem_append.mp hc).elim (hw.digits c) (hf.digits c)
  have hempty : whole.isEmpty = false := by simpa using hw.ne_nil
  simp only [SignedDecimal.read?, hsign, hwhole, hfraction, hempty, Bool.false_and,
    Bool.false_eq_true, if_false, digitsValue?_of_digits hdigits, readExponent?]

/-- The decimal that is read from digits around a point. -/
theorem toRat_fixed (whole fraction : List Char) :
    (⟨Nat.ofDigitChars 10 (whole ++ fraction) 0, 0 - fraction.length⟩ : Decimal).toRat =
      fixedValue whole fraction := by
  rw [Decimal.toRat, fixedValue, zero_sub, zpow_neg, zpow_natCast, div_eq_mul_inv]

/-! ## Rounding what was read -/

/-- A positive decimal is in the decade that its digits say. -/
theorem Decimal.decade_toRat {d : Decimal} (h : 0 < d.coefficient) :
    (10 : ℚ) ^ (decimalLength d.coefficient + d.exponent - 1 : Int) ≤ d.toRat ∧
      d.toRat < 10 ^ (decimalLength d.coefficient + d.exponent : Int) := by
  have hpos := decimalLength_pos h
  have hlow : (10 : ℚ) ^ (decimalLength d.coefficient - 1) ≤ d.coefficient := by
    exact_mod_cast pow_decimalLength_le h
  have hhigh : (d.coefficient : ℚ) < 10 ^ decimalLength d.coefficient := by
    exact_mod_cast lt_pow_decimalLength d.coefficient
  have hten : (0 : ℚ) < 10 ^ d.exponent := by positivity
  have hexponent : (decimalLength d.coefficient + d.exponent - 1 : Int) =
      ((decimalLength d.coefficient - 1 : Nat) : Int) + d.exponent := by omega
  rw [hexponent, zpow_add₀ (by norm_num), zpow_add₀ (by norm_num), zpow_natCast, zpow_natCast, toRat]
  exact ⟨mul_le_mul_of_nonneg_right hlow hten.le, mul_lt_mul_of_pos_right hhigh hten⟩

namespace Layout

variable {l : Layout} {m s : Nat} {d : Decimal}

/-- A decimal in the basin of a number is rounded to its pattern. -/
theorem ofRatio_of_tries (h : l.Normal m s) (hm : 0 < m)
    (hfinite : s * 2 ^ l.fraction + m < l.infinity) (hd : l.Tries m s d.toRat) (negative : Bool) :
    l.ofRatio negative d.ratio.1 d.ratio.2 = l.withSign negative (s * 2 ^ l.fraction + m) := by
  have hcontains : (l.basin m s).contains (4 * (d.ratio.1 * 2 ^ l.unitExponent)) d.ratio.2 = true := by
    have hquarters : 4 * (d.ratio.1 * 2 ^ l.unitExponent) = (l.quarters d).1 := by
      show _ = d.ratio.1 * 2 ^ (l.unitExponent + 2)
      rw [Nat.pow_add]
      ring
    rw [hquarters]
    exact isHit_iff.mpr hd
  rw [ofRatio, roundUnits_of_contains h hm d.ratio_eq.1 hcontains, Nat.min_eq_right hfinite.le]

/-- A decimal in the basin of a single is not far outside the format. -/
theorem bounds_of_tries (hm : 0 < m) (hlt : m < 2 ^ (single.fraction + 1))
    (hfinite : s * 2 ^ single.fraction + m < single.infinity) {x : ℚ} (hx : single.Tries m s x) :
    (10 : ℚ) ^ (-46 : Int) < x ∧ x < 10 ^ (40 : Int) := by
  have hscale : (1 : ℚ) ≤ 2 ^ s := one_le_pow₀ (by norm_num)
  have hlargest : (2 : ℚ) ^ s ≤ 2 ^ 103 * 2 ^ 151 := by
    have hs : s ≤ 103 + 151 := by
      simp only [single, infinity] at hfinite
      omega
    rw [← pow_add]
    exact pow_le_pow_right₀ (by norm_num) hs
  have hone : (1 : ℚ) ≤ m := by exact_mod_cast hm
  have hm' : (m : ℚ) ≤ 2 ^ 24 := by exact_mod_cast hlt.le
  have hgap : (single.gapBelow m s : ℚ) ≤ 2 := by exact_mod_cast gapBelow_le m s
  have hunit : single.unitExponent + 2 = 151 := rfl
  rw [Tries, holds_basin hm, quartersOf, hunit] at hx
  obtain ⟨⟨hlow, hhigh⟩, -⟩ := hx
  constructor
  · have hleast : 2 ≤ x * 2 ^ 151 := by nlinarith
    norm_num at hleast ⊢
    linarith
  · have hmost : x * 2 ^ 151 ≤ 2 ^ 27 * 2 ^ 103 * 2 ^ 151 := by
      calc x * 2 ^ 151 ≤ (4 * m + 2) * 2 ^ s := by linarith
        _ ≤ 2 ^ 27 * (2 ^ 103 * 2 ^ 151) :=
          mul_le_mul (by linarith) hlargest (by positivity) (by positivity)
        _ = 2 ^ 27 * 2 ^ 103 * 2 ^ 151 := (mul_assoc _ _ _).symm
    refine lt_of_le_of_lt (le_of_mul_le_mul_right hmost (by positivity)) ?_
    norm_num

/-- A decimal that stands for a single is read as it. -/
theorem ofDecimal_of_tries (h : single.Normal m s) (hm : 0 < m)
    (hfinite : s * 2 ^ single.fraction + m < single.infinity) (hd : single.Tries m s d.toRat)
    (negative : Bool) :
    single.ofDecimal ⟨negative, d⟩ = single.withSign negative (s * 2 ^ single.fraction + m) := by
  have hne : d.coefficient ≠ 0 := by
    intro hzero
    refine not_tries_zero (l := single) (s := s) hm ?_
    simpa [Decimal.toRat, hzero] using hd
  -- so the power of ten is formed
  obtain ⟨hlow, hhigh⟩ := bounds_of_tries hm h.lt hfinite hd
  obtain ⟨hdecade, hnext⟩ := Decimal.decade_toRat (Nat.pos_of_ne_zero hne)
  have hleast := (zpow_lt_zpow_iff_right₀ (by norm_num : (1 : ℚ) < 10)).mp (hlow.trans hnext)
  have hmost := (zpow_lt_zpow_iff_right₀ (by norm_num : (1 : ℚ) < 10)).mp (hdecade.trans_lt hhigh)
  unfold ofDecimal
  dsimp only
  rw [if_neg hne, if_neg (by omega), if_neg (by omega)]
  exact ofRatio_of_tries h hm hfinite hd negative

end Layout

end Number

/-! ## Literals of finite numbers -/

section

variable {f g : Single} {negative : Bool} {m s : Nat}

/-- A finite number is written as digits around a point that stand for its shortest decimal. -/
theorem literalText_of_finite (h : f.read = .finite negative m s) :
    ∃ whole fraction, IsNumeral whole ∧ IsNumeral fraction ∧
      literalText f = fixedText negative whole fraction ∧
      Number.fixedValue whole fraction = (Layout.single.shortest m s).toRat := by
  obtain ⟨hwhole, hdigits⟩ := (Layout.single.shortest m s).positionalParts_digits
  have hvalue := (Layout.single.shortest m s).fixedValue_positionalParts
  cases hparts : (Layout.single.shortest m s).positionalParts with
  | mk whole fraction =>
      rw [hparts] at hwhole hdigits hvalue
      refine ⟨whole, if fraction.isEmpty then ['0'] else fraction, hwhole, ?_, ?_, ?_⟩
      · split
        · exact ⟨by simp, List.all_eq_true.mp (by decide)⟩
        · rename_i hne
          exact ⟨by simpa using hne, hdigits⟩
      · simp only [literalText, h, hparts, fixedText]
      · rw [← hvalue]
        split
        · rename_i hempty
          rw [List.isEmpty_iff.mp hempty]
          exact Number.fixedValue_zero whole
        · rfl

/-- The literal of a finite number is read as the number. -/
theorem toSingle_read?_literalText (h : f.read = .finite negative m s) :
    (SignedDecimal.read? (literalText f).toList).map SignedDecimal.toSingle = some f := by
  obtain ⟨hnormal, hfinite, hbits⟩ := Layout.normal_of_read h
  obtain ⟨whole, fraction, hw, hf, htext, hvalue⟩ := literalText_of_finite h
  have hpattern : f.bits.toNat = _ := hbits f.toNat_lt
  rw [← Number.toRat_fixed] at hvalue
  rw [htext, fixedText, String.toList_ofList, Number.read?_fixed negative hw hf, Option.map_some,
    SignedDecimal.toSingle, Option.some.injEq]
  rw [← f.ofNatBits_toNat, hpattern]
  congr 1
  rcases Nat.eq_zero_or_pos m with rfl | hm
  · -- of zero only the sign is left
    have hscale : s = 0 := by
      have := Nat.two_pow_pos Layout.single.fraction
      have := hnormal.full
      omega
    have hzero : (Layout.single.shortest 0 s).toRat = 0 := by
      simp [Layout.shortest, Decimal.toRat]
    rw [hzero, Decimal.toRat, mul_eq_zero, or_iff_left (by positivity)] at hvalue
    rw [Layout.ofDecimal, if_pos (by exact_mod_cast hvalue), hscale, Nat.zero_mul]
  · refine Layout.ofDecimal_of_tries hnormal hm hfinite ?_ negative
    rw [hvalue]
    exact (Layout.tries_shortest hnormal hm (by decide)).1

theorem exists_read_of_isFinite (h : f.isFinite = true) :
    ∃ negative m s, f.read = .finite negative m s := by
  unfold Single.isFinite at h
  split at h
  · rename_i negative m s hread
    exact ⟨negative, m, s, hread⟩
  · cases h

/-- Different finite numbers have different literals. -/
theorem literalText_injective (hf : f.isFinite = true) (hg : g.isFinite = true)
    (h : literalText f = literalText g) : f = g := by
  obtain ⟨_, _, _, hf⟩ := exists_read_of_isFinite hf
  obtain ⟨_, _, _, hg⟩ := exists_read_of_isFinite hg
  have hread := toSingle_read?_literalText hf
  rw [h, toSingle_read?_literalText hg] at hread
  exact (Option.some.inj hread).symm

/-! ## Literals of other numbers -/

theorem literalText_of_not_finite (h : f.isFinite = false) : literalText f ∈ quotients := by
  unfold Single.isFinite at h
  unfold literalText
  cases hread : f.read with
  | finite => simp [hread] at h
  | infinite negative => cases negative <;> simp [quotients]
  | notANumber => simp [quotients]

/-- A quotient is in one pair of brackets. -/
theorem quotients_bracketed {text : String} (h : text ∈ quotients) :
    ∃ inner : List Char, text.toList = '(' :: (inner ++ [')']) ∧ '(' ∉ inner ∧ ')' ∉ inner := by
  simp only [quotients, List.mem_cons, List.not_mem_nil, or_false] at h
  rcases h with rfl | rfl | rfl
  · exact ⟨"1.0 / 0.0".toList, by decide⟩
  · exact ⟨"-1.0 / 0.0".toList, by decide⟩
  · exact ⟨"0.0 / 0.0".toList, by decide⟩

/-- Digits around a point are not in brackets. -/
theorem not_bracket_mem_fixedText (negative : Bool) {whole fraction : List Char}
    (hw : IsNumeral whole) (hf : IsNumeral fraction) :
    '(' ∉ (fixedText negative whole fraction).toList := by
  have hbracket : isDigit '(' = false := by decide
  have hwhole : '(' ∉ whole := fun hmem => by simp [hw.digits _ hmem] at hbracket
  have hfraction : '(' ∉ fraction := fun hmem => by simp [hf.digits _ hmem] at hbracket
  rw [fixedText, String.toList_ofList]
  cases negative <;> simp [hwhole, hfraction]

/-- Every literal has a point. -/
theorem point_mem_literalText (f : Single) : '.' ∈ (literalText f).toList := by
  rcases literalText_cases f with hquotient | ⟨negative, whole, fraction, -, -, htext⟩
  · simp only [quotients, List.mem_cons, List.not_mem_nil, or_false] at hquotient
    rcases hquotient with h | h | h <;> rw [h] <;> decide
  · rw [htext, fixedText, String.toList_ofList]
    simp

end

/-! ## Faithful literals -/

/-- Every finite number is written as digits, a point and digits, behind a minus if its sign bit is
set. They stand for the shortest decimal that is rounded to the number, ties going to even, and the
reader of numerals returns every bit of it; so no two finite numbers share a literal. No literal is an
integer. What is not finite is in brackets of its own, as no finite number is. -/
theorem literalText_faithful (f : Single) :
    (∀ negative m s, f.read = .finite negative m s →
      negative = decide (2 ^ 31 ≤ f.bits.toNat) ∧
      ∃ whole fraction, IsNumeral whole ∧ IsNumeral fraction ∧
        literalText f = fixedText negative whole fraction ∧
        Layout.single.RoundsTo (signed negative (Number.fixedValue whole fraction)) negative m s ∧
        (∃ d : Decimal, d.toRat = Number.fixedValue whole fraction ∧
          Layout.single.IsShortest negative m s d) ∧
        (SignedDecimal.read? (literalText f).toList).map SignedDecimal.toSingle = some f) ∧
    (f.isFinite = true → ∀ g : Single, g.isFinite = true → f ≠ g → literalText f ≠ literalText g) ∧
    (∀ (minus : Bool) digits, IsNumeral digits →
      (literalText f).toList ≠ (if minus then ['-'] else []) ++ digits) ∧
    (f.isFinite = false →
      (∃ inner : List Char, (literalText f).toList = '(' :: (inner ++ [')']) ∧
        '(' ∉ inner ∧ ')' ∉ inner) ∧
      ∀ g : Single, g.isFinite = true → literalText g ≠ literalText f) := by
  refine ⟨?_, ?_, ?_, ?_⟩
  · intro negative m s h
    obtain ⟨hnormal, hfinite, hbits⟩ := Layout.normal_of_read h
    obtain ⟨whole, fraction, hw, hf, htext, hvalue⟩ := literalText_of_finite h
    have hshortest := Layout.isShortest_shortest hnormal (by decide) negative
    refine ⟨?_, whole, fraction, hw, hf, htext, ?_, ⟨_, hvalue.symm, hshortest⟩,
      toSingle_read?_literalText h⟩
    · rw [hbits f.toNat_lt]
      exact (Layout.decide_withSign
        (Nat.lt_trans hfinite Layout.single.infinity_lt_signBit) negative).1.symm
    · rw [hvalue]
      exact hshortest.rounds
  · exact fun hf g hg hne heq => hne (literalText_injective hf hg heq)
  · intro minus digits hdigits heq
    have hpoint := point_mem_literalText f
    have hdigit : isDigit '.' = false := by decide
    have hnone : '.' ∉ digits := fun hmem => by simp [hdigits.digits _ hmem] at hdigit
    rw [heq] at hpoint
    cases minus <;> simp [hnone] at hpoint
  · intro hf
    obtain ⟨inner, htext, hopen, hclose⟩ := quotients_bracketed (literalText_of_not_finite hf)
    refine ⟨⟨inner, htext, hopen, hclose⟩, fun g hg heq => ?_⟩
    obtain ⟨negative, m, s, hg⟩ := exists_read_of_isFinite hg
    obtain ⟨whole, fraction, hw, hfraction, hfixed, -⟩ := literalText_of_finite hg
    refine not_bracket_mem_fixedText negative hw hfraction ?_
    rw [← hfixed, heq, htext]
    exact List.mem_cons_self

/-- The least positive number is read back, the two zeros are told apart, and infinity is unlike the
greatest finite number. -/
theorem literalText_faithful_extremes :
    (SignedDecimal.read? (literalText ⟨1⟩).toList).map SignedDecimal.toSingle = some ⟨1⟩ ∧
      literalText ⟨0⟩ ≠ literalText ⟨0x80000000⟩ ∧
      literalText ⟨0x7f7fffff⟩ ≠ literalText ⟨0x7f800000⟩ := by
  refine ⟨?_, ?_, ?_⟩
  · obtain ⟨-, whole, fraction, -, -, -, -, -, hread⟩ :=
      (literalText_faithful ⟨1⟩).1 false 1 0 (by decide)
    exact hread
  · exact (literalText_faithful ⟨0⟩).2.1 (by decide) ⟨0x80000000⟩ (by decide) (by decide)
  · exact ((literalText_faithful ⟨0x7f800000⟩).2.2.2 (by decide)).2 ⟨0x7f7fffff⟩ (by decide)

end NodeShader
