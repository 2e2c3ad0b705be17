import Mathlib.Logic.Basic
import NodeShader.Number.Binary

/-!
# Exact conversions

A number that a format can hold is not rounded (`Layout.Normal.roundUnits`). So widening a single and
narrowing the double again gives the single back, and a single that is an integer is what the integer
is rounded to. What is not a number stays none on the way, but with another payload; `plain` forgets
payloads, and up to them every single survives.
-/

namespace NodeShader.Number

/-! ## Rounding quotients -/

theorem roundHalfEven_mul_right (num den : Nat) {k : Nat} (hk : 0 < k) :
    roundHalfEven (num * k) (den * k) = roundHalfEven num den := by
  have hbelow : 2 * (num % den * k) < den * k ↔ 2 * (num % den) < den := by
    rw [← Nat.mul_assoc, Nat.mul_lt_mul_right hk]
  have habove : den * k < 2 * (num % den * k) ↔ den < 2 * (num % den) := by
    rw [← Nat.mul_assoc, Nat.mul_lt_mul_right hk]
  simp only [roundHalfEven, Nat.mul_div_mul_right num den hk, Nat.mul_mod_mul_right, hbelow, habove]

theorem bitLength_le_iff {n k : Nat} : bitLength n ≤ k ↔ n < 2 ^ k := by
  unfold bitLength
  split
  · rename_i h
    subst h
    exact iff_of_true (Nat.zero_le k) (Nat.two_pow_pos k)
  · rename_i h
    exact Nat.log2_lt h

namespace Layout

variable {l : Layout}

theorem roundUnits_mul_right (num den : Nat) {k : Nat} (hk : 0 < k) :
    l.roundUnits (num * k) (den * k) = l.roundUnits num den := by
  unfold roundUnits
  simp only [Nat.mul_div_mul_right num den hk, Nat.mul_right_comm den k,
    roundHalfEven_mul_right _ _ hk]

/-! ## Significands and scales -/

/-- A significand with the scale that a magnitude has for it: it has all its digits unless the scale
is the least. -/
structure Normal (l : Layout) (significand scale : Nat) : Prop where
  lt : significand < 2 ^ (l.fraction + 1)
  full : scale = 0 ∨ 2 ^ l.fraction ≤ significand

theorem Normal.bitLength_sub {m s : Nat} (h : l.Normal m s) :
    bitLength (m * 2 ^ s) - (l.fraction + 1) = s := by
  have hupper : bitLength (m * 2 ^ s) ≤ l.fraction + 1 + s := by
    rw [bitLength_le_iff, Nat.pow_add]
    exact Nat.mul_lt_mul_of_pos_right h.lt (Nat.two_pow_pos s)
  rcases h.full with rfl | hfull
  · omega
  · have hlower : ¬ bitLength (m * 2 ^ s) ≤ l.fraction + s := by
      rw [bitLength_le_iff, Nat.pow_add, Nat.not_lt]
      exact Nat.mul_le_mul_right _ hfull
    omega

/-- A number that a magnitude stands for is not rounded. -/
theorem Normal.roundUnits {m s : Nat} (h : l.Normal m s) :
    l.roundUnits (m * 2 ^ s) 1 = min l.infinity (s * 2 ^ l.fraction + m) := by
  unfold Layout.roundUnits
  simp only [Nat.div_one, h.bitLength_sub, Nat.one_mul,
    roundHalfEven_of_exact _ _ (Nat.two_pow_pos s)]

/-- Every number that has no more digits than a significand is one. -/
theorem exists_normal {m e : Nat} (hm : m < 2 ^ (l.fraction + 1)) :
    ∃ m' s', l.Normal m' s' ∧ m' * 2 ^ s' = m * 2 ^ e ∧ s' ≤ e := by
  induction e with
  | zero => exact ⟨m, 0, ⟨hm, .inl rfl⟩, rfl, Nat.le_refl 0⟩
  | succ e ih =>
      obtain ⟨m', s', hnormal, hvalue, hle⟩ := ih
      by_cases hfull : 2 ^ l.fraction ≤ m'
      · refine ⟨m', s' + 1, ⟨hnormal.lt, .inr hfull⟩, ?_, by omega⟩
        rw [Nat.pow_succ, ← Nat.mul_assoc, hvalue, Nat.pow_succ, ← Nat.mul_assoc]
      · have hzero : s' = 0 := hnormal.full.resolve_right hfull
        subst hzero
        refine ⟨m' * 2, 0, ⟨?_, .inl rfl⟩, ?_, by omega⟩
        · rw [Nat.pow_succ]
          omega
        · rw [Nat.pow_zero, Nat.mul_one] at hvalue ⊢
          rw [hvalue, Nat.pow_succ, Nat.mul_assoc]

/-! ## Reading patterns -/

theorem signBit_eq (l : Layout) : l.signBit = l.infinity + 2 ^ l.fraction := by
  have hle := Nat.le_mul_of_pos_left (2 ^ l.fraction) (Nat.two_pow_pos l.exponent)
  rw [signBit, infinity, Nat.pow_add, Nat.mul_comm, Nat.sub_mul, Nat.one_mul]
  omega

theorem infinity_lt_signBit (l : Layout) : l.infinity < l.signBit := by
  have hpos := Nat.two_pow_pos l.fraction
  rw [signBit_eq]
  omega

theorem withSign_lt {magnitude : Nat} (h : magnitude < l.signBit) (negative : Bool) :
    l.withSign negative magnitude < 2 * l.signBit := by
  cases negative <;> simp only [withSign, Bool.false_eq_true, if_false, if_true] <;> omega

theorem decide_withSign {magnitude : Nat} (h : magnitude < l.signBit) (negative : Bool) :
    decide (l.signBit ≤ l.withSign negative magnitude) = negative ∧
      l.withSign negative magnitude % l.signBit = magnitude := by
  cases negative with
  | true =>
      simp only [withSign, if_true]
      exact ⟨by simp, by rw [Nat.add_mod_left, Nat.mod_eq_of_lt h]⟩
  | false =>
      simp only [withSign, Bool.false_eq_true, if_false]
      exact ⟨by simpa using h, Nat.mod_eq_of_lt h⟩

/-- A pattern is its sign and its magnitude. -/
theorem eq_withSign {bits : Nat} (h : bits < 2 * l.signBit) :
    bits = l.withSign (decide (l.signBit ≤ bits)) (bits % l.signBit) := by
  by_cases hle : l.signBit ≤ bits
  · simp only [hle, decide_true, withSign, if_true]
    rw [Nat.mod_eq_sub_mod hle, Nat.mod_eq_of_lt (by omega)]
    omega
  · simp only [hle, decide_false, withSign, Bool.false_eq_true, if_false]
    rw [Nat.mod_eq_of_lt (by omega)]

theorem read_withSign_normal {m s : Nat} (h : l.Normal m s)
    (hfinite : s * 2 ^ l.fraction + m < l.infinity) (negative : Bool) :
    l.read (l.withSign negative (s * 2 ^ l.fraction + m)) = .finite negative m s := by
  obtain ⟨hsign, hmagnitude⟩ := decide_withSign
    (Nat.lt_trans hfinite l.infinity_lt_signBit) negative
  have hpos := Nat.two_pow_pos l.fraction
  have hscale : (s * 2 ^ l.fraction + m) / 2 ^ l.fraction - 1 = s := by
    rw [Nat.mul_comm, Nat.mul_add_div hpos]
    have hlt := h.lt
    rw [Nat.pow_succ] at hlt
    rcases h.full with rfl | hfull
    · have hsmall : m / 2 ^ l.fraction < 2 := Nat.div_lt_of_lt_mul hlt
      omega
    · have hone : m / 2 ^ l.fraction = 1 := Nat.div_eq_of_lt_le (by omega) (by omega)
      omega
  simp only [read, hsign, hmagnitude, hfinite, if_true, hscale, Nat.add_sub_cancel_left]

/-- The significand and the scale of a magnitude. -/
theorem normal_of_magnitude (l : Layout) (magnitude : Nat) :
    l.Normal (magnitude - (magnitude / 2 ^ l.fraction - 1) * 2 ^ l.fraction)
        (magnitude / 2 ^ l.fraction - 1) ∧
      (magnitude / 2 ^ l.fraction - 1) * 2 ^ l.fraction +
        (magnitude - (magnitude / 2 ^ l.fraction - 1) * 2 ^ l.fraction) = magnitude := by
  have hdiv := Nat.div_add_mod magnitude (2 ^ l.fraction)
  have hmod := Nat.mod_lt magnitude (Nat.two_pow_pos l.fraction)
  cases hq : magnitude / 2 ^ l.fraction with
  | zero =>
      rw [hq] at hdiv
      refine ⟨⟨?_, .inl rfl⟩, by omega⟩
      rw [Nat.pow_succ]
      omega
  | succ q =>
      rw [hq, Nat.mul_comm, Nat.succ_mul] at hdiv
      simp only [Nat.succ_sub_one]
      refine ⟨⟨?_, .inr (by omega)⟩, by omega⟩
      rw [Nat.pow_succ]
      omega

theorem normal_of_read {bits m s : Nat} {negative : Bool} (h : l.read bits = .finite negative m s) :
    l.Normal m s ∧ s * 2 ^ l.fraction + m < l.infinity ∧
      (bits < 2 * l.signBit → bits = l.withSign negative (s * 2 ^ l.fraction + m)) := by
  unfold read at h
  simp only at h
  split at h
  · rename_i hfinite
    cases h
    obtain ⟨hnormal, hsum⟩ := l.normal_of_magnitude (bits % l.signBit)
    rw [hsum]
    exact ⟨hnormal, hfinite, eq_withSign⟩
  · split at h <;> cases h

theorem infinite_of_read {bits : Nat} {negative : Bool} (h : l.read bits = .infinite negative)
    (hbits : bits < 2 * l.signBit) : bits = l.withSign negative l.infinity := by
  unfold read at h
  simp only at h
  split at h
  · cases h
  · split at h
    · rename_i hinfinite
      cases h
      exact hinfinite ▸ eq_withSign hbits
    · cases h

theorem notANumber_of_read {bits payload : Nat} {negative : Bool}
    (h : l.read bits = .notANumber negative payload) :
    payload < 2 ^ l.fraction ∧
      (bits < 2 * l.signBit → bits = l.withSign negative (l.infinity + payload)) := by
  unfold read at h
  simp only at h
  split at h
  · cases h
  · rename_i hfinite
    split at h
    · cases h
    · cases h
      have hlt : bits % l.signBit < l.signBit := Nat.mod_lt _ (Nat.two_pow_pos _)
      have hsum := l.signBit_eq
      refine ⟨by omega, fun hbits => ?_⟩
      rw [Nat.add_sub_cancel' (by omega)]
      exact eq_withSign hbits

theorem read_withSign_infinity (negative : Bool) :
    l.read (l.withSign negative l.infinity) = .infinite negative := by
  obtain ⟨hsign, hmagnitude⟩ := decide_withSign l.infinity_lt_signBit negative
  simp only [read, hsign, hmagnitude, Nat.lt_irrefl, if_false, if_true]

/-! ## What is not a number -/

theorem read_withSign_payload {payload : Nat} (hpos : 0 < payload) (hlt : payload < 2 ^ l.fraction)
    (negative : Bool) :
    l.read (l.withSign negative (l.infinity + payload)) = .notANumber negative payload := by
  have hsum : l.infinity + payload < l.signBit := by
    rw [signBit_eq]
    omega
  obtain ⟨hsign, hmagnitude⟩ := decide_withSign hsum negative
  have hfinite : ¬ l.infinity + payload < l.infinity := by omega
  have hinfinite : ¬ l.infinity + payload = l.infinity := by omega
  simp only [read, hsign, hmagnitude, hfinite, hinfinite, if_false, Nat.add_sub_cancel_left]

/-- A quiet payload has its leading bit. -/
theorem quiet_pos (payload k : Nat) : 0 < (payload ||| 2 ^ k) % 2 ^ (k + 1) := by
  refine Nat.pos_of_ne_zero fun hzero => ?_
  have hbit : ((payload ||| 2 ^ k) % 2 ^ (k + 1)).testBit k = true := by
    simp [Nat.testBit_mod_two_pow, Nat.testBit_or, Nat.testBit_two_pow_self]
  rw [hzero] at hbit
  simp at hbit

theorem read_quiet (hfraction : 0 < l.fraction) (negative : Bool) (payload : Nat) :
    l.read (l.quiet negative payload) =
      .notANumber negative ((payload ||| 2 ^ (l.fraction - 1)) % 2 ^ l.fraction) := by
  obtain ⟨k, hk⟩ : ∃ k, l.fraction = k + 1 := ⟨l.fraction - 1, by omega⟩
  refine read_withSign_payload ?_ (Nat.mod_lt _ (Nat.two_pow_pos _)) negative
  rw [hk]
  exact quiet_pos payload k

theorem quiet_lt (negative : Bool) (payload : Nat) : l.quiet negative payload < 2 * l.signBit := by
  refine withSign_lt ?_ negative
  rw [signBit_eq]
  have := Nat.mod_lt (payload ||| 2 ^ (l.fraction - 1)) (Nat.two_pow_pos l.fraction)
  omega

end Layout

/-! ## Singles and doubles -/

namespace Single

theorem read_ofNatBits {bits : Nat} (h : bits < 2 * Layout.single.signBit) :
    (ofNatBits bits).read = Layout.single.read bits := by
  rw [read, ofNatBits, UInt32.toNat_ofNat', Nat.mod_eq_of_lt (show bits < 2 ^ 32 from h)]

theorem ofNatBits_toNat (x : Single) : ofNatBits x.bits.toNat = x := by
  rw [ofNatBits, UInt32.ofNat_toNat]

theorem toNat_lt (x : Single) : x.bits.toNat < 2 * Layout.single.signBit := x.bits.toNat_lt

theorem infinity_eq (negative : Bool) :
    infinity negative = ofNatBits (Layout.single.withSign negative Layout.single.infinity) := by
  cases negative <;> rfl

end Single

namespace Double

theorem read_ofNatBits {bits : Nat} (h : bits < 2 * Layout.double.signBit) :
    (ofNatBits bits).read = Layout.double.read bits := by
  rw [read, ofNatBits, UInt64.toNat_ofNat', Nat.mod_eq_of_lt (show bits < 2 ^ 64 from h)]

theorem infinity_eq (negative : Bool) :
    infinity negative = ofNatBits (Layout.double.withSign negative Layout.double.infinity) := by
  cases negative <;> rfl

end Double

/-- A unit of the wider format divides one of the narrower this many times, as a power of two. -/
def unitGap : Nat := Layout.double.unitExponent - Layout.single.unitExponent

theorem unitExponent_double : Layout.double.unitExponent = unitGap + Layout.single.unitExponent := by
  decide

/-- A finite single is read as a double of the same value. -/
theorem Single.read_toDouble_finite {x : Single} {negative : Bool} {m s : Nat}
    (h : x.read = .finite negative m s) :
    ∃ m' s', x.toDouble.read = .finite negative m' s' ∧ m' * 2 ^ s' = m * 2 ^ s * 2 ^ unitGap := by
  obtain ⟨hnormal, hfinite, -⟩ := Layout.normal_of_read h
  have hdigits : m < 2 ^ (Layout.double.fraction + 1) :=
    Nat.lt_of_lt_of_le hnormal.lt (Nat.pow_le_pow_right (by decide) (by decide))
  obtain ⟨m', s', hnormal', hvalue, hscale⟩ :=
    Layout.exists_normal (l := .double) (e := s + unitGap) hdigits
  have hrounded : Layout.double.roundUnits (m * 2 ^ s * 2 ^ Layout.double.unitExponent)
      (2 ^ Layout.single.unitExponent) =
        min Layout.double.infinity (s' * 2 ^ Layout.double.fraction + m') := by
    have hunits := Layout.roundUnits_mul_right (l := .double) (m' * 2 ^ s') 1
      (Nat.two_pow_pos Layout.single.unitExponent)
    rw [Nat.one_mul, hnormal'.roundUnits, hvalue, Nat.pow_add, ← Nat.mul_assoc, Nat.mul_assoc,
      ← Nat.pow_add, ← unitExponent_double] at hunits
    exact hunits
  have hfinite' : s' * 2 ^ Layout.double.fraction + m' < Layout.double.infinity := by
    have hlow : s < 2 ^ Layout.single.exponent - 1 :=
      Nat.lt_of_mul_lt_mul_right (Nat.lt_of_le_of_lt (Nat.le_add_right _ m) hfinite)
    have hroom : s' + 2 ≤ 2 ^ Layout.double.exponent - 1 := by
      have hgap : unitGap = 925 := by decide
      have hsmall : 2 ^ Layout.single.exponent - 1 = 255 := by decide
      have hlarge : 2 ^ Layout.double.exponent - 1 = 2047 := by decide
      omega
    have hlt := hnormal'.lt
    rw [Nat.pow_succ] at hlt
    have hmul := Nat.mul_le_mul_right (2 ^ Layout.double.fraction) hroom
    rw [Nat.add_mul] at hmul
    rw [Layout.infinity]
    omega
  refine ⟨m', s', ?_, by rw [hvalue, Nat.pow_add, Nat.mul_assoc]⟩
  have hlt := Layout.withSign_lt (Nat.lt_trans hfinite' (Layout.infinity_lt_signBit _)) negative
  rw [toDouble, h]
  simp only [Layout.ofRatio, hrounded]
  rw [Nat.min_eq_right (Nat.le_of_lt hfinite')]
  exact (Double.read_ofNatBits hlt).trans (Layout.read_withSign_normal hnormal' hfinite' negative)

/-- A single with the value of a finite double is what the double is rounded to. -/
theorem Single.toSingle_of_read_finite {x : Single} {y : Double} {negative : Bool} {m s m' s' : Nat}
    (h : x.read = .finite negative m s) (hy : y.read = .finite negative m' s')
    (hvalue : m' * 2 ^ s' = m * 2 ^ s * 2 ^ unitGap) : y.toSingle = x := by
  obtain ⟨hnormal, hfinite, hbits⟩ := Layout.normal_of_read h
  have hrounded : Layout.single.roundUnits (m' * 2 ^ s' * 2 ^ Layout.single.unitExponent)
      (2 ^ Layout.double.unitExponent) = s * 2 ^ Layout.single.fraction + m := by
    have hunits := Layout.roundUnits_mul_right (l := .single) (m * 2 ^ s) 1
      (Nat.two_pow_pos Layout.double.unitExponent)
    rw [Nat.one_mul, hnormal.roundUnits, Nat.min_eq_right (Nat.le_of_lt hfinite)] at hunits
    rw [hvalue, Nat.mul_assoc (m * 2 ^ s), ← Nat.pow_add, ← unitExponent_double]
    exact hunits
  rw [Double.toSingle, hy]
  simp only [Layout.ofRatio, hrounded]
  rw [← hbits x.toNat_lt, ofNatBits_toNat]

/-! ## Widening and narrowing -/

theorem Single.read_toDouble_infinite {x : Single} {negative : Bool}
    (h : x.read = .infinite negative) : x.toDouble.read = .infinite negative := by
  have hlt := Layout.withSign_lt (Layout.infinity_lt_signBit .double) negative
  rw [toDouble, h]
  simp only [Double.infinity_eq]
  exact (Double.read_ofNatBits hlt).trans (Layout.read_withSign_infinity negative)

theorem Single.read_toDouble_notANumber {x : Single} {negative : Bool} {payload : Nat}
    (h : x.read = .notANumber negative payload) :
    ∃ payload', x.toDouble.read = .notANumber negative payload' := by
  rw [toDouble, h]
  simp only [Double.read_ofNatBits (Layout.quiet_lt _ _)]
  exact ⟨_, Layout.read_quiet (by decide) _ _⟩

theorem Single.isNaN_toDouble (x : Single) : x.toDouble.isNaN = x.isNaN := by
  unfold Double.isNaN Single.isNaN
  cases h : x.read with
  | finite negative m s =>
      obtain ⟨m', s', hread, -⟩ := read_toDouble_finite h
      rw [hread]
  | infinite negative => rw [read_toDouble_infinite h]
  | notANumber negative payload =>
      obtain ⟨payload', hread⟩ := read_toDouble_notANumber h
      rw [hread]

theorem Double.isNaN_toSingle {x : Double} (h : x.isNaN = true) : x.toSingle.isNaN = true := by
  unfold isNaN at h
  cases hread : x.read with
  | finite negative m s => simp [hread] at h
  | infinite negative => simp [hread] at h
  | notANumber negative payload =>
      rw [toSingle, hread]
      simp only [Single.isNaN, Single.read_ofNatBits (Layout.quiet_lt _ _),
        Layout.read_quiet (l := .single) (by decide)]

/-- Widening loses nothing but what is not a number. -/
theorem Single.toSingle_toDouble {x : Single} (h : x.isNaN = false) : x.toDouble.toSingle = x := by
  cases hread : x.read with
  | finite negative m s =>
      obtain ⟨m', s', hread', hvalue⟩ := read_toDouble_finite hread
      exact toSingle_of_read_finite hread hread' hvalue
  | infinite negative =>
      rw [Double.toSingle, read_toDouble_infinite hread]
      simp only [infinity_eq]
      rw [← Layout.infinite_of_read hread x.toNat_lt, ofNatBits_toNat]
  | notANumber negative payload => simp [isNaN, hread] at h

/-- Is the pattern that of a not-a-number without the leading payload bit? -/
def Single.isSignalling (x : Single) : Bool :=
  match x.read with
  | .notANumber _ payload => payload < 2 ^ 22
  | _ => false

/-- A payload with its leading bit is quiet. -/
theorem Layout.quiet_eq {l : Layout} {k payload : Nat} (hfraction : l.fraction = k + 1)
    (hlow : 2 ^ k ≤ payload) (hhigh : payload < 2 ^ (k + 1)) (negative : Bool) :
    l.quiet negative payload = l.withSign negative (l.infinity + payload) := by
  have hbit : payload ||| 2 ^ k = payload := by
    have hrest : payload - 2 ^ k < 2 ^ k := by
      rw [Nat.pow_succ] at hhigh
      omega
    have hsplit : payload = 2 ^ k ||| (payload - 2 ^ k) := by
      have hadd := Nat.two_pow_add_eq_or_of_lt hrest 1
      rw [Nat.mul_one] at hadd
      omega
    rw [hsplit, Nat.or_comm, ← Nat.or_assoc, Nat.or_self]
  rw [quiet, hfraction, Nat.add_sub_cancel, hbit, Nat.mod_eq_of_lt hhigh]

/-- Widening loses nothing but the signal of what is not a number. -/
theorem Single.toSingle_toDouble_of_quiet {x : Single} (h : x.isSignalling = false) :
    x.toDouble.toSingle = x := by
  cases hread : x.read with
  | finite => exact toSingle_toDouble (by simp [isNaN, hread])
  | infinite => exact toSingle_toDouble (by simp [isNaN, hread])
  | notANumber negative payload =>
      obtain ⟨hhigh, hbits⟩ := Layout.notANumber_of_read hread
      have hlow : 2 ^ 22 ≤ payload := by simpa [isSignalling, hread] using h
      have hhigh' : payload < 2 ^ 23 := hhigh
      -- twenty-nine zeros are put behind the payload and taken away again
      have hwide : x.toDouble = .ofNatBits (Layout.double.withSign negative
          (Layout.double.infinity + payload * 2 ^ 29)) := by
        rw [toDouble, hread]
        exact congrArg Double.ofNatBits
          (Layout.quiet_eq (k := 51) rfl (by omega) (by omega) negative)
      have hread' : x.toDouble.read = .notANumber negative (payload * 2 ^ 29) := by
        have hlt : Layout.double.infinity + payload * 2 ^ 29 < Layout.double.signBit := by
          rw [Layout.signBit_eq]
          show _ < _ + 2 ^ 52
          omega
        rw [hwide, Double.read_ofNatBits (Layout.withSign_lt hlt negative)]
        exact Layout.read_withSign_payload (by omega) (by show _ < 2 ^ 52; omega) negative
      rw [Double.toSingle, hread']
      simp only [Nat.mul_div_cancel _ (Nat.two_pow_pos 29)]
      rw [Layout.quiet_eq (k := 22) rfl hlow hhigh', ← hbits x.toNat_lt, ofNatBits_toNat]

/-! ## Whole numbers -/

/-- The double is an integer, and not the negative zero. -/
def Double.IsInt (x : Double) (n : Int) : Prop :=
  ∃ m s, x.read = .finite (decide (n < 0)) m s ∧
    m * 2 ^ s = n.natAbs * 2 ^ Layout.double.unitExponent

/-- An integer that a single can be is rounded to that single. -/
theorem Single.ofInt_eq {x : Single} {n : Int} (h : x.toDouble.IsInt n) : ofInt n = x := by
  obtain ⟨m', s', hread', hwhole⟩ := h
  cases hread : x.read with
  | finite negative m s =>
      obtain ⟨m₁, s₁, hread₁, hvalue⟩ := read_toDouble_finite hread
      rw [hread'] at hread₁
      cases hread₁
      have hunits : n.natAbs * 2 ^ Layout.single.unitExponent = m * 2 ^ s := by
        rw [hvalue, unitExponent_double, Nat.add_comm, Nat.pow_add, ← Nat.mul_assoc] at hwhole
        exact (Nat.mul_right_cancel (Nat.two_pow_pos unitGap) hwhole).symm
      obtain ⟨hnormal, hfinite, hbits⟩ := Layout.normal_of_read hread
      rw [ofInt, Layout.ofRatio, hunits, hnormal.roundUnits, Nat.min_eq_right (Nat.le_of_lt hfinite),
        ← hbits x.toNat_lt, ofNatBits_toNat]
  | infinite negative =>
      rw [read_toDouble_infinite hread] at hread'
      cases hread'
  | notANumber negative payload =>
      obtain ⟨payload', hread₁⟩ := read_toDouble_notANumber hread
      rw [hread₁] at hread'
      cases hread'

/-! ## Numbers up to payloads -/

/-- The number with one pattern for all that is not a number. -/
def Single.plain (x : Single) : Single := if x.isNaN then .nan else x

@[inherit_doc Single.plain]
def Double.plain (x : Double) : Double := if x.isNaN then .nan else x

/-- Elements of a class with one of them put for all agree when they are equal or in the class. -/
theorem merged_eq_iff {α : Type} (test : α → Bool) {chosen : α} (hchosen : test chosen = true)
    {x y : α} :
    (if test x then chosen else x) = (if test y then chosen else y) ↔
      test x = true ∧ test y = true ∨ x = y := by
  grind

theorem Single.plain_eq_plain_iff {x y : Single} :
    x.plain = y.plain ↔ x.isNaN = true ∧ y.isNaN = true ∨ x = y :=
  merged_eq_iff isNaN (by decide)

theorem Double.plain_eq_plain_iff {x y : Double} :
    x.plain = y.plain ↔ x.isNaN = true ∧ y.isNaN = true ∨ x = y :=
  merged_eq_iff isNaN (by decide)

theorem Single.plain_toDouble_eq_iff {x y : Single} :
    x.toDouble.plain = y.toDouble.plain ↔ x.plain = y.plain := by
  rw [Double.plain_eq_plain_iff, plain_eq_plain_iff, isNaN_toDouble, isNaN_toDouble]
  refine or_congr_right' fun hnan => ⟨fun h => ?_, congrArg toDouble⟩
  have hx : x.isNaN = y.isNaN := by rw [← isNaN_toDouble, h, isNaN_toDouble]
  have hy : y.isNaN = false := by grind
  rw [← toSingle_toDouble hy, ← h, toSingle_toDouble (hx.trans hy)]

theorem Single.plain_plain (x : Single) : x.plain.plain = x.plain := by
  unfold plain
  split
  · decide
  · rfl

@[simp] theorem Single.plain_toDouble_plain (x : Single) :
    x.plain.toDouble.plain = x.toDouble.plain := plain_toDouble_eq_iff.mpr x.plain_plain

/-- A double that is a single up to payloads is rounded to it up to payloads. -/
theorem Double.plain_toSingle {x : Single} {y : Double} (h : y.plain = x.toDouble.plain) :
    y.toSingle.plain = x.plain := by
  rw [plain_eq_plain_iff, Single.isNaN_toDouble] at h
  rcases h with ⟨hy, hx⟩ | rfl
  · exact Single.plain_eq_plain_iff.mpr (.inl ⟨isNaN_toSingle hy, hx⟩)
  · cases hx : x.isNaN with
    | false => rw [Single.toSingle_toDouble hx]
    | true =>
        have hnan := isNaN_toSingle (x.isNaN_toDouble.trans hx)
        exact Single.plain_eq_plain_iff.mpr (.inl ⟨hnan, hx⟩)

end NodeShader.Number
