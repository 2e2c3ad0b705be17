import Mathlib.Algebra.Order.Field.Power
import Mathlib.Data.Rat.Cast.Order
import Mathlib.Tactic.FieldSimp
import Mathlib.Tactic.Linarith
import Mathlib.Tactic.Positivity
import Mathlib.Tactic.Ring
import NodeShader.Number.Shortest
import NodeShader.Proofs.Number.Exact

/-!
# Rounding to the nearest number

A rational number is rounded to the number of a format that is nearest to it, and of two that are
equally near to the one with an even significand (`Layout.RoundsTo`). Numbers of any scale are
compared with, so a rational that is rounded to a finite number is not out of range.

Two things of the library are measured by this relation. The basin of a number is exactly what is
rounded to it (`Layout.holds_basin_iff`), for the numbers beside it are as far away as the basin
supposes (`Layout.Normal.gap`). And one rounding of a quotient in a basin gives the number the basin
belongs to (`Layout.roundUnits_of_contains`).
-/

namespace NodeShader.Number

/-! ## Rounding quotients -/

/-- A quotient is rounded to an integer that is at most a half away from it, if that integer is even
where it is exactly a half. -/
theorem roundHalfEven_eq {num den n : Nat} (hden : 0 < den) (hlow : 2 * (n * den) ≤ 2 * num + den)
    (hhigh : 2 * num ≤ 2 * (n * den) + den)
    (htie : 2 * (n * den) = 2 * num + den ∨ 2 * num = 2 * (n * den) + den → n % 2 = 0) :
    roundHalfEven num den = n := by
  have hdiv := Nat.div_add_mod' num den
  have hmod := Nat.mod_lt num hden
  unfold roundHalfEven
  generalize num / den = quot at hdiv ⊢
  generalize num % den = rest at hdiv hmod ⊢
  have hle : quot ≤ n := by
    by_contra hlt
    have hmul := Nat.mul_le_mul_right den (Nat.not_le.mp hlt)
    rw [Nat.succ_mul] at hmul
    omega
  have hge : n ≤ quot + 1 := by
    by_contra hlt
    have hmul := Nat.mul_le_mul_right den (Nat.not_le.mp hlt)
    rw [Nat.succ_mul, Nat.succ_mul] at hmul
    omega
  obtain rfl | rfl : n = quot ∨ n = quot + 1 := by omega
  · grind
  · rw [Nat.succ_mul] at hlow hhigh htie
    grind

/-- A rounded quotient is one of the two integers beside it, and the nearer one. -/
theorem roundHalfEven_cases (num den : Nat) :
    (roundHalfEven num den = num / den ∧ 2 * (num % den) ≤ den) ∨
      (roundHalfEven num den = num / den + 1 ∧ den ≤ 2 * (num % den)) := by
  unfold roundHalfEven
  grind

namespace Layout

variable {l : Layout}

/-- The scale that rounding takes is that of the significand. -/
theorem bitLength_sub_eq {n s : Nat} (hlow : s = 0 ∨ 2 ^ l.fraction * 2 ^ s ≤ n)
    (hhigh : n < 2 ^ (l.fraction + 1) * 2 ^ s) : bitLength n - (l.fraction + 1) = s := by
  have hupper : bitLength n ≤ l.fraction + 1 + s := by
    rw [bitLength_le_iff, Nat.pow_add]
    exact hhigh
  rcases hlow with rfl | hlow
  · omega
  · have hlower : ¬ bitLength n ≤ l.fraction + s := by
      rw [bitLength_le_iff, Nat.pow_add, Nat.not_lt]
      exact hlow
    omega

/-! ## The numbers of a format -/

/-- The gap below a number, in halves of the gap above it. -/
def gapBelow (l : Layout) (m s : Nat) : Nat := if m = 2 ^ l.fraction ∧ 0 < s then 1 else 2

theorem gapBelow_pos (m s : Nat) : 0 < l.gapBelow m s := by
  unfold gapBelow
  split <;> decide

theorem gapBelow_le (m s : Nat) : l.gapBelow m s ≤ 2 := by
  unfold gapBelow
  split <;> decide

/-- Other numbers are at least the gaps away. -/
theorem Normal.gap {m s m' s' : Nat} (h : l.Normal m s) (hm' : m' < 2 ^ (l.fraction + 1))
    (hne : m' * 2 ^ s' ≠ m * 2 ^ s) :
    (m + 1) * 2 ^ s ≤ m' * 2 ^ s' ∨
      2 * (m' * 2 ^ s') + l.gapBelow m s * 2 ^ s ≤ 2 * (m * 2 ^ s) := by
  by_cases hs : s ≤ s'
  · -- the other number is a multiple of the gap
    obtain ⟨k, rfl⟩ := Nat.exists_eq_add_of_le hs
    have hmultiple : m' * 2 ^ (s + k) = m' * 2 ^ k * 2 ^ s := by
      rw [Nat.pow_add, Nat.mul_comm (2 ^ s), Nat.mul_assoc]
    rw [hmultiple] at hne ⊢
    rcases Nat.lt_or_gt_of_ne fun heq => hne (congrArg (· * 2 ^ s) heq) with hlt | hgt
    · right
      have hmul := Nat.mul_le_mul_right (2 ^ s) (Nat.succ_le_of_lt hlt)
      have hgap := Nat.mul_le_mul_right (2 ^ s) (l.gapBelow_le m s)
      rw [Nat.succ_mul] at hmul
      omega
    · exact .inl (Nat.mul_le_mul_right (2 ^ s) hgt)
  · -- the other number has a smaller scale, so it is below every full significand
    right
    obtain ⟨t, rfl⟩ : ∃ t, s = s' + (t + 1) := ⟨s - s' - 1, by omega⟩
    have hfull : 2 ^ l.fraction ≤ m := h.full.resolve_left (by omega)
    have hone : 1 ≤ 2 ^ t := Nat.one_le_two_pow
    rw [Nat.pow_succ] at hm'
    have hinner : m' + l.gapBelow m (s' + (t + 1)) * 2 ^ t ≤ 2 * m * 2 ^ t := by
      unfold gapBelow
      split
      · rename_i hpower
        rw [hpower.1]
        nlinarith
      · rename_i hpower
        have hmore : 2 ^ l.fraction + 1 ≤ m := by
          have hne : m ≠ 2 ^ l.fraction := fun heq => hpower ⟨heq, by omega⟩
          omega
        nlinarith
    have hscaled := Nat.mul_le_mul_right (2 * 2 ^ s') hinner
    have hpow : 2 ^ (s' + (t + 1)) = 2 * 2 ^ s' * 2 ^ t := by
      rw [Nat.pow_add, Nat.pow_succ]
      ring
    rw [hpow]
    linarith

/-- There is a number right above. -/
theorem exists_above {m s : Nat} (h : l.Normal m s) :
    ∃ m' s', m' < 2 ^ (l.fraction + 1) ∧ m' * 2 ^ s' = (m + 1) * 2 ^ s := by
  by_cases hlast : m + 1 < 2 ^ (l.fraction + 1)
  · exact ⟨m + 1, s, hlast, rfl⟩
  · have hcarry : m + 1 = 2 ^ (l.fraction + 1) := Nat.le_antisymm h.lt (Nat.not_lt.mp hlast)
    refine ⟨2 ^ l.fraction, s + 1, Nat.pow_lt_pow_right (by decide) (by omega), ?_⟩
    rw [hcarry, Nat.pow_succ, Nat.pow_succ, Nat.mul_right_comm, Nat.mul_assoc]

/-- There is a number right below, unless it is zero. -/
theorem exists_below {m s : Nat} (h : l.Normal m s) (hm : 0 < m) :
    ∃ m' s', m' < 2 ^ (l.fraction + 1) ∧
      2 * (m' * 2 ^ s') + l.gapBelow m s * 2 ^ s = 2 * (m * 2 ^ s) := by
  unfold gapBelow
  split
  · rename_i hpower
    obtain ⟨t, rfl⟩ : ∃ t, s = t + 1 := ⟨s - 1, by omega⟩
    refine ⟨2 * m - 1, t, ?_, ?_⟩
    · have hlt := h.lt
      rw [hpower.1, Nat.pow_succ] at *
      omega
    · rw [Nat.pow_succ, Nat.sub_mul]
      have hle : 2 ^ t ≤ 2 * m * 2 ^ t := Nat.le_mul_of_pos_left _ (by omega)
      have hassoc : m * (2 ^ t * 2) = 2 * m * 2 ^ t := by ring
      omega
  · refine ⟨m - 1, s, by have := h.lt; omega, ?_⟩
    have hle : 2 ^ s ≤ m * 2 ^ s := Nat.le_mul_of_pos_left _ hm
    rw [Nat.sub_mul]
    omega

end Layout

/-! ## Basins -/

namespace Basin

variable {b : Basin}

/-- The basin holds a number of quarters. -/
def Holds (b : Basin) (y : ℚ) : Prop :=
  if b.closed then b.low ≤ y ∧ y ≤ b.high else b.low < y ∧ y < b.high

theorem contains_iff {num den : Nat} (hden : 0 < den) :
    b.contains num den = true ↔ b.Holds (num / den) := by
  have hpos : (0 : ℚ) < den := Nat.cast_pos.mpr hden
  unfold contains Holds
  split
  · rw [decide_eq_true_eq, le_div_iff₀ hpos, div_le_iff₀ hpos]
    norm_cast
  · rw [decide_eq_true_eq, lt_div_iff₀ hpos, div_lt_iff₀ hpos]
    norm_cast

/-- What lies between numbers of the basin lies in it. -/
theorem Holds.between {x y z : ℚ} (hx : b.Holds x) (hz : b.Holds z) (hxy : x ≤ y) (hyz : y ≤ z) :
    b.Holds y := by
  unfold Holds at *
  split
  · rename_i hclosed
    simp only [hclosed, if_true] at hx hz
    exact ⟨hx.1.trans hxy, hyz.trans hz.2⟩
  · rename_i hclosed
    simp only [hclosed] at hx hz
    exact ⟨hx.1.trans_le hxy, hyz.trans_lt hz.2⟩

end Basin

namespace Layout

variable {l : Layout} {m s : Nat}

/-- The ends of a basin. -/
theorem basin_eq (l : Layout) (m s : Nat) :
    l.basin m s =
      { low := (4 * m - l.gapBelow m s) * 2 ^ s
        centre := 4 * m * 2 ^ s
        high := (4 * m + 2) * 2 ^ s
        closed := decide (m % 2 = 0) } := rfl

/-- A basin holds the numbers between the middles of the gaps, and the middles if the significand is
even. -/
theorem holds_basin (hm : 0 < m) (y : ℚ) :
    (l.basin m s).Holds y ↔
      (4 * (m * 2 ^ s) - l.gapBelow m s * 2 ^ s ≤ y ∧ y ≤ 4 * (m * 2 ^ s) + 2 * 2 ^ s) ∧
        (y = 4 * (m * 2 ^ s) - l.gapBelow m s * 2 ^ s ∨ y = 4 * (m * 2 ^ s) + 2 * 2 ^ s →
          m % 2 = 0) := by
  have hgap : l.gapBelow m s ≤ 4 * m := by
    have := l.gapBelow_le m s
    omega
  have hlow : (((4 * m - l.gapBelow m s) * 2 ^ s : Nat) : ℚ) =
      4 * (m * 2 ^ s) - l.gapBelow m s * 2 ^ s := by
    push_cast [Nat.cast_sub hgap]
    ring
  have hhigh : (((4 * m + 2) * 2 ^ s : Nat) : ℚ) = 4 * (m * 2 ^ s) + 2 * 2 ^ s := by
    push_cast
    ring
  rw [basin_eq, Basin.Holds]
  dsimp only
  rw [hlow, hhigh]
  by_cases heven : m % 2 = 0
  · simp [heven]
  · simp only [heven, decide_false, Bool.false_eq_true, if_false, imp_false, not_or]
    constructor
    · rintro ⟨h₁, h₂⟩
      exact ⟨⟨h₁.le, h₂.le⟩, h₁.ne', h₂.ne⟩
    · rintro ⟨⟨h₁, h₂⟩, hne₁, hne₂⟩
      exact ⟨lt_of_le_of_ne h₁ (Ne.symm hne₁), lt_of_le_of_ne h₂ hne₂⟩

theorem gapBelow_mul_pos (l : Layout) (m s : Nat) : (0 : ℚ) < l.gapBelow m s * 2 ^ s :=
  mul_pos (Nat.cast_pos.mpr (gapBelow_pos m s)) (by positivity)

/-- A basin holds its centre. -/
theorem holds_centre (hm : 0 < m) : (l.basin m s).Holds (4 * (m * 2 ^ s)) := by
  have hscale : (0 : ℚ) < 2 ^ s := by positivity
  have hgap := l.gapBelow_mul_pos m s
  rw [holds_basin hm]
  refine ⟨⟨by linarith, by linarith⟩, ?_⟩
  rintro (heq | heq) <;> linarith

end Layout

/-! ## The nearest number -/

/-- A number with a sign. -/
def signed (negative : Bool) (x : ℚ) : ℚ := if negative then -x else x

namespace Layout

variable {l : Layout} {m s : Nat}

/-- What `significand * 2 ^ scale` units of the format are worth. -/
def worth (l : Layout) (significand scale : Nat) : ℚ :=
  significand * 2 ^ scale / 2 ^ l.unitExponent

/-- No number with a significand of the format, whatever its scale, is nearer to `x` than the given
one, and if another is as near, the given one has an even significand. -/
structure RoundsTo (l : Layout) (x : ℚ) (negative : Bool) (significand scale : Nat) : Prop where
  nearest : ∀ negative' significand' scale', significand' < 2 ^ (l.fraction + 1) →
    |x - signed negative (l.worth significand scale)| ≤
      |x - signed negative' (l.worth significand' scale')|
  even : ∀ negative' significand' scale', significand' < 2 ^ (l.fraction + 1) →
    |x - signed negative (l.worth significand scale)| =
      |x - signed negative' (l.worth significand' scale')| →
    signed negative' (l.worth significand' scale') = signed negative (l.worth significand scale) ∨
      significand % 2 = 0

/-- How many quarters of a unit a number is. -/
def quartersOf (l : Layout) (x : ℚ) : ℚ := x * 2 ^ (l.unitExponent + 2)

theorem quartersOf_worth (l : Layout) (m s : Nat) : l.quartersOf (l.worth m s) = 4 * (m * 2 ^ s) := by
  unfold quartersOf worth
  rw [pow_add]
  field_simp
  ring

/-- Distances are compared in quarters. -/
theorem abs_quartersOf (l : Layout) (x y : ℚ) :
    |l.quartersOf x - l.quartersOf y| = |x - y| * 2 ^ (l.unitExponent + 2) := by
  unfold quartersOf
  rw [← sub_mul, abs_mul, abs_of_pos (by positivity : (0 : ℚ) < 2 ^ (l.unitExponent + 2))]

/-- What a basin holds is nearest to its number. A tie is at an end of the basin, for only the numbers
beside are as near as that. -/
theorem nearest_of_holds (h : l.Normal m s) (hm : 0 < m) {y : ℚ} (hy : (l.basin m s).Holds y)
    {m' s' : Nat} (hm' : m' < 2 ^ (l.fraction + 1)) :
    |y - 4 * (m * 2 ^ s)| ≤ |y - 4 * (m' * 2 ^ s')| ∧
      (|y - 4 * (m * 2 ^ s)| = |y - 4 * (m' * 2 ^ s')| →
        (m' : ℚ) * 2 ^ s' = m * 2 ^ s ∨ m % 2 = 0) := by
  have hscale : (0 : ℚ) < 2 ^ s := by positivity
  have hgap := l.gapBelow_mul_pos m s
  obtain ⟨⟨hlow, hhigh⟩, hends⟩ := (holds_basin hm y).mp hy
  by_cases heq : m' * 2 ^ s' = m * 2 ^ s
  · have hcast : (m' : ℚ) * 2 ^ s' = m * 2 ^ s := by exact_mod_cast heq
    rw [hcast]
    exact ⟨le_rfl, fun _ => .inl rfl⟩
  · rcases h.gap hm' heq with habove | hbelow
    · have habove' : (m : ℚ) * 2 ^ s + 2 ^ s ≤ m' * 2 ^ s' := by
        have : ((m : ℚ) + 1) * 2 ^ s ≤ m' * 2 ^ s' := by exact_mod_cast habove
        linarith
      have hfar : |y - 4 * (m' * 2 ^ s')| = 4 * (m' * 2 ^ s') - y := by
        rw [abs_sub_comm, abs_of_nonneg (by linarith)]
      refine ⟨?_, fun htie => .inr (hends (.inr ?_))⟩
      · rw [hfar, abs_le]
        constructor <;> linarith
      · rw [hfar] at htie
        rcases abs_cases (y - 4 * ((m : ℚ) * 2 ^ s)) with ⟨habs, -⟩ | ⟨habs, -⟩ <;> linarith
    · have hbelow' : 2 * ((m' : ℚ) * 2 ^ s') + l.gapBelow m s * 2 ^ s ≤ 2 * (m * 2 ^ s) := by
        exact_mod_cast hbelow
      have hfar : |y - 4 * (m' * 2 ^ s')| = y - 4 * (m' * 2 ^ s') :=
        abs_of_nonneg (by linarith)
      refine ⟨?_, fun htie => .inr (hends (.inl ?_))⟩
      · rw [hfar, abs_le]
        constructor <;> linarith
      · rw [hfar] at htie
        rcases abs_cases (y - 4 * ((m : ℚ) * 2 ^ s)) with ⟨habs, -⟩ | ⟨habs, -⟩ <;> linarith

/-- The basin of a number is what is nearer to it than to all others, or as near if its significand is
even. -/
theorem holds_basin_iff_forall (h : l.Normal m s) (hm : 0 < m) (y : ℚ) :
    (l.basin m s).Holds y ↔ ∀ m' s' : Nat, m' < 2 ^ (l.fraction + 1) →
      |y - 4 * (m * 2 ^ s)| ≤ |y - 4 * (m' * 2 ^ s')| ∧
        (|y - 4 * (m * 2 ^ s)| = |y - 4 * (m' * 2 ^ s')| →
          (m' : ℚ) * 2 ^ s' = m * 2 ^ s ∨ m % 2 = 0) := by
  refine ⟨fun hy m' s' hm' => nearest_of_holds h hm hy hm', fun hall => ?_⟩
  have hscale : (0 : ℚ) < 2 ^ s := by positivity
  have hgap := l.gapBelow_mul_pos m s
  -- the numbers right beside are enough to find the ends of the basin
  obtain ⟨m₁, s₁, hm₁, habove⟩ := exists_above h
  obtain ⟨m₂, s₂, hm₂, hbelow⟩ := exists_below h hm
  have habove' : (m₁ : ℚ) * 2 ^ s₁ = m * 2 ^ s + 2 ^ s := by
    have : (m₁ : ℚ) * 2 ^ s₁ = (m + 1) * 2 ^ s := by exact_mod_cast habove
    linarith
  have hbelow' : 2 * ((m₂ : ℚ) * 2 ^ s₂) + l.gapBelow m s * 2 ^ s = 2 * (m * 2 ^ s) := by
    exact_mod_cast hbelow
  obtain ⟨hnear₁, htie₁⟩ := hall m₁ s₁ hm₁
  obtain ⟨hnear₂, htie₂⟩ := hall m₂ s₂ hm₂
  have hhigh : y ≤ 4 * (m * 2 ^ s) + 2 * 2 ^ s := by
    by_contra hlt
    rw [abs_of_nonneg (by linarith), le_abs] at hnear₁
    rcases hnear₁ with hnear₁ | hnear₁ <;> linarith
  have hlow : 4 * (m * 2 ^ s) - l.gapBelow m s * 2 ^ s ≤ y := by
    by_contra hlt
    rw [abs_sub_comm, abs_of_nonneg (by linarith), le_abs] at hnear₂
    rcases hnear₂ with hnear₂ | hnear₂ <;> linarith
  refine (holds_basin hm y).mpr ⟨⟨hlow, hhigh⟩, ?_⟩
  rintro (heq | heq)
  · refine (htie₂ ?_).resolve_left (by linarith)
    rw [abs_sub_comm, abs_of_nonneg (by linarith), abs_of_nonneg (by linarith)]
    linarith
  · refine (htie₁ ?_).resolve_left (by linarith)
    rw [abs_of_nonneg (by linarith), abs_sub_comm, abs_of_nonneg (by linarith)]
    linarith

/-- A number is nearer to one of its own sign than to the opposite. -/
theorem abs_signed_le (negative negative' : Bool) {x y : ℚ} (hx : 0 ≤ x) (hy : 0 ≤ y) :
    |x - y| ≤ |signed negative x - signed negative' y| := by
  cases negative <;> cases negative' <;> simp only [signed, Bool.false_eq_true, if_true, if_false]
  · exact le_rfl
  · rw [abs_le, abs_of_nonneg (by linarith)]
    constructor <;> linarith
  · rw [abs_le, abs_sub_comm (-x), abs_of_nonneg (by linarith)]
    constructor <;> linarith
  · rw [neg_sub_neg, abs_sub_comm]

theorem abs_signed (negative : Bool) (x y : ℚ) :
    |signed negative x - signed negative y| = |x - y| := by
  cases negative <;> simp only [signed, Bool.false_eq_true, if_true, if_false]
  rw [neg_sub_neg, abs_sub_comm]

theorem worth_nonneg (l : Layout) (m s : Nat) : 0 ≤ l.worth m s := by
  unfold worth
  positivity

theorem worth_pos (hm : 0 < m) : 0 < l.worth m s := by
  have : (0 : ℚ) < m := Nat.cast_pos.mpr hm
  unfold worth
  positivity

theorem worth_eq_iff {m' s' : Nat} :
    l.worth m' s' = l.worth m s ↔ (m' : ℚ) * 2 ^ s' = m * 2 ^ s := by
  unfold worth
  rw [div_left_inj' (by positivity)]

/-- The basin of a number is what is rounded to it. -/
theorem holds_basin_iff (h : l.Normal m s) (hm : 0 < m) (negative : Bool) {x : ℚ} (hx : 0 ≤ x) :
    (l.basin m s).Holds (l.quartersOf x) ↔ l.RoundsTo (signed negative x) negative m s := by
  have hunit : (0 : ℚ) < 2 ^ (l.unitExponent + 2) := by positivity
  have hworth : 0 < l.worth m s := worth_pos hm
  rw [holds_basin_iff_forall h hm]
  simp only [← quartersOf_worth l, abs_quartersOf, mul_le_mul_iff_left₀ hunit,
    mul_left_inj' hunit.ne', ← worth_eq_iff (l := l)]
  constructor
  · intro hall
    have hnearest : ∀ (negative' : Bool) (m' s' : Nat), m' < 2 ^ (l.fraction + 1) →
        |signed negative x - signed negative (l.worth m s)| ≤
          |signed negative x - signed negative' (l.worth m' s')| := by
      intro negative' m' s' hm'
      rw [abs_signed]
      exact (hall m' s' hm').1.trans (abs_signed_le negative negative' hx (l.worth_nonneg m' s'))
    refine ⟨hnearest, fun negative' m' s' hm' htie => ?_⟩
    rw [abs_signed] at htie
    have hle := abs_signed_le negative negative' hx (l.worth_nonneg m' s')
    refine ((hall m' s' hm').2 (le_antisymm (hall m' s' hm').1 (htie ▸ hle))).imp_left fun heq => ?_
    -- zero is not nearer, so the number is not zero, and the opposite is farther away
    have hzero := (hall 0 0 (by positivity)).1
    have hpos : 0 < x := by
      refine lt_of_le_of_ne hx fun hx0 => ?_
      simp only [← hx0, worth, zero_sub, abs_neg, Nat.cast_zero, zero_mul, zero_div, abs_zero]
        at hzero
      exact hworth.ne' (abs_nonpos_iff.mp hzero)
    rw [heq] at htie ⊢
    by_contra hne
    have hopposite : |signed negative x - signed negative' (l.worth m s)| = x + l.worth m s := by
      cases negative <;> cases negative' <;>
        simp only [signed, Bool.false_eq_true, if_true, if_false, not_true] at hne ⊢
      · rw [sub_neg_eq_add, abs_of_pos (by linarith)]
      · rw [abs_sub_comm, sub_neg_eq_add, abs_of_pos (by linarith), add_comm]
    rw [hopposite] at htie
    rcases abs_cases (x - l.worth m s) with ⟨habs, -⟩ | ⟨habs, -⟩ <;> linarith
  · intro hrounds m' s' hm'
    have hnear := hrounds.nearest negative m' s' hm'
    have htie := hrounds.even negative m' s' hm'
    rw [abs_signed, abs_signed] at hnear htie
    refine ⟨hnear, fun heq => (htie heq).imp_left fun hsame => ?_⟩
    cases negative <;> simpa [signed] using hsame

/-! ## One rounding of a quotient -/

/-- The ends of a basin, over a denominator. -/
theorem contains_basin (hm : 0 < m) {num den : Nat} (h : (l.basin m s).contains num den = true) :
    4 * (m * (den * 2 ^ s)) ≤ num + l.gapBelow m s * (den * 2 ^ s) ∧
      num ≤ 4 * (m * (den * 2 ^ s)) + 2 * (den * 2 ^ s) ∧
      (4 * (m * (den * 2 ^ s)) = num + l.gapBelow m s * (den * 2 ^ s) ∨
        num = 4 * (m * (den * 2 ^ s)) + 2 * (den * 2 ^ s) → m % 2 = 0) := by
  have hgap := l.gapBelow_le m s
  have hlow : (4 * m - l.gapBelow m s) * 2 ^ s * den =
      4 * (m * (den * 2 ^ s)) - l.gapBelow m s * (den * 2 ^ s) := by
    rw [Nat.mul_assoc, Nat.mul_comm (2 ^ s), Nat.sub_mul, Nat.mul_assoc]
  have hle : l.gapBelow m s * (den * 2 ^ s) ≤ 4 * (m * (den * 2 ^ s)) := by
    rw [← Nat.mul_assoc 4]
    exact Nat.mul_le_mul_right _ (by omega)
  have hhigh : (4 * m + 2) * 2 ^ s * den = 4 * (m * (den * 2 ^ s)) + 2 * (den * 2 ^ s) := by
    ring
  rw [basin_eq, Basin.contains] at h
  dsimp only at h
  rw [hlow, hhigh] at h
  by_cases heven : m % 2 = 0
  · simp only [heven, decide_true, if_true, Bool.decide_and, Bool.and_eq_true,
      decide_eq_true_eq] at h
    exact ⟨by omega, h.2, fun _ => heven⟩
  · simp only [heven, decide_false, Bool.false_eq_true, if_false, Bool.decide_and,
      Bool.and_eq_true, decide_eq_true_eq] at h
    exact ⟨by omega, by omega, fun hend => by omega⟩

/-- Rounding a quotient to a significand at a scale. -/
theorem roundUnits_eq {num den n t : Nat} (hden : 0 < den)
    (hscale : bitLength (num / den) - (l.fraction + 1) = t)
    (hlow : 2 * (n * (den * 2 ^ t)) ≤ 2 * num + den * 2 ^ t)
    (hhigh : 2 * num ≤ 2 * (n * (den * 2 ^ t)) + den * 2 ^ t)
    (htie : 2 * (n * (den * 2 ^ t)) = 2 * num + den * 2 ^ t ∨
      2 * num = 2 * (n * (den * 2 ^ t)) + den * 2 ^ t → n % 2 = 0) :
    l.roundUnits num den = min l.infinity (t * 2 ^ l.fraction + n) := by
  unfold roundUnits
  dsimp only
  rw [hscale, roundHalfEven_eq (Nat.mul_pos hden (Nat.two_pow_pos t)) hlow hhigh htie]

/-- Below a power of two the scale is one less, and the significand has its carry. -/
theorem roundUnits_below_power {num den t : Nat} (hden : 0 < den)
    (hcontains : (l.basin (2 ^ l.fraction) (t + 1)).contains (4 * num) den = true)
    (hbelow : num < 2 ^ l.fraction * (den * 2 ^ (t + 1))) :
    l.roundUnits num den = min l.infinity ((t + 1) * 2 ^ l.fraction + 2 ^ l.fraction) := by
  obtain ⟨hlow, -, -⟩ := contains_basin (Nat.two_pow_pos _) hcontains
  have hgap : l.gapBelow (2 ^ l.fraction) (t + 1) = 1 := by simp [gapBelow]
  have hdouble : 2 ^ l.fraction * (den * 2 ^ (t + 1)) = 2 * 2 ^ l.fraction * (den * 2 ^ t) := by
    rw [Nat.pow_succ]
    ring
  have hwidth : den * 2 ^ (t + 1) = 2 * (den * 2 ^ t) := by
    rw [Nat.pow_succ]
    ring
  rw [hgap, hdouble, hwidth] at hlow
  rw [hdouble] at hbelow
  have hscale : bitLength (num / den) - (l.fraction + 1) = t := by
    refine bitLength_sub_eq (.inr ?_) ?_
    · rw [Nat.le_div_iff_mul_le hden, Nat.mul_assoc, Nat.mul_comm (2 ^ t)]
      have hmul : den * 2 ^ t ≤ 2 ^ l.fraction * (den * 2 ^ t) :=
        Nat.le_mul_of_pos_left _ (Nat.two_pow_pos _)
      rw [Nat.mul_assoc] at hlow
      omega
    · rw [Nat.div_lt_iff_lt_mul hden, Nat.pow_succ]
      linarith
  rw [roundUnits_eq (n := 2 * 2 ^ l.fraction) hden hscale (by omega) (by omega)
    fun _ => Nat.mul_mod_right _ _]
  congr 1
  ring

/-- A quotient in the basin of a number is rounded to it. -/
theorem roundUnits_of_contains (h : l.Normal m s) (hm : 0 < m) {num den : Nat} (hden : 0 < den)
    (hcontains : (l.basin m s).contains (4 * num) den = true) :
    l.roundUnits num den = min l.infinity (s * 2 ^ l.fraction + m) := by
  by_cases hnarrow : (m = 2 ^ l.fraction ∧ 0 < s) ∧ num < m * (den * 2 ^ s)
  · obtain ⟨⟨rfl, hs⟩, hbelow⟩ := hnarrow
    obtain ⟨t, rfl⟩ : ∃ t, s = t + 1 := ⟨s - 1, by omega⟩
    exact roundUnits_below_power hden hcontains hbelow
  · -- the quotient has the scale of the number, and is at most half a unit of it away
    obtain ⟨hlow, hhigh, htie⟩ := contains_basin hm hcontains
    have hlt := h.lt
    have hpos : 0 < den * 2 ^ s := Nat.mul_pos hden (Nat.two_pow_pos s)
    have hhalf : 4 * (m * (den * 2 ^ s)) ≤ 4 * num + 2 * (den * 2 ^ s) ∧
        (4 * (m * (den * 2 ^ s)) = 4 * num + 2 * (den * 2 ^ s) → m % 2 = 0) ∧
        (s = 0 ∨ 2 ^ l.fraction * (den * 2 ^ s) ≤ num) := by
      unfold gapBelow at hlow htie
      by_cases hpower : m = 2 ^ l.fraction ∧ 0 < s
      · have hge : m * (den * 2 ^ s) ≤ num := Nat.not_lt.mp fun hlt => hnarrow ⟨hpower, hlt⟩
        exact ⟨by omega, by omega, .inr (hpower.1 ▸ hge)⟩
      · rw [if_neg hpower] at hlow htie
        refine ⟨hlow, fun heq => htie (.inl heq), ?_⟩
        by_cases hs : s = 0
        · exact .inl hs
        · right
          have hmore : 2 ^ l.fraction + 1 ≤ m := by
            have hne : m ≠ 2 ^ l.fraction := fun heq => hpower ⟨heq, by omega⟩
            have hle := h.full.resolve_left hs
            omega
          have hmul := Nat.mul_le_mul_right (den * 2 ^ s) hmore
          rw [Nat.succ_mul] at hmul
          omega
    obtain ⟨hhalf, hhalfTie, hfull⟩ := hhalf
    have hscale : bitLength (num / den) - (l.fraction + 1) = s := by
      refine bitLength_sub_eq (hfull.imp_right fun hfull => ?_) ?_
      · rw [Nat.le_div_iff_mul_le hden, Nat.mul_assoc, Nat.mul_comm (2 ^ s)]
        exact hfull
      · have hmul := Nat.mul_le_mul_right (den * 2 ^ s) (Nat.succ_le_of_lt hlt)
        rw [Nat.succ_mul] at hmul
        rw [Nat.div_lt_iff_lt_mul hden, Nat.mul_assoc, Nat.mul_comm (2 ^ s)]
        omega
    exact roundUnits_eq hden hscale (by omega) (by omega) fun hend => by omega

end Layout

end NodeShader.Number
