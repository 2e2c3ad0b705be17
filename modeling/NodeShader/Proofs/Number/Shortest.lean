import Mathlib.Algebra.Order.Floor.Semifield
import Mathlib.Data.Rat.Floor
import NodeShader.Proofs.Number.Nearest

/-!
# The decimal that is written

A number is written as the decimal with the fewest digits of those that are rounded to it, and of
these as one that is nearest to it (`Layout.isShortest_shortest`).

The search looks at one grid of decimals after the other, from the decade of the number down. On a
grid it tries the two points beside the number, and that is enough: the basin has no gaps, so if any
point of the grid is in it, one beside the number is (`Layout.tryGrid_eq_none`), and that one is at
least as near. A decimal of `k` digits that is in the basin is on the grid `k - 1` steps down or on a
coarser one, or else it is below the decade, and then the first number of the decade is between it
and the number (`Layout.exists_grid_point`). So the first grid with a hit gives no more digits than any
other decimal has.
-/

namespace NodeShader.Number

/-! ## Decimals as rationals -/

namespace Decimal

/-- The number that a decimal stands for. -/
def toRat (d : Decimal) : ℚ := d.coefficient * 10 ^ d.exponent

theorem toRat_nonneg (d : Decimal) : 0 ≤ d.toRat := by
  unfold toRat
  positivity

theorem ratio_eq (d : Decimal) : 0 < d.ratio.2 ∧ (d.ratio.1 : ℚ) / d.ratio.2 = d.toRat := by
  unfold ratio toRat
  split
  · rename_i hsign
    refine ⟨Nat.one_pos, ?_⟩
    push_cast
    rw [div_one, ← zpow_natCast, Int.toNat_of_nonneg hsign]
  · rename_i hsign
    refine ⟨by positivity, ?_⟩
    push_cast
    rw [← zpow_natCast, Int.toNat_of_nonneg (by omega), zpow_neg, div_inv_eq_mul]

/-- Trailing zeros do not count. -/
theorem toRat_trimZeros (fuel : Nat) (d : Decimal) : (trimZeros fuel d).toRat = d.toRat := by
  induction fuel generalizing d with
  | zero => rfl
  | succ fuel ih =>
      rw [trimZeros]
      split
      · rename_i hzero
        have hten : (d.coefficient : ℚ) = ((d.coefficient / 10 : Nat) : ℚ) * 10 := by
          exact_mod_cast (Nat.div_mul_cancel (Nat.dvd_of_mod_eq_zero hzero.2)).symm
        rw [ih, toRat, toRat, hten, zpow_add₀ (by norm_num), zpow_one]
        ring
      · rfl

theorem coefficient_trimZeros_le (fuel : Nat) (d : Decimal) :
    (trimZeros fuel d).coefficient ≤ d.coefficient := by
  induction fuel generalizing d with
  | zero => exact Nat.le_refl _
  | succ fuel ih =>
      rw [trimZeros]
      split
      · exact (ih _).trans (Nat.div_le_self _ _)
      · exact Nat.le_refl _

/-- A coefficient up to a power of ten has no more digits than that power has zeros, once these are
removed. -/
theorem coefficient_trimZeros_lt {d : Decimal} {k : Nat} (hpos : 0 < d.coefficient)
    (hle : d.coefficient ≤ 10 ^ (k + 1)) (fuel : Nat) :
    (trimZeros (fuel + 1) d).coefficient < 10 ^ (k + 1) := by
  rcases Nat.lt_or_eq_of_le hle with hlt | heq
  · exact Nat.lt_of_le_of_lt (coefficient_trimZeros_le _ _) hlt
  · have hten : d.coefficient = 10 ^ k * 10 := by rw [heq, Nat.pow_succ]
    have hzero : d.coefficient ≠ 0 ∧ d.coefficient % 10 = 0 :=
      ⟨by omega, by rw [hten, Nat.mul_mod_left]⟩
    rw [trimZeros, if_pos hzero]
    refine Nat.lt_of_le_of_lt (coefficient_trimZeros_le _ _) ?_
    rw [hten, Nat.mul_div_cancel _ (by decide)]
    exact Nat.pow_lt_pow_right (by decide) (Nat.lt_succ_self k)

end Decimal

theorem decimalLength_le_iff {n k : Nat} : decimalLength n ≤ k ↔ n < 10 ^ k := by
  unfold decimalLength
  split
  · rename_i hzero
    subst hzero
    exact iff_of_true (Nat.zero_le k) (by positivity)
  · rename_i hzero
    cases k with
    | zero =>
        have hlength := Nat.length_toDigits_pos (b := 10) (n := n)
        exact iff_of_false (by omega) (by omega)
    | succ k => exact Nat.length_toDigits_le_iff (by decide) (Nat.succ_pos k)

theorem lt_pow_decimalLength (n : Nat) : n < 10 ^ decimalLength n :=
  decimalLength_le_iff.mp (Nat.le_refl _)

theorem decimalLength_pos {n : Nat} (h : 0 < n) : 0 < decimalLength n := by
  by_contra hzero
  have := decimalLength_le_iff.mp (Nat.not_lt.mp hzero)
  omega

theorem pow_decimalLength_le {n : Nat} (h : 0 < n) : 10 ^ (decimalLength n - 1) ≤ n := by
  have hpos := decimalLength_pos h
  refine Nat.not_lt.mp fun hlt => ?_
  have := decimalLength_le_iff.mpr hlt
  omega

/-- A quotient is in its decade. -/
theorem decade_spec {num den : Nat} (hnum : 0 < num) (hden : 0 < den) :
    (10 : ℚ) ^ decade num den ≤ num / den ∧ (num / den : ℚ) < 10 ^ (decade num den + 1) := by
  have hnum' : (0 : ℚ) < num := Nat.cast_pos.mpr hnum
  have hden' : (0 : ℚ) < den := Nat.cast_pos.mpr hden
  unfold decade
  split
  · rename_i hle
    have hquot : 0 < num / den := Nat.div_pos hle hden
    have hpos := decimalLength_pos hquot
    have hlow := (Nat.le_div_iff_mul_le hden).mp (pow_decimalLength_le hquot)
    have hhigh := (Nat.div_lt_iff_lt_mul hden).mp (lt_pow_decimalLength (num / den))
    obtain ⟨k, hk⟩ : ∃ k, decimalLength (num / den) = k + 1 := ⟨_ - 1, (Nat.sub_add_cancel hpos).symm⟩
    rw [hk] at hlow hhigh ⊢
    rw [le_div_iff₀ hden', div_lt_iff₀ hden']
    constructor
    · simp only [Nat.cast_add, Nat.cast_one, add_sub_cancel_right, zpow_natCast]
      exact_mod_cast hlow
    · simp only [Nat.cast_add, Nat.cast_one, sub_add_cancel]
      exact_mod_cast hhigh
  · rename_i hlt
    have hquot : 0 < (den - 1) / num := Nat.div_pos (by omega) hnum
    have hpos := decimalLength_pos hquot
    have hlow := (Nat.le_div_iff_mul_le hnum).mp (pow_decimalLength_le hquot)
    have hhigh := (Nat.div_lt_iff_lt_mul hnum).mp (lt_pow_decimalLength ((den - 1) / num))
    obtain ⟨k, hk⟩ : ∃ k, decimalLength ((den - 1) / num) = k + 1 :=
      ⟨_ - 1, (Nat.sub_add_cancel hpos).symm⟩
    rw [hk] at hlow hhigh ⊢
    rw [Nat.add_sub_cancel] at hlow
    have hlow' : ((10 ^ k * num : Nat) : ℚ) < den := Nat.cast_lt.mpr (by omega)
    have hhigh' : (den : ℚ) ≤ ((10 ^ (k + 1) * num : Nat) : ℚ) := Nat.cast_le.mpr (by omega)
    push_cast at hlow' hhigh'
    have hexponent : -((k + 1 : Nat) : Int) + 1 = -(k : Int) := by omega
    rw [hexponent, zpow_neg, zpow_neg, zpow_natCast, zpow_natCast, le_div_iff₀ hden',
      div_lt_iff₀ hden', inv_mul_le_iff₀ (by positivity), lt_inv_mul_iff₀ (by positivity)]
    exact ⟨hhigh', hlow'⟩

theorem onGrid_eq (num : Nat) {den : Nat} (hden : 0 < den) (e : Int) :
    0 < (onGrid num den e).2 ∧
      ((onGrid num den e).1 : ℚ) / (onGrid num den e).2 = num / den / 10 ^ e := by
  unfold onGrid
  split
  · rename_i hsign
    refine ⟨by positivity, ?_⟩
    push_cast
    rw [← zpow_natCast, Int.toNat_of_nonneg hsign, div_div]
  · rename_i hsign
    refine ⟨hden, ?_⟩
    push_cast
    rw [← zpow_natCast, Int.toNat_of_nonneg (by omega), zpow_neg, ← div_eq_mul_inv]
    exact div_right_comm _ _ _

/-! ## One grid -/

namespace Layout

variable {l : Layout} {m s : Nat}

theorem quarters_eq (l : Layout) (d : Decimal) :
    0 < (l.quarters d).2 ∧ ((l.quarters d).1 : ℚ) / (l.quarters d).2 = l.quartersOf d.toRat := by
  obtain ⟨hpos, hratio⟩ := d.ratio_eq
  refine ⟨hpos, ?_⟩
  rw [quartersOf, ← hratio]
  simp only [quarters]
  push_cast
  ring

/-- The number of which a decimal is tried lies in the basin. -/
def Tries (l : Layout) (m s : Nat) (x : ℚ) : Prop := (l.basin m s).Holds (l.quartersOf x)

theorem Tries.between {x y z : ℚ} (hx : l.Tries m s x) (hz : l.Tries m s z) (hxy : x ≤ y)
    (hyz : y ≤ z) : l.Tries m s y := by
  refine Basin.Holds.between hx hz ?_ ?_
  · exact mul_le_mul_of_nonneg_right hxy (by positivity)
  · exact mul_le_mul_of_nonneg_right hyz (by positivity)

theorem tries_worth (hm : 0 < m) : l.Tries m s (l.worth m s) := by
  rw [Tries, quartersOf_worth]
  exact holds_centre hm

/-- A number measured on the grid of spacing `10 ^ e`. -/
def gridRatio (l : Layout) (m s : Nat) (e : Int) : Nat × Nat :=
  onGrid (l.basin m s).centre (2 ^ (l.unitExponent + 2)) e

theorem gridRatio_eq (l : Layout) (m s : Nat) (e : Int) :
    0 < (l.gridRatio m s e).2 ∧
      ((l.gridRatio m s e).1 : ℚ) / (l.gridRatio m s e).2 = l.worth m s / 10 ^ e := by
  obtain ⟨hpos, hratio⟩ :=
    onGrid_eq (l.basin m s).centre (Nat.two_pow_pos (l.unitExponent + 2)) e
  refine ⟨hpos, hratio.trans ?_⟩
  rw [basin_eq, worth]
  push_cast
  rw [pow_add]
  field_simp
  ring

/-- The multiple of `10 ^ e` right below a number. -/
def gridFloor (l : Layout) (m s : Nat) (e : Int) : Nat :=
  (l.gridRatio m s e).1 / (l.gridRatio m s e).2

theorem gridFloor_eq (l : Layout) (m s : Nat) (e : Int) :
    l.gridFloor m s e = ⌊l.worth m s / 10 ^ e⌋₊ := by
  rw [gridFloor, ← (l.gridRatio_eq m s e).2, Nat.floor_div_eq_div]

theorem gridFloor_le (l : Layout) (m s : Nat) (e : Int) :
    (l.gridFloor m s e : ℚ) * 10 ^ e ≤ l.worth m s := by
  have hten : (0 : ℚ) < 10 ^ e := by positivity
  rw [← le_div_iff₀ hten, gridFloor_eq]
  exact Nat.floor_le (div_nonneg (l.worth_nonneg m s) hten.le)

theorem lt_gridFloor_succ (l : Layout) (m s : Nat) (e : Int) :
    l.worth m s < ((l.gridFloor m s e : ℚ) + 1) * 10 ^ e := by
  have hten : (0 : ℚ) < 10 ^ e := by positivity
  rw [← div_lt_iff₀ hten, gridFloor_eq]
  exact Nat.lt_floor_add_one _

theorem le_gridFloor {n : Nat} {e : Int} (h : (n : ℚ) * 10 ^ e ≤ l.worth m s) :
    n ≤ l.gridFloor m s e := by
  rw [gridFloor_eq]
  exact Nat.le_floor ((le_div_iff₀ (by positivity)).mpr h)

theorem gridFloor_lt {n : Nat} {e : Int} (h : l.worth m s < (n : ℚ) * 10 ^ e) :
    l.gridFloor m s e + 1 ≤ n := by
  have hten : (0 : ℚ) < 10 ^ e := by positivity
  rw [gridFloor_eq]
  exact (Nat.floor_lt (div_nonneg (l.worth_nonneg m s) hten.le)).mpr ((div_lt_iff₀ hten).mpr h)

/-- A point of a grid in the basin is no nearer than one beside the number, which is in the basin
too. -/
theorem exists_neighbour (hm : 0 < m) {n : Nat} {e : Int} (h : l.Tries m s (n * 10 ^ e)) :
    ∃ n', (n' = l.gridFloor m s e ∨ n' = l.gridFloor m s e + 1) ∧
      l.Tries m s ((n' : ℚ) * 10 ^ e) ∧
      |l.worth m s - (n' : ℚ) * 10 ^ e| ≤ |l.worth m s - n * 10 ^ e| := by
  have hten : (0 : ℚ) ≤ 10 ^ e := by positivity
  rcases le_or_gt ((n : ℚ) * 10 ^ e) (l.worth m s) with hle | hlt
  · have hmul : (n : ℚ) * 10 ^ e ≤ (l.gridFloor m s e : ℚ) * 10 ^ e :=
      mul_le_mul_of_nonneg_right (Nat.cast_le.mpr (le_gridFloor hle)) hten
    have hfloor := l.gridFloor_le m s e
    refine ⟨_, .inl rfl, h.between (tries_worth hm) hmul hfloor, ?_⟩
    rw [abs_of_nonneg (by linarith), abs_of_nonneg (by linarith)]
    linarith
  · have hmul : ((l.gridFloor m s e + 1 : Nat) : ℚ) * 10 ^ e ≤ (n : ℚ) * 10 ^ e :=
      mul_le_mul_of_nonneg_right (Nat.cast_le.mpr (gridFloor_lt hlt)) hten
    have hfloor := l.lt_gridFloor_succ m s e
    have hcast : ((l.gridFloor m s e : ℚ) + 1) = ((l.gridFloor m s e + 1 : Nat) : ℚ) := by push_cast; rfl
    rw [hcast] at hfloor
    refine ⟨_, .inr rfl, (tries_worth hm).between h hfloor.le hmul, ?_⟩
    rw [abs_sub_comm, abs_of_nonneg (by linarith), abs_sub_comm, abs_of_nonneg (by linarith)]
    linarith

/-- Does the basin hold a decimal? -/
def isHit (l : Layout) (m s : Nat) (d : Decimal) : Bool :=
  (l.basin m s).contains (l.quarters d).1 (l.quarters d).2

theorem isHit_iff {d : Decimal} : l.isHit m s d = true ↔ l.Tries m s d.toRat := by
  obtain ⟨hpos, hquarters⟩ := l.quarters_eq d
  rw [isHit, Basin.contains_iff hpos, hquarters, Tries]

/-- What is tried on a grid are the points beside the number. -/
theorem tryGrid_eq (l : Layout) (m s : Nat) (e : Int) :
    l.tryGrid (l.basin m s) e =
      match l.isHit m s ⟨l.gridFloor m s e, e⟩, l.isHit m s ⟨l.gridFloor m s e + 1, e⟩ with
      | true, true => some ⟨roundHalfEven (l.gridRatio m s e).1 (l.gridRatio m s e).2, e⟩
      | true, false => some ⟨l.gridFloor m s e, e⟩
      | false, true => some ⟨l.gridFloor m s e + 1, e⟩
      | false, false => none := rfl

/-- Where nothing is found, the grid has no point in the basin. -/
theorem tryGrid_eq_none (hm : 0 < m) {e : Int} (h : l.tryGrid (l.basin m s) e = none) (n : Nat) :
    ¬ l.Tries m s (n * 10 ^ e) := by
  intro hn
  obtain ⟨n', hn', htries, -⟩ := exists_neighbour hm hn
  have hhit := isHit_iff (d := ⟨n', e⟩).mpr htries
  rw [tryGrid_eq] at h
  rcases hn' with rfl | rfl
  · rw [hhit] at h
    split at h <;> simp_all
  · rw [hhit] at h
    split at h <;> simp_all

/-- Of two points of the grid beside the number, rounding takes one that is not farther away. -/
theorem roundHalfEven_gridRatio (l : Layout) (m s : Nat) (e : Int) :
    ∃ n, roundHalfEven (l.gridRatio m s e).1 (l.gridRatio m s e).2 = n ∧
      (n = l.gridFloor m s e ∨ n = l.gridFloor m s e + 1) ∧
      ∀ n', (n' = l.gridFloor m s e ∨ n' = l.gridFloor m s e + 1) →
        |l.worth m s - (n : ℚ) * 10 ^ e| ≤ |l.worth m s - (n' : ℚ) * 10 ^ e| := by
  obtain ⟨hden, hratio⟩ := l.gridRatio_eq m s e
  have hten : (0 : ℚ) < 10 ^ e := by positivity
  have hden' : (0 : ℚ) < (l.gridRatio m s e).2 := Nat.cast_pos.mpr hden
  have hfloor := l.gridFloor_le m s e
  have hceil := l.lt_gridFloor_succ m s e
  have hdown : |l.worth m s - (l.gridFloor m s e : ℚ) * 10 ^ e| =
      l.worth m s - (l.gridFloor m s e : ℚ) * 10 ^ e := abs_of_nonneg (by linarith)
  have hup : |l.worth m s - ((l.gridFloor m s e + 1 : Nat) : ℚ) * 10 ^ e| =
      ((l.gridFloor m s e : ℚ) + 1) * 10 ^ e - l.worth m s := by
    rw [Nat.cast_add, Nat.cast_one, abs_sub_comm, abs_of_nonneg (by linarith)]
  -- the remainder says on which side of the middle between the points the number is
  have hexact : l.worth m s * (l.gridRatio m s e).2 =
      (l.gridFloor m s e * (l.gridRatio m s e).2 +
        ((l.gridRatio m s e).1 % (l.gridRatio m s e).2 : Nat)) * 10 ^ e := by
    have hdiv : ((l.gridFloor m s e : ℚ) * (l.gridRatio m s e).2 +
        ((l.gridRatio m s e).1 % (l.gridRatio m s e).2 : Nat)) = (l.gridRatio m s e).1 := by
      exact_mod_cast Nat.div_add_mod' (l.gridRatio m s e).1 (l.gridRatio m s e).2
    rw [hdiv]
    rw [div_eq_div_iff hden'.ne' hten.ne'] at hratio
    exact hratio.symm
  rcases roundHalfEven_cases (l.gridRatio m s e).1 (l.gridRatio m s e).2 with
    ⟨hrounded, hrest⟩ | ⟨hrounded, hrest⟩
  · have hmiddle : 2 * l.worth m s ≤ (2 * l.gridFloor m s e + 1) * 10 ^ e := by
      refine le_of_mul_le_mul_right ?_ hden'
      have hrest' : 2 * (((l.gridRatio m s e).1 % (l.gridRatio m s e).2 : Nat) : ℚ) ≤
          (l.gridRatio m s e).2 := by exact_mod_cast hrest
      nlinarith
    refine ⟨_, hrounded, .inl rfl, ?_⟩
    rintro n' (rfl | rfl)
    · exact le_rfl
    · rw [← gridFloor, hdown, hup]
      linarith
  · have hmiddle : (2 * l.gridFloor m s e + 1) * 10 ^ e ≤ 2 * l.worth m s := by
      refine le_of_mul_le_mul_right ?_ hden'
      have hrest' : ((l.gridRatio m s e).2 : ℚ) ≤
          2 * (((l.gridRatio m s e).1 % (l.gridRatio m s e).2 : Nat) : ℚ) := by
        exact_mod_cast hrest
      nlinarith
    refine ⟨_, hrounded, .inr rfl, ?_⟩
    rintro n' (rfl | rfl)
    · rw [← gridFloor, hdown, hup]
      linarith
    · exact le_rfl

/-- What is found is a point beside the number that is in the basin, and no other point of the grid
that is in it is nearer. -/
theorem tryGrid_eq_some (hm : 0 < m) {e : Int} {d : Decimal}
    (h : l.tryGrid (l.basin m s) e = some d) :
    d.exponent = e ∧ (d.coefficient = l.gridFloor m s e ∨ d.coefficient = l.gridFloor m s e + 1) ∧
      l.Tries m s d.toRat ∧
      ∀ n : Nat, l.Tries m s (n * 10 ^ e) →
        |l.worth m s - d.toRat| ≤ |l.worth m s - n * 10 ^ e| := by
  -- it is enough to compare with the points beside the number
  suffices hbeside : d.exponent = e ∧
      (d.coefficient = l.gridFloor m s e ∨ d.coefficient = l.gridFloor m s e + 1) ∧
      l.Tries m s d.toRat ∧
      ∀ n : Nat, (n = l.gridFloor m s e ∨ n = l.gridFloor m s e + 1) → l.Tries m s (n * 10 ^ e) →
        |l.worth m s - d.toRat| ≤ |l.worth m s - n * 10 ^ e| by
    obtain ⟨hexponent, hcoefficient, htries, hnearest⟩ := hbeside
    refine ⟨hexponent, hcoefficient, htries, fun n hn => ?_⟩
    obtain ⟨n', hn', htries', hle⟩ := exists_neighbour hm hn
    exact (hnearest n' hn' htries').trans hle
  rw [tryGrid_eq] at h
  split at h
  · rename_i hdown hup
    cases h
    obtain ⟨n, hrounded, hn, hnearest⟩ := l.roundHalfEven_gridRatio m s e
    rw [hrounded]
    refine ⟨rfl, hn, ?_, fun n' hn' _ => hnearest n' hn'⟩
    rcases hn with rfl | rfl
    · exact isHit_iff.mp hdown
    · exact isHit_iff.mp hup
  · rename_i hdown hup
    cases h
    refine ⟨rfl, .inl rfl, isHit_iff.mp hdown, ?_⟩
    rintro n (rfl | rfl) hn
    · exact le_rfl
    · exact absurd (isHit_iff (d := ⟨l.gridFloor m s e + 1, e⟩).mpr hn) (by rw [hup]; decide)
  · rename_i hdown hup
    cases h
    refine ⟨rfl, .inr rfl, isHit_iff.mp hup, ?_⟩
    rintro n (rfl | rfl) hn
    · exact absurd (isHit_iff (d := ⟨l.gridFloor m s e, e⟩).mpr hn) (by rw [hdown]; decide)
    · exact le_rfl
  · exact absurd h (by simp)

/-! ## All grids -/

/-- A decimal of `k` digits in the basin is not nearer than some point of the grid that gives numbers
of the decade `k` digits. -/
theorem exists_grid_point (hm : 0 < m) {E : Int} (hE : (10 : ℚ) ^ E ≤ l.worth m s) {c k : Nat}
    (hc : c < 10 ^ (k + 1)) {e : Int} (h : l.Tries m s (c * 10 ^ e)) :
    ∃ n : Nat, l.Tries m s (n * 10 ^ (E - k)) ∧
      |l.worth m s - n * 10 ^ (E - k)| ≤ |l.worth m s - c * 10 ^ e| := by
  rcases le_or_gt (E - k) e with hle | hlt
  · -- the decimal is on the grid itself
    have hsame : ((c * 10 ^ (e - (E - k)).toNat : Nat) : ℚ) * 10 ^ (E - k) = c * 10 ^ e := by
      push_cast
      rw [mul_assoc, ← zpow_natCast, ← zpow_add₀ (by norm_num), Int.toNat_of_nonneg (by omega),
        sub_add_cancel]
    exact ⟨c * 10 ^ (e - (E - k)).toNat, by rw [hsame]; exact h, by rw [hsame]⟩
  · -- the decimal is below the decade, and the first number of the decade is on the grid
    have hfirst : ((10 ^ k : Nat) : ℚ) * 10 ^ (E - k) = 10 ^ E := by
      push_cast
      rw [← zpow_natCast, ← zpow_add₀ (by norm_num), add_sub_cancel]
    have hbelow : (c : ℚ) * 10 ^ e ≤ 10 ^ E := by
      have hcast : (c : ℚ) ≤ 10 ^ ((k + 1 : Nat) : Int) := by
        rw [zpow_natCast]
        exact_mod_cast hc.le
      calc (c : ℚ) * 10 ^ e ≤ 10 ^ ((k + 1 : Nat) : Int) * 10 ^ e :=
            mul_le_mul_of_nonneg_right hcast (by positivity)
        _ = 10 ^ (((k + 1 : Nat) : Int) + e) := (zpow_add₀ (by norm_num) _ _).symm
        _ ≤ 10 ^ E := zpow_le_zpow_right₀ (by norm_num) (by omega)
    refine ⟨10 ^ k, ?_, ?_⟩
    · rw [hfirst]
      exact h.between (tries_worth hm) hbelow hE
    · rw [hfirst, abs_of_nonneg (by linarith), abs_of_nonneg (by linarith)]
      linarith

/-- What is found is the first find. -/
theorem search_eq_some {b : Basin} {fuel : Nat} {e : Int} {d : Decimal}
    (h : l.search b fuel e = some d) :
    ∃ j < fuel, l.tryGrid b (e - j) = some d ∧ ∀ i < j, l.tryGrid b (e - i) = none := by
  induction fuel generalizing e with
  | zero => exact absurd h (by simp [search])
  | succ fuel ih =>
      rw [search] at h
      split at h
      · rename_i found hfound
        cases h
        exact ⟨0, Nat.succ_pos fuel, by simpa using hfound, by simp⟩
      · rename_i hnone
        obtain ⟨j, hj, hfound, hbefore⟩ := ih h
        have hshift : ∀ i : Nat, e - 1 - i = e - ((i + 1 : Nat) : Int) := fun i => by push_cast; ring
        refine ⟨j + 1, Nat.succ_lt_succ hj, by rw [← hshift]; exact hfound, ?_⟩
        intro i hi
        cases i with
        | zero => simpa using hnone
        | succ i => rw [← hshift]; exact hbefore i (Nat.lt_of_succ_lt_succ hi)

/-- Where a grid within reach has a find, the search has. -/
theorem search_ne_none {b : Basin} {fuel : Nat} {e : Int} {j : Nat} (hj : j < fuel)
    (h : l.tryGrid b (e - j) ≠ none) : l.search b fuel e ≠ none := by
  induction fuel generalizing e j with
  | zero => exact absurd hj (Nat.not_lt_zero j)
  | succ fuel ih =>
      rw [search]
      split
      · simp
      · rename_i hnone
        cases j with
        | zero => exact absurd hnone (by simpa using h)
        | succ j =>
            refine ih (Nat.lt_of_succ_lt_succ hj) ?_
            rwa [show e - 1 - j = e - ((j + 1 : Nat) : Int) by push_cast; ring]

/-- Seventeen digits are enough for a significand of up to fifty bits: the point of the grid below the
number is in the basin. -/
theorem tryGrid_ne_none (h : l.Normal m s) (hm : 0 < m) (hfraction : 2 ^ (l.fraction + 3) ≤ 10 ^ 16)
    {E : Int} (hE : (10 : ℚ) ^ E ≤ l.worth m s) : l.tryGrid (l.basin m s) (E - 16) ≠ none := by
  intro hnone
  refine tryGrid_eq_none hm hnone (l.gridFloor m s (E - 16)) ?_
  have hunit : (0 : ℚ) < 2 ^ (l.unitExponent + 2) := by positivity
  have hscale : (0 : ℚ) < 2 ^ s := by positivity
  have hfloor := mul_le_mul_of_nonneg_right (l.gridFloor_le m s (E - 16)) hunit.le
  have hceil := mul_lt_mul_of_pos_right (l.lt_gridFloor_succ m s (E - 16)) hunit
  have hgap : (1 : ℚ) * 2 ^ s ≤ l.gapBelow m s * 2 ^ s :=
    mul_le_mul_of_nonneg_right (by exact_mod_cast gapBelow_pos m s) hscale.le
  -- the spacing of the grid is less than the gap below the number
  have hspacing : (10 : ℚ) ^ (E - 16) * 2 ^ (l.unitExponent + 2) < 2 ^ s := by
    have hdigits : 4 * (m : ℚ) < 10 ^ 16 := by
      have hlt := h.lt
      have hpow : 2 ^ (l.fraction + 3) = 4 * 2 ^ (l.fraction + 1) := by
        rw [Nat.pow_add _ _ 3, Nat.pow_add _ _ 1]
        ring
      exact_mod_cast (show 4 * m < 10 ^ 16 by omega)
    have hdecade : (10 : ℚ) ^ (E - 16) * 10 ^ 16 = 10 ^ E := by
      rw [show (10 : ℚ) ^ 16 = 10 ^ (16 : Int) by norm_num, ← zpow_add₀ (by norm_num), sub_add_cancel]
    have hquarters := mul_le_mul_of_nonneg_right hE hunit.le
    have hworth := l.quartersOf_worth m s
    rw [quartersOf] at hworth
    rw [hworth, ← hdecade] at hquarters
    nlinarith
  have hworth := l.quartersOf_worth m s
  rw [quartersOf] at hworth
  rw [hworth] at hfloor hceil
  rw [Tries, holds_basin hm, quartersOf]
  refine ⟨⟨by linarith, by linarith⟩, ?_⟩
  rintro (hend | hend) <;> linarith

/-- The decade of a number. -/
theorem decade_centre (hm : 0 < m) :
    ∃ E, E = decade (l.basin m s).centre (2 ^ (l.unitExponent + 2)) ∧
      (10 : ℚ) ^ E ≤ l.worth m s ∧ l.worth m s < 10 ^ (E + 1) := by
  have hcentre : 0 < (l.basin m s).centre := by
    rw [basin_eq]
    exact Nat.mul_pos (by omega) (Nat.two_pow_pos s)
  have hworth : ((l.basin m s).centre : ℚ) / ((2 ^ (l.unitExponent + 2) : Nat) : ℚ) =
      l.worth m s := by
    rw [basin_eq, worth]
    push_cast
    rw [pow_add]
    field_simp
    ring
  have hdecade := decade_spec hcentre (Nat.two_pow_pos (l.unitExponent + 2))
  rw [hworth] at hdecade
  exact ⟨_, rfl, hdecade⟩

theorem not_tries_zero (hm : 0 < m) : ¬ l.Tries m s 0 := by
  have hscale : (0 : ℚ) < 2 ^ s := by positivity
  have hm' : (1 : ℚ) * 2 ^ s ≤ m * 2 ^ s :=
    mul_le_mul_of_nonneg_right (by exact_mod_cast hm) hscale.le
  have hgap : (l.gapBelow m s : ℚ) * 2 ^ s ≤ 2 * 2 ^ s :=
    mul_le_mul_of_nonneg_right (by exact_mod_cast gapBelow_le m s) hscale.le
  rw [Tries, quartersOf, zero_mul, holds_basin hm]
  intro hzero
  linarith [hzero.1.1]

/-- The points of a grid beside the number have as many digits as the grid is steps below the decade,
and one more. -/
theorem gridFloor_bounds {E : Int} (hdecade : (10 : ℚ) ^ E ≤ l.worth m s)
    (hnext : l.worth m s < 10 ^ (E + 1)) (j : Nat) :
    10 ^ j ≤ l.gridFloor m s (E - j) ∧ l.gridFloor m s (E - j) + 1 ≤ 10 ^ (j + 1) := by
  constructor
  · refine le_gridFloor ?_
    push_cast
    rw [← zpow_natCast, ← zpow_add₀ (by norm_num), add_sub_cancel]
    exact hdecade
  · refine gridFloor_lt ?_
    push_cast
    rw [← zpow_natCast, ← zpow_add₀ (by norm_num), Nat.cast_succ,
      show (j : Int) + 1 + (E - j) = E + 1 by ring]
    exact hnext

/-- The decimal that is written is in the basin. No decimal in the basin has fewer digits, and none
with as few is nearer. -/
theorem tries_shortest (h : l.Normal m s) (hm : 0 < m) (hfraction : 2 ^ (l.fraction + 3) ≤ 10 ^ 16) :
    l.Tries m s (l.shortest m s).toRat ∧
      ∀ (c : Nat) (e : Int), l.Tries m s (c * 10 ^ e) →
        decimalLength (l.shortest m s).coefficient ≤ decimalLength c ∧
        (decimalLength c ≤ decimalLength (l.shortest m s).coefficient →
          |l.worth m s - (l.shortest m s).toRat| ≤ |l.worth m s - c * 10 ^ e|) := by
  obtain ⟨E, hE, hdecade, hnext⟩ := decade_centre (l := l) (s := s) hm
  have hfound : l.search (l.basin m s) 17 E ≠ none :=
    search_ne_none (j := 16) (by decide) (tryGrid_ne_none h hm hfraction hdecade)
  obtain ⟨d, hd⟩ := Option.ne_none_iff_exists'.mp hfound
  have hshortest : l.shortest m s = d.trimZeros (decimalLength d.coefficient) := by
    unfold shortest
    dsimp only
    rw [if_neg hm.ne', ← hE, hd]
  obtain ⟨j, hj, hgrid, hbefore⟩ := search_eq_some hd
  obtain ⟨-, hcoefficient, htries, hnearest⟩ := tryGrid_eq_some hm hgrid
  obtain ⟨hlow, hhigh⟩ := gridFloor_bounds hdecade hnext j
  have hpos : 0 < d.coefficient := by
    have hone : 0 < 10 ^ j := by positivity
    omega
  have hdigits : decimalLength (l.shortest m s).coefficient ≤ j + 1 := by
    rw [decimalLength_le_iff, hshortest, ← Nat.sub_add_cancel (decimalLength_pos hpos)]
    exact Decimal.coefficient_trimZeros_lt hpos (by omega) _
  rw [hshortest, Decimal.toRat_trimZeros, ← hshortest]
  refine ⟨htries, fun c e hc => ?_⟩
  have hcpos : 0 < c := by
    refine Nat.pos_of_ne_zero fun hzero => not_tries_zero (l := l) (s := s) hm ?_
    simpa [hzero] using hc
  -- a decimal with fewer digits would have been found on a grid before
  have hmore : j + 1 ≤ decimalLength c := by
    by_contra hfewer
    have hlength := decimalLength_pos hcpos
    have hlt : c < 10 ^ (decimalLength c - 1 + 1) := by
      rw [Nat.sub_add_cancel hlength]
      exact lt_pow_decimalLength c
    obtain ⟨n, hn, -⟩ := exists_grid_point hm hdecade hlt hc
    exact tryGrid_eq_none hm (hbefore (decimalLength c - 1) (by omega)) n hn
  refine ⟨hdigits.trans hmore, fun hle => ?_⟩
  obtain ⟨n, hn, hnear⟩ := exists_grid_point hm hdecade
    (decimalLength_le_iff.mp (hle.trans hdigits)) hc
  exact (hnearest n hn).trans hnear

/-! ## The shortest decimal -/

/-- Of the decimals that are rounded to a number, this one has the fewest digits, and none with as few
is nearer to it. -/
structure IsShortest (l : Layout) (negative : Bool) (m s : Nat) (d : Decimal) : Prop where
  rounds : l.RoundsTo (signed negative d.toRat) negative m s
  fewest : ∀ d' : Decimal, l.RoundsTo (signed negative d'.toRat) negative m s →
    decimalLength d.coefficient ≤ decimalLength d'.coefficient
  nearest : ∀ d' : Decimal, l.RoundsTo (signed negative d'.toRat) negative m s →
    decimalLength d'.coefficient ≤ decimalLength d.coefficient →
    |signed negative (l.worth m s) - signed negative d.toRat| ≤
      |signed negative (l.worth m s) - signed negative d'.toRat|

theorem isShortest_shortest (h : l.Normal m s) (hfraction : 2 ^ (l.fraction + 3) ≤ 10 ^ 16)
    (negative : Bool) : l.IsShortest negative m s (l.shortest m s) := by
  rcases Nat.eq_zero_or_pos m with rfl | hm
  · have hzero : l.shortest 0 s = ⟨0, 0⟩ := rfl
    have hrat : (⟨0, 0⟩ : Decimal).toRat = 0 := by simp [Decimal.toRat]
    have hworth : l.worth 0 s = 0 := by simp [worth]
    rw [hzero]
    refine ⟨⟨?_, fun _ _ _ _ _ => .inr rfl⟩, fun d' _ => ?_, fun d' _ _ => ?_⟩
    · intro _ _ _ _
      rw [hrat, hworth, sub_self, abs_zero]
      exact abs_nonneg _
    · exact Nat.zero_le _
    · rw [hrat, hworth, sub_self, abs_zero]
      exact abs_nonneg _
  · have hiff : ∀ d : Decimal, l.RoundsTo (signed negative d.toRat) negative m s ↔
        l.Tries m s d.toRat := fun d => (holds_basin_iff h hm negative d.toRat_nonneg).symm
    obtain ⟨htries, hothers⟩ := tries_shortest h hm hfraction
    refine ⟨(hiff _).mpr htries, fun d' hd' => ?_, fun d' hd' hle => ?_⟩
    · exact (hothers _ _ ((hiff d').mp hd')).1
    · rw [abs_signed, abs_signed]
      exact (hothers _ _ ((hiff d').mp hd')).2 hle

end Layout

end NodeShader.Number
