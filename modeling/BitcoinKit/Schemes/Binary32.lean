import Mathlib.Data.Int.Log
import Mathlib.Data.Rat.Floor
import Mathlib.Tactic.Linarith

/-! Rounding to binary32. From one power of two to the next, its numbers are evenly spaced; what lies
    between two of them goes to the nearer one, and from the middle to the even one:

        2ᵉ ├───┼───┼─── … ───┼───┤ 2ᵉ⁺¹        spacing 2ᵉ⁻²³

    Exponents have no bounds here: nothing that is rounded is that large or that small. -/

namespace Schemes

/-- The nearest integer; from the middle, the even one. -/
def nearestEven (x : ℚ) : ℤ :=
  if x - ⌊x⌋ < 1 / 2 then ⌊x⌋
  else if 1 / 2 < x - ⌊x⌋ then ⌊x⌋ + 1
  else if ⌊x⌋ % 2 = 0 then ⌊x⌋ else ⌊x⌋ + 1

/-- How far apart the numbers of 24 significant bits are around `x`. -/
def spacing (x : ℚ) : ℚ := 2 ^ (Int.log 2 |x| - 23)

/-- The nearest number of 24 significant bits. -/
def binary32 (x : ℚ) : ℚ := nearestEven (x / spacing x) * spacing x

variable {x y : ℚ}

/-! ### Integers -/

@[simp] theorem nearestEven_intCast (k : ℤ) : nearestEven k = k := by
  simp [nearestEven]

theorem nearestEven_bounds (x : ℚ) : ⌊x⌋ ≤ nearestEven x ∧ nearestEven x ≤ ⌊x⌋ + 1 := by
  unfold nearestEven
  split_ifs <;> omega

theorem nearestEven_mono (h : x ≤ y) : nearestEven x ≤ nearestEven y := by
  have hfloor : ⌊x⌋ ≤ ⌊y⌋ := Int.floor_mono h
  rcases hfloor.lt_or_eq with hlt | heq
  · -- a whole number lies in between
    have hx := (nearestEven_bounds x).2
    have hy := (nearestEven_bounds y).1
    omega
  · have hpart : x - ⌊x⌋ ≤ y - ⌊y⌋ := by
      rw [heq]
      linarith
    unfold nearestEven
    rw [heq] at hpart ⊢
    split_ifs <;> first | omega | linarith

/-! ### Numbers of 24 bits -/

theorem spacing_pos (x : ℚ) : 0 < spacing x := zpow_pos (by norm_num) _

@[simp] theorem binary32_zero : binary32 0 = 0 := by
  have hzero := nearestEven_intCast 0
  rw [Int.cast_zero] at hzero
  rw [binary32, zero_div, hzero, Int.cast_zero, zero_mul]

/-- In units of its spacing, a number takes the full 24 bits. -/
theorem div_spacing_bounds (h : 0 < x) :
    ((2 ^ 23 : ℤ) : ℚ) ≤ x / spacing x ∧ x / spacing x ≤ ((2 ^ 24 : ℤ) : ℚ) := by
  have hlow := Int.zpow_log_le_self (b := 2) (by norm_num) h
  have hhigh := Int.lt_zpow_succ_log_self (b := 2) (by norm_num) x
  rw [Nat.cast_ofNat] at hlow hhigh
  have hunits (n : ℕ) : ((2 ^ n : ℤ) : ℚ) * spacing x = 2 ^ (Int.log 2 x + (n - 23)) := by
    rw [spacing, abs_of_pos h, Int.cast_pow, Int.cast_ofNat, ← zpow_natCast, ← zpow_add₀ (by norm_num)]
    congr 1
    omega
  rw [le_div_iff₀ (spacing_pos x), div_le_iff₀ (spacing_pos x), hunits, hunits]
  exact ⟨by simpa using hlow, by simpa using hhigh.le⟩

/-- Numbers of 24 bits stay as they are. -/
theorem binary32_of_bits {m : ℤ} (hm : |m| < 2 ^ 24) (e : ℤ) : binary32 (m * 2 ^ e) = m * 2 ^ e := by
  rcases eq_or_ne m 0 with rfl | hne
  · simp
  have hpow : (0 : ℚ) < 2 ^ e := zpow_pos (by norm_num) _
  have hpos : 0 < |(m : ℚ) * 2 ^ e| := abs_pos.mpr (mul_ne_zero (Int.cast_ne_zero.mpr hne) hpow.ne')
  have hlog : Int.log 2 |(m : ℚ) * 2 ^ e| < 24 + e := by
    rw [← Int.lt_zpow_iff_log_lt (by norm_num) hpos, abs_mul, abs_of_pos hpow, Nat.cast_ofNat,
      zpow_add₀ (by norm_num)]
    refine mul_lt_mul_of_pos_right ?_ hpow
    exact_mod_cast hm
  -- the spacing divides the unit of the last bit
  obtain ⟨k, hk⟩ := Int.eq_ofNat_of_zero_le (show 0 ≤ e - (Int.log 2 |(m : ℚ) * 2 ^ e| - 23) by omega)
  have hspacing : (2 : ℚ) ^ e = 2 ^ k * spacing (m * 2 ^ e) := by
    rw [spacing, ← zpow_natCast, ← zpow_add₀ (by norm_num)]
    congr 1
    omega
  have hscaled : (m : ℚ) * 2 ^ e / spacing (m * 2 ^ e) = ((m * 2 ^ k : ℤ) : ℚ) := by
    rw [div_eq_iff (spacing_pos _).ne', Int.cast_mul, Int.cast_pow, Int.cast_ofNat, mul_assoc, ← hspacing]
  rw [binary32, hscaled, nearestEven_intCast, ← hscaled, div_mul_cancel₀ _ (spacing_pos _).ne']

theorem binary32_intCast {m : ℤ} (hm : |m| < 2 ^ 24) : binary32 m = m := by
  have h := binary32_of_bits hm 0
  rwa [zpow_zero, mul_one] at h

theorem binary32_nonneg (h : 0 ≤ x) : 0 ≤ binary32 x := by
  have hzero := nearestEven_mono (div_nonneg h (spacing_pos x).le)
  rw [← Int.cast_zero, nearestEven_intCast] at hzero
  exact mul_nonneg (Int.cast_nonneg hzero) (spacing_pos x).le

/-- Rounding keeps the order: between two powers of two by the spacing they share, and otherwise by the
    power of two in between. -/
theorem binary32_mono (hx : 0 ≤ x) (h : x ≤ y) : binary32 x ≤ binary32 y := by
  rcases hx.eq_or_lt with rfl | hpos
  · rw [binary32_zero]
    exact binary32_nonneg h
  have hy : 0 < y := hpos.trans_le h
  rcases (Int.log_mono_right (b := 2) hpos h).eq_or_lt with heq | hlt
  · have hsame : spacing x = spacing y := by rw [spacing, spacing, abs_of_pos hpos, abs_of_pos hy, heq]
    have hround := nearestEven_mono (div_le_div_of_nonneg_right h (spacing_pos y).le)
    rw [binary32, binary32, hsame]
    exact mul_le_mul_of_nonneg_right (Int.cast_le.mpr hround) (spacing_pos y).le
  · have hup := nearestEven_mono (div_spacing_bounds hpos).2
    have hdown := nearestEven_mono (div_spacing_bounds hy).1
    rw [nearestEven_intCast] at hup hdown
    have hspacing : 2 * spacing x ≤ spacing y := by
      rw [spacing, spacing, abs_of_pos hpos, abs_of_pos hy, ← zpow_one_add₀ (by norm_num)]
      exact zpow_le_zpow_right₀ (by norm_num) (by omega)
    calc binary32 x ≤ (2 ^ 24 : ℤ) * spacing x :=
          mul_le_mul_of_nonneg_right (Int.cast_le.mpr hup) (spacing_pos x).le
      _ = (2 ^ 23 : ℤ) * (2 * spacing x) := by
          push_cast
          ring
      _ ≤ (2 ^ 23 : ℤ) * spacing y := mul_le_mul_of_nonneg_left hspacing (by norm_num)
      _ ≤ binary32 y := mul_le_mul_of_nonneg_right (Int.cast_le.mpr hdown) (spacing_pos y).le

end Schemes
