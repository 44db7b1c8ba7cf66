import Mathlib.Data.Int.Log
import Mathlib.Data.Rat.Floor
import Mathlib.Tactic.Linarith

/-! # Rounding to Floating Point

    A rational rounded to the 53 significant bits of an `f64`, ties to even.
    The exponent is not bounded: numbers that overflow or become subnormal
    are outside of what this describes. -/

namespace Rounding

/-- The nearest integer, the even one of two. -/
def nearest (x : ℚ) : ℤ :=
  let d := x - ⌊x⌋
  if d < 1 / 2 then ⌊x⌋
  else if 1 / 2 < d then ⌊x⌋ + 1
  else if ⌊x⌋ % 2 = 0 then ⌊x⌋
  else ⌊x⌋ + 1

/-- The `f64` nearest to a number that is not negative. -/
def f64 (x : ℚ) : ℚ :=
  if x ≤ 0 then 0
  else
    let unit : ℚ := 2 ^ (Int.log 2 x - 52)
    nearest (x / unit) * unit

@[simp] theorem f64_zero : f64 0 = 0 := if_pos (le_refl 0)

theorem floor_le_nearest (x : ℚ) : ⌊x⌋ ≤ nearest x := by
  unfold nearest
  dsimp only
  split
  · exact le_refl _
  split
  · omega
  split
  · exact le_refl _
  · omega

/-- **Rounding keeps the sign**: what is not 0 does not become 0. -/
theorem f64_pos {x : ℚ} (hx : 0 < x) : 0 < f64 x := by
  have hunit : (0 : ℚ) < 2 ^ (Int.log 2 x - 52) := zpow_pos (by norm_num) _
  -- the leading bit of `x` is 52 places above the unit
  have hone : 1 ≤ x / 2 ^ (Int.log 2 x - 52) := by
    rw [one_le_div hunit]
    calc (2 : ℚ) ^ (Int.log 2 x - 52) ≤ 2 ^ Int.log 2 x :=
          zpow_le_zpow_right₀ (by norm_num) (by omega)
      _ ≤ x := by exact_mod_cast Int.zpow_log_le_self (b := 2) (by norm_num) hx
  have hfloor : 1 ≤ nearest (x / 2 ^ (Int.log 2 x - 52)) :=
    le_trans (Int.le_floor.mpr (by exact_mod_cast hone)) (floor_le_nearest _)
  unfold f64
  rw [if_neg (not_le.mpr hx)]
  have hpos : (0 : ℚ) < nearest (x / 2 ^ (Int.log 2 x - 52)) := by exact_mod_cast hfloor
  exact mul_pos hpos hunit

theorem f64_nonneg {x : ℚ} (hx : 0 ≤ x) : 0 ≤ f64 x := by
  rcases hx.eq_or_lt with rfl | hpos
  · exact f64_zero.ge
  · exact (f64_pos hpos).le

theorem f64_eq_zero_iff {x : ℚ} (hx : 0 ≤ x) : f64 x = 0 ↔ x = 0 := by
  constructor
  · intro h
    by_contra hne
    exact absurd h (f64_pos (lt_of_le_of_ne hx (Ne.symm hne))).ne'
  · rintro rfl
    exact f64_zero

theorem f64_nonpos_iff {x : ℚ} (hx : 0 ≤ x) : f64 x ≤ 0 ↔ x = 0 := by
  rw [← f64_eq_zero_iff hx]
  exact (f64_nonneg hx).ge_iff_eq'

/-! ### Order -/

theorem nearest_le_floor_succ (x : ℚ) : nearest x ≤ ⌊x⌋ + 1 := by
  unfold nearest
  dsimp only
  split
  · omega
  split
  · exact le_refl _
  split
  · omega
  · exact le_refl _

@[simp] theorem nearest_intCast (n : ℤ) : nearest (n : ℚ) = n := by
  unfold nearest
  rw [Int.floor_intCast, sub_self]
  exact if_pos (by norm_num)

theorem nearest_mono {x y : ℚ} (h : x ≤ y) : nearest x ≤ nearest y := by
  rcases (Int.floor_le_floor h).lt_or_eq with hlt | heq
  · -- an integer lies between the two
    calc nearest x ≤ ⌊x⌋ + 1 := nearest_le_floor_succ x
      _ ≤ ⌊y⌋ := hlt
      _ ≤ nearest y := floor_le_nearest y
  · -- the same integer is below both, and `y` is further above it
    have hd : x - ⌊x⌋ ≤ y - ⌊y⌋ := by
      rw [heq]
      exact sub_le_sub_right h _
    have hx := nearest_le_floor_succ x
    have hy := floor_le_nearest y
    unfold nearest at hx hy ⊢
    dsimp only at hx hy ⊢
    rw [heq] at hd hx ⊢
    split_ifs <;> first | omega | (exfalso; linarith)

theorem le_nearest {n : ℤ} {x : ℚ} (h : (n : ℚ) ≤ x) : n ≤ nearest x := by
  have hmono := nearest_mono h
  rwa [nearest_intCast] at hmono

theorem nearest_le {n : ℤ} {x : ℚ} (h : x ≤ n) : nearest x ≤ n := by
  have hmono := nearest_mono h
  rwa [nearest_intCast] at hmono

section binade
variable {x : ℚ} (hx : 0 < x)
include hx

/-- Between two powers of 2, rounding stays between them. -/
theorem zpow_log_le_f64 : 2 ^ Int.log 2 x ≤ f64 x := by
  have hunit : (0 : ℚ) < 2 ^ (Int.log 2 x - 52) := zpow_pos (by norm_num) _
  have hsplit : (2 : ℚ) ^ Int.log 2 x = 2 ^ (52 : ℤ) * 2 ^ (Int.log 2 x - 52) := by
    rw [← zpow_add₀ (by norm_num)]
    congr 1
    omega
  have hle : ((2 ^ 52 : ℤ) : ℚ) ≤ x / 2 ^ (Int.log 2 x - 52) := by
    rw [le_div_iff₀ hunit]
    calc ((2 ^ 52 : ℤ) : ℚ) * 2 ^ (Int.log 2 x - 52) = 2 ^ Int.log 2 x := by
          rw [hsplit]
          norm_num
      _ ≤ x := by exact_mod_cast Int.zpow_log_le_self (b := 2) (by norm_num) hx
  unfold f64
  rw [if_neg (not_le.mpr hx), hsplit]
  apply mul_le_mul_of_nonneg_right _ hunit.le
  exact_mod_cast le_nearest hle

theorem f64_le_zpow_log : f64 x ≤ 2 ^ (Int.log 2 x + 1) := by
  have hunit : (0 : ℚ) < 2 ^ (Int.log 2 x - 52) := zpow_pos (by norm_num) _
  have hsplit : (2 : ℚ) ^ (Int.log 2 x + 1) = 2 ^ (53 : ℤ) * 2 ^ (Int.log 2 x - 52) := by
    rw [← zpow_add₀ (by norm_num)]
    congr 1
    omega
  have hle : x / 2 ^ (Int.log 2 x - 52) ≤ ((2 ^ 53 : ℤ) : ℚ) := by
    rw [div_le_iff₀ hunit]
    calc x ≤ 2 ^ (Int.log 2 x + 1) := by
          exact_mod_cast (Int.lt_zpow_succ_log_self (b := 2) (by norm_num) x).le
      _ = ((2 ^ 53 : ℤ) : ℚ) * 2 ^ (Int.log 2 x - 52) := by
          rw [hsplit]
          norm_num
  unfold f64
  rw [if_neg (not_le.mpr hx), hsplit]
  apply mul_le_mul_of_nonneg_right _ hunit.le
  exact_mod_cast nearest_le hle

end binade

/-- **Rounding keeps the order.** -/
theorem f64_mono {x y : ℚ} (h : x ≤ y) : f64 x ≤ f64 y := by
  by_cases hx : x ≤ 0
  · unfold f64
    rw [if_pos hx]
    split
    · exact le_refl _
    · next hy => exact (f64_pos (not_le.mp hy)).le.trans_eq (if_neg hy)
  have hxpos := not_le.mp hx
  have hypos := hxpos.trans_le h
  have hlog : Int.log 2 x ≤ Int.log 2 y := Int.log_mono_right hxpos h
  rcases hlog.lt_or_eq with hlt | heq
  · -- a power of 2 lies between the two
    calc f64 x ≤ 2 ^ (Int.log 2 x + 1) := f64_le_zpow_log hxpos
      _ ≤ 2 ^ Int.log 2 y := zpow_le_zpow_right₀ (by norm_num) hlt
      _ ≤ f64 y := zpow_log_le_f64 hypos
  · have hunit : (0 : ℚ) < 2 ^ (Int.log 2 y - 52) := zpow_pos (by norm_num) _
    unfold f64
    rw [if_neg hx, if_neg (not_le.mpr hypos), heq]
    apply mul_le_mul_of_nonneg_right _ hunit.le
    exact_mod_cast nearest_mono (div_le_div_of_nonneg_right h hunit.le)

/-- **Counts are exact** up to `2 ^ 53`. -/
theorem f64_natCast {n : ℕ} (h : n ≤ 2 ^ 53) : f64 (n : ℚ) = n := by
  rcases Nat.eq_zero_or_pos n with rfl | hpos
  · rw [Nat.cast_zero, f64_zero]
  have hunit : (0 : ℚ) < 2 ^ (Int.log 2 (n : ℚ) - 52) := zpow_pos (by norm_num) _
  -- the count is a multiple of the unit
  obtain ⟨m, hm⟩ : ∃ m : ℤ, (n : ℚ) = m * 2 ^ (Int.log 2 (n : ℚ) - 52) := by
    rw [Int.log_natCast]
    rcases h.lt_or_eq with hlt | rfl
    · have hlog : Nat.log 2 n ≤ 52 := Nat.lt_succ_iff.mp (Nat.log_lt_of_lt_pow hpos.ne' hlt)
      refine ⟨n * 2 ^ (52 - Nat.log 2 n), ?_⟩
      push_cast
      rw [mul_assoc, ← zpow_natCast, ← zpow_add₀ (by norm_num : (2 : ℚ) ≠ 0)]
      have hzero : ((52 - Nat.log 2 n : ℕ) : ℤ) + ((Nat.log 2 n : ℤ) - 52) = 0 := by omega
      rw [hzero, zpow_zero, mul_one]
    · rw [Nat.log_pow (by norm_num)]
      exact ⟨2 ^ 52, by norm_num⟩
  have hdiv : (n : ℚ) / 2 ^ (Int.log 2 (n : ℚ) - 52) = m := by
    rw [div_eq_iff hunit.ne']
    exact hm
  unfold f64
  rw [if_neg (not_le.mpr (by exact_mod_cast hpos))]
  dsimp only
  rw [hdiv, nearest_intCast]
  exact hm.symm

end Rounding
