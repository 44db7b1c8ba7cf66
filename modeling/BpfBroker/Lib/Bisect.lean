import Mathlib.Algebra.Order.Ring.Nat
import Mathlib.Data.Nat.Basic

/-! # Bisection

    The midpoint of an interval of natural numbers, and how fast the interval
    shrinks when either half may be kept. -/

namespace Bisect

/-- The midpoint, rounded down. -/
def mid (lo hi : Nat) : Nat := lo + (hi - lo) / 2

theorem le_mid (lo hi : Nat) : lo ≤ mid lo hi := Nat.le_add_right _ _

theorem mid_lt {lo hi : Nat} (h : lo < hi) : mid lo hi < hi := by
  unfold mid
  omega

/-- The lower half. -/
theorem mid_sub (lo hi : Nat) : mid lo hi - lo = (hi - lo) / 2 := Nat.add_sub_cancel_left _ _

/-- The upper half is the larger one. -/
theorem sub_mid {lo hi : Nat} (h : lo ≤ hi) : hi - mid lo hi = (hi - lo + 1) / 2 := by
  unfold mid
  omega

/-- `g / 2 ^ n`, rounded up: what is left at most of an interval of length `g`
    after `n` halvings. -/
def shrunk (g n : Nat) : Nat := (g + 2 ^ n - 1) / 2 ^ n

@[simp] theorem shrunk_zero (g : Nat) : shrunk g 0 = g := by
  unfold shrunk
  rw [Nat.pow_zero, Nat.div_one, Nat.add_sub_cancel]

/-- One more halving, the larger half kept. -/
theorem shrunk_half (g n : Nat) : shrunk ((g + 1) / 2) n = shrunk g (n + 1) := by
  unfold shrunk
  have hpos : 0 < 2 ^ n := Nat.two_pow_pos n
  have hhalf : (g + 1) / 2 + 2 ^ n - 1 = (g + 2 ^ (n + 1) - 1) / 2 := by
    rw [Nat.pow_succ]
    omega
  rw [hhalf, Nat.div_div_eq_div_mul, Nat.pow_succ, Nat.mul_comm 2]

theorem shrunk_mono {g g' : Nat} (h : g ≤ g') (n : Nat) : shrunk g n ≤ shrunk g' n := by
  unfold shrunk
  exact Nat.div_le_div_right (by omega)

/-- Whichever half is kept. -/
theorem shrunk_le {g g' : Nat} (h : g' ≤ (g + 1) / 2) (n : Nat) :
    shrunk g' n ≤ shrunk g (n + 1) := by
  rw [← shrunk_half]
  exact shrunk_mono h n

end Bisect
