import Mathlib.Algebra.Order.Ring.Nat
import Mathlib.Data.List.Basic

/-! # Decimal Fields

    A number in a field of fixed width: its last digits, with zeros in front
    where it has fewer. -/

namespace Decimal

/-- The ASCII digit for `d`, by its last decimal digit. -/
def digit (d : Nat) : UInt8 := UInt8.ofNat (48 + d % 10)

/-- The last `w` decimal digits of `v`. -/
def fixed : Nat → Nat → List UInt8
  | 0, _ => []
  | w + 1, v => fixed w (v / 10) ++ [digit v]

theorem toNat_digit (d : Nat) : (digit d).toNat = 48 + d % 10 := by
  unfold digit
  rw [UInt8.toNat_ofNat']
  omega

@[simp] theorem length_fixed (w v : Nat) : (fixed w v).length = w := by
  induction w generalizing v with
  | zero => rfl
  | succ w ih => rw [fixed, List.length_append, ih, List.length_singleton]

/-- A field has digits only. -/
theorem digits_of_mem_fixed {w v : Nat} {b : UInt8} (h : b ∈ fixed w v) :
    48 ≤ b.toNat ∧ b.toNat ≤ 57 := by
  induction w generalizing v with
  | zero => cases h
  | succ w ih =>
    rw [fixed, List.mem_append, List.mem_singleton] at h
    rcases h with h | rfl
    · exact ih h
    · rw [toNat_digit]
      omega

/-- A field of zeros. -/
theorem fixed_zero (w : Nat) : fixed w 0 = List.replicate w (digit 0) := by
  induction w with
  | zero => rfl
  | succ w ih => rw [fixed, Nat.zero_div, ih, List.replicate_succ']

/-- A field in two parts. -/
theorem fixed_add (a b v : Nat) : fixed (a + b) v = fixed a (v / 10 ^ b) ++ fixed b v := by
  induction b generalizing v with
  | zero => rw [Nat.pow_zero, Nat.div_one, Nat.add_zero, fixed, List.append_nil]
  | succ b ih =>
    rw [← Nat.add_assoc, fixed, ih, fixed, Nat.div_div_eq_div_mul, List.append_assoc, Nat.pow_succ,
      Nat.mul_comm]

/-- A wider field cut on the left. -/
theorem drop_fixed (a b v : Nat) : (fixed (a + b) v).drop a = fixed b v := by
  rw [fixed_add]
  exact List.drop_left' (length_fixed a _)

/-- A narrower field padded on the left. -/
theorem replicate_append_fixed {b v : Nat} (a : Nat) (h : v < 10 ^ b) :
    List.replicate a (digit 0) ++ fixed b v = fixed (a + b) v := by
  rw [fixed_add, Nat.div_eq_of_lt h, fixed_zero]

/-- What one more digit adds to the value of a field. -/
theorem mod_pow_succ (w v : Nat) : v % 10 ^ (w + 1) = v / 10 % 10 ^ w * 10 + v % 10 := by
  rw [Nat.pow_succ, Nat.mul_comm, Nat.mod_mul, Nat.add_comm, Nat.mul_comm]

end Decimal
