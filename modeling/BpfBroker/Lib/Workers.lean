import Mathlib.Algebra.BigOperators.Group.Finset.Piecewise
import Mathlib.Algebra.Order.BigOperators.Group.Finset
import Mathlib.Data.Fintype.Card
import Mathlib.Algebra.Group.Nat.Defs

/-! # Workers and their Shares

    Finitely many workers each hold a share of something that can be added
    up: a count, or a multiset of things that belong to them. When one of
    them changes, the total changes by what its own share does. -/

namespace Workers

section total
variable {ι W M : Type} [Fintype ι] [AddCommMonoid M]

/-- The shares of all workers together. -/
def total (share : W → M) (workers : ι → W) : M := ∑ i, share (workers i)

theorem total_add (share share' : W → M) (workers : ι → W) :
    total (fun w => share w + share' w) workers = total share workers + total share' workers :=
  Finset.sum_add_distrib

/-- Nobody has a share. -/
theorem total_eq_zero {share : W → M} {workers : ι → W} (h : ∀ i, share (workers i) = 0) :
    total share workers = 0 :=
  Finset.sum_eq_zero fun i _ => h i

theorem total_update_add [DecidableEq ι] (share : W → M) (workers : ι → W) (i : ι) (w : W) :
    total share (Function.update workers i w) + share (workers i) =
      total share workers + share w := by
  have hshare : ∀ j, share (Function.update workers i w j) =
      Function.update (fun j => share (workers j)) i (share w) j :=
    fun j => Function.apply_update (fun _ => share) workers i w j
  have hsplit : total share workers = share (workers i) + ∑ j ∈ Finset.univ \ {i}, share (workers j) :=
    Finset.sum_eq_add_sum_sdiff_singleton_of_mem (Finset.mem_univ i) _
  unfold total at hsplit ⊢
  rw [Finset.sum_congr rfl fun j _ => hshare j, Finset.sum_update_of_mem (Finset.mem_univ i), hsplit,
    add_right_comm, add_comm (share w), add_right_comm, add_comm _ (share w), ← add_assoc]

end total

section cancel
variable {ι W M : Type} [Fintype ι] [DecidableEq ι] [AddCancelCommMonoid M]
variable {share : W → M} {workers : ι → W} {i : ι} {w : W}

/-- **One worker's share** loses `a` and gains `b`, and so does the total. -/
theorem total_update_of_add {a b : M} (h : share w + a = share (workers i) + b) :
    total share (Function.update workers i w) + a = total share workers + b := by
  have hsum := total_update_add share workers i w
  apply add_right_cancel (b := share (workers i))
  rw [add_right_comm, hsum, add_assoc, h, add_assoc, add_comm b]

end cancel

/-- Shares of at most `n` each. -/
theorem total_le {ι W : Type} [Fintype ι] {share : W → ℕ} {workers : ι → W} {n : ℕ}
    (h : ∀ i, share (workers i) ≤ n) : total share workers ≤ Fintype.card ι * n := by
  unfold total
  calc ∑ i, share (workers i) ≤ ∑ _i : ι, n := Finset.sum_le_sum fun i _ => h i
    _ = Fintype.card ι * n := by rw [Finset.sum_const, Finset.card_univ, Nat.nsmul_eq_mul]

end Workers
