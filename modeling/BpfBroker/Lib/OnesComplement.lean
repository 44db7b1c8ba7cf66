import Mathlib.Data.ZMod.Basic

/-! # One's-Complement Sums

    The Internet checksum adds 16-bit words with end-around carry. On natural
    numbers a carry fold `s % 2^16 + s / 2^16` keeps the residue modulo
    `2^16 - 1`, and a non-zero sum below `2^32` lands in `1 .. 65535` after
    two folds. A checksum field, the complement of a folded non-zero sum, is
    therefore in `0 .. 65534`, where its residue determines it: two ways of
    computing a checksum agree as soon as they agree modulo 65535. -/

namespace OnesComplement

/-- One carry fold of a wide sum. -/
def fold (s : Nat) : Nat := s % 65536 + s / 65536

/-- The complement of the low 16 bits. -/
def compl16 (n : Nat) : Nat := 65535 - n % 65536

/-- The checksum field for a sum: fold twice and complement. -/
def finish (s : Nat) : Nat := compl16 (fold (fold s))

theorem cast_eq_iff {a b : Nat} : (a : ZMod 65535) = b ↔ a % 65535 = b % 65535 :=
  ZMod.natCast_eq_natCast_iff' a b 65535

theorem finish_le (s : Nat) : finish s < 65536 := by
  unfold finish compl16
  omega

theorem fold_mod (s : Nat) : fold s % 65535 = s % 65535 := by
  unfold fold
  omega

theorem fold_pos {s : Nat} (h : 0 < s) : 0 < fold s := by
  unfold fold
  omega

/-- Two folds absorb every carry of a 32-bit sum. -/
theorem fold_fold_le {s : Nat} (h : s < 4294967296) : fold (fold s) ≤ 65535 := by
  unfold fold
  omega

/-- A sum that verifies, that is folds to `0xFFFF`, is a multiple of 65535. -/
theorem cast_of_fold_fold {s : Nat} (h : fold (fold s) = 65535) : (s : ZMod 65535) = 0 := by
  have h1 := fold_mod (fold s)
  have h2 := fold_mod s
  rw [h] at h1
  have : (s : ZMod 65535) = ((0 : Nat) : ZMod 65535) := cast_eq_iff.mpr (by omega)
  rw [this, Nat.cast_zero]

/-- A non-zero sum verifies exactly when it is one. -/
theorem fold_fold_iff {s : Nat} (hpos : 0 < s) (hlt : s < 4294967296) :
    fold (fold s) = 65535 ↔ (s : ZMod 65535) = 0 := by
  refine ⟨cast_of_fold_fold, ?_⟩
  intro h
  have hmod := cast_eq_iff.mp (h.trans Nat.cast_zero.symm)
  have h1 := fold_mod (fold s)
  have h2 := fold_mod s
  have h3 := fold_fold_le hlt
  have h4 := fold_pos (fold_pos hpos)
  omega

/-- The checksum field never is `0xFFFF` when the sum is not zero. -/
theorem finish_lt {s : Nat} (hpos : 0 < s) (h : s < 4294967296) : finish s < 65535 := by
  have h1 := fold_fold_le h
  have h2 := fold_pos (fold_pos hpos)
  unfold finish compl16
  omega

/-- What cancels a sum is its negative. -/
theorem cast_eq_neg {a b : Nat} (h : (a + b) % 65535 = 0) : (a : ZMod 65535) = -b := by
  have hsum : ((a + b : Nat) : ZMod 65535) = ((0 : Nat) : ZMod 65535) := cast_eq_iff.mpr h
  rw [Nat.cast_add, Nat.cast_zero] at hsum
  exact eq_neg_of_add_eq_zero_left hsum

/-- The checksum field cancels the sum. -/
theorem cast_finish {s : Nat} (h : s < 4294967296) : (finish s : ZMod 65535) = -s := by
  have h1 := fold_fold_le h
  have h2 := fold_mod (fold s)
  have h3 := fold_mod s
  apply cast_eq_neg
  unfold finish compl16
  omega

/-- A checksum field below `0xFFFF` is determined by its residue. -/
theorem eq_of_cast_eq {a b : Nat} (ha : a < 65535) (hb : b < 65535)
    (h : (a : ZMod 65535) = b) : a = b := by
  have := cast_eq_iff.mp h
  omega

/-! ### End-around carry

    The textbook form of the sum: 16-bit words are added one by one, and a
    carry out of the top comes back in at the bottom. -/

/-- One's-complement addition of 16-bit words. -/
def ones_add (a b : Nat) : Nat := if 65536 ≤ a + b then a + b - 65535 else a + b

/-- The one's-complement sum of a list of words. -/
def ones_sum : List Nat → Nat
  | [] => 0
  | w :: ws => ones_add w (ones_sum ws)

theorem ones_sum_lt {ws : List Nat} (h : ∀ w ∈ ws, w < 65536) : ones_sum ws < 65536 := by
  induction ws with
  | nil => decide
  | cons w ws ih =>
    have hw := h w List.mem_cons_self
    have hws := ih fun w' hw' => h w' (List.mem_cons_of_mem _ hw')
    unfold ones_sum ones_add
    split <;> omega

/-- It is the sum modulo 65535. -/
theorem cast_ones_sum (ws : List Nat) : (ones_sum ws : ZMod 65535) = ws.sum := by
  induction ws with
  | nil => rfl
  | cons w ws ih =>
    have hadd : (ones_add w (ones_sum ws) : ZMod 65535) = w + ones_sum ws := by
      rw [← Nat.cast_add, cast_eq_iff]
      unfold ones_add
      split <;> omega
    rw [ones_sum, hadd, ih, List.sum_cons, Nat.cast_add]

/-- It is 0 only if every word is: a carry leaves at least 1. -/
theorem ones_sum_pos {ws : List Nat} {w : Nat} (hmem : w ∈ ws) (hw : 0 < w) :
    0 < ones_sum ws := by
  induction ws with
  | nil => cases hmem
  | cons v ws ih =>
    unfold ones_sum ones_add
    rcases List.mem_cons.mp hmem with rfl | hmem
    · split <;> omega
    · have := ih hmem
      split <;> omega

end OnesComplement
