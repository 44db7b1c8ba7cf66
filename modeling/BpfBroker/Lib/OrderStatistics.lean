import Mathlib.Data.List.Sort
import Mathlib.Order.Defs.LinearOrder

/-! # Order Statistics

    The `k`-th smallest element of a list, the smallest one being the 0-th. It
    is given here by counting, without an order of the list: at most `k`
    elements are smaller, and more than `k` are not greater. Sorting finds such
    a value at index `k`. -/

namespace OrderStatistics

variable {α : Type} [LinearOrder α] {l l' : List α} {k k' : Nat} {v v' : α}

/-- `v` is the `k`-th smallest element of `l`. -/
structure IsNth (l : List α) (k : Nat) (v : α) : Prop where
  below : l.countP (· < v) ≤ k
  reaches : k < l.countP (· ≤ v)

theorem IsNth.perm (h : IsNth l k v) (hperm : l.Perm l') : IsNth l' k v := by
  obtain ⟨hbelow, hreaches⟩ := h
  rw [hperm.countP_eq] at hbelow hreaches
  exact ⟨hbelow, hreaches⟩

/-- **Order**: a later element is not smaller. -/
theorem IsNth.mono (h : IsNth l k v) (h' : IsNth l k' v') (hk : k ≤ k') : v ≤ v' := by
  by_contra hlt
  rw [not_le] at hlt
  -- all that is at most `v'` is below `v`
  have hle : l.countP (· ≤ v') ≤ l.countP (· < v) := by
    apply List.countP_mono_left
    intro a _ ha
    rw [decide_eq_true_eq] at ha ⊢
    exact ha.trans_lt hlt
  have h1 := h.below
  have h2 := h'.reaches
  omega

theorem IsNth.mem (h : IsNth l k v) : v ∈ l := by
  by_contra hv
  have heq : l.countP (· ≤ v) = l.countP (· < v) := by
    apply List.countP_congr
    intro a ha
    have hne : a ≠ v := fun heq => hv (heq ▸ ha)
    rw [decide_eq_true_eq, decide_eq_true_eq]
    exact (lt_iff_le_and_ne.trans (and_iff_left hne)).symm
  have h1 := h.below
  have h2 := h.reaches
  omega

/-- **The smallest** element. -/
theorem IsNth.min_le (h : IsNth l 0 v) {a : α} (ha : a ∈ l) : v ≤ a := by
  have hzero : l.countP (· < v) = 0 := Nat.le_zero.mp h.below
  have hno := List.countP_eq_zero.mp hzero a ha
  rw [decide_eq_true_eq, not_lt] at hno
  exact hno

/-- **The greatest** element. -/
theorem IsNth.le_max (h : IsNth l (l.length - 1) v) {a : α} (ha : a ∈ l) : a ≤ v := by
  have hpos : 0 < l.length := List.length_pos_of_mem ha
  have hall : l.countP (· ≤ v) = l.length := by
    have h1 := h.reaches
    have h2 : l.countP (· ≤ v) ≤ l.length := List.countP_le_length
    omega
  have hle := List.countP_eq_length.mp hall a ha
  rwa [decide_eq_true_eq] at hle

/-- In a sorted list, it is at index `k`. -/
theorem isNth_getElem (hl : l.Pairwise (· ≤ ·)) (hk : k < l.length) : IsNth l k l[k] := by
  have hsplit : l = l.take k ++ l[k] :: l.drop (k + 1) := by
    rw [← List.drop_eq_getElem_cons hk, List.take_append_drop]
  have hpair := hl
  rw [hsplit, List.pairwise_append, List.pairwise_cons] at hpair
  obtain ⟨-, ⟨hafter, -⟩, hbefore⟩ := hpair
  have htake : (l.take k).length = k := List.length_take_of_le hk.le
  constructor
  · -- nothing from `k` on is smaller
    have hnone : (l[k] :: l.drop (k + 1)).countP (· < l[k]) = 0 := by
      rw [List.countP_eq_zero]
      intro a ha
      rw [decide_eq_true_eq, not_lt]
      rcases List.mem_cons.mp ha with rfl | ha
      · exact le_refl _
      · exact hafter a ha
    calc l.countP (· < l[k])
        = (l.take k).countP (· < l[k]) + (l[k] :: l.drop (k + 1)).countP (· < l[k]) := by
          rw [← List.countP_append, ← hsplit]
      _ = (l.take k).countP (· < l[k]) := by rw [hnone, Nat.add_zero]
      _ ≤ (l.take k).length := List.countP_le_length
      _ = k := htake
  · -- nothing up to `k` is greater
    have hall : (l.take k).countP (· ≤ l[k]) = (l.take k).length := by
      rw [List.countP_eq_length]
      intro a ha
      rw [decide_eq_true_eq]
      exact hbefore a ha l[k] List.mem_cons_self
    have hself : (l[k] :: l.drop (k + 1)).countP (· ≤ l[k]) =
        (l.drop (k + 1)).countP (· ≤ l[k]) + 1 :=
      List.countP_cons_of_pos (by rw [decide_eq_true_eq])
    have hcount : l.countP (· ≤ l[k]) =
        (l.take k).countP (· ≤ l[k]) + (l[k] :: l.drop (k + 1)).countP (· ≤ l[k]) := by
      rw [← List.countP_append, ← hsplit]
    omega

end OrderStatistics
