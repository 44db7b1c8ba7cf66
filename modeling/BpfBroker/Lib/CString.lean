import Mathlib.Data.List.TakeWhile

/-! # C Strings

    The library functions on NUL-terminated strings that programs apply to
    received bytes. A pointer is the list of bytes from its target on; a
    list that ends stands for memory whose next byte is NUL. -/

namespace CString

/-- The NUL byte. -/
abbrev NUL : UInt8 := 0

/-- The bytes before the first NUL. -/
def text (s : List UInt8) : List UInt8 := s.takeWhile (· ≠ NUL)

/-- `strlen`: the number of bytes before the first NUL. -/
def strlen (s : List UInt8) : Nat := (text s).length

/-- `strnlen`: as `strlen`, looking at no more than `n` bytes. -/
def strnlen (s : List UInt8) (n : Nat) : Nat := strlen (s.take n)

/-- `strncpy`: copy at most `n` bytes of the string at `src` over `dst`,
    filling up with NUL when the string is shorter. -/
def strncpy (dst src : List UInt8) (n : Nat) : List UInt8 :=
  let copied := text (src.take n)
  copied ++ List.replicate (n - copied.length) NUL ++ dst.drop n

/-- `strncmp(a, b, n) == 0`: equal up to `n` bytes or the end of both. -/
def strncmpEq (a b : List UInt8) : Nat → Bool
  | 0 => true
  | n + 1 =>
    let x := a.headD NUL
    let y := b.headD NUL
    x == y && (x == NUL || strncmpEq a.tail b.tail n)

/-- Comparing against a word without NUL, over the word's length, is testing
    whether the string starts with it. -/
theorem strncmpEq_iff {a b : List UInt8} (hb : NUL ∉ b) :
    strncmpEq a b b.length = true ↔ b <+: a := by
  induction b generalizing a with
  | nil => simp [strncmpEq]
  | cons y b ih =>
    have hy : y ≠ NUL := fun h => hb (by simp [h])
    have hb' : NUL ∉ b := fun h => hb (by simp [h])
    cases a with
    | nil => simp [strncmpEq, hy.symm]
    | cons x a =>
      simp only [List.length_cons, strncmpEq, List.headD_cons, List.tail_cons, Bool.and_eq_true,
        beq_iff_eq, Bool.or_eq_true, List.cons_prefix_cons]
      constructor
      · rintro ⟨rfl, h⟩
        exact ⟨rfl, (ih hb').mp (h.resolve_left hy)⟩
      · rintro ⟨rfl, h⟩
        exact ⟨rfl, Or.inr ((ih hb').mpr h)⟩

theorem ne_nul_of_mem {s : List UInt8} (hs : NUL ∉ s) :
    ∀ a ∈ s, (decide (a ≠ NUL)) = true := by
  intro a ha
  rw [decide_eq_true_eq]
  rintro rfl
  exact hs ha

theorem text_append_nul {s t : List UInt8} (hs : NUL ∉ s) : text (s ++ NUL :: t) = s := by
  unfold text
  rw [List.takeWhile_append_of_pos (ne_nul_of_mem hs)]
  simp

theorem text_eq_self {s : List UInt8} (hs : NUL ∉ s) : text s = s := by
  unfold text
  rw [List.takeWhile_eq_self_iff]
  exact ne_nul_of_mem hs

/-- A string without NUL in its first bytes is at least that long. -/
theorem le_strlen {s t : List UInt8} (hs : NUL ∉ s) : s.length ≤ strlen (s ++ t) := by
  unfold strlen text
  rw [List.takeWhile_append_of_pos (ne_nul_of_mem hs),
    List.length_append]
  omega

end CString
