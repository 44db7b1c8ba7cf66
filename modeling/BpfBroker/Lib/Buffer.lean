import Mathlib.Data.List.Basic

/-! # Byte Buffers

    A buffer is a list of bytes addressed from its start. Words are read and
    written in little-endian order, as a little-endian machine loads and
    stores them. Reads past the end give zero and writes past the end do
    nothing, so every operation is total; the programs that use a buffer
    check their bounds first. -/

namespace Buffer

/-! ### Reading -/

/-- The byte at offset `i`. -/
def rd8 (b : List UInt8) (i : Nat) : UInt8 := b.getD i 0

/-- The 16-bit word at offset `i`. -/
def rd16 (b : List UInt8) (i : Nat) : Nat := (rd8 b i).toNat + 256 * (rd8 b (i + 1)).toNat

/-- The 32-bit word at offset `i`. -/
def rd32 (b : List UInt8) (i : Nat) : Nat := rd16 b i + 65536 * rd16 b (i + 2)

/-- The `n` bytes from offset `off` on. -/
def slice (b : List UInt8) (off n : Nat) : List UInt8 := (b.drop off).take n

/-! ### Writing -/

/-- Overwrite the bytes from offset `off` on with `bs`. -/
def wr : List UInt8 → Nat → List UInt8 → List UInt8
  | [], _, _ => []
  | b, _, [] => b
  | _ :: b, 0, y :: bs => y :: wr b 0 bs
  | x :: b, off + 1, bs => x :: wr b off bs

/-- The two bytes of a 16-bit word. -/
def le16 (n : Nat) : List UInt8 := [UInt8.ofNat n, UInt8.ofNat (n / 256)]

/-- The four bytes of a 32-bit word. -/
def le32 (n : Nat) : List UInt8 := le16 n ++ le16 (n / 65536)

/-- Store a 16-bit word. -/
def wr16 (b : List UInt8) (off n : Nat) : List UInt8 := wr b off (le16 n)

/-- Store a 32-bit word. -/
def wr32 (b : List UInt8) (off n : Nat) : List UInt8 := wr b off (le32 n)

/-! ### Ranges and extensionality -/

theorem rd16_lt (b : List UInt8) (i : Nat) : rd16 b i < 65536 := by
  have h0 := (rd8 b i).toNat_lt
  have h1 := (rd8 b (i + 1)).toNat_lt
  unfold rd16
  omega

theorem rd32_lt (b : List UInt8) (i : Nat) : rd32 b i < 4294967296 := by
  have h0 := rd16_lt b i
  have h1 := rd16_lt b (i + 2)
  unfold rd32
  omega

/-- Two buffers of one length with the same bytes are equal. -/
theorem ext_rd8 {a b : List UInt8} (hlen : a.length = b.length)
    (h : ∀ i, i < a.length → rd8 a i = rd8 b i) : a = b := by
  refine List.ext_getElem hlen ?_
  intro i h1 h2
  have := h i h1
  unfold rd8 at this
  simpa [List.getD_eq_getElem?_getD, h1, h2] using this

/-- A word determines its bytes. -/
theorem rd8_of_rd16 {a b : List UInt8} {i : Nat} (h : rd16 a i = rd16 b i) :
    rd8 a i = rd8 b i ∧ rd8 a (i + 1) = rd8 b (i + 1) := by
  have h0 := (rd8 a i).toNat_lt
  have h1 := (rd8 b i).toNat_lt
  unfold rd16 at h
  exact ⟨UInt8.toNat_inj.mp (by omega), UInt8.toNat_inj.mp (by omega)⟩

theorem rd16_of_rd32 {a b : List UInt8} {i : Nat} (h : rd32 a i = rd32 b i) :
    rd16 a i = rd16 b i ∧ rd16 a (i + 2) = rd16 b (i + 2) := by
  have h0 := rd16_lt a i
  have h1 := rd16_lt b i
  unfold rd32 at h
  exact ⟨by omega, by omega⟩

theorem rd8_drop (b : List UInt8) (off i : Nat) : rd8 (b.drop off) i = rd8 b (off + i) := by
  unfold rd8
  simp only [List.getD_eq_getElem?_getD, List.getElem?_drop]

theorem rd8_slice {b : List UInt8} {off n i : Nat} (hi : i < n) :
    rd8 (slice b off n) i = rd8 b (off + i) := by
  unfold rd8 slice
  simp only [List.getD_eq_getElem?_getD]
  rw [List.getElem?_take_of_lt hi, List.getElem?_drop]

theorem slice_succ {b : List UInt8} {off : Nat} (h : off < b.length) (n : Nat) :
    slice b off (n + 1) = rd8 b off :: slice b (off + 1) n := by
  unfold slice rd8
  rw [List.drop_eq_getElem_cons h, List.take_succ_cons, List.getD_eq_getElem?_getD,
    List.getElem?_eq_getElem h]
  rfl

theorem length_slice {b : List UInt8} {off n : Nat} (h : off + n ≤ b.length) :
    (slice b off n).length = n := by
  unfold slice
  rw [List.length_take, List.length_drop]
  omega

/-! ### Reading what was written -/

@[simp] theorem length_wr (b : List UInt8) (off : Nat) (bs : List UInt8) :
    (wr b off bs).length = b.length := by
  fun_induction wr b off bs with
  | case1 => rfl
  | case2 => rfl
  | case3 x b y bs ih => rw [List.length_cons, List.length_cons, ih]
  | case4 x b off bs hne ih => rw [List.length_cons, List.length_cons, ih]

@[simp] theorem length_wr16 (b : List UInt8) (off n : Nat) :
    (wr16 b off n).length = b.length := length_wr _ _ _

@[simp] theorem length_wr32 (b : List UInt8) (off n : Nat) :
    (wr32 b off n).length = b.length := length_wr _ _ _

theorem rd8_wr (b : List UInt8) (off : Nat) (bs : List UInt8) (i : Nat) :
    rd8 (wr b off bs) i =
      if off ≤ i ∧ i < off + bs.length ∧ i < b.length then rd8 bs (i - off) else rd8 b i := by
  fun_induction wr b off bs generalizing i with
  | case1 => simp
  | case2 b off hne =>
    rw [if_neg]
    simp only [List.length_nil]
    omega
  | case3 x b y bs ih =>
    cases i with
    | zero => simp [rd8]
    | succ i =>
      have := ih i
      simp only [rd8, List.getD_cons_succ] at this ⊢
      rw [this]
      simp
  | case4 x b off bs hne ih =>
    cases i with
    | zero => simp [rd8]
    | succ i =>
      have := ih i
      simp only [rd8, List.getD_cons_succ] at this ⊢
      rw [this, Nat.add_sub_add_right]
      congr 1
      simp only [List.length_cons, eq_iff_iff]
      omega

theorem rd8_wr_out {b : List UInt8} {off : Nat} {bs : List UInt8} {i : Nat}
    (h : i < off ∨ off + bs.length ≤ i) : rd8 (wr b off bs) i = rd8 b i := by
  rw [rd8_wr, if_neg]
  omega

theorem rd8_wr_in {b : List UInt8} {off : Nat} {bs : List UInt8} {i : Nat}
    (hlo : off ≤ i) (hhi : i < off + bs.length) (hb : i < b.length) :
    rd8 (wr b off bs) i = rd8 bs (i - off) := by
  rw [rd8_wr, if_pos ⟨hlo, hhi, hb⟩]

section disjoint
variable {b : List UInt8} {i off n : Nat}

theorem rd8_wr16_out (h : i < off ∨ off + 2 ≤ i) : rd8 (wr16 b off n) i = rd8 b i :=
  rd8_wr_out h

theorem rd8_wr32_out (h : i < off ∨ off + 4 ≤ i) : rd8 (wr32 b off n) i = rd8 b i :=
  rd8_wr_out h

theorem rd16_wr16_out (h : i + 2 ≤ off ∨ off + 2 ≤ i) :
    rd16 (wr16 b off n) i = rd16 b i := by
  unfold rd16
  rw [rd8_wr16_out (by omega), rd8_wr16_out (by omega)]

theorem rd16_wr32_out (h : i + 2 ≤ off ∨ off + 4 ≤ i) :
    rd16 (wr32 b off n) i = rd16 b i := by
  unfold rd16
  rw [rd8_wr32_out (by omega), rd8_wr32_out (by omega)]

theorem rd32_wr16_out (h : i + 4 ≤ off ∨ off + 2 ≤ i) :
    rd32 (wr16 b off n) i = rd32 b i := by
  unfold rd32
  rw [rd16_wr16_out (by omega), rd16_wr16_out (by omega)]

theorem rd32_wr32_out (h : i + 4 ≤ off ∨ off + 4 ≤ i) :
    rd32 (wr32 b off n) i = rd32 b i := by
  unfold rd32
  rw [rd16_wr32_out (by omega), rd16_wr32_out (by omega)]

theorem rd16_wr16_in (h : off + 2 ≤ b.length) : rd16 (wr16 b off n) off = n % 65536 := by
  have h0 : rd8 (wr16 b off n) off = UInt8.ofNat n := by
    unfold wr16
    rw [rd8_wr_in (by omega) (by simp [le16]) (by omega), Nat.sub_self]
    rfl
  have h1 : rd8 (wr16 b off n) (off + 1) = UInt8.ofNat (n / 256) := by
    unfold wr16
    rw [rd8_wr_in (by omega) (by simp [le16]) (by omega), Nat.add_sub_cancel_left]
    rfl
  unfold rd16
  rw [h0, h1, UInt8.toNat_ofNat', UInt8.toNat_ofNat']
  omega

end disjoint

/-- A 32-bit store is two 16-bit stores. -/
theorem wr32_eq (b : List UInt8) (off n : Nat) :
    wr32 b off n = wr16 (wr16 b off n) (off + 2) (n / 65536) := by
  apply ext_rd8
  · simp
  · intro i hi
    rw [length_wr32] at hi
    unfold wr32 wr16
    by_cases h0 : i < off
    · rw [rd8_wr_out (by omega), rd8_wr_out (by omega), rd8_wr_out (by omega)]
    · have hlen : (le32 n).length = 4 := rfl
      have hlo : (le16 n).length = 2 := rfl
      have hhi : (le16 (n / 65536)).length = 2 := rfl
      rcases Nat.lt_or_ge i (off + 2) with h1 | h1
      · rw [rd8_wr_in (by omega) (by omega) hi, rd8_wr_out (by omega),
          rd8_wr_in (by omega) (by omega) hi]
        obtain ⟨j, rfl⟩ := Nat.exists_eq_add_of_le (Nat.not_lt.mp h0)
        rw [Nat.add_sub_cancel_left]
        rcases (show j = 0 ∨ j = 1 by omega) with rfl | rfl <;> rfl
      · rcases Nat.lt_or_ge i (off + 4) with h2 | h2
        · rw [rd8_wr_in (by omega) (by omega) hi,
            rd8_wr_in (by omega) (by omega) (by rw [length_wr]; exact hi)]
          obtain ⟨j, rfl⟩ := Nat.exists_eq_add_of_le h1
          rw [Nat.add_sub_cancel_left, show off + 2 + j - off = 2 + j by omega]
          rcases (show j = 0 ∨ j = 1 by omega) with rfl | rfl <;> rfl
        · rw [rd8_wr_out (by omega), rd8_wr_out (by omega), rd8_wr_out (by omega)]

theorem rd32_wr32_in {b : List UInt8} {off n : Nat} (h : off + 4 ≤ b.length) :
    rd32 (wr32 b off n) off = n % 4294967296 := by
  unfold rd32
  rw [wr32_eq, rd16_wr16_out (by omega), rd16_wr16_in (by omega),
    rd16_wr16_in (by rw [length_wr16]; omega)]
  omega

/-- The word stored at the start of its own bytes. -/
theorem rd32_le32 (n : Nat) : rd32 (le32 n) 0 = n % 4294967296 := by
  show rd32 (wr32 [0, 0, 0, 0] 0 n) 0 = _
  exact rd32_wr32_in (Nat.le_refl 4)

/-! ### Bytes behind the buffer -/

section append
variable {b : List UInt8} (x : List UInt8)

theorem rd8_append {i : Nat} (h : i < b.length) : rd8 (b ++ x) i = rd8 b i := by
  unfold rd8
  simp only [List.getD_eq_getElem?_getD]
  rw [List.getElem?_append_left h]

theorem rd16_append {i : Nat} (h : i + 2 ≤ b.length) : rd16 (b ++ x) i = rd16 b i := by
  unfold rd16
  rw [rd8_append x (by omega), rd8_append x (by omega)]

theorem rd32_append {i : Nat} (h : i + 4 ≤ b.length) : rd32 (b ++ x) i = rd32 b i := by
  unfold rd32
  rw [rd16_append x (by omega), rd16_append x (by omega)]

theorem slice_append {off n : Nat} (h : off + n ≤ b.length) :
    slice (b ++ x) off n = slice b off n := by
  unfold slice
  rw [List.drop_append_of_le_length (by omega),
    List.take_append_of_le_length (by rw [List.length_drop]; omega)]

/-- A write that ends inside the buffer does not see what follows it. -/
theorem wr_append {off : Nat} {bs : List UInt8} (h : off + bs.length ≤ b.length) :
    wr (b ++ x) off bs = wr b off bs ++ x := by
  induction b generalizing off bs with
  | nil =>
    have hoff : off = 0 := by rw [List.length_nil] at h; omega
    have hbs : bs = [] := List.length_eq_zero_iff.mp (by rw [List.length_nil] at h; omega)
    subst hoff hbs
    cases x <;> rfl
  | cons c b ih =>
    rw [List.length_cons] at h
    cases off with
    | zero =>
      cases bs with
      | nil => cases x <;> rfl
      | cons e bs =>
        rw [List.length_cons] at h
        show e :: wr (b ++ x) 0 bs = _
        rw [ih (by omega)]
        rfl
    | succ off =>
      cases bs with
      | nil => cases x <;> rfl
      | cons e bs =>
        show c :: wr (b ++ x) off (e :: bs) = _
        rw [ih (by omega)]
        rfl

theorem wr16_append {off n : Nat} (h : off + 2 ≤ b.length) :
    wr16 (b ++ x) off n = wr16 b off n ++ x := wr_append x h

theorem wr32_append {off n : Nat} (h : off + 4 ≤ b.length) :
    wr32 (b ++ x) off n = wr32 b off n ++ x := wr_append x h

end append

end Buffer
