import BpfBroker.Checksum
import BpfBroker.Reference

/-! # Datagrams of Odd Length

    The odd branch of `compute_udp_checksum` means to pad the last byte. What
    it adds depends on where the loop stopped. If the frame ends with the
    datagram, the loop leaves the last byte over and the branch adds it as the
    high byte of a word, where a little-endian host has it as the low byte. If
    the frame goes on, the loop has already taken the last byte together with
    the first byte after the datagram, and the branch adds the second byte
    after it. -/

namespace BpfBroker

open Buffer OnesComplement

/-! ### Byte order -/

/-- Swapping the bytes of a word multiplies it by 256. -/
theorem cast_bswap16 {n : Nat} (h : n < 65536) : (bswap16 n : ZMod 65535) = 256 * n := by
  have heq : bswap16 n + 65535 * (n / 256) = 256 * n := by
    unfold bswap16
    omega
  have hcast : ((bswap16 n + 65535 * (n / 256) : Nat) : ZMod 65535) = ((256 * n : Nat) : ZMod 65535) :=
    congrArg _ heq
  have hzero : (65535 : ZMod 65535) = 0 := by decide
  push_cast at hcast
  rwa [hzero, zero_mul, add_zero] at hcast

theorem bswap16_lt_of_lt {n : Nat} (h : n < 65535) : bswap16 n < 65535 := by
  unfold bswap16
  omega

/-- 256 is its own inverse. -/
theorem cast_256_cancel {a b : ZMod 65535} (h : 256 * a = 256 * b) : a = b := by
  have hinv : (256 * 256 : ZMod 65535) = 1 := by decide
  calc a = 256 * 256 * a := by rw [hinv, one_mul]
    _ = 256 * 256 * b := by rw [mul_assoc, h, mul_assoc]
    _ = b := by rw [hinv, one_mul]

/-! ### The reference checksum -/

section reference
open Reference

theorem be_words_lt (bs : List UInt8) : ∀ w ∈ be_words bs, w < 65536 := by
  fun_induction be_words bs with
  | case1 => nofun
  | case2 a =>
    intro w hw
    rw [List.mem_singleton] at hw
    have := a.toNat_lt
    omega
  | case3 a b bs ih =>
    intro w hw
    rcases List.mem_cons.mp hw with rfl | hw
    · have ha := a.toNat_lt
      have hb := b.toNat_lt
      omega
    · exact ih w hw

/-- The words of a stretch of the frame: in network byte order they are worth
    256 times as much. -/
theorem cast_sum_be_words {f : Frame} {off n : Nat} (h : off + n ≤ f.length) :
    ((be_words (slice f off n)).sum : ZMod 65535) = 256 * octet_sum f off n := by
  fun_induction octet_sum f off n with
  | case1 off => simp [slice, be_words]
  | case2 off =>
    have h0 : off < f.length := by omega
    rw [slice_succ h0]
    simp only [slice, List.take_zero, be_words, List.sum_singleton]
    push_cast
    ring
  | case3 off n ih =>
    rw [slice_succ (by omega), slice_succ (by omega), be_words, List.sum_cons, Nat.cast_add, ih (by omega)]
    unfold rd16
    -- the low byte of a word moves to the high byte: a factor 256, its own inverse
    have hword : ((256 * 256 : Nat) : ZMod 65535) = ((1 : Nat) : ZMod 65535) :=
      cast_eq_iff.mpr (by decide)
    push_cast at hword ⊢
    linear_combination (-((rd8 f (off + 1)).toNat : ZMod 65535)) * hword

theorem be_words_append {as : List UInt8} (h : as.length % 2 = 0) (bs : List UInt8) :
    be_words (as ++ bs) = be_words as ++ be_words bs := by
  fun_induction be_words as with
  | case1 => rfl
  | case2 a => exact absurd h (Nat.one_ne_zero)
  | case3 a b as ih =>
    have hlen : as.length % 2 = 0 := by
      rw [List.length_cons, List.length_cons] at h
      omega
    show _ :: be_words (as ++ bs) = _
    rw [ih hlen]
    rfl

theorem pseudo_header_sum_eq (f : Frame) :
    pseudo_header_sum f = octet_sum f IP_SADDR 4 + octet_sum f IP_DADDR 4 + 4352 +
      octet_sum f UDP_LEN 2 := by
  have h1 := rd16_lt f IP_SADDR
  have h2 := rd16_lt f IP_DADDR
  have hproto : bswap16 IPPROTO_UDP = 4352 := rfl
  unfold pseudo_header_sum rd32
  rw [hproto]
  simp only [octet_sum]
  omega

variable {f : Frame} (hfits : UDP + udp_len f ≤ f.length) (hheader : 8 ≤ udp_len f)
include hfits hheader

/-- The words of the reference are those of the receiver's sum. -/
theorem cast_reference_sum :
    ((be_words (pseudo_header f ++ Reference.datagram f)).sum : ZMod 65535) = 256 * datagram_sum f := by
  have hlen : PAYLOAD ≤ f.length := by simp only [UDP, PAYLOAD] at *; omega
  have hfour : ∀ off, off + 4 ≤ PAYLOAD → (slice f off 4).length = 4 := fun off hoff =>
    length_slice (Nat.le_trans hoff hlen)
  have htwo : (slice f UDP_LEN 2).length = 2 := length_slice (Nat.le_trans (by simp) hlen)
  have hseventeen : (be_words [0, 17]).sum = 17 := rfl
  have hproto : (17 : ZMod 65535) = 256 * 4352 := by decide
  have hdatagram : Reference.datagram f = slice f UDP (udp_len f) := by
    unfold Reference.datagram udp_len
    rw [be16_eq]
  unfold datagram_sum
  rw [pseudo_header_sum_eq]
  unfold pseudo_header
  -- every field but the last has an even number of bytes
  simp only [List.append_assoc]
  rw [be_words_append (by rw [hfour _ (by simp)]), be_words_append (by rw [hfour _ (by simp)]),
    be_words_append (by decide), be_words_append (by rw [htwo]), hdatagram]
  simp only [List.sum_append, Nat.cast_add]
  rw [cast_sum_be_words (by simp only [PAYLOAD] at hlen; simp only [IP_SADDR]; omega),
    cast_sum_be_words (by simp only [PAYLOAD] at hlen; simp only [IP_DADDR]; omega),
    cast_sum_be_words (by simp only [PAYLOAD] at hlen; simp only [UDP_LEN]; omega),
    cast_sum_be_words hfits, hseventeen]
  push_cast
  rw [hproto]
  ring

/-- The reference checksum cancels that sum, in network byte order. -/
theorem cast_udp_checksum :
    udp_checksum f < 65535 ∧
      (udp_checksum f : ZMod 65535) = -(256 * datagram_sum (wr16 f UDP_CHECK 0)) := by
  have hlen : udp_len (wr16 f UDP_CHECK 0) = udp_len f := by
    unfold udp_len
    rw [rd16_wr16_out (by simp)]
  have hsum := cast_reference_sum (f := wr16 f UDP_CHECK 0)
    (by rw [hlen, length_wr16]; exact hfits) (by rw [hlen]; exact hheader)
  unfold udp_checksum
  generalize hg : wr16 f UDP_CHECK 0 = g at hsum ⊢
  -- the protocol number is one of the words, so the sum is not 0
  have hmem : (17 : Nat) ∈ be_words (pseudo_header g ++ Reference.datagram g) := by
    have hfour : ∀ off, off + 4 ≤ PAYLOAD → (slice g off 4).length = 4 := by
      intro off hoff
      apply length_slice
      rw [← hg, length_wr16]
      simp only [UDP, PAYLOAD] at hfits hoff
      omega
    unfold pseudo_header
    simp only [List.append_assoc]
    rw [be_words_append (by rw [hfour _ (by simp)]), be_words_append (by rw [hfour _ (by simp)])]
    apply List.mem_append_right
    apply List.mem_append_right
    exact List.mem_cons_self
  -- a sum that is not 0 has a complement below `0xFFFF`
  have hpos := ones_sum_pos hmem (by decide)
  have hlt := ones_sum_lt (be_words_lt (pseudo_header g ++ Reference.datagram g))
  dsimp only
  refine ⟨by omega, ?_⟩
  rw [cast_not16 hlt, cast_ones_sum, hsum]

end reference

/-! ### The odd branch -/

/-- The padding that `compute_udp_checksum` takes for a datagram of odd length
    is worth nothing: the last byte is 0 where the frame ends with the
    datagram, and where it goes on, the two bytes after the datagram are 0 (a
    frame that ends after one of them has no second one). -/
def ZeroPadded (f : Frame) : Prop :=
  if f.length = UDP + udp_len f then rd8 f (UDP + udp_len f - 1) = 0
  else rd8 f (UDP + udp_len f) = 0 ∧ rd8 f (UDP + udp_len f + 1) = 0

instance (f : Frame) : Decidable (ZeroPadded f) :=
  inferInstanceAs (Decidable (if f.length = UDP + udp_len f then _ else _))

theorem rd8_of_length_le {f : Frame} {i : Nat} (h : f.length ≤ i) : rd8 f i = 0 := by
  unfold rd8
  rw [List.getD_eq_getElem?_getD, List.getElem?_eq_none h]
  rfl

section odd
variable {f : Frame} {budget k : Nat} (hodd : udp_len f = 2 * k + 1) (hk : k + 1 ≤ budget)
  (hbudget : budget ≤ 1024)
include hodd hk hbudget

/-- The frame ends with the datagram: the last byte is added as a high byte. -/
theorem compute_udp_checksum_odd_end (hend : f.length = UDP + udp_len f) :
    compute_udp_checksum budget f =
      finish (pseudo_header_sum f + word_sum f UDP k + (rd8 f (UDP + 2 * k)).toNat * 256) := by
  have htaken : words_taken f (udp_len f) budget 0 = k := by
    unfold words_taken
    omega
  rw [compute_udp_checksum_eq hbudget htaken]
  unfold odd_part
  rw [if_pos (by omega)]

/-- The frame goes on: the two bytes after the datagram are added as high
    bytes. -/
theorem compute_udp_checksum_odd_trailer (hmore : UDP + udp_len f < f.length) :
    compute_udp_checksum budget f =
      finish (datagram_sum f + ((rd8 f (UDP + udp_len f)).toNat +
        (rd8 f (UDP + udp_len f + 1)).toNat) * 256) := by
  -- the last byte pairs with the first byte after the datagram
  have htaken : words_taken f (udp_len f) budget 0 = k + 1 := by
    unfold words_taken
    omega
  have hpart : odd_part f (k + 1) = (rd8 f (UDP + udp_len f + 1)).toNat * 256 := by
    have hoff : UDP + udp_len f + 1 = UDP + 2 * (k + 1) := by omega
    unfold odd_part
    rw [hoff]
    -- past the end of the frame there is nothing to add
    split
    · rfl
    · next hnone => rw [rd8_of_length_le (by omega)]; rfl
  have hword : word_sum f UDP (k + 1) = octet_sum f UDP (udp_len f) +
      (rd8 f (UDP + udp_len f)).toNat * 256 := by
    have hoff : UDP + udp_len f = UDP + 2 * k + 1 := by omega
    rw [word_sum_add, hoff, hodd, octet_sum_odd]
    simp only [word_sum, rd16]
    omega
  rw [compute_udp_checksum_eq hbudget htaken, hpart, hword]
  unfold datagram_sum
  congr 1
  omega

end odd

/-- A computed field is the reference checksum, in network byte order, as soon
    as the sums agree modulo 65535. -/
theorem finish_eq_reference_iff {f : Frame} (hfits : UDP + udp_len f ≤ f.length)
    (hheader : 8 ≤ udp_len f) (sum : Nat) (hpos : 0 < sum) (hlt : sum < 4294967296) :
    bswap16 (finish sum) = Reference.udp_checksum f ↔
      sum % 65535 = datagram_sum (wr16 f UDP_CHECK 0) % 65535 := by
  obtain ⟨href, hcast⟩ := cast_udp_checksum hfits hheader
  have hswap : (bswap16 (finish sum) : ZMod 65535) = -(256 * sum) := by
    rw [cast_bswap16 (finish_le sum), cast_finish hlt]
    ring
  rw [← cast_eq_iff]
  refine ⟨?_, ?_⟩
  · intro heq
    rw [← heq, hswap] at hcast
    exact cast_256_cancel (neg_inj.mp hcast)
  · intro heq
    apply eq_of_cast_eq (bswap16_lt_of_lt (finish_lt hpos hlt)) href
    rw [hswap, hcast, heq]

/-- **When an odd datagram is checksummed correctly**: with the field cleared,
    both versions of `compute_udp_checksum` return the reference checksum of a
    datagram of odd length exactly when the bytes they take for padding are
    worth nothing. -/
theorem odd_checksum_iff {budget : Nat} (hbudget : budget = 128 ∨ budget = 1024) {f : Frame}
    (hodd : udp_len f % 2 = 1) (hheader : 8 ≤ udp_len f) (hbound : udp_len f ≤ 2 * budget)
    (hfits : UDP + udp_len f ≤ f.length) :
    bswap16 (compute_udp_checksum budget (wr16 f UDP_CHECK 0)) = Reference.udp_checksum f ↔
      ZeroPadded f := by
  obtain ⟨k, hk⟩ : ∃ k, udp_len f = 2 * k + 1 := ⟨udp_len f / 2, by omega⟩
  have hiff := finish_eq_reference_iff hfits hheader
  have hlen : udp_len (wr16 f UDP_CHECK 0) = udp_len f := by
    unfold udp_len
    rw [rd16_wr16_out (by simp)]
  -- clearing the field changes neither the length nor the bytes the condition reads
  have hrd : ∀ i, PAYLOAD ≤ i → rd8 (wr16 f UDP_CHECK 0) i = rd8 f i := by
    intro i hi
    exact rd8_wr16_out (Or.inr hi)
  have hlength : (wr16 f UDP_CHECK 0).length = f.length := length_wr16 _ _ _
  unfold ZeroPadded
  rw [← hrd (UDP + udp_len f - 1) (by simp only [UDP, PAYLOAD]; omega),
    ← hrd (UDP + udp_len f) (by simp only [UDP, PAYLOAD]; omega),
    ← hrd (UDP + udp_len f + 1) (by simp only [UDP, PAYLOAD]; omega), ← hlen, ← hlength]
  rw [← hlen] at hk hbound
  rw [← hlen, ← hlength] at hfits
  generalize wr16 f UDP_CHECK 0 = g at hiff hk hbound hfits ⊢
  have hsum := datagram_sum_bounds g
  have hpseudo := pseudo_header_sum_bounds g
  by_cases hend : g.length = UDP + udp_len g
  · -- the last byte `b` counts as `256 * b`
    have hword := word_sum_le g UDP k
    have hbyte : (rd8 g (UDP + 2 * k)).toNat < 256 := UInt8.toNat_lt _
    have hlast : UDP + udp_len g - 1 = UDP + 2 * k := by omega
    have hdatagram : datagram_sum g =
        pseudo_header_sum g + word_sum g UDP k + (rd8 g (UDP + 2 * k)).toNat := by
      unfold datagram_sum
      rw [hk, octet_sum_odd]
      omega
    rw [if_pos hend, compute_udp_checksum_odd_end hk (by omega) (by omega) hend,
      hiff _ (by omega) (by omega), hlast, hdatagram, ← UInt8.toNat_inj]
    show _ ↔ _ = 0
    omega
  · -- the bytes `b` and `c` after the datagram count as `256 * (b + c)`
    have hb : (rd8 g (UDP + udp_len g)).toNat < 256 := UInt8.toNat_lt _
    have hc : (rd8 g (UDP + udp_len g + 1)).toNat < 256 := UInt8.toNat_lt _
    have hle := octet_sum_le g UDP (udp_len g)
    have hsmall : datagram_sum g < 100000000 := by
      unfold datagram_sum
      omega
    rw [if_neg hend, compute_udp_checksum_odd_trailer hk (by omega) (by omega) (by omega),
      hiff _ (by omega) (by omega), ← UInt8.toNat_inj, ← UInt8.toNat_inj]
    show _ ↔ _ = 0 ∧ _ = 0
    omega

/-- The message `hi!` on topic `a`, in a frame that ends with the datagram:
    the UDP length is 21. -/
def odd_frame : Frame :=
  [2, 0, 0, 0, 0, 1, 2, 0, 0, 0, 0, 2, 8, 0,
   69, 0, 0, 41, 0, 1, 0, 0, 64, 17, 102, 188, 10, 0, 0, 7, 10, 0, 0, 1,
   19, 136, 192, 0, 0, 21, 0, 0] ++ (PUBLISH ++ ([97] ++ SP :: [104, 105, 33]))

theorem odd_checksum_iff_sample :
    ¬ bswap16 (compute_udp_checksum 128 (wr16 odd_frame UDP_CHECK 0)) =
      Reference.udp_checksum odd_frame := by
  rw [odd_checksum_iff (Or.inl rfl) (by decide) (by decide) (by decide) (by decide)]
  decide

/-- Both versions return another value for it. -/
theorem odd_message_corrupted :
    udp_len odd_frame = 21 ∧ odd_frame.length = UDP + udp_len odd_frame ∧
      bswap16 (compute_udp_checksum 128 (wr16 odd_frame UDP_CHECK 0)) ≠
        Reference.udp_checksum odd_frame ∧
      bswap16 (compute_udp_checksum 1024 (wr16 odd_frame UDP_CHECK 0)) ≠
        Reference.udp_checksum odd_frame := by
  decide +kernel

end BpfBroker
