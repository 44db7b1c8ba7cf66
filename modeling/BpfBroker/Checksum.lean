import Mathlib.Tactic.LinearCombination
import Mathlib.Tactic.Ring
import BpfBroker.Publish

/-! # Checksums

    The loops of `compute_ip_checksum` and `compute_udp_checksum` as sums of
    words, the sums a receiver verifies, and what a full recomputation and an
    incremental update do to them modulo 65535. -/

namespace BpfBroker

open Buffer OnesComplement

/-! ### Sums of words and octets -/

/-- The sum of `n` consecutive 16-bit words. -/
def word_sum (f : Frame) : (off n : Nat) → Nat
  | _, 0 => 0
  | off, n + 1 => rd16 f off + word_sum f (off + 2) n

theorem word_sum_le (f : Frame) (off n : Nat) : word_sum f off n ≤ n * 65535 := by
  induction n generalizing off with
  | zero => exact Nat.zero_le _
  | succ n ih =>
    have h1 := rd16_lt f off
    have h2 := ih (off + 2)
    unfold word_sum
    omega

theorem word_sum_congr {f g : Frame} {off n : Nat}
    (h : ∀ i, off ≤ i → rd8 g i = rd8 f i) : word_sum g off n = word_sum f off n := by
  induction n generalizing off with
  | zero => rfl
  | succ n ih =>
    unfold word_sum
    rw [ih (fun i hi => h i (by omega))]
    congr 1
    unfold rd16
    rw [h off (Nat.le_refl _), h (off + 1) (by omega)]

theorem word_sum_add (f : Frame) (off m n : Nat) :
    word_sum f off (m + n) = word_sum f off m + word_sum f (off + 2 * m) n := by
  induction m generalizing off with
  | zero => rw [Nat.zero_add, Nat.mul_zero, Nat.add_zero, word_sum, Nat.zero_add]
  | succ m ih =>
    have hoff : off + 2 * (m + 1) = off + 2 + 2 * m := by omega
    rw [Nat.add_right_comm, word_sum, ih, hoff, word_sum]
    exact (Nat.add_assoc _ _ _).symm

/-- The sum of `n` consecutive bytes taken as 16-bit words. A byte left over
    is the first byte of a word whose second byte is 0. -/
def octet_sum (f : Frame) : (off n : Nat) → Nat
  | _, 0 => 0
  | off, 1 => (rd8 f off).toNat
  | off, n + 2 => rd16 f off + octet_sum f (off + 2) n

theorem octet_sum_even (f : Frame) (off n : Nat) : octet_sum f off (2 * n) = word_sum f off n := by
  induction n generalizing off with
  | zero => rfl
  | succ n ih =>
    show rd16 f off + octet_sum f (off + 2) (2 * n) = _
    rw [ih]
    rfl

theorem octet_sum_odd (f : Frame) (off n : Nat) :
    octet_sum f off (2 * n + 1) = word_sum f off n + (rd8 f (off + 2 * n)).toNat := by
  induction n generalizing off with
  | zero => exact (Nat.zero_add _).symm
  | succ n ih =>
    have hoff : off + 2 * (n + 1) = off + 2 + 2 * n := by omega
    show rd16 f off + octet_sum f (off + 2) (2 * n + 1) = _
    rw [ih, hoff, word_sum]
    exact (Nat.add_assoc _ _ _).symm

theorem octet_sum_le (f : Frame) (off n : Nat) : octet_sum f off n ≤ (n + 1) / 2 * 65535 := by
  rcases Nat.even_or_odd' n with ⟨k, rfl | rfl⟩
  · have hhalf : (2 * k + 1) / 2 = k := by omega
    rw [octet_sum_even, hhalf]
    exact word_sum_le f off k
  · have hle := word_sum_le f off k
    have hlast : (rd8 f (off + 2 * k)).toNat < 256 := UInt8.toNat_lt _
    have hhalf : (2 * k + 1 + 1) / 2 = k + 1 := by omega
    rw [octet_sum_odd, hhalf, Nat.add_mul]
    omega

theorem octet_sum_congr {f g : Frame} {off n : Nat} (h : ∀ i, off ≤ i → rd8 g i = rd8 f i) :
    octet_sum g off n = octet_sum f off n := by
  rcases Nat.even_or_odd' n with ⟨k, rfl | rfl⟩
  · rw [octet_sum_even, octet_sum_even, word_sum_congr h]
  · rw [octet_sum_odd, octet_sum_odd, word_sum_congr h, h _ (Nat.le_add_right _ _)]

/-! ### The sum of a datagram -/

/-- The UDP length field. -/
def udp_len (f : Frame) : Nat := bswap16 (rd16 f UDP_LEN)

/-- The sum that a receiver folds and compares with `0xFFFF`: the
    pseudo-header and the datagram, whose last byte is padded when its length
    is odd. -/
def datagram_sum (f : Frame) : Nat := pseudo_header_sum f + octet_sum f UDP (udp_len f)

theorem udp_len_lt (f : Frame) : udp_len f < 65536 := by
  unfold udp_len bswap16
  omega

theorem pseudo_header_sum_bounds (f : Frame) :
    0 < pseudo_header_sum f ∧ pseudo_header_sum f < 1000000 := by
  have h1 := rd32_lt f IP_SADDR
  have h2 := rd32_lt f IP_DADDR
  have h3 := rd16_lt f UDP_LEN
  have hproto : bswap16 IPPROTO_UDP = 4352 := rfl
  unfold pseudo_header_sum
  rw [hproto]
  omega

theorem datagram_sum_bounds (f : Frame) : 0 < datagram_sum f ∧ datagram_sum f < 4294967296 := by
  obtain ⟨hpos, hpseudo⟩ := pseudo_header_sum_bounds f
  have hlen := udp_len_lt f
  have hle := octet_sum_le f UDP (udp_len f)
  unfold datagram_sum
  omega

/-! ### Verification -/

/-- What a receiver checks: the header sum and the datagram sum fold to
    `0xFFFF`. -/
structure Verifies (f : Frame) : Prop where
  ip : fold (fold (word_sum f IP 10)) = 65535
  udp : fold (fold (datagram_sum f)) = 65535

/-- The header of a UDP frame does not sum up to 0: its protocol field is not
    zero. -/
theorem header_sum_bounds {f : Frame} (h : (rd8 f IP_PROTOCOL).toNat = IPPROTO_UDP) :
    0 < word_sum f IP 10 ∧ word_sum f IP 10 < 4294967296 := by
  -- the word of the TTL and the protocol
  have hw : 0 < rd16 f 22 := by
    have h' : (rd8 f (22 + 1)).toNat = 17 := h
    unfold rd16
    rw [h']
    omega
  have hle := word_sum_le f IP 10
  refine ⟨?_, by omega⟩
  simp only [word_sum, IP, Nat.reduceAdd]
  omega

/-- Both sums are multiples of 65535. -/
theorem verifies_iff {f : Frame} (h : (rd8 f IP_PROTOCOL).toNat = IPPROTO_UDP) :
    Verifies f ↔ (word_sum f IP 10 : ZMod 65535) = 0 ∧ (datagram_sum f : ZMod 65535) = 0 := by
  obtain ⟨hpos, hlt⟩ := header_sum_bounds h
  obtain ⟨hpos', hlt'⟩ := datagram_sum_bounds f
  rw [← fold_fold_iff hpos hlt, ← fold_fold_iff hpos' hlt']
  exact ⟨fun hv => ⟨hv.ip, hv.udp⟩, fun hv => ⟨hv.1, hv.2⟩⟩

/-! ### The loops -/

/-- The loop of `compute_ip_checksum`. -/
theorem ip_word_loop_eq (f : Frame) (n i csum : Nat)
    (h : csum + word_sum f (IP + 2 * i) n < 4294967296) :
    ip_word_loop f n i csum = csum + word_sum f (IP + 2 * i) n := by
  induction n generalizing i csum with
  | zero => rfl
  | succ n ih =>
    have hoff : IP + 2 * (i + 1) = IP + 2 * i + 2 := by omega
    unfold word_sum at h ⊢
    unfold ip_word_loop
    rw [Nat.mod_eq_of_lt (by omega), ih (i + 1) _ (by rw [hoff]; omega), hoff]
    omega

/-- The accumulator of `compute_ip_checksum` after `n` words. -/
theorem ip_accumulator_exact (g : Frame) {n : Nat} (hn : n ≤ 10) :
    ip_word_loop g n 0 0 = word_sum g IP n ∧ word_sum g IP n < 4294967296 := by
  have hle := word_sum_le g IP n
  have hlt : word_sum g IP n < 4294967296 := by omega
  refine ⟨?_, hlt⟩
  rw [ip_word_loop_eq g n 0 0 (by rw [Nat.mul_zero, Nat.add_zero, Nat.zero_add]; exact hlt),
    Nat.mul_zero, Nat.add_zero, Nat.zero_add]

theorem compute_ip_checksum_eq (g : Frame) : compute_ip_checksum g = finish (word_sum g IP 10) := by
  unfold compute_ip_checksum
  rw [(ip_accumulator_exact g (Nat.le_refl 10)).1]

/-- The words the loop of `compute_udp_checksum` takes from word `i` on: it
    stops at its budget, at the end of the frame, or at the UDP length. -/
def words_taken (f : Frame) (udp_len n i : Nat) : Nat :=
  min n (min ((f.length - UDP) / 2) ((udp_len + 1) / 2) - i)

/-- The loop of `compute_udp_checksum`. -/
theorem udp_word_loop_eq (f : Frame) (udp_len n i csum : Nat) (h : csum + n * 65535 < 4294967296) :
    udp_word_loop f udp_len n i csum =
      (csum + word_sum f (UDP + 2 * i) (words_taken f udp_len n i),
        i + words_taken f udp_len n i) := by
  induction n generalizing i csum with
  | zero =>
    have hzero : words_taken f udp_len 0 i = 0 := Nat.zero_min _
    rw [hzero]
    rfl
  | succ n ih =>
    unfold udp_word_loop
    -- the two tests at the head of the loop
    by_cases hstop : (f.length < UDP + 2 * i + 2 || udp_len ≤ 2 * i) = true
    · have hzero : words_taken f udp_len (n + 1) i = 0 := by
        simp only [Bool.or_eq_true, decide_eq_true_eq] at hstop
        unfold words_taken
        omega
      rw [if_pos hstop, hzero]
      rfl
    · have hnext : words_taken f udp_len (n + 1) i = words_taken f udp_len n (i + 1) + 1 := by
        simp only [Bool.or_eq_true, decide_eq_true_eq] at hstop
        unfold words_taken
        omega
      have hoff : UDP + 2 * (i + 1) = UDP + 2 * i + 2 := by omega
      have hword := rd16_lt f (UDP + 2 * i)
      rw [if_neg hstop, Nat.mod_eq_of_lt (by omega), ih (i + 1) _ (by omega), hnext, hoff,
        word_sum]
      congr 1 <;> omega

/-- What the odd-length branch adds when the loop took `k` words. -/
def odd_part (f : Frame) (k : Nat) : Nat :=
  if udp_len f % 2 = 1 ∧ UDP + 2 * k < f.length then (rd8 f (UDP + 2 * k)).toNat * 256 else 0

/-- `compute_udp_checksum` is the complement of the words its loop takes and
    of the odd byte: the accumulator does not wrap. -/
theorem compute_udp_checksum_eq {budget : Nat} (hbudget : budget ≤ 1024) {f : Frame} {k : Nat}
    (hk : words_taken f (udp_len f) budget 0 = k) :
    compute_udp_checksum budget f =
      finish (pseudo_header_sum f + word_sum f UDP k + odd_part f k) := by
  have hpseudo := (pseudo_header_sum_bounds f).2
  have hloop := udp_word_loop_eq f (udp_len f) budget 0 (pseudo_header_sum f) (by omega)
  rw [hk, Nat.mul_zero, Nat.add_zero, Nat.zero_add] at hloop
  have hle := word_sum_le f UDP k
  -- at most 1024 words and one byte: below `2^32`
  have hkle : k ≤ 1024 := by
    rw [← hk]
    exact Nat.le_trans (Nat.min_le_left _ _) hbudget
  have hbyte : (rd8 f (UDP + 2 * k)).toNat < 256 := UInt8.toNat_lt _
  have hlen : bswap16 (rd16 f UDP_LEN) = udp_len f := rfl
  unfold compute_udp_checksum odd_part
  simp only [hlen, hloop]
  split
  · rw [Nat.mod_eq_of_lt (by omega)]
  · rw [Nat.add_zero]

/-- On a datagram of even length there is no odd byte. -/
theorem compute_udp_checksum_even {budget : Nat} (hbudget : budget ≤ 1024) {f : Frame}
    (heven : udp_len f % 2 = 0) (hfits : UDP + udp_len f ≤ f.length) :
    compute_udp_checksum budget f =
      finish (pseudo_header_sum f + word_sum f UDP (min budget (udp_len f / 2))) := by
  have htaken : words_taken f (udp_len f) budget 0 = min budget (udp_len f / 2) := by
    unfold words_taken
    omega
  rw [compute_udp_checksum_eq hbudget htaken]
  unfold odd_part
  rw [if_neg (by omega), Nat.add_zero]

/-- Within the budget, it is the complement of the whole sum. -/
theorem compute_udp_checksum_within {budget : Nat} (hbudget : budget ≤ 1024) {f : Frame}
    (heven : udp_len f % 2 = 0) (hfits : UDP + udp_len f ≤ f.length)
    (hwithin : udp_len f ≤ 2 * budget) :
    compute_udp_checksum budget f = finish (datagram_sum f) := by
  obtain ⟨n, hn⟩ : ∃ n, udp_len f = 2 * n := ⟨udp_len f / 2, by omega⟩
  have hmin : min budget (udp_len f / 2) = n := by omega
  rw [compute_udp_checksum_even hbudget heven hfits, hmin]
  unfold datagram_sum
  rw [hn, octet_sum_even]

/-! ### Incremental updates modulo 65535 -/

theorem csum_add_lt {a b : Nat} (_ha : a < 4294967296) (hb : b < 4294967296) :
    csum_add a b < 4294967296 := by
  unfold csum_add
  dsimp only
  split <;> omega

theorem csum_add_pos {a b : Nat} (h : 0 < a) (ha : a < 4294967296) (hb : b < 4294967296) :
    0 < csum_add a b := by
  unfold csum_add
  dsimp only
  split <;> omega

/-- The carry that comes back in is worth `2^32 - 1`, a multiple of 65535. -/
theorem cast_csum_add {a b : Nat} (ha : a < 4294967296) (hb : b < 4294967296) :
    (csum_add a b : ZMod 65535) = a + b := by
  rw [← Nat.cast_add, cast_eq_iff]
  unfold csum_add
  dsimp only
  split <;> omega

theorem csum16_add_lt {a b : Nat} (hb : b < 65536) : csum16_add a b < 65536 := by
  unfold csum16_add
  dsimp only
  split <;> omega

theorem csum16_add_pos {a b : Nat} (h : 0 < a) (ha : a < 65536) (hb : b < 65536) :
    0 < csum16_add a b := by
  unfold csum16_add
  dsimp only
  split <;> omega

theorem cast_csum16_add {a b : Nat} (ha : a < 65536) (hb : b < 65536) :
    (csum16_add a b : ZMod 65535) = a + b := by
  rw [← Nat.cast_add, cast_eq_iff]
  unfold csum16_add
  dsimp only
  split <;> omega

/-- The complement of a 32-bit word is its negative. -/
theorem cast_not32 {n : Nat} (h : n < 4294967296) :
    ((4294967295 - n : Nat) : ZMod 65535) = -n :=
  cast_eq_neg (by omega)

theorem cast_not16 {n : Nat} (h : n < 65536) : ((65535 - n : Nat) : ZMod 65535) = -n :=
  cast_eq_neg (by omega)

/-- A 4-byte update: the new field is below 65535 and has moved by the
    difference. -/
theorem csum_replace4_spec {check old new : Nat} (hc : check < 65536) (ho : old < 4294967296)
    (hn : new < 4294967296) :
    csum_replace4 check old new < 65535 ∧
      (csum_replace4 check old new : ZMod 65535) = check + old - new := by
  have hlt1 : 4294967295 - check < 4294967296 := by omega
  have hlt2 : 4294967295 - old < 4294967296 := by omega
  have h1 := csum_add_lt hlt1 hlt2
  have h2 := csum_add_pos (by omega) hlt1 hlt2
  have h3 := csum_add_lt h1 hn
  have h4 := csum_add_pos h2 h1 hn
  -- the sum under the complement is not 0, so the field is not `0xFFFF`
  unfold csum_replace4 csum_sub
  refine ⟨finish_lt h4 h3, ?_⟩
  rw [cast_finish h3, cast_csum_add h1 hn, cast_csum_add hlt1 hlt2, cast_not32 (by omega),
    cast_not32 ho]
  ring

/-- A 2-byte update of a field that is not `0xFFFF`. -/
theorem csum_replace2_spec {check old new : Nat} (hc : check < 65535) (ho : old < 65536)
    (hn : new < 65536) :
    csum_replace2 check old new < 65535 ∧
      (csum_replace2 check old new : ZMod 65535) = check + old - new := by
  have hlt1 : 65535 - check < 65536 := by omega
  have hlt2 : 65535 - old < 65536 := by omega
  have h1 := csum16_add_lt (a := 65535 - check) hlt2
  have h2 := csum16_add_pos (by omega) hlt1 hlt2
  have h3 := csum16_add_lt (a := csum16_add (65535 - check) (65535 - old)) hn
  have h4 := csum16_add_pos h2 h1 hn
  unfold csum_replace2
  refine ⟨by omega, ?_⟩
  rw [cast_not16 h3, cast_csum16_add h1 hn, cast_csum16_add hlt1 hlt2, cast_not16 (by omega),
    cast_not16 ho]
  ring

/-! ### The sums of a rewritten frame -/

/-- The header words that rewriting leaves alone. -/
def header_rest (f : Frame) : Nat := word_sum f IP 5

/-- The pseudo-header fields, length field and payload that rewriting leaves
    alone. -/
def datagram_rest (f : Frame) : Nat :=
  bswap16 IPPROTO_UDP + 2 * rd16 f UDP_LEN + octet_sum f PAYLOAD (udp_len f - 8)

section sums
variable {f g : Frame} {saddr daddr source dest ip_check udp_check : Nat}
  (h : Rewritten f g saddr daddr source dest ip_check udp_check) (hlen : PAYLOAD ≤ f.length)
include h hlen

theorem Rewritten.rd16_udp_len : rd16 g UDP_LEN = rd16 f UDP_LEN := by
  unfold rd16
  rw [h.other _ (by simp), h.other _ (by simp), rd8_swap_macs hlen (by simp),
    rd8_swap_macs hlen (by simp)]

theorem Rewritten.udp_len_eq : udp_len g = udp_len f := by
  unfold udp_len
  rw [h.rd16_udp_len hlen]

/-- The header sum, up to a multiple of 65535. -/
theorem cast_header_sum :
    (word_sum g IP 10 : ZMod 65535) = header_rest f + ip_check + saddr + daddr := by
  have hkeep : ∀ i, 12 ≤ i → i + 2 ≤ 24 → rd16 g i = rd16 f i := by
    intro i hlo hhi
    unfold rd16
    rw [h.rd8_eq hlen hlo (by omega), h.rd8_eq hlen (by omega) (by omega)]
  have hs := h.saddr
  have hd := h.daddr
  have hc := h.ip_check
  -- the five words before the checksum, then the checksum and the addresses
  have e0 := hkeep 14 (by omega) (by omega)
  have e1 := hkeep 16 (by omega) (by omega)
  have e2 := hkeep 18 (by omega) (by omega)
  have e3 := hkeep 20 (by omega) (by omega)
  have e4 := hkeep 22 (by omega) (by omega)
  rw [← Nat.cast_add, ← Nat.cast_add, ← Nat.cast_add, cast_eq_iff]
  unfold rd32 at hs hd
  simp only [header_rest, word_sum, IP, IP_SADDR, IP_DADDR, IP_CHECK, Nat.reduceAdd] at hs hd hc ⊢
  omega

/-- The sum of the datagram and its pseudo-header. -/
theorem cast_datagram_sum (hheader : 8 ≤ udp_len f) :
    (datagram_sum g : ZMod 65535) =
      datagram_rest f + saddr + daddr + source + dest + udp_check := by
  have hudp_len := h.rd16_udp_len hlen
  obtain ⟨n, hn⟩ : ∃ n, udp_len f = n + 8 := ⟨udp_len f - 8, by omega⟩
  have hpayload : octet_sum g PAYLOAD n = octet_sum f PAYLOAD n := by
    apply octet_sum_congr
    intro i hi
    rw [h.other i (Or.inr (Or.inr hi)), rd8_swap_macs hlen (by simp only [PAYLOAD] at hi; omega)]
  -- the four words of the UDP header, then the payload
  have hsum : octet_sum g UDP (n + 8) =
      source + (dest + (rd16 f UDP_LEN + (udp_check + octet_sum f PAYLOAD n))) := by
    rw [← hpayload, ← h.source, ← h.dest, ← h.udp_check, ← hudp_len]
    rfl
  rw [← Nat.cast_add, ← Nat.cast_add, ← Nat.cast_add, ← Nat.cast_add, ← Nat.cast_add, cast_eq_iff]
  unfold datagram_sum pseudo_header_sum datagram_rest
  rw [h.udp_len_eq hlen, hn, Nat.add_sub_cancel, hsum, hudp_len, ← h.saddr, ← h.daddr]
  omega

end sums

/-- The sums of the frame as it was received. -/
theorem word_sum_swap_macs {f : Frame} (hlen : PAYLOAD ≤ f.length) {off : Nat} (hoff : 12 ≤ off)
    (n : Nat) : word_sum (swap_macs f) off n = word_sum f off n :=
  word_sum_congr fun _ hi => rd8_swap_macs hlen (Nat.le_trans hoff hi)

theorem datagram_sum_swap_macs {f : Frame} (hlen : PAYLOAD ≤ f.length) :
    datagram_sum (swap_macs f) = datagram_sum f := by
  have hoctets : ∀ n, octet_sum (swap_macs f) UDP n = octet_sum f UDP n := fun _ =>
    octet_sum_congr fun _ hi => rd8_swap_macs hlen (Nat.le_trans (by simp) hi)
  unfold datagram_sum pseudo_header_sum udp_len
  rw [hoctets, rd32_swap_macs hlen (by simp), rd32_swap_macs hlen (by simp),
    rd16_swap_macs hlen (by simp)]

/-! ### Full recomputation -/

/-- `compute_ip_checksum` on a rewritten UDP frame with a cleared field. -/
theorem compute_ip_checksum_spec {f g : Frame} {saddr daddr source dest udp_check : Nat}
    (h : Rewritten f g saddr daddr source dest 0 udp_check) (hf : refresh_headers f = true) :
    compute_ip_checksum g < 65535 ∧
      (compute_ip_checksum g : ZMod 65535) = -(header_rest f + saddr + daddr) := by
  have hlen := length_of_refresh hf
  obtain ⟨hpos, hlt⟩ := header_sum_bounds (protocol_of_refresh (h.refresh hf))
  rw [compute_ip_checksum_eq]
  refine ⟨finish_lt hpos hlt, ?_⟩
  rw [cast_finish hlt, cast_header_sum h hlen]
  push_cast
  ring

/-- `compute_udp_checksum` on a rewritten datagram of even length within its
    budget, with a cleared field. -/
theorem compute_udp_checksum_spec {f g : Frame} {saddr daddr source dest ip_check budget : Nat}
    (h : Rewritten f g saddr daddr source dest ip_check 0) (hlen : PAYLOAD ≤ f.length)
    (heven : udp_len f % 2 = 0) (hheader : 8 ≤ udp_len f) (hbudget : budget ≤ 1024)
    (hwithin : udp_len f ≤ 2 * budget) (hfits : UDP + udp_len f ≤ f.length) :
    compute_udp_checksum budget g < 65535 ∧
      (compute_udp_checksum budget g : ZMod 65535) =
        -(datagram_rest f + saddr + daddr + source + dest) := by
  have hsame := h.udp_len_eq hlen
  obtain ⟨hpos, hlt⟩ := datagram_sum_bounds g
  rw [compute_udp_checksum_within hbudget (by rw [hsame]; exact heven)
    (by rw [hsame, h.length_eq]; exact hfits) (by rw [hsame]; exact hwithin)]
  refine ⟨finish_lt hpos hlt, ?_⟩
  rw [cast_finish hlt, cast_datagram_sum h hlen hheader]
  push_cast
  ring

/-- Stored in the cleared field, a checksum adds itself to the sum. -/
theorem cast_datagram_sum_xdp_rewrite (packed : UInt64) {f : Frame} (hlen : PAYLOAD ≤ f.length)
    (hheader : 8 ≤ udp_len f) (budget : Nat) :
    (datagram_sum (xdp_rewrite budget packed f) : ZMod 65535) =
      datagram_sum (udp_turned packed f) + compute_udp_checksum budget (udp_turned packed f) := by
  rw [cast_datagram_sum (xdp_rewrite_rewritten packed hlen budget) hlen hheader,
    cast_datagram_sum (udp_turned_rewritten packed hlen) hlen hheader, Nat.cast_zero, add_zero]

/-- **What the fast paths miss**: a rewritten datagram of even length sums up
    to the words that are beyond the budget of the loop. -/
theorem cast_datagram_sum_beyond (packed : UInt64) {f : Frame} (hlen : PAYLOAD ≤ f.length)
    {budget : Nat} (hlo : 4 ≤ budget) (hhi : budget ≤ 1024) (heven : udp_len f % 2 = 0)
    (hheader : 8 ≤ udp_len f) (hfits : UDP + udp_len f ≤ f.length) :
    (datagram_sum (xdp_rewrite budget packed f) : ZMod 65535) =
      word_sum f (UDP + 2 * budget) (udp_len f / 2 - budget) := by
  have hg := udp_turned_rewritten packed hlen
  have hsame := hg.udp_len_eq hlen
  have hcsum := compute_udp_checksum_even hhi (f := udp_turned packed f)
    (by rw [hsame]; exact heven) (by rw [hsame, hg.length_eq]; exact hfits)
  rw [cast_datagram_sum_xdp_rewrite packed hlen hheader, hcsum, hsame]
  generalize udp_turned packed f = g at hg hsame ⊢
  -- the part the loop reaches, and the part it does not
  have hsplit : datagram_sum g =
      pseudo_header_sum g + word_sum g UDP (min budget (udp_len f / 2)) +
        word_sum g (UDP + 2 * budget) (udp_len f / 2 - budget) := by
    have hhalf : udp_len f = 2 * (udp_len f / 2) := by omega
    unfold datagram_sum
    rw [hsame, hhalf, octet_sum_even, ← hhalf, Nat.add_assoc]
    rcases Nat.le_total budget (udp_len f / 2) with hle | hle
    · have hsum : udp_len f / 2 = budget + (udp_len f / 2 - budget) := by omega
      rw [Nat.min_eq_left hle, ← word_sum_add, ← hsum]
    · rw [Nat.min_eq_right hle, Nat.sub_eq_zero_of_le hle]
      rfl
  -- rewriting ends before the payload, and the budget reaches beyond the headers
  have hbeyond : word_sum g (UDP + 2 * budget) (udp_len f / 2 - budget) =
      word_sum f (UDP + 2 * budget) (udp_len f / 2 - budget) := by
    apply word_sum_congr
    intro i hi
    simp only [UDP] at hi
    rw [hg.other i (Or.inr (Or.inr (by simp only [PAYLOAD]; omega))), rd8_swap_macs hlen (by omega)]
  have hlt : pseudo_header_sum g + word_sum g UDP (min budget (udp_len f / 2)) < 4294967296 := by
    have := (datagram_sum_bounds g).2
    omega
  rw [hsplit, cast_finish hlt, hbeyond]
  push_cast
  ring

end BpfBroker
