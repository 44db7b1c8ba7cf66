import BpfBroker.Checksum
import BpfBroker.Clone.Datapath

/-! # Checksums of the Copies

    The clone branch of `xdp_broker` recomputes both checksums of the copy it
    sends. For a datagram of even length within the 1024 words of its loop the
    accumulator holds the exact sum all along, two folds absorb the carries,
    and the copy verifies. -/

namespace BpfBroker.Clone

open Atomic Buffer OnesComplement

/-! ### The accumulators -/

/-- The accumulator of `compute_udp_checksum` after `n` rounds. -/
theorem udp_accumulator_exact {g : Frame} (heven : udp_len g % 2 = 0)
    (hfits : UDP + udp_len g ≤ g.length) {n : Nat} (hn : n ≤ 1024) :
    (udp_word_loop g (udp_len g) n 0 (pseudo_header_sum g)).1 =
        pseudo_header_sum g + word_sum g UDP (min n (udp_len g / 2)) ∧
      pseudo_header_sum g + word_sum g UDP (min n (udp_len g / 2)) < 4294967296 := by
  have hpseudo := (pseudo_header_sum_bounds g).2
  have hle := word_sum_le g UDP (min n (udp_len g / 2))
  have htaken : words_taken g (udp_len g) n 0 = min n (udp_len g / 2) := by
    unfold words_taken
    omega
  refine ⟨?_, by omega⟩
  rw [udp_word_loop_eq g (udp_len g) n 0 _ (by omega), htaken]

/-- No addition of the two checksum loops wraps on the frames they run over,
    and two folds leave no carry. -/
structure Exact (packed : UInt64) (f : Frame) : Prop where
  ip : ∀ n ≤ 10, ip_word_loop (ip_turned packed f) n 0 0 = word_sum (ip_turned packed f) IP n ∧
    word_sum (ip_turned packed f) IP n < 2 ^ 32
  ip_fold : fold (fold (word_sum (ip_turned packed f) IP 10)) ≤ 65535
  udp : ∀ n ≤ 1024,
    (udp_word_loop (udp_turned packed f) (udp_len f) n 0
        (pseudo_header_sum (udp_turned packed f))).1 =
      pseudo_header_sum (udp_turned packed f) +
        word_sum (udp_turned packed f) UDP (min n (udp_len f / 2)) ∧
    pseudo_header_sum (udp_turned packed f) +
      word_sum (udp_turned packed f) UDP (min n (udp_len f / 2)) < 2 ^ 32
  udp_fold : fold (fold (datagram_sum (udp_turned packed f))) ≤ 65535

section rewrite
variable {f : Frame} (hf : refresh_headers f = true) (heven : udp_len f % 2 = 0)
  (hfits : UDP + udp_len f ≤ f.length) (packed : UInt64)
include hf heven hfits

theorem exact_turned : Exact packed f := by
  have hlen := length_of_refresh hf
  have hg := udp_turned_rewritten packed hlen
  have hsame := hg.udp_len_eq hlen
  have heven' : udp_len (udp_turned packed f) % 2 = 0 := by rw [hsame]; exact heven
  have hfits' : UDP + udp_len (udp_turned packed f) ≤ (udp_turned packed f).length := by
    rw [hsame, hg.length_eq]
    exact hfits
  constructor
  · intro n hn
    exact ip_accumulator_exact _ hn
  · exact fold_fold_le (ip_accumulator_exact _ (Nat.le_refl 10)).2
  · intro n hn
    have hexact := udp_accumulator_exact heven' hfits' hn
    rw [hsame] at hexact
    exact hexact
  · exact fold_fold_le (datagram_sum_bounds _).2

/-- The rewriting of the clone branch leaves a frame that verifies. -/
theorem verifies_xdp_rewrite (hheader : 8 ≤ udp_len f) (hbound : udp_len f ≤ 2048) :
    Verifies (xdp_rewrite 1024 packed f) := by
  have hlen := length_of_refresh hf
  have hg := xdp_rewrite_rewritten packed hlen 1024
  apply (verifies_iff (protocol_of_refresh (hg.refresh hf))).mpr
  refine ⟨?_, ?_⟩
  · obtain ⟨-, hcheck⟩ := compute_ip_checksum_spec (ip_turned_rewritten packed hlen) hf
    rw [cast_header_sum hg hlen, hcheck]
    ring
  · -- no word of the datagram is beyond the budget
    have hnone : udp_len f / 2 - 1024 = 0 := by omega
    rw [cast_datagram_sum_beyond packed hlen (by decide) (by decide) heven hheader hfits, hnone]
    exact Nat.cast_zero

end rewrite

/-! ### The clone branch -/

/-- **Valid copies**: for a PUBLISH frame with an even UDP length of 8 to 2048
    bytes inside the frame, the copy sent to a stored subscriber verifies, and
    the checksum loops never wrap. -/
theorem clone_verifies {f : Frame} {t : TopicKey} (hf : Publishes f t)
    (heven : udp_len f % 2 = 0) (hheader : 8 ≤ udp_len f) (hbound : udp_len f ≤ 2048)
    (hfits : UDP + udp_len f ≤ f.length) {data_meta : List UInt8} (hmeta : 4 ≤ data_meta.length)
    (hcopy : rd32 data_meta 0 ≠ 0) (cpu : Nat) (s : KernState) {packed : UInt64}
    (hslot : s.maps.slot t (UInt32.ofNat (rd32 data_meta 0 - 1)) = some packed) :
    ∃ g, ((xdp_broker data_meta f).run (kern cpu) s).1 = (XDP_TX, g) ∧
      dst g = unpack packed ∧ Verifies g ∧ Exact packed f := by
  have hlen := length_of_refresh hf.refresh
  refine ⟨xdp_rewrite 1024 packed f, ?_, dst_xdp_rewrite 1024 packed hlen,
    verifies_xdp_rewrite hf.refresh heven hfits packed hheader hbound,
    exact_turned hf.refresh heven hfits packed⟩
  unfold xdp_broker
  rw [if_pos hmeta, xdp_clone_run_slot hf hcopy cpu hslot]

theorem clone_verifies_sample :
    ∃ g, ((xdp_broker [1, 0, 0, 0] (sample_frame [97] [104, 105])).run (kern 0)
        ⟨(serve_all one_client .empty).2, fun _ => 0⟩).1 = (XDP_TX, g) ∧
      dst g = unpack (pack ⟨0x0800000a, 0x8813⟩) ∧ Verifies g ∧
      Exact (pack ⟨0x0800000a, 0x8813⟩) (sample_frame [97] [104, 105]) :=
  clone_verifies ((sample_frame_publish [97] [104, 105]).publishes shortToken_a.toToken)
    (by decide) (by decide) (by decide) (by decide) (by decide) (by decide) 0
    ⟨(serve_all one_client .empty).2, fun _ => 0⟩ (by decide +kernel)

end BpfBroker.Clone
