import BpfBroker.Checksum
import BpfBroker.Hash.Delivery

/-! # The Fast Path and the Slow Path Send the Same Bytes

    For a topic with one subscriber, `xdp_broker` recomputes both checksums
    from scratch, while `tc_ingress_broker` and `callback_fn` patch them in
    six incremental steps. On a frame whose checksums are valid both arrive at
    the same fields: each field cancels the rest of its sum modulo 65535, and
    on both sides it is below 65535, so the residue determines it. -/

namespace BpfBroker.Hash

open Atomic Buffer OnesComplement

/-! ### Valid frames -/

/-- The sum a receiver checks: header words, and pseudo-header plus datagram,
    fold to `0xFFFF`. The datagram is even, has a header, fits in the frame,
    and is within the loop bound of `compute_udp_checksum`. The IPv4 header
    has no options. -/
structure ValidChecksums (f : Frame) : Prop where
  ihl : (rd8 f IP).toNat % 16 = 5
  ip : fold (fold (word_sum f IP 10)) = 65535
  udp : fold (fold (pseudo_header_sum f + word_sum f UDP (udp_len f / 2))) = 65535
  udp_ne_zero : rd16 f UDP_CHECK ≠ 0
  even : udp_len f % 2 = 0
  header : 8 ≤ udp_len f
  bound : udp_len f ≤ 256
  fits : UDP + udp_len f ≤ f.length

theorem ValidChecksums.datagram {f : Frame} (h : ValidChecksums f) :
    fold (fold (datagram_sum f)) = 65535 := by
  have hlen : udp_len f = 2 * (udp_len f / 2) := by
    have := h.even
    omega
  unfold datagram_sum
  rw [hlen, octet_sum_even]
  exact h.udp

/-! ### Both checksums agree -/

section agree
variable {f : Frame} {token message : List UInt8} (hf : PublishFrame f token message)
  (hv : ValidChecksums f) (packed : UInt64)
include hf hv

/-- The header checksum: recomputed, and patched twice. -/
theorem ip_check_agree :
    compute_ip_checksum (ip_turned packed f) =
      csum_replace4 (csum_replace4 (rd16 f IP_CHECK) (rd32 f IP_SADDR) (rd32 f IP_DADDR))
        (rd32 f IP_DADDR) (dest_ip packed) := by
  have hlen := length_of_refresh hf.refresh
  have hd := rd32_lt f IP_DADDR
  -- `tc_ingress_broker` patches the source in, `callback_fn` the destination
  obtain ⟨h1, e1⟩ := csum_replace4_spec (rd16_lt f IP_CHECK) (rd32_lt f IP_SADDR) hd
  obtain ⟨h2, e2⟩ := csum_replace4_spec (Nat.lt_succ_of_lt h1) hd (dest_ip_lt packed)
  obtain ⟨h3, e3⟩ := compute_ip_checksum_spec (ip_turned_rewritten packed hlen) hf.refresh
  -- the header was valid, so its words cancel the old field
  have hold := cast_header_sum (rewritten_swap_macs hlen) hlen
  rw [word_sum_swap_macs hlen (by simp), cast_of_fold_fold hv.ip] at hold
  apply eq_of_cast_eq h3 h2
  rw [e3, e2, e1]
  linear_combination hold

/-- The UDP checksum: recomputed, and patched four times. -/
theorem udp_check_agree :
    compute_udp_checksum 128 (udp_turned packed f) =
      csum_replace2 (csum_replace4
          (csum_replace2 (csum_replace4 (rd16 f UDP_CHECK) (rd32 f IP_SADDR) (rd32 f IP_DADDR))
            (rd16 f UDP_SOURCE) (rd16 f UDP_DEST))
          (rd32 f IP_DADDR) (dest_ip packed))
        (rd16 f UDP_DEST) (dest_port packed) := by
  have hlen := length_of_refresh hf.refresh
  have hd := rd32_lt f IP_DADDR
  have hdp := rd16_lt f UDP_DEST
  -- address and port of the source, then address and port of the destination
  obtain ⟨h1, e1⟩ := csum_replace4_spec (rd16_lt f UDP_CHECK) (rd32_lt f IP_SADDR) hd
  obtain ⟨h2, e2⟩ := csum_replace2_spec h1 (rd16_lt f UDP_SOURCE) hdp
  obtain ⟨h3, e3⟩ := csum_replace4_spec (Nat.lt_succ_of_lt h2) hd (dest_ip_lt packed)
  obtain ⟨h4, e4⟩ := csum_replace2_spec h3 hdp (dest_port_lt packed)
  obtain ⟨h5, e5⟩ := compute_udp_checksum_spec (udp_turned_rewritten packed hlen) hlen hv.even
    hv.header (by decide : 128 ≤ 1024) hv.bound hv.fits
  -- the datagram was valid, so its words cancel the old field
  have hold := cast_datagram_sum (rewritten_swap_macs hlen) hlen hv.header
  rw [datagram_sum_swap_macs hlen, cast_of_fold_fold hv.datagram] at hold
  apply eq_of_cast_eq h5 h4
  rw [e5, e4, e3, e2, e1]
  linear_combination hold

end agree

/-! ### The two paths -/

/-- **The fast path equals the slow path**: with `c` cached and a counter of 1,
    `xdp_broker` transmits exactly the frame that `tc_ingress_broker` redirects
    for an inner map that holds `c` alone. It differs from the received frame
    only in the MAC addresses, the addresses, the ports and the checksums. -/
theorem fast_path_eq_slow_path {f : Frame} {token message : List UInt8}
    (hf : PublishFrame f token message) (ht : Token token) (hv : ValidChecksums f) (c : SockAddr)
    (cpu : Nat) (fast : KernState)
    (hcnt : fast.maps.topic_sub_cnt.lookup (pub_key token) = some 1)
    (hfirst : fast.maps.topic_first_sub.lookup (pub_key token) = some (pack c))
    (env : Env) (henv : env.Healthy) (slow : KernState)
    (hinner : slow.maps.subs (pub_key token) = [pack c]) :
    ∃ g, ((xdp_broker f).run (kern cpu) fast).1 = (.tx, g) ∧
      (tc_ingress_broker env f slow).1 = .act_shot [g] ∧
      g.length = f.length ∧
      ∀ i, 12 ≤ i ∧ i < IP_CHECK ∨ UDP_LEN ≤ i ∧ i < UDP_CHECK ∨ PAYLOAD ≤ i →
        rd8 g i = rd8 f i := by
  have hlen := length_of_refresh hf.refresh
  have hfast := xdp_rewrite_rewritten (pack c) hlen 128
  refine ⟨xdp_rewrite 128 (pack c) f, ?_, ?_, hfast.length_eq, ?_⟩
  · rw [xdp_broker_run (hf.publishes ht)]
    simp only [Maps.view, hcnt, hfirst, if_true]
  · -- the slow path, and why its frame is the same
    obtain ⟨g, hedit, hg⟩ := tc_edit_ok hf.refresh
    obtain ⟨g', hedit', hg'⟩ := callback_edit_ok hf.refresh hg (pack c)
    rw [ip_check_agree hf hv (pack c), udp_check_agree hf hv (pack c)] at hfast
    have hsame : g' = xdp_rewrite 128 (pack c) f := hg'.unique hfast
    -- the inner map is there, since it holds `c`
    have hsome : (slow.maps.inner (pub_key token)).isSome = true := by
      unfold Maps.subs at hinner
      rcases hi : slow.maps.inner (pub_key token) with _ | inner
      · rw [hi] at hinner
        cases hinner
      · rfl
    -- a walk over one key has no choice
    have hwalk : env.ord.walk [pack c] = [pack c] :=
      List.perm_singleton.mp (env.ord.walk_perm [pack c])
    unfold tc_ingress_broker
    rw [henv.tc, henv.callback, tc_ingress_prologue_run (hf.publishes ht) hedit, if_pos hsome]
    show TcResult.act_shot ((for_each_elem (fun _ => {}) env.queue_mapping
      (env.ord.walk (slow.maps.subs (pub_key token))) g).run (kern env.cpu) _).1 = _
    rw [hinner, hwalk]
    unfold for_each_elem callback_fn
    rw [hedit', hsame]
    rfl
  · intro i hi
    have hlo : 12 ≤ i := by
      simp only [IP_CHECK, UDP_LEN, UDP_CHECK, PAYLOAD] at hi
      omega
    rw [hfast.other i (hi.imp_left And.right), rd8_swap_macs hlen hlo]

theorem sample_frame_valid : ValidChecksums (sample_frame [97] [104, 105]) where
  ihl := by decide
  ip := by decide
  udp := by decide
  udp_ne_zero := by decide
  even := by decide
  header := by decide
  bound := by decide
  fits := by decide

theorem fast_path_eq_slow_path_sample :
    ∃ g, ((xdp_broker (sample_frame [97] [104, 105])).run (kern 0)
        ⟨(serve_all listed one_client .empty).2, .empty⟩).1 = (.tx, g) ∧
      (tc_ingress_broker ⟨listed, 0, 0, {}, fun _ => {}⟩ (sample_frame [97] [104, 105])
        ⟨(serve_all listed one_client .empty).2, .empty⟩).1 = .act_shot [g] := by
  obtain ⟨g, hfast, hslow, -⟩ := fast_path_eq_slow_path (sample_frame_publish [97] [104, 105])
    shortToken_a.toToken sample_frame_valid ⟨0x0800000a, 0x8813⟩ 0
    ⟨(serve_all listed one_client .empty).2, .empty⟩ (by decide +kernel) (by decide +kernel)
    ⟨listed, 0, 0, {}, fun _ => {}⟩ ⟨rfl, rfl⟩
    ⟨(serve_all listed one_client .empty).2, .empty⟩ (by decide +kernel)
  exact ⟨g, hfast, hslow⟩

/-! ### Long messages on the fast path -/

/-- **When the fast path's UDP checksum is valid**: its loop takes 128 words,
    so a longer datagram verifies only if the words after its first 256 bytes
    happen to sum up to a multiple of 65535. -/
theorem fast_path_udp_valid_iff {f : Frame} {t : TopicKey} (hf : Publishes f t)
    (heven : udp_len f % 2 = 0) (hheader : 8 ≤ udp_len f)
    (hfits : UDP + udp_len f ≤ f.length) (packed : UInt64) (cpu : Nat) (s : KernState)
    (hcnt : s.maps.topic_sub_cnt.lookup t = some 1)
    (hfirst : s.maps.topic_first_sub.lookup t = some packed) :
    ∃ g, ((xdp_broker f).run (kern cpu) s).1 = (.tx, g) ∧
      (fold (fold (datagram_sum g)) = 65535 ↔
        udp_len f ≤ 256 ∨ 65535 ∣ word_sum f (UDP + 256) ((udp_len f - 256) / 2)) := by
  have hlen := length_of_refresh hf.refresh
  obtain ⟨hpos, hlt⟩ := datagram_sum_bounds (xdp_rewrite 128 packed f)
  have hbeyond := cast_datagram_sum_beyond packed hlen (by decide : 4 ≤ 128) (by decide) heven
    hheader hfits
  have hwords : udp_len f / 2 - 128 = (udp_len f - 256) / 2 := by omega
  rw [hwords] at hbeyond
  refine ⟨xdp_rewrite 128 packed f, ?_, ?_⟩
  · rw [xdp_broker_run hf]
    simp only [Maps.view, hcnt, hfirst, if_true]
  · rw [fold_fold_iff hpos hlt, hbeyond, ZMod.natCast_eq_zero_iff]
    -- a datagram within the budget has no words left over
    refine ⟨Or.inr, ?_⟩
    intro h
    rcases h with hshort | hsum
    · rw [Nat.sub_eq_zero_of_le hshort]
      exact Nat.dvd_zero _
    · exact hsum

/-- A message of 250 bytes on topic `a`: the UDP length is 258. -/
def long_frame : Frame :=
  [2, 0, 0, 0, 0, 1, 2, 0, 0, 0, 0, 2, 8, 0,
   69, 0, 1, 22, 0, 1, 0, 0, 64, 17, 101, 207, 10, 0, 0, 7, 10, 0, 0, 1,
   19, 136, 192, 0, 1, 2, 0, 0] ++ (PUBLISH ++ ([97] ++ SP :: List.replicate 240 120))

theorem long_frame_publish : PublishFrame long_frame [97] (List.replicate 240 120) := by
  have hport : rd16 long_frame UDP_DEST = 192 := rfl
  exact ⟨rfl, rfl, by rw [hport]; decide, rfl⟩

theorem fast_path_udp_valid_iff_long :
    ∃ g, ((xdp_broker long_frame).run (kern 0) ⟨Maps.one (pub_key [97]) 5, .empty⟩).1 = (.tx, g) ∧
      (fold (fold (datagram_sum g)) = 65535 ↔
        udp_len long_frame ≤ 256 ∨
          65535 ∣ word_sum long_frame (UDP + 256) ((udp_len long_frame - 256) / 2)) :=
  fast_path_udp_valid_iff (long_frame_publish.publishes shortToken_a.toToken) (by decide)
    (by decide) (by decide +kernel) 5 0 ⟨Maps.one (pub_key [97]) 5, .empty⟩
    (by decide +kernel) (by decide +kernel)

/-- The fast path sends this message with a checksum that no receiver
    accepts. -/
theorem long_message_corrupted :
    Publishes long_frame (pub_key [97]) ∧ (rd8 long_frame IP).toNat % 16 = 5 ∧
      udp_len long_frame % 2 = 0 ∧ udp_len long_frame ≤ 1480 ∧
      UDP + udp_len long_frame = long_frame.length ∧
      ∃ g, ((xdp_broker long_frame).run (kern 0) ⟨Maps.one (pub_key [97]) 5, .empty⟩).1 =
          (.tx, g) ∧
        fold (fold (datagram_sum g)) ≠ 65535 := by
  have hf := long_frame_publish.publishes shortToken_a.toToken
  refine ⟨hf, by decide, by decide, by decide, by decide +kernel, xdp_rewrite 128 5 long_frame,
    xdp_broker_run_one hf 0 .empty 5, ?_⟩
  decide +kernel

end BpfBroker.Hash
