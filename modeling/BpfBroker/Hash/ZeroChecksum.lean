import BpfBroker.Hash.Delivery
import BpfBroker.Hash.FanOut

/-! # Datagrams without a Checksum

    A UDP checksum field of 0 says that the sender computed no checksum. The
    helpers that `tc_ingress_broker` and `callback_fn` patch the field with
    take it for an ordinary value: they patch a 0 into something else, and
    they may arrive at 0. The chain of patches telescopes, so the field of a
    clone depends on the received frame and on its own subscriber alone. -/

namespace BpfBroker.Hash

open Atomic Buffer OnesComplement

/-- A receiver that checks the datagram accepts it. -/
structure UdpVerifies (f : Frame) : Prop where
  header : 8 ≤ udp_len f
  fits : UDP + udp_len f ≤ f.length
  sum : fold (fold (datagram_sum f)) = 65535

/-- The clones of `f` treat a field of 0 as what it stands for. -/
structure ZeroRespected (f : Frame) (clones : List Frame) : Prop where
  kept : rd16 f UDP_CHECK = 0 → ∀ g ∈ clones, rd16 g UDP_CHECK = 0 ∨ UdpVerifies g
  not_made : rd16 f UDP_CHECK ≠ 0 → UdpVerifies f → ∀ g ∈ clones, rd16 g UDP_CHECK ≠ 0

/-- The checksum of `f` and the words of its source come to the same as the
    words of the subscriber. `2^16` is 1 modulo 65535, so an address counts as
    the sum of its two words. -/
def Cancels (f : Frame) (key : UInt64) : Prop :=
  (rd16 f UDP_CHECK + rd32 f IP_SADDR + rd16 f UDP_SOURCE) % 65535 =
    (dest_ip key + dest_port key) % 65535

/-! ### The field along the walk -/

/-- **Invariant of the walk**: the packet is `f` turned around with some
    destination, and its UDP checksum has moved from that of `f` by the source
    of `f` and that destination. -/
def Patched (f skb : Frame) (daddr dest : Nat) : Prop :=
  ∃ ip_check udp_check,
    Rewritten f skb (rd32 f IP_DADDR) daddr (rd16 f UDP_DEST) dest ip_check udp_check ∧
    udp_check < 65535 ∧
    (udp_check : ZMod 65535) =
      rd16 f UDP_CHECK + rd32 f IP_SADDR + rd16 f UDP_SOURCE - daddr - dest

section walk
variable {f : Frame} (hf : refresh_headers f = true)
include hf

theorem patched_of_tc_edit :
    ∃ g, tc_edit {} f = .ok g ∧ Patched f g (rd32 f IP_DADDR) (rd16 f UDP_DEST) := by
  obtain ⟨g, hedit, hg⟩ := tc_edit_ok hf
  obtain ⟨h1, e1⟩ := csum_replace4_spec (rd16_lt f UDP_CHECK) (rd32_lt f IP_SADDR)
    (rd32_lt f IP_DADDR)
  obtain ⟨h2, e2⟩ := csum_replace2_spec h1 (rd16_lt f UDP_SOURCE) (rd16_lt f UDP_DEST)
  refine ⟨g, hedit, _, _, hg, h2, ?_⟩
  rw [e2, e1]
  ring

/-- One call of `callback_fn`: the destination it replaces drops out. -/
theorem Patched.callback {skb : Frame} {daddr dest : Nat} (h : Patched f skb daddr dest)
    (key : UInt64) :
    ∃ g, callback_edit {} key skb = .ok g ∧ Patched f g (dest_ip key) (dest_port key) := by
  obtain ⟨ip_check, udp_check, hskb, hlt, hcheck⟩ := h
  obtain ⟨g, hedit, hg⟩ := callback_edit_ok hf hskb key
  have hd : daddr < 4294967296 := hskb.daddr ▸ rd32_lt skb IP_DADDR
  have hp : dest < 65536 := hskb.dest ▸ rd16_lt skb UDP_DEST
  obtain ⟨h1, e1⟩ := csum_replace4_spec (Nat.lt_succ_of_lt hlt) hd (dest_ip_lt key)
  obtain ⟨h2, e2⟩ := csum_replace2_spec h1 hp (dest_port_lt key)
  refine ⟨g, hedit, _, _, hg, h2, ?_⟩
  rw [e2, e1, hcheck]
  ring

omit hf in
/-- When a clone carries the value 0. -/
theorem Patched.check_eq_zero {g : Frame} {key : UInt64}
    (h : Patched f g (dest_ip key) (dest_port key)) : rd16 g UDP_CHECK = 0 ↔ Cancels f key := by
  obtain ⟨ip_check, udp_check, hg, hlt, hcheck⟩ := h
  have hzero : udp_check = 0 ↔ (udp_check : ZMod 65535) = ((0 : Nat) : ZMod 65535) :=
    ⟨fun heq => by rw [heq], fun heq => eq_of_cast_eq hlt (by decide) heq⟩
  have hsub : rd16 f UDP_CHECK + rd32 f IP_SADDR + rd16 f UDP_SOURCE - dest_ip key -
      dest_port key = ((0 : Nat) : ZMod 65535) ↔
      (rd16 f UDP_CHECK + rd32 f IP_SADDR + rd16 f UDP_SOURCE : ZMod 65535) =
        dest_ip key + dest_port key := by
    rw [Nat.cast_zero, sub_sub, sub_eq_zero]
  unfold Cancels
  rw [hg.udp_check, hzero, hcheck, hsub, ← cast_eq_iff]
  push_cast
  exact Iff.rfl

/-- A clone verifies exactly when the received datagram does: the patches
    keep the sum, whether or not it was a multiple of 65535. -/
theorem Patched.verifies {g : Frame} {daddr dest : Nat} (h : Patched f g daddr dest) :
    UdpVerifies g ↔ UdpVerifies f := by
  have hlen := length_of_refresh hf
  obtain ⟨ip_check, udp_check, hg, -, hcheck⟩ := h
  have hudp_len := hg.udp_len_eq hlen
  have hsum : 8 ≤ udp_len f →
      (fold (fold (datagram_sum g)) = 65535 ↔ fold (fold (datagram_sum f)) = 65535) := by
    intro hheader
    obtain ⟨hpos, hlt⟩ := datagram_sum_bounds f
    obtain ⟨hpos', hlt'⟩ := datagram_sum_bounds g
    have hold := cast_datagram_sum (rewritten_swap_macs hlen) hlen hheader
    rw [datagram_sum_swap_macs hlen] at hold
    have hsame : (datagram_sum g : ZMod 65535) = datagram_sum f := by
      rw [cast_datagram_sum hg hlen hheader, hold, hcheck]
      ring
    rw [fold_fold_iff hpos' hlt', fold_fold_iff hpos hlt, hsame]
  refine ⟨?_, ?_⟩
  · intro hv
    have hheader := hv.header
    have hfits := hv.fits
    rw [hudp_len] at hheader hfits
    rw [hg.length_eq] at hfits
    exact ⟨hheader, hfits, (hsum hheader).mp hv.sum⟩
  · intro hv
    have hheader := hv.header
    have hfits := hv.fits
    rw [← hudp_len] at hheader hfits
    rw [← hg.length_eq] at hfits
    exact ⟨hheader, hfits, (hsum hv.header).mpr hv.sum⟩

/-- The walk: each clone is told by its own key. -/
theorem Patched.for_each_elem {skb : Frame} {daddr dest : Nat} (h : Patched f skb daddr dest)
    (cpu : Nat) (queue_mapping : UInt32) (keys : List UInt64) (s : KernState) :
    List.Forall₂ (fun key g => Patched f g (dest_ip key) (dest_port key)) keys
      ((for_each_elem (fun _ => {}) queue_mapping keys skb).run (kern cpu) s).1 := by
  refine for_each_elem_rule (P := fun skb => ∃ daddr dest, Patched f skb daddr dest) ?_
    ⟨_, _, h⟩ cpu queue_mapping keys s
  intro skb key hskb
  obtain ⟨_, _, hskb⟩ := hskb
  obtain ⟨g, hedit, hg⟩ := hskb.callback hf key
  exact ⟨g, hedit, ⟨_, _, hg⟩, hg⟩

end walk

/-- What corresponds pair by pair holds of all on one side exactly when it
    does on the other. -/
theorem forall_mem_iff_of_forall₂ {α β : Type} {R : α → β → Prop} {P : α → Prop} {Q : β → Prop}
    {as : List α} {bs : List β} (h : List.Forall₂ R as bs) (hpq : ∀ a b, R a b → (P a ↔ Q b)) :
    (∀ a ∈ as, P a) ↔ ∀ b ∈ bs, Q b := by
  induction h with
  | nil => simp
  | cons hr _ ih => rw [List.forall_mem_cons, List.forall_mem_cons, hpq _ _ hr, ih]

/-- **When the value 0 is respected**: a frame without a checksum must have
    its words sum up to a multiple of 65535 anyway, or be patched back to 0 for
    each subscriber; a frame with a valid one must not be patched to 0 for
    any. -/
theorem zero_respected_iff {f : Frame} {t : TopicKey} (hf : Publishes f t) (cpu : Nat)
    (queue_mapping : UInt32) (s : KernState) (hinner : (s.maps.inner t).isSome = true) :
    ∃ g, ((tc_ingress_prologue {} f).run (kern cpu) s).1 = .for_each t g ∧
      ∀ (keys : List UInt64) (s' : KernState),
        ZeroRespected f ((for_each_elem (fun _ => {}) queue_mapping keys g).run (kern cpu) s').1 ↔
          (rd16 f UDP_CHECK = 0 → UdpVerifies f ∨ ∀ key ∈ keys, Cancels f key) ∧
          (rd16 f UDP_CHECK ≠ 0 → UdpVerifies f → ∀ key ∈ keys, ¬ Cancels f key) := by
  obtain ⟨g, hedit, hg⟩ := patched_of_tc_edit hf.refresh
  refine ⟨g, ?_, ?_⟩
  · rw [tc_ingress_prologue_run hf hedit, if_pos hinner]
  intro keys s'
  have hwalk := hg.for_each_elem hf.refresh cpu queue_mapping keys s'
  generalize ((for_each_elem (fun _ => {}) queue_mapping keys g).run (kern cpu) s').1 = clones
    at hwalk ⊢
  have hkept := forall_mem_iff_of_forall₂ hwalk (P := fun key => UdpVerifies f ∨ Cancels f key)
    (Q := fun g => rd16 g UDP_CHECK = 0 ∨ UdpVerifies g) fun key g hg => by
      rw [hg.check_eq_zero, hg.verifies hf.refresh, or_comm]
  have hmade := forall_mem_iff_of_forall₂ hwalk (P := fun key => ¬ Cancels f key)
    (Q := fun g => rd16 g UDP_CHECK ≠ 0) fun key g hg => by
      rw [Ne, hg.check_eq_zero]
  -- whether the datagram verifies does not depend on the subscriber
  have hsplit : (∀ key ∈ keys, UdpVerifies f ∨ Cancels f key) ↔
      UdpVerifies f ∨ ∀ key ∈ keys, Cancels f key := by
    by_cases hv : UdpVerifies f
    · simp [hv]
    · simp [hv]
  rw [hmade, ← hsplit, hkept]
  exact ⟨fun h => ⟨h.kept, h.not_made⟩, fun h => ⟨h.1, h.2⟩⟩

/-- The sample frame from a sender that computes no checksum. -/
def bare_frame : Frame := wr16 (sample_frame [97] [104, 105]) UDP_CHECK 0

theorem bare_frame_publishes : Publishes bare_frame (pub_key [97]) :=
  ⟨by decide, by decide, by decide, by decide +kernel⟩

/-- Both halves fail: a frame without a checksum leaves with a wrong one, and
    a frame with a valid one leaves without for the second client. -/
theorem zero_misread :
    (Publishes bare_frame (pub_key [97]) ∧ (rd8 bare_frame IP).toNat % 16 = 5 ∧
      fold (fold (word_sum bare_frame IP 10)) = 65535 ∧ rd16 bare_frame UDP_CHECK = 0 ∧
      ∃ g ∈ (tc_ingress_broker ⟨listed, 0, 0, {}, fun _ => {}⟩ bare_frame
          ⟨(serve_all listed two_clients .empty).2, .empty⟩).1.clones,
        ¬ (rd16 g UDP_CHECK = 0 ∨ UdpVerifies g)) ∧
    (Publishes (sample_frame [97] [104, 105]) (pub_key [97]) ∧
      Conforming (sample_frame [97] [104, 105]) ∧
      ∃ g ∈ (tc_ingress_broker ⟨listed, 0, 0, {}, fun _ => {}⟩ (sample_frame [97] [104, 105])
          ⟨(serve_all listed two_clients .empty).2, .empty⟩).1.clones,
        rd16 g UDP_CHECK = 0) := by
  have hbare : ∃ g ∈ (tc_ingress_broker ⟨listed, 0, 0, {}, fun _ => {}⟩ bare_frame
      ⟨(serve_all listed two_clients .empty).2, .empty⟩).1.clones,
      rd16 g UDP_CHECK ≠ 0 ∧ fold (fold (datagram_sum g)) ≠ 65535 := by
    decide +kernel
  obtain ⟨g, hg, hcheck, hsum⟩ := hbare
  refine ⟨⟨bare_frame_publishes, by decide, by decide, by decide, g, hg, ?_⟩,
    (sample_frame_publish [97] [104, 105]).publishes shortToken_a.toToken,
    sample_frame_conforming, by decide +kernel⟩
  rintro (hzero | hv)
  · exact hcheck hzero
  · exact hsum hv.sum

theorem zero_respected_iff_bare :
    ∃ g, ((tc_ingress_prologue {} bare_frame).run (kern 0)
        ⟨Maps.one (pub_key [97]) 5, .empty⟩).1 = .for_each (pub_key [97]) g ∧
      ∀ (keys : List UInt64) (s' : KernState),
        ZeroRespected bare_frame
            ((for_each_elem (fun _ => {}) 0 keys g).run (kern 0) s').1 ↔
          (rd16 bare_frame UDP_CHECK = 0 →
            UdpVerifies bare_frame ∨ ∀ key ∈ keys, Cancels bare_frame key) ∧
          (rd16 bare_frame UDP_CHECK ≠ 0 → UdpVerifies bare_frame →
            ∀ key ∈ keys, ¬ Cancels bare_frame key) :=
  zero_respected_iff bare_frame_publishes 0 0 ⟨Maps.one (pub_key [97]) 5, .empty⟩
    (by decide +kernel)

end BpfBroker.Hash
