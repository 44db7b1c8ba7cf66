import BpfBroker.Checksum
import BpfBroker.Hash.Datapath

/-! # Checksums Survive the Walk

    `callback_fn` edits one packet in place for subscriber after subscriber,
    so the checksums of a clone are the end of a chain of incremental updates
    whose old values are read back from the packet. The invariant of the walk
    is that the header sum and the datagram sum of the packet are multiples of
    65535: an update moves the checksum field by what the edited field gave
    up. -/

namespace BpfBroker.Hash

open Atomic Buffer OnesComplement

/-- A frame as a conforming sender emits it: no IPv4 options, the datagram
    inside the frame, both checksums valid and the UDP checksum in use. The
    length of the datagram may be odd. -/
structure Conforming (f : Frame) : Prop extends Verifies f where
  ihl : (rd8 f IP).toNat % 16 = 5
  udp_ne_zero : rd16 f UDP_CHECK ≠ 0
  header : 8 ≤ udp_len f
  fits : UDP + udp_len f ≤ f.length

/-- **Invariant of the walk**: the packet is `f` turned around, with some
    destination, and both its sums vanish modulo 65535. -/
structure Turned (f skb : Frame) : Prop where
  rewritten : ∃ daddr dest ip_check udp_check,
    Rewritten f skb (rd32 f IP_DADDR) daddr (rd16 f UDP_DEST) dest ip_check udp_check
  ip : (word_sum skb IP 10 : ZMod 65535) = 0
  udp : (datagram_sum skb : ZMod 65535) = 0

section walk
variable {f : Frame} (hf : refresh_headers f = true) (hheader : 8 ≤ udp_len f)
include hf hheader

/-- The prologue establishes it. -/
theorem turned_of_tc_edit (hv : Verifies f) : ∃ g, tc_edit {} f = .ok g ∧ Turned f g := by
  have hlen := length_of_refresh hf
  obtain ⟨hip, hudp⟩ := (verifies_iff (protocol_of_refresh hf)).mp hv
  obtain ⟨g, hedit, hg⟩ := tc_edit_ok hf
  have hd := rd32_lt f IP_DADDR
  obtain ⟨-, e1⟩ := csum_replace4_spec (rd16_lt f IP_CHECK) (rd32_lt f IP_SADDR) hd
  obtain ⟨h2, e2⟩ := csum_replace4_spec (rd16_lt f UDP_CHECK) (rd32_lt f IP_SADDR) hd
  obtain ⟨-, e3⟩ := csum_replace2_spec h2 (rd16_lt f UDP_SOURCE) (rd16_lt f UDP_DEST)
  refine ⟨g, hedit, ⟨_, _, _, _, hg⟩, ?_, ?_⟩
  · -- the sum of the frame as received, with its own fields
    have hold := cast_header_sum (rewritten_swap_macs hlen) hlen
    rw [word_sum_swap_macs hlen (by simp), hip] at hold
    rw [cast_header_sum hg hlen, e1]
    linear_combination -hold
  · have hold := cast_datagram_sum (rewritten_swap_macs hlen) hlen hheader
    rw [datagram_sum_swap_macs hlen, hudp] at hold
    rw [cast_datagram_sum hg hlen hheader, e3, e2]
    linear_combination -hold

/-- One call of `callback_fn` keeps it. -/
theorem Turned.callback {skb : Frame} (h : Turned f skb) (packed : UInt64) :
    ∃ g, callback_edit {} packed skb = .ok g ∧ Turned f g ∧ dst g = unpack packed := by
  have hlen := length_of_refresh hf
  obtain ⟨daddr, dest, ip_check, udp_check, hskb⟩ := h.rewritten
  obtain ⟨g, hedit, hg⟩ := callback_edit_ok hf hskb packed
  -- the old values are the fields of the packet, so they are in range
  have hd : daddr < 4294967296 := hskb.daddr ▸ rd32_lt skb IP_DADDR
  have hp : dest < 65536 := hskb.dest ▸ rd16_lt skb UDP_DEST
  have hic : ip_check < 65536 := hskb.ip_check ▸ rd16_lt skb IP_CHECK
  have huc : udp_check < 65536 := hskb.udp_check ▸ rd16_lt skb UDP_CHECK
  obtain ⟨-, e1⟩ := csum_replace4_spec hic hd (dest_ip_lt packed)
  obtain ⟨h2, e2⟩ := csum_replace4_spec huc hd (dest_ip_lt packed)
  obtain ⟨-, e3⟩ := csum_replace2_spec h2 hp (dest_port_lt packed)
  refine ⟨g, hedit, ⟨⟨_, _, _, _, hg⟩, ?_, ?_⟩, dst_eq hg.daddr hg.dest⟩
  · have hold := cast_header_sum hskb hlen
    rw [h.ip] at hold
    rw [cast_header_sum hg hlen, e1]
    linear_combination -hold
  · have hold := cast_datagram_sum hskb hlen hheader
    rw [h.udp] at hold
    rw [cast_datagram_sum hg hlen hheader, e3, e2]
    linear_combination -hold

/-- What a subscriber at `key` sees of the clone it gets. -/
structure GoodClone (f : Frame) (key : UInt64) (clone : Frame) : Prop extends Verifies clone where
  dst_eq : dst clone = unpack key
  src_eq : src clone = dst f
  payload_eq : payload clone = payload f

omit hheader in
theorem Turned.goodClone {skb : Frame} (h : Turned f skb) {key : UInt64}
    (hdst : dst skb = unpack key) : GoodClone f key skb := by
  have hlen := length_of_refresh hf
  obtain ⟨daddr, dest, ip_check, udp_check, hskb⟩ := h.rewritten
  have hproto := protocol_of_refresh (hskb.refresh hf)
  refine ⟨(verifies_iff hproto).mpr ⟨h.ip, h.udp⟩, hdst, ?_, hskb.payload_eq hlen⟩
  unfold src dst
  rw [hskb.saddr, hskb.source]

/-- The walk: each call hands the next one a packet that satisfies the
    invariant again. -/
theorem Turned.for_each_elem {skb : Frame} (h : Turned f skb) (cpu : Nat) (queue_mapping : UInt32)
    (keys : List UInt64) (s : KernState) :
    List.Forall₂ (GoodClone f) keys
      ((for_each_elem (fun _ => {}) queue_mapping keys skb).run (kern cpu) s).1 := by
  refine for_each_elem_rule ?_ h cpu queue_mapping keys s
  intro skb key hskb
  obtain ⟨g, hedit, hg, hdst⟩ := hskb.callback hf hheader key
  exact ⟨g, hedit, hg, hg.goodClone hf hdst⟩

end walk

/-- **Checksums survive the fan-out**: for a conforming PUBLISH frame,
    `tc_ingress_broker` reaches its walk, and whatever keys the walk visits, in
    whatever order and however often, clone `i` goes to key `i` from the
    broker's address with the original payload and with valid checksums. -/
theorem fan_out_verifies {f : Frame} {t : TopicKey} (hf : Publishes f t) (hv : Conforming f)
    (cpu : Nat) (queue_mapping : UInt32) (s : KernState)
    (hinner : (s.maps.inner t).isSome = true) :
    ∃ g, ((tc_ingress_prologue {} f).run (kern cpu) s).1 = .for_each t g ∧
      ∀ (keys : List UInt64) (s' : KernState),
        List.Forall₂ (GoodClone f) keys
          ((for_each_elem (fun _ => {}) queue_mapping keys g).run (kern cpu) s').1 := by
  obtain ⟨g, hedit, hg⟩ := turned_of_tc_edit hf.refresh hv.header hv.toVerifies
  refine ⟨g, ?_, ?_⟩
  · rw [tc_ingress_prologue_run hf hedit, if_pos hinner]
  · intro keys s'
    exact hg.for_each_elem hf.refresh hv.header cpu queue_mapping keys s'

theorem sample_frame_conforming : Conforming (sample_frame [97] [104, 105]) where
  ip := by decide
  udp := by decide
  ihl := by decide
  udp_ne_zero := by decide
  header := by decide
  fits := by decide

theorem fan_out_verifies_sample :
    ∃ g, ((tc_ingress_prologue {} (sample_frame [97] [104, 105])).run (kern 0)
        ⟨Maps.one (pub_key [97]) 5, .empty⟩).1 = .for_each (pub_key [97]) g ∧
      ∀ (keys : List UInt64) (s' : KernState),
        List.Forall₂ (GoodClone (sample_frame [97] [104, 105])) keys
          ((for_each_elem (fun _ => {}) 0 keys g).run (kern 0) s').1 :=
  fan_out_verifies ((sample_frame_publish [97] [104, 105]).publishes shortToken_a.toToken)
    sample_frame_conforming 0 0 ⟨Maps.one (pub_key [97]) 5, .empty⟩ (by decide +kernel)

end BpfBroker.Hash
