import BpfBroker.Hash.Delivery
import BpfBroker.Hash.FanOut

/-! # Failing Helpers in the Walk

    `callback_fn` writes a header field before it calls the helper that
    patches the checksum for it, and returns when the helper fails. The walk
    goes on with the packet as it is at that point, and the next call takes
    the field it finds there for the old value: what the failed helper did
    not patch is missing from every later checksum. -/

namespace BpfBroker.Hash

open Atomic Buffer OnesComplement

/-- Some helper call of `callback_fn` fails. -/
def CallbackFaults.any (flt : CallbackFaults) : Bool := flt.l3 || flt.l4_addr || flt.l4_port

/-- The keys of the calls that get to `bpf_clone_redirect`. -/
def redirected : (Nat → CallbackFaults) → List UInt64 → List UInt64
  | _, [] => []
  | flt, key :: keys =>
    let rest := redirected (fun i => flt (i + 1)) keys
    if (flt 0).any then rest else key :: rest

/-! ### What failing helpers leave behind -/

/-- The destination in the packet, and how far the words of the header and of
    the datagram have moved without their checksum. -/
structure Drift where
  daddr : Nat
  dest : Nat
  ip : Int
  udp : Int

/-- Before the first call. -/
def Drift.start (f : Frame) : Drift := ⟨rd32 f IP_DADDR, rd16 f UDP_DEST, 0, 0⟩

/-- One call for `key`: the address is in the header and in the
    pseudo-header, the port in the datagram alone. -/
def Drift.next (flt : CallbackFaults) (key : UInt64) (d : Drift) : Drift :=
  if flt.l3 then
    ⟨dest_ip key, d.dest, d.ip + (dest_ip key - d.daddr), d.udp + (dest_ip key - d.daddr)⟩
  else if flt.l4_addr then ⟨dest_ip key, d.dest, d.ip, d.udp + (dest_ip key - d.daddr)⟩
  else if flt.l4_port then
    ⟨dest_ip key, dest_port key, d.ip, d.udp + (dest_port key - d.dest)⟩
  else ⟨dest_ip key, dest_port key, d.ip, d.udp⟩

/-- Whenever no helper fails, what earlier calls have left behind comes to a
    multiple of 65535. -/
def Unharmed : (Nat → CallbackFaults) → List UInt64 → Drift → Prop
  | _, [], _ => True
  | flt, key :: keys, d =>
    ((flt 0).any = false → 65535 ∣ d.ip ∧ 65535 ∣ d.udp) ∧
      Unharmed (fun i => flt (i + 1)) keys (d.next (flt 0) key)

/-- `callback_edit` with failing helpers: it stops at the first one, with the
    field written that the helper was to account for. -/
theorem callback_edit_faulty {f skb : Frame} {saddr daddr source dest ip_check udp_check : Nat}
    (hf : refresh_headers f = true)
    (h : Rewritten f skb saddr daddr source dest ip_check udp_check) (flt : CallbackFaults)
    (key : UInt64) :
    ∃ g, callback_edit flt key skb = (if flt.any then .error g else .ok g) ∧
      Rewritten f g saddr (dest_ip key) source
        (if flt.l3 || flt.l4_addr then dest else dest_port key)
        (if flt.l3 then ip_check else csum_replace4 ip_check daddr (dest_ip key))
        (if flt.l3 || flt.l4_addr then udp_check
          else if flt.l4_port then csum_replace4 udp_check daddr (dest_ip key)
          else csum_replace2 (csum_replace4 udp_check daddr (dest_ip key)) dest
            (dest_port key)) := by
  have hlen := length_of_refresh hf
  obtain ⟨l3, l4_addr, l4_port⟩ := flt
  unfold callback_edit bpf_l3_csum_replace bpf_l4_csum_replace4 bpf_l4_csum_replace2
    CallbackFaults.any
  rw [h.refresh hf, h.daddr, h.dest]
  have h1 := h.set_daddr hlen (dest_ip_lt key)
  rcases l3 with _ | _
  · have h2 := h1.set_ip_check hlen (csum_replace4_lt ip_check daddr (dest_ip key))
    simp only [Bool.false_eq_true, if_false, Bool.not_true, Bool.false_or]
    rw [h1.daddr, h1.ip_check, h2.refresh hf, h2.daddr, h2.udp_check]
    rcases l4_addr with _ | _
    · have h3 := h2.set_udp_check hlen (csum_replace4_lt udp_check daddr (dest_ip key))
      have h4 := h3.set_dest hlen (dest_port_lt key)
      simp only [Bool.false_eq_true, if_false, Bool.not_true, Bool.false_or]
      rw [h3.refresh hf, h4.dest, h4.udp_check]
      rcases l4_port with _ | _
      · have h5 := h4.set_udp_check hlen
          (csum_replace2_lt (csum_replace4 udp_check daddr (dest_ip key)) dest (dest_port key))
        simp only [Bool.false_eq_true, if_false, Bool.not_true]
        rw [h5.refresh hf]
        exact ⟨_, rfl, h5⟩
      · exact ⟨_, rfl, h4⟩
    · exact ⟨_, rfl, h2⟩
  · exact ⟨_, rfl, h1⟩

/-! ### The walk -/

/-- **Invariant of the walk**: the packet is `f` turned around, and its two
    sums have drifted by `d`. -/
structure Drifted (f skb : Frame) (d : Drift) : Prop where
  rewritten : ∃ ip_check udp_check,
    Rewritten f skb (rd32 f IP_DADDR) d.daddr (rd16 f UDP_DEST) d.dest ip_check udp_check
  ip : (word_sum skb IP 10 : ZMod 65535) = d.ip
  udp : (datagram_sum skb : ZMod 65535) = d.udp

section walk
variable {f : Frame} (hf : refresh_headers f = true)
include hf

theorem drifted_of_tc_edit (hheader : 8 ≤ udp_len f) (hv : Verifies f) :
    ∃ g, tc_edit {} f = .ok g ∧ Drifted f g (.start f) := by
  obtain ⟨g, hedit, hg⟩ := tc_edit_ok hf
  obtain ⟨g', hedit', ht⟩ := turned_of_tc_edit hf hheader hv
  obtain rfl : g = g' := Except.ok.inj (hedit.symm.trans hedit')
  exact ⟨g, hedit, ⟨_, _, hg⟩, by rw [ht.ip]; rfl, by rw [ht.udp]; rfl⟩

/-- When a packet with this drift verifies. -/
theorem Drifted.verifies_iff {skb : Frame} {d : Drift} (h : Drifted f skb d) :
    Verifies skb ↔ 65535 ∣ d.ip ∧ 65535 ∣ d.udp := by
  obtain ⟨ip_check, udp_check, hskb⟩ := h.rewritten
  rw [BpfBroker.verifies_iff (protocol_of_refresh (hskb.refresh hf)), h.ip, h.udp,
    ZMod.intCast_zmod_eq_zero_iff_dvd, ZMod.intCast_zmod_eq_zero_iff_dvd]
  rfl

/-- **One call of `callback_fn`**, whichever helper of it fails first. -/
theorem Drifted.callback (hheader : 8 ≤ udp_len f) {skb : Frame} {d : Drift}
    (h : Drifted f skb d) (flt : CallbackFaults) (key : UInt64) :
    ∃ g, callback_edit flt key skb = (if flt.any then .error g else .ok g) ∧
      Drifted f g (d.next flt key) := by
  have hlen := length_of_refresh hf
  obtain ⟨ip_check, udp_check, hskb⟩ := h.rewritten
  obtain ⟨g, hedit, hg⟩ := callback_edit_faulty hf hskb flt key
  have hd : d.daddr < 4294967296 := hskb.daddr ▸ rd32_lt skb IP_DADDR
  have hp : d.dest < 65536 := hskb.dest ▸ rd16_lt skb UDP_DEST
  have hic : ip_check < 65536 := hskb.ip_check ▸ rd16_lt skb IP_CHECK
  have huc : udp_check < 65536 := hskb.udp_check ▸ rd16_lt skb UDP_CHECK
  obtain ⟨-, e1⟩ := csum_replace4_spec hic hd (dest_ip_lt key)
  obtain ⟨h2, e2⟩ := csum_replace4_spec huc hd (dest_ip_lt key)
  obtain ⟨-, e3⟩ := csum_replace2_spec h2 hp (dest_port_lt key)
  -- the sums before the call and after it, in terms of the fields
  have hip := cast_header_sum hskb hlen
  have hudp := cast_datagram_sum hskb hlen hheader
  have hip' := cast_header_sum hg hlen
  have hudp' := cast_datagram_sum hg hlen hheader
  rw [h.ip] at hip
  rw [h.udp] at hudp
  refine ⟨g, hedit, ?_⟩
  obtain ⟨l3, l4_addr, l4_port⟩ := flt
  unfold Drift.next
  rcases l3 with _ | _
  · rcases l4_addr with _ | _
    · rcases l4_port with _ | _
      · simp only [Bool.false_eq_true, if_false, Bool.or_false] at hg hip' hudp' ⊢
        refine ⟨⟨_, _, hg⟩, ?_, ?_⟩
        · rw [hip', e1, hip]
          ring
        · rw [hudp', e3, e2, hudp]
          ring
      · simp only [Bool.false_eq_true, if_false, if_true, Bool.or_false] at hg hip' hudp' ⊢
        refine ⟨⟨_, _, hg⟩, ?_, ?_⟩
        · rw [hip', e1, hip]
          ring
        · push_cast
          rw [hudp', e2, hudp]
          ring
    · simp only [Bool.false_eq_true, if_false, if_true, Bool.false_or] at hg hip' hudp' ⊢
      refine ⟨⟨_, _, hg⟩, ?_, ?_⟩
      · rw [hip', e1, hip]
        ring
      · push_cast
        rw [hudp', hudp]
        ring
  · simp only [if_true, Bool.true_or] at hg hip' hudp' ⊢
    refine ⟨⟨_, _, hg⟩, ?_, ?_⟩
    · push_cast
      rw [hip', hip]
      ring
    · push_cast
      rw [hudp', hudp]
      ring

/-- A clone as the subscriber at `key` should get it. -/
structure ValidClone (key : UInt64) (clone : Frame) : Prop extends Verifies clone where
  dst_eq : dst clone = unpack key

/-- **The walk**: the clones that are made are valid exactly when the calls
    before them have left nothing behind. -/
theorem Drifted.for_each_elem (hheader : 8 ≤ udp_len f) {skb : Frame} {d : Drift}
    (h : Drifted f skb d) (flt : Nat → CallbackFaults) (cpu : Nat) (queue_mapping : UInt32)
    (keys : List UInt64) (s : KernState) :
    List.Forall₂ ValidClone (redirected flt keys)
        ((for_each_elem flt queue_mapping keys skb).run (kern cpu) s).1 ↔
      Unharmed flt keys d := by
  induction keys generalizing flt skb d s with
  | nil =>
    refine iff_of_true ?_ trivial
    exact List.Forall₂.nil
  | cons key keys ih =>
    obtain ⟨g, hedit, hg⟩ := h.callback hf hheader (flt 0) key
    unfold Hash.for_each_elem callback_fn redirected Unharmed
    rcases hany : (flt 0).any with _ | _
    · -- the call gets through: its clone carries what was there before
      rw [hany] at hedit
      have hsame : (d.next (flt 0) key).ip = d.ip ∧ (d.next (flt 0) key).udp = d.udp ∧
          (d.next (flt 0) key).daddr = dest_ip key ∧ (d.next (flt 0) key).dest = dest_port key := by
        unfold CallbackFaults.any at hany
        simp only [Bool.or_eq_false_iff] at hany
        unfold Drift.next
        rw [hany.1.1, hany.1.2, hany.2]
        exact ⟨rfl, rfl, rfl, rfl⟩
      obtain ⟨ip_check, udp_check, hre⟩ := hg.rewritten
      have hdst : dst g = unpack key :=
        dst_eq (hre.daddr.trans hsame.2.2.1) (hre.dest.trans hsame.2.2.2)
      have hvalid : ValidClone key g ↔ 65535 ∣ d.ip ∧ 65535 ∣ d.udp := by
        rw [← hsame.1, ← hsame.2.1, ← hg.verifies_iff hf]
        exact ⟨fun hv => hv.toVerifies, fun hv => ⟨hv, hdst⟩⟩
      simp only [hedit, Bool.false_eq_true, if_false, Prog.op_bind, Prog.ret_bind,
        Prog.pure_eq_ret, Prog.run_op, Prog.run_bind, Prog.run_ret, Option.toList_some,
        List.singleton_append, List.forall₂_cons, hvalid, forall_const]
      exact and_congr_right fun _ => ih hg _ _
    · -- the call gives up, and the next one finds the packet as it is
      rw [hany] at hedit
      simp only [hedit, if_true, Prog.ret_bind, Prog.pure_eq_ret, Prog.run_bind, Prog.run_ret,
        Option.toList_none, List.nil_append, Bool.true_eq_false, false_implies, true_and]
      exact ih hg _ _

end walk

/-- **When a failing helper does no harm**: for a conforming PUBLISH frame and
    any failures of the helpers in the calls of `callback_fn`, the clones that
    are redirected are valid and go to the subscribers of their own calls
    exactly when, at each of them, the words written by earlier calls whose
    helper failed have moved by a multiple of 65535 in all. -/
theorem clones_valid_iff {f : Frame} {t : TopicKey} (hf : Publishes f t) (hv : Conforming f)
    (cpu : Nat) (queue_mapping : UInt32) (s : KernState)
    (hinner : (s.maps.inner t).isSome = true) :
    ∃ g, ((tc_ingress_prologue {} f).run (kern cpu) s).1 = .for_each t g ∧
      ∀ (flt : Nat → CallbackFaults) (keys : List UInt64) (s' : KernState),
        List.Forall₂ ValidClone (redirected flt keys)
            ((for_each_elem flt queue_mapping keys g).run (kern cpu) s').1 ↔
          Unharmed flt keys (.start f) := by
  obtain ⟨g, hedit, hg⟩ := drifted_of_tc_edit hf.refresh hv.header hv.toVerifies
  refine ⟨g, ?_, ?_⟩
  · rw [tc_ingress_prologue_run hf hedit, if_pos hinner]
  · intro flt keys s'
    exact hg.for_each_elem hf.refresh hv.header flt cpu queue_mapping keys s'

/-- The header checksum is not patched for the first client visited, and the
    second one gets a copy that no receiver accepts. -/
theorem failure_spreads :
    Publishes (sample_frame [97] [104, 105]) (pub_key [97]) ∧
    Conforming (sample_frame [97] [104, 105]) ∧
    ∃ g, (tc_ingress_broker ⟨listed, 0, 0, {}, fun i => { l3 := i == 0 }⟩
        (sample_frame [97] [104, 105])
        ⟨(serve_all listed two_clients .empty).2, .empty⟩).1.clones = [g] ∧
      ¬ Verifies g := by
  have hbad : ∃ g, (tc_ingress_broker ⟨listed, 0, 0, {}, fun i => { l3 := i == 0 }⟩
      (sample_frame [97] [104, 105])
      ⟨(serve_all listed two_clients .empty).2, .empty⟩).1.clones = [g] ∧
      fold (fold (word_sum g IP 10)) ≠ 65535 := by
    refine ⟨_, rfl, ?_⟩
    decide +kernel
  obtain ⟨g, hg, hsum⟩ := hbad
  exact ⟨(sample_frame_publish [97] [104, 105]).publishes shortToken_a.toToken,
    sample_frame_conforming, g, hg, fun hv => hsum hv.ip⟩

/-- The first of two calls fails at the header: the clone of the second one is
    not valid. -/
theorem clones_valid_iff_sample :
    ∃ g, ((tc_ingress_prologue {} (sample_frame [97] [104, 105])).run (kern 0)
        ⟨Maps.one (pub_key [97]) 5, .empty⟩).1 = .for_each (pub_key [97]) g ∧
      ∀ s' : KernState, ¬ List.Forall₂ ValidClone [6]
        ((for_each_elem (fun i => { l3 := i == 0 }) 0 [5, 6] g).run (kern 0) s').1 := by
  obtain ⟨g, hrun, hiff⟩ :=
    clones_valid_iff ((sample_frame_publish [97] [104, 105]).publishes shortToken_a.toToken)
      sample_frame_conforming 0 0 ⟨Maps.one (pub_key [97]) 5, .empty⟩ (by decide +kernel)
  refine ⟨g, hrun, ?_⟩
  intro s' hvalid
  obtain ⟨-, hsecond, -⟩ := (hiff (fun i => { l3 := i == 0 }) [5, 6] s').mp hvalid
  have hip := (hsecond rfl).1
  revert hip
  decide +kernel

end BpfBroker.Hash
