import BpfBroker.Checksum
import BpfBroker.Hash.Delivery
import BpfBroker.Clone.Datapath

/-! # Frames that Are Let Through

    A verdict `XDP_PASS` or `TC_ACT_OK` hands the frame on to the network
    stack. The XDP programs decide before they write to the frame.
    `tc_ingress_broker` turns the frame around first and returns `TC_ACT_OK`
    from the middle of that when a helper fails, so the stack gets the frame
    with the edits made up to there. -/

namespace BpfBroker

open Atomic Buffer OnesComplement

/-! ### Edits that change nothing -/

/-- Writing back what is there. -/
theorem swap_macs_eq_self {f : Frame} (hlen : PAYLOAD ≤ f.length) :
    swap_macs f = f ↔ slice f ETH_SOURCE ETH_ALEN = slice f ETH_DEST ETH_ALEN := by
  refine ⟨?_, ?_⟩
  · intro h
    have hslice := (slice_swap_macs hlen).1
    rw [h] at hslice
    exact hslice.symm
  · intro h
    simp only [PAYLOAD] at hlen
    have hbyte : ∀ i, i < 6 → rd8 f (6 + i) = rd8 f i := by
      intro i hi
      have hi' := congrArg (fun b => rd8 b i) h
      simpa only [rd8_slice (show i < ETH_ALEN from hi), Nat.zero_add] using hi'
    have hs : (slice f ETH_SOURCE ETH_ALEN).length = 6 := length_slice (by simp [ETH_ALEN]; omega)
    have hd : (slice f ETH_DEST ETH_ALEN).length = 6 := length_slice (by simp [ETH_ALEN]; omega)
    apply ext_rd8 (length_swap_macs f)
    intro i _
    unfold swap_macs
    rcases Nat.lt_or_ge i 6 with hi | hi
    · rw [rd8_wr_in (Nat.zero_le _) (by rw [hs]; omega) (by rw [length_wr]; omega),
        rd8_slice (by simp only [ETH_ALEN]; omega)]
      exact hbyte i hi
    · rw [rd8_wr_out (by rw [hs]; simp only [ETH_DEST]; omega)]
      rcases Nat.lt_or_ge i 12 with hi' | hi'
      · rw [rd8_wr_in hi (by rw [hd]; omega) (by omega),
          rd8_slice (by simp only [ETH_ALEN]; omega)]
        have hback := hbyte (i - 6) (by omega)
        rw [Nat.add_sub_cancel' hi] at hback
        simp only [ETH_DEST, Nat.zero_add]
        exact hback.symm
      · rw [rd8_wr_out (by rw [hd]; simp only [ETH_SOURCE]; omega)]

/-- A rewritten frame is the old one exactly when each of its fields is. -/
theorem Rewritten.eq_iff {f g : Frame} {saddr daddr source dest ip_check udp_check : Nat}
    (h : Rewritten f g saddr daddr source dest ip_check udp_check) (hlen : PAYLOAD ≤ f.length) :
    g = f ↔ swap_macs f = f ∧ saddr = rd32 f IP_SADDR ∧ daddr = rd32 f IP_DADDR ∧
      source = rd16 f UDP_SOURCE ∧ dest = rd16 f UDP_DEST ∧ ip_check = rd16 f IP_CHECK ∧
      udp_check = rd16 f UDP_CHECK := by
  refine ⟨?_, ?_⟩
  · intro heq
    have hmacs : swap_macs f = f := by
      apply ext_rd8 (length_swap_macs f)
      intro i _
      rcases Nat.lt_or_ge i 12 with hi | hi
      · rw [← h.other i (Or.inl (by simp only [IP_CHECK]; omega)), heq]
      · exact rd8_swap_macs hlen hi
    rw [heq] at h
    exact ⟨hmacs, h.saddr.symm, h.daddr.symm, h.source.symm, h.dest.symm, h.ip_check.symm,
      h.udp_check.symm⟩
  · intro hsame
    obtain ⟨hmacs, rfl, rfl, rfl, rfl, rfl, rfl⟩ := hsame
    have hself := rewritten_swap_macs hlen
    rw [hmacs] at hself
    exact h.unique hself

/-- Replacing a value by itself leaves a checksum alone, but for the other
    representation of zero. -/
theorem csum_replace4_self {check v : Nat} (hc : check < 65536) (hv : v < 4294967296) :
    csum_replace4 check v v = check ↔ check ≠ 65535 := by
  obtain ⟨hlt, hcast⟩ := csum_replace4_spec hc hv hv
  refine ⟨by omega, ?_⟩
  intro hne
  apply eq_of_cast_eq hlt (by omega)
  rw [hcast]
  ring

/-! ### `tc_ingress_broker` with failing helpers -/

namespace Hash

/-- A helper fails after `tc_ingress_broker` has begun to write. -/
def TcFaults.edit_fails (flt : TcFaults) : Bool := flt.l3 || flt.l4_addr || flt.l4_port

/-- The frame is its own reply as far as the edits before the failing helper
    go. -/
def Mirrored (flt : TcFaults) (f : Frame) : Prop :=
  slice f ETH_SOURCE ETH_ALEN = slice f ETH_DEST ETH_ALEN ∧
  rd32 f IP_SADDR = rd32 f IP_DADDR ∧
  (flt.l3 = false → rd16 f IP_CHECK ≠ 65535) ∧
  (flt.l3 = false → flt.l4_addr = false →
    rd16 f UDP_CHECK ≠ 65535 ∧ rd16 f UDP_SOURCE = rd16 f UDP_DEST)

/-- The edits with failing helpers: they stop at the first one, with the field
    written that the helper was to account for. -/
theorem tc_edit_faulty {f : Frame} (hf : refresh_headers f = true) (flt : TcFaults) :
    ∃ g, tc_edit flt f = (if flt.edit_fails then .error g else .ok g) ∧
      Rewritten f g (rd32 f IP_DADDR) (rd32 f IP_DADDR)
        (if flt.l3 || flt.l4_addr then rd16 f UDP_SOURCE else rd16 f UDP_DEST) (rd16 f UDP_DEST)
        (if flt.l3 then rd16 f IP_CHECK
          else csum_replace4 (rd16 f IP_CHECK) (rd32 f IP_SADDR) (rd32 f IP_DADDR))
        (if flt.l3 || flt.l4_addr then rd16 f UDP_CHECK
          else if flt.l4_port then
            csum_replace4 (rd16 f UDP_CHECK) (rd32 f IP_SADDR) (rd32 f IP_DADDR)
          else csum_replace2 (csum_replace4 (rd16 f UDP_CHECK) (rd32 f IP_SADDR) (rd32 f IP_DADDR))
            (rd16 f UDP_SOURCE) (rd16 f UDP_DEST)) := by
  have hlen := length_of_refresh hf
  have h0 := rewritten_swap_macs hlen
  obtain ⟨pull, l3, l4_addr, l4_port⟩ := flt
  unfold tc_edit bpf_l3_csum_replace bpf_l4_csum_replace4 bpf_l4_csum_replace2 TcFaults.edit_fails
  dsimp only
  rw [h0.daddr, h0.saddr]
  have h1 := h0.set_saddr hlen (rd32_lt f IP_DADDR)
  rcases l3 with _ | _
  · have h2 := h1.set_ip_check hlen (csum_replace4_lt (rd16 f IP_CHECK) (rd32 f IP_SADDR)
      (rd32 f IP_DADDR))
    simp only [Bool.false_eq_true, if_false, Bool.false_or]
    rw [h1.saddr, h1.ip_check, h2.refresh hf, h2.saddr, h2.udp_check]
    rcases l4_addr with _ | _
    · have h3 := h2.set_udp_check hlen (csum_replace4_lt (rd16 f UDP_CHECK) (rd32 f IP_SADDR)
        (rd32 f IP_DADDR))
      have h4 := h3.set_source hlen (rd16_lt f UDP_DEST)
      simp only [Bool.false_eq_true, if_false, Bool.not_true, Bool.false_or]
      rw [h3.refresh hf, h3.dest, h3.source, h4.source, h4.udp_check]
      rcases l4_port with _ | _
      · exact ⟨_, rfl, h4.set_udp_check hlen (csum_replace2_lt _ _ _)⟩
      · exact ⟨_, rfl, h4⟩
    · exact ⟨_, rfl, h2⟩
  · exact ⟨_, rfl, h1⟩

/-- What the stack gets when a helper fails. -/
theorem tc_edit_error {f : Frame} (hf : refresh_headers f = true) {flt : TcFaults}
    (hfail : flt.edit_fails = true) : ∃ g, tc_edit flt f = .error g ∧ (g = f ↔ Mirrored flt f) := by
  have hlen := length_of_refresh hf
  have hs := rd32_lt f IP_SADDR
  obtain ⟨g, hedit, hg⟩ := tc_edit_faulty hf flt
  rw [if_pos hfail] at hedit
  refine ⟨g, hedit, ?_⟩
  rw [hg.eq_iff hlen, swap_macs_eq_self hlen]
  unfold Mirrored
  -- with equal addresses, the patches do nothing but for 0xFFFF
  refine and_congr_right fun _ => ?_
  rw [eq_comm (a := rd32 f IP_DADDR)]
  refine and_congr_right fun haddr => ?_
  rw [← haddr]
  obtain ⟨pull, l3, l4_addr, l4_port⟩ := flt
  have hic := csum_replace4_self (rd16_lt f IP_CHECK) hs
  have huc := csum_replace4_self (rd16_lt f UDP_CHECK) hs
  rcases l3 with _ | _
  · rcases l4_addr with _ | _
    · rcases l4_port with _ | _
      · cases hfail
      · simp only [Bool.or_false, Bool.false_eq_true, if_false, if_true, hic, huc, true_and,
          forall_const]
        exact ⟨fun h => ⟨h.2.1, h.2.2, h.1.symm⟩, fun h => ⟨h.2.2.symm, h.1, h.2.1⟩⟩
    · simp only [Bool.or_true, Bool.false_eq_true, if_false, if_true, hic, true_and, forall_const,
        Bool.true_eq_false, false_implies]
  · simp only [Bool.true_or, if_true, true_and, Bool.true_eq_false, false_implies]

/-- `tc_ingress_broker` after its edits. -/
def tc_edited (t : TopicKey) : Except Frame Frame → Prog KernSig TcPoint
  | .error skb => .ret (.act_ok skb)
  | .ok skb => .ret (.for_each t skb)

/-- `tc_ingress_broker` on a publication, whatever helpers fail later. -/
theorem tc_ingress_prologue_faulty {f : Frame} {t : TopicKey} (hf : Publishes f t)
    {flt : TcFaults} (hpull : flt.pull = false) (cpu : Nat) (s : KernState) :
    ((tc_ingress_prologue flt f).run (kern cpu) s).1 =
      if (s.maps.inner t).isSome then ((tc_edited t (tc_edit flt f)).run (kern cpu) s).1
      else .act_ok f := by
  unfold tc_ingress_prologue
  rw [hpull, hf.refresh, hf.broker_port, hf.starts_with, hf.topic_id]
  simp only [Bool.not_true, Bool.false_eq_true, if_false, Prog.op_bind, Prog.ret_bind,
    Prog.run_op]
  show (Prog.run (kern cpu) (if (!(s.maps.inner t).isSome) = true then _ else _) _).1 = _
  rcases (s.maps.inner t).isSome
  · rfl
  · rcases tc_edit flt f with skb | skb
    · rfl
    · rfl

/-- **What `TC_ACT_OK` hands on**: the frame as it came, but for publications
    that a failing helper stopped in the middle of the edits. -/
theorem tc_act_ok_iff (env : Env) (f : Frame) (s : KernState) :
    (∀ g, (tc_ingress_broker env f s).1 = .act_ok g → g = f) ↔
      ∀ t, Publishes f t → env.tc.pull = false → (s.maps.inner t).isSome = true →
        env.tc.edit_fails = true → Mirrored env.tc f := by
  refine ⟨?_, ?_⟩
  · intro h t hf hpull hinner hfail
    obtain ⟨g, hedit, hiff⟩ := tc_edit_error hf.refresh hfail
    have hrun := tc_ingress_prologue_faulty hf hpull env.cpu s
    rw [if_pos hinner, hedit] at hrun
    apply hiff.mp
    apply h
    unfold tc_ingress_broker
    generalize (tc_ingress_prologue env.tc f).run (kern env.cpu) s = result at hrun ⊢
    obtain ⟨point, s'⟩ := result
    cases hrun
    rfl
  · intro h g hg
    by_contra hne
    have hchanged : (tc_ingress_broker env f s).1 ≠ .act_ok f := by
      rw [hg]
      simpa using hne
    obtain ⟨t, hf⟩ := publishes_of_tc hchanged
    unfold tc_ingress_broker at hg
    rcases hpull : env.tc.pull with _ | _
    · have hrun := tc_ingress_prologue_faulty hf hpull env.cpu s
      generalize (tc_ingress_prologue env.tc f).run (kern env.cpu) s = result at hrun hg
      obtain ⟨point, s'⟩ := result
      rcases hinner : (s.maps.inner t).isSome with _ | _
      · rw [hinner] at hrun
        cases hrun
        cases hg
        exact hne rfl
      rw [hinner, if_pos rfl] at hrun
      -- the edits stop, or the frame is not handed on
      rcases hfail : env.tc.edit_fails with _ | _
      · obtain ⟨g', hedit, -⟩ := tc_edit_faulty hf.refresh env.tc
        rw [hfail] at hedit
        rw [hedit] at hrun
        cases hrun
        cases hg
      · obtain ⟨g', hedit, hiff⟩ := tc_edit_error hf.refresh hfail
        rw [hedit] at hrun
        cases hrun
        cases hg
        exact hne (hiff.mpr (h t hf hpull hinner hfail))
    · rw [tc_ingress_prologue_other env.tc (Or.inl hpull)] at hg
      cases hg
      exact hne rfl

/-- `tc_ingress_broker` leaves the topic maps alone. -/
theorem maps_tc_ingress_broker (env : Env) (f : Frame) (s : KernState) :
    (tc_ingress_broker env f s).2.maps = s.maps := by
  have hprologue := maps_run env.cpu (tc_ingress_prologue env.tc f) s
  unfold tc_ingress_broker
  generalize (tc_ingress_prologue env.tc f).run (kern env.cpu) s = result at hprologue ⊢
  obtain ⟨point, s'⟩ := result
  cases point with
  | act_ok skb => exact hprologue
  | for_each t skb => exact (maps_run env.cpu _ s').trans hprologue

/-- `xdp_broker` decides before it writes. -/
theorem xdp_pass_unchanged {f g : Frame} {cpu : Nat} {s s' : KernState}
    (h : (xdp_broker f).run (kern cpu) s = ((.pass, g), s')) : g = f := by
  by_contra hne
  have hother : ((xdp_broker f).run (kern cpu) s).1 ≠ (.pass, f) := by
    rw [h]
    simpa using hne
  obtain ⟨t, hf⟩ := publishes_of_xdp hother
  exact hne (eq_of_xdp_pass hf h)

end Hash

/-! ### `xdp_broker` of the clone broker -/

namespace Clone

/-- An original frame is never written to. -/
theorem xdp_original_frame (f : Frame) (cpu : Nat) (s : KernState) :
    ((xdp_original f).run (kern cpu) s).1.2 = f := by
  by_cases hpass : ((xdp_original f).run (kern cpu) s).1 = (XDP_PASS, f)
  · rw [hpass]
  · obtain ⟨t, hf⟩ := publishes_of_original hpass
    rw [xdp_original_eq hf, Prog.run_op, Prog.run_op]
    show ((xdp_counted f (s.maps.topic_sub_cnt.lookup t)).run _ _).1.2 = f
    unfold xdp_counted
    split
    · rfl
    · split <;> rfl

/-- A copy is dropped or sent. -/
theorem xdp_clone_not_passed (num_copy : Nat) (f : Frame) (cpu : Nat) (s : KernState) :
    ((xdp_clone num_copy f).run (kern cpu) s).1.1 ≠ XDP_PASS := by
  have hdrop : XDP_DROP ≠ XDP_PASS := by decide
  have htx : XDP_TX ≠ XDP_PASS := by decide
  by_cases hother : num_copy = 0 ∨ ∀ t, ¬ Publishes f t
  · rw [xdp_clone_other hother]
    exact hdrop
  · obtain ⟨hk, hpub⟩ := not_or.mp hother
    obtain ⟨t, hf⟩ := not_forall_not.mp hpub
    rw [xdp_clone_eq hf hk, Prog.run_op]
    unfold xdp_array
    split
    · rw [Prog.run_op]
      unfold xdp_addressed
      split
      · exact hdrop
      · exact htx
    · exact hdrop

theorem xdp_pass_unchanged {data_meta : List UInt8} {f g : Frame} {cpu : Nat} {s s' : KernState}
    (h : (xdp_broker data_meta f).run (kern cpu) s = ((XDP_PASS, g), s')) : g = f := by
  unfold xdp_broker at h
  split at h
  · have hverdict := xdp_clone_not_passed (rd32 data_meta 0) f cpu s
    rw [h] at hverdict
    exact absurd rfl hverdict
  · have hframe := xdp_original_frame f cpu s
    rw [h] at hframe
    exact hframe

end Clone

/-! ### All three programs -/

/-- What the programs hand on to the network stack is the frame they got, and
    the topic maps are as they were. -/
structure PassesOn (f : Frame) (data_meta : List UInt8) (env : Hash.Env) (s : Hash.KernState)
    (cs : Clone.KernState) : Prop where
  xdp : ∀ g s', (Hash.xdp_broker f).run (Hash.kern env.cpu) s = ((.pass, g), s') →
    g = f ∧ s'.maps = s.maps
  tc : ∀ g s', Hash.tc_ingress_broker env f s = (.act_ok g, s') → g = f ∧ s'.maps = s.maps
  xdp_clone : ∀ g s', (Clone.xdp_broker data_meta f).run (Clone.kern env.cpu) cs =
    ((Clone.XDP_PASS, g), s') → g = f ∧ s'.maps = cs.maps

/-- **Let through is unchanged**, for every frame, state and pattern of helper
    failures, exactly when no helper fails in the middle of
    `tc_ingress_broker`'s edits of a publication to a registered topic, or
    those edits write what is there already. -/
theorem passes_on_iff (f : Frame) (data_meta : List UInt8) (env : Hash.Env) (s : Hash.KernState)
    (cs : Clone.KernState) :
    PassesOn f data_meta env s cs ↔
      ∀ t, Publishes f t → env.tc.pull = false → (s.maps.inner t).isSome = true →
        env.tc.edit_fails = true → Hash.Mirrored env.tc f := by
  rw [← Hash.tc_act_ok_iff]
  refine ⟨?_, ?_⟩
  · intro h g hg
    exact (h.tc g _ (Prod.ext hg rfl)).1
  · intro h
    refine ⟨?_, ?_, ?_⟩
    · intro g s' hrun
      have hmaps := Hash.maps_run env.cpu (Hash.xdp_broker f) s
      rw [hrun] at hmaps
      exact ⟨Hash.xdp_pass_unchanged hrun, hmaps⟩
    · intro g s' hrun
      have hmaps := Hash.maps_tc_ingress_broker env f s
      rw [hrun] at hmaps
      exact ⟨h g (by rw [hrun]), hmaps⟩
    · intro g s' hrun
      have hmaps := Clone.maps_run env.cpu (Clone.xdp_broker data_meta f) cs
      rw [hrun] at hmaps
      exact ⟨Clone.xdp_pass_unchanged hrun, hmaps⟩

/-- The second checksum helper fails, and the host gets the sample frame with
    its own address as the sender and a UDP checksum for another one. -/
theorem half_edited_frame_passed :
    ∃ g, (Hash.tc_ingress_broker ⟨Hash.listed, 0, 0, { l4_addr := true }, fun _ => {}⟩
        (sample_frame [97] [104, 105])
        ⟨(Hash.serve_all Hash.listed two_clients .empty).2, .empty⟩).1 = .act_ok g ∧
      g ≠ sample_frame [97] [104, 105] :=
  ⟨wr16 (wr32 (swap_macs (sample_frame [97] [104, 105])) IP_SADDR 0x0100000a) IP_CHECK
    (csum_replace4 48486 0x0700000a 0x0100000a), by decide +kernel, by decide +kernel⟩

end BpfBroker
