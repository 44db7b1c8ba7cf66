import BpfBroker.Clone.Datapath

/-! # Fan-out in the Clone Broker

    After any sequence of control datagrams, a PUBLISH frame is sent once for
    every accepted SUBSCRIBE of its topic, in their order, by one verdict for
    the original frame and one invocation for each copy. -/

namespace BpfBroker.Clone

open Atomic Buffer

/-! ### A refused SUBSCRIBE -/

/-- A SUBSCRIBE that is refused has changed nothing: the store to the count is
    the only one that could fail behind another, and it does not fail. -/
theorem refused_unchanged {m : Maps} {d : Directory MAX_TOPIC_ID} (h : Inv m d)
    (name : List UInt8) (c : SockAddr)
    (hret : ((command (.subscribe name c)).run ctl m).1 ≠ 0) :
    ((command (.subscribe name c)).run ctl m).2 = m := by
  revert hret
  show ((add_subscriber name (htonl c.sin_addr) (htons c.sin_port).toUInt32).run ctl m).1 ≠ 0 →
    ((add_subscriber name (htonl c.sin_addr) (htons c.sin_port).toUInt32).run ctl m).2 = m
  unfold add_subscriber
  rcases hk : topic_key_of name with _ | t
  · exact fun _ => rfl
  simp only [Prog.op_bind, Prog.ret_bind, Prog.run_op, Prog.pure_eq_ret, ctl]
  rcases Option.eq_none_or_eq_some (m.topic_sub_array.lookup t) with hl | ⟨a, hl⟩
  · simp only [hl]
    exact fun _ => rfl
  simp only [hl, Option.isSome_some, Bool.not_true, Bool.false_eq_true, if_false, Prog.run_op, ctl,
    Option.bind_some]
  rcases Option.eq_none_or_eq_some (a.put ((m.topic_sub_cnt.lookup t).getD 0)
    (packed_key (htonl c.sin_addr) (htons c.sin_port).toUInt32)) with hp | ⟨a', hp⟩
  · simp only [hp]
    exact fun _ => rfl
  obtain ⟨cnt, hc⟩ := BMap.update_of_fits ((m.topic_sub_cnt.lookup t).getD 0 + 1)
    (BMap.fits_of_keys_subset (Nat.le_refl _) h.nested (BMap.mem_keys_of_lookup hl))
  simp only [hp, hc, Bool.not_true, Bool.false_eq_true, if_false, Prog.run_op, ctl]
  intro hret
  exact absurd rfl hret

/-- With 2048 clients accepted, one more is refused. -/
theorem serve_full {m : Maps} {d : Directory MAX_TOPIC_ID} (h : Inv m d) {r : Request}
    {name : List UInt8} {c : SockAddr} (hr : parse_request r = .subscribe name c) {t : TopicKey}
    (hk : topic_key_of name = some t) (hfull : (d.subs t).length = MAX_SUBSCRIBERS) :
    serve r m = (⟨.subscribe name c, -1⟩, m) := by
  have hret : ((command (.subscribe name c)).run ctl m).1 = -1 := by
    obtain ⟨hret, -⟩ := (command_outline h (.subscribe name c)).result
    rw [hret, Directory.exec_subscribe_no]
    intro t' hk' _ hroom
    rw [hk] at hk'
    cases hk'
    have hlt : (d.subs t).length < MAX_SUBSCRIBERS := of_decide_eq_true hroom
    omega
  have hsame := refused_unchanged h name c (by rw [hret]; decide)
  unfold serve
  rw [hr]
  show (Served.mk _ ((command (.subscribe name c)).run ctl m).1,
    ((command (.subscribe name c)).run ctl m).2) = _
  rw [hret, hsame]

/-! ### Copies -/

/-- A copy as the driver is to send it: to `c`, from where the original frame
    went, with the MAC addresses swapped and the payload unchanged. -/
structure CopyFor (f : Frame) (c : SockAddr) (g : Frame) : Prop where
  dst_eq : dst g = c
  src_eq : src g = dst f
  mac_dest : slice g ETH_DEST ETH_ALEN = slice f ETH_SOURCE ETH_ALEN
  mac_source : slice g ETH_SOURCE ETH_ALEN = slice f ETH_DEST ETH_ALEN
  payload_eq : payload g = payload f

theorem copyFor_xdp_rewrite {f : Frame} (hlen : PAYLOAD ≤ f.length) (budget : Nat)
    (c : SockAddr) : CopyFor f c (xdp_rewrite budget (pack c) f) := by
  have hrw := xdp_rewrite_rewritten (pack c) hlen budget
  obtain ⟨hd, hs⟩ := slice_swap_macs hlen
  refine ⟨?_, ?_, ?_, ?_, hrw.payload_eq hlen⟩
  · rw [dst_xdp_rewrite budget _ hlen, unpack_pack]
  · unfold src dst
    rw [hrw.saddr, hrw.source]
  · rw [hrw.slice_eq (by simp [ETH_DEST, ETH_ALEN, IP_CHECK]), hd]
  · rw [hrw.slice_eq (by simp [ETH_SOURCE, ETH_ALEN, IP_CHECK]), hs]

/-- **Fan-out**: at most 2048 clients are accepted; the original frame is left
    as it is and asks for one copy each, in a verdict that loses nothing; copy
    `i + 1` goes to client `i`; and a SUBSCRIBE at the limit changes nothing. -/
theorem fan_out (rs : List Request) {token message : List UInt8} {f : Frame}
    (ht : ShortToken token) (hf : PublishFrame f token message) (cpu : Nat)
    (pub : Nat → UInt32) {subs : List SockAddr}
    (hsubs : subs = accepted (serve_all rs .empty).1 (TopicKey.ofName token)) :
    subs.length ≤ MAX_SUBSCRIBERS ∧
    ((xdp_broker [] f).run (kern cpu) ⟨(serve_all rs .empty).2, pub⟩).1 =
      (if subs = [] then XDP_PASS else XDP_CLONE_TX (UInt32.ofNat subs.length), f) ∧
    (XDP_CLONE_TX (UInt32.ofNat subs.length)).toNat < 2 ^ 31 ∧
    (XDP_CLONE_TX (UInt32.ofNat subs.length) >>> 5).toNat = subs.length ∧
    (XDP_CLONE_TX (UInt32.ofNat subs.length) &&& 31).toNat = 6 ∧
    (∀ i c data_meta, subs[i]? = some c → 4 ≤ data_meta.length → rd32 data_meta 0 = i + 1 →
      ∃ g, ((xdp_broker data_meta f).run (kern cpu) ⟨(serve_all rs .empty).2, pub⟩).1 =
        (XDP_TX, g) ∧ CopyFor f c g) ∧
    ∀ r name c, parse_request r = .subscribe name c →
      topic_key_of name = some (TopicKey.ofName token) → subs.length = MAX_SUBSCRIBERS →
        serve r (serve_all rs .empty).2 = (⟨.subscribe name c, -1⟩, (serve_all rs .empty).2) := by
  obtain ⟨-, hinv⟩ := serve_all_refines rs
  have hpub := hf.publishes ht.toToken
  rw [ht.pub_key_eq] at hpub
  rw [← subs_after_eq] at hsubs
  have hle := (hinv.topic (TopicKey.ofName token)).length_le
  rw [← hsubs] at hle
  have hsmall : subs.length < 67108864 := by
    simp only [MAX_SUBSCRIBERS] at hle
    omega
  obtain ⟨hcopies, haction⟩ := clone_tx_fields hsmall
  refine ⟨hle, ?_, ?_, ?_, ?_, ?_, ?_⟩
  · show ((xdp_original f).run _ _).1 = _
    rw [xdp_original_run hinv hpub, ← hsubs]
    unfold verdict
    simp only [List.length_eq_zero_iff]
  · rw [toNat_clone_tx hsmall]
    omega
  · rw [hcopies, UInt32.toNat_ofNat']
    exact Nat.mod_eq_of_lt (by omega)
  · rw [haction]
    rfl
  · intro i c data_meta hc hmeta hword
    refine ⟨xdp_rewrite 1024 (pack c) f, ?_, copyFor_xdp_rewrite (length_of_refresh hf.refresh) _ c⟩
    unfold xdp_broker
    rw [if_pos hmeta, hword]
    exact xdp_clone_run hinv hpub (hsubs ▸ hc) cpu pub
  · intro r name c hr hk hfull
    exact serve_full hinv hr hk (hsubs ▸ hfull)

theorem fan_out_sample :
    ((xdp_broker [] (sample_frame [97] [104, 105])).run (kern 0)
      ⟨(serve_all sample_requests .empty).2, fun _ => 0⟩).1 =
        (XDP_CLONE_TX 3, sample_frame [97] [104, 105]) ∧
    ∃ g, ((xdp_broker [2, 0, 0, 0] (sample_frame [97] [104, 105])).run (kern 0)
      ⟨(serve_all sample_requests .empty).2, fun _ => 0⟩).1 = (XDP_TX, g) ∧
        CopyFor (sample_frame [97] [104, 105]) ⟨0x0800000a, 0x8813⟩ g := by
  have hsubs : [⟨0x0700000a, 0x8813⟩, ⟨0x0800000a, 0x8813⟩, ⟨0x0700000a, 0x8813⟩] =
      accepted (serve_all sample_requests .empty).1 (TopicKey.ofName [97]) := by
    decide +kernel
  have h := fan_out sample_requests shortToken_a (sample_frame_publish [97] [104, 105]) 0
    (fun _ => 0) hsubs
  exact ⟨h.2.1, h.2.2.2.2.2.1 1 _ [2, 0, 0, 0] rfl (by decide) rfl⟩

/-! ### The frames sent -/

/-- The invocations for the copies of a publication. -/
theorem copies_run {m : Maps} {d : Directory MAX_TOPIC_ID} {f : Frame} {t : TopicKey} (h : Inv m d)
    (hf : Publishes f t) (cpu : Nat) {s : KernState} (hs : s.maps = m) :
    (List.range (d.subs t).length).map (fun i =>
        ((xdp_broker (le32 (i + 1)) f).run (kern cpu) s).1) =
      (d.subs t).map fun c => (XDP_TX, xdp_rewrite 1024 (pack c) f) := by
  have hle := (h.topic t).length_le
  simp only [MAX_SUBSCRIBERS] at hle
  apply List.ext_getElem?
  intro i
  rw [List.getElem?_map, List.getElem?_map]
  rcases hc : (d.subs t)[i]? with _ | c
  · have hi := List.getElem?_eq_none_iff.mp hc
    rw [List.getElem?_eq_none (by rw [List.length_range]; exact hi)]
    rfl
  · have hi := (List.getElem?_eq_some_iff.mp hc).1
    have hword : rd32 (le32 (i + 1)) 0 = i + 1 := by
      rw [rd32_le32]
      exact Nat.mod_eq_of_lt (by omega)
    rw [List.getElem?_range hi]
    show some ((xdp_clone (rd32 (le32 (i + 1)) 0) f).run (kern cpu) s).1 = _
    subst hs
    rw [hword, xdp_clone_run h hf hc cpu s.pub_counter_2]
    rfl

/-- **The frames sent** for a publication: one for each accepted client, in
    their order. -/
theorem receive_frames {m : Maps} {d : Directory MAX_TOPIC_ID} {f : Frame} {t : TopicKey}
    (h : Inv m d) (hf : Publishes f t) (cpu : Nat) (pub : Nat → UInt32) :
    (receive cpu f ⟨m, pub⟩).1 = (d.subs t).map fun c => xdp_rewrite 1024 (pack c) f := by
  have hle := (h.topic t).length_le
  simp only [MAX_SUBSCRIBERS] at hle
  obtain ⟨s, hs, hrun⟩ : ∃ s : KernState, s.maps = m ∧
      (xdp_broker [] f).run (kern cpu) ⟨m, pub⟩ = ((verdict (d.subs t).length, f), s) :=
    ⟨_, maps_run cpu _ _, Prod.ext (xdp_original_run h hf cpu pub) rfl⟩
  unfold receive
  rw [hrun]
  dsimp only
  by_cases hnil : d.subs t = []
  · rw [hnil]
    rfl
  · have hne : (d.subs t).length ≠ 0 := fun h0 => hnil (List.length_eq_zero_iff.mp h0)
    obtain ⟨hcopies, haction⟩ := clone_tx_fields (show (d.subs t).length < 67108864 by omega)
    unfold verdict
    rw [if_neg hne, if_pos haction, hcopies, UInt32.toNat_ofNat', Nat.mod_eq_of_lt (by omega),
      copies_run h hf cpu hs]
    simp [List.filter_map, Function.comp_def]

/-- They go to the accepted clients, as often as these subscribed. -/
theorem receive_dst {m : Maps} {d : Directory MAX_TOPIC_ID} {f : Frame} {t : TopicKey}
    (h : Inv m d) (hf : Publishes f t) (cpu : Nat) (pub : Nat → UInt32) :
    (receive cpu f ⟨m, pub⟩).1.map dst = d.subs t := by
  have hdst : ∀ c, dst (xdp_rewrite 1024 (pack c) f) = c := by
    intro c
    rw [dst_xdp_rewrite 1024 _ hf.length_le, unpack_pack]
  rw [receive_frames h hf]
  simp [Function.comp_def, hdst]

/-- The programs only read the topic maps. -/
theorem maps_receive (cpu : Nat) (f : Frame) (s : KernState) :
    (receive cpu f s).2.maps = s.maps := by
  have hmaps := maps_run cpu (xdp_broker [] f) s
  unfold receive
  dsimp only
  split
  · exact hmaps
  · exact hmaps

/-- A frame received after a sequence of requests. -/
theorem receive_after (rs : List Request) {token message : List UInt8} {f : Frame}
    (ht : Token token) (hf : PublishFrame f token message) (cpu : Nat) (pub : Nat → UInt32) :
    (receive cpu f ⟨(serve_all rs .empty).2, pub⟩).1.map dst =
      (Directory.after room rs : Directory MAX_TOPIC_ID).subs (pub_key token) :=
  receive_dst (serve_all_refines rs).2 (hf.publishes ht) cpu pub

end BpfBroker.Clone
