import BpfBroker.Hash.Invariant
import BpfBroker.Publish

/-! # The Hash Broker's Data Path

    What `xdp_broker` and `tc_ingress_broker` do with a PUBLISH frame, as a
    function of what the maps hold about its topic, when nothing interferes
    and the helper calls succeed. -/

namespace BpfBroker.Hash

open Atomic Buffer

/-- The kernel programs leave the topic maps alone. -/
theorem maps_run {α : Type} (cpu : Nat) (p : Prog KernSig α) (s : KernState) :
    (p.run (kern cpu) s).2.maps = s.maps :=
  Prog.run_preserves (fun o s => by cases o <;> rfl) p s

/-! ### Header edits of the TC program -/

/-- A checksum update with the kernel's helper stays in range. -/
theorem csum_replace4_lt (check old new : Nat) : csum_replace4 check old new < 65536 :=
  OnesComplement.finish_le _

theorem csum_replace2_lt (check old new : Nat) : csum_replace2 check old new < 65536 := by
  unfold csum_replace2
  omega

/-- **The frame `tc_ingress_broker` hands to the walk**: turned around, with
    its destination still in place. -/
theorem tc_edit_ok {f : Frame} (hf : refresh_headers f = true) :
    ∃ g, tc_edit {} f = .ok g ∧
      Rewritten f g (rd32 f IP_DADDR) (rd32 f IP_DADDR) (rd16 f UDP_DEST) (rd16 f UDP_DEST)
        (csum_replace4 (rd16 f IP_CHECK) (rd32 f IP_SADDR) (rd32 f IP_DADDR))
        (csum_replace2 (csum_replace4 (rd16 f UDP_CHECK) (rd32 f IP_SADDR) (rd32 f IP_DADDR))
          (rd16 f UDP_SOURCE) (rd16 f UDP_DEST)) := by
  have hlen := length_of_refresh hf
  have h0 := rewritten_swap_macs hlen
  unfold tc_edit bpf_l3_csum_replace bpf_l4_csum_replace4 bpf_l4_csum_replace2
  simp only [Bool.false_eq_true, if_false]
  rw [h0.daddr, h0.saddr]
  have h1 := h0.set_saddr hlen (rd32_lt f IP_DADDR)
  rw [h1.saddr, h1.ip_check]
  have h2 := h1.set_ip_check hlen (csum_replace4_lt (rd16 f IP_CHECK) (rd32 f IP_SADDR)
    (rd32 f IP_DADDR))
  rw [h2.refresh hf, h2.saddr, h2.udp_check]
  have h3 := h2.set_udp_check hlen (csum_replace4_lt (rd16 f UDP_CHECK) (rd32 f IP_SADDR)
    (rd32 f IP_DADDR))
  rw [h3.refresh hf, h3.dest, h3.source]
  have h4 := h3.set_source hlen (rd16_lt f UDP_DEST)
  rw [h4.source, h4.udp_check]
  exact ⟨_, rfl, h4.set_udp_check hlen (csum_replace2_lt _ _ _)⟩

/-- **The frame `callback_fn` redirects**: the frame it was handed with a new
    destination. -/
theorem callback_edit_ok {f skb : Frame} {saddr daddr source dest ip_check udp_check : Nat}
    (hf : refresh_headers f = true)
    (h : Rewritten f skb saddr daddr source dest ip_check udp_check) (packed : UInt64) :
    ∃ g, callback_edit {} packed skb = .ok g ∧
      Rewritten f g saddr (dest_ip packed) source (dest_port packed)
        (csum_replace4 ip_check daddr (dest_ip packed))
        (csum_replace2 (csum_replace4 udp_check daddr (dest_ip packed)) dest
          (dest_port packed)) := by
  have hlen := length_of_refresh hf
  unfold callback_edit bpf_l3_csum_replace bpf_l4_csum_replace4 bpf_l4_csum_replace2
  simp only [Bool.false_eq_true, if_false]
  rw [h.refresh hf, h.daddr, h.dest]
  have h1 := h.set_daddr hlen (dest_ip_lt packed)
  rw [h1.daddr, h1.ip_check]
  have h2 := h1.set_ip_check hlen (csum_replace4_lt ip_check daddr (dest_ip packed))
  rw [h2.refresh hf, h2.daddr, h2.udp_check]
  have h3 := h2.set_udp_check hlen (csum_replace4_lt udp_check daddr (dest_ip packed))
  have h4 := h3.set_dest hlen (dest_port_lt packed)
  rw [h3.refresh hf, h4.dest, h4.udp_check]
  have h5 := h4.set_udp_check hlen
    (csum_replace2_lt (csum_replace4 udp_check daddr (dest_ip packed)) dest (dest_port packed))
  rw [h5.refresh hf]
  exact ⟨_, rfl, h5⟩

/-- One call of `callback_fn`. -/
theorem callback_fn_run {skb g : Frame} {packed : UInt64}
    (h : callback_edit {} packed skb = .ok g) (cpu : Nat) (queue_mapping : UInt32) (s : KernState) :
    ((callback_fn {} queue_mapping packed skb).run (kern cpu) s).1 = (g, some g) := by
  unfold callback_fn
  rw [h]
  rfl

/-! ### The walk -/

/-- **Rule of the walk**: if each call of `callback_fn` gets through on a
    packet with the invariant `P`, keeps it, and makes a clone with the property
    `Q`, then there is one such clone for each key, in order. -/
theorem for_each_elem_rule {P : Frame → Prop} {Q : UInt64 → Frame → Prop}
    (hstep : ∀ skb key, P skb → ∃ g, callback_edit {} key skb = .ok g ∧ P g ∧ Q key g)
    {skb : Frame} (h : P skb) (cpu : Nat) (queue_mapping : UInt32) (keys : List UInt64)
    (s : KernState) :
    List.Forall₂ Q keys
      ((for_each_elem (fun _ => {}) queue_mapping keys skb).run (kern cpu) s).1 := by
  induction keys generalizing skb s with
  | nil => exact List.Forall₂.nil
  | cons key keys ih =>
    obtain ⟨g, hedit, hg, hclone⟩ := hstep skb key h
    unfold for_each_elem callback_fn
    simp only [hedit, Prog.op_bind, Prog.ret_bind, Prog.pure_eq_ret, Prog.run_op, Prog.run_bind,
      Prog.run_ret, Option.toList_some, List.singleton_append]
    exact List.Forall₂.cons hclone (ih hg _)

/-- The frame that the client behind `key` gets for `f`: `f` with new
    addresses. -/
structure SentTo (f : Frame) (key : UInt64) (g : Frame) : Prop where
  dst_eq : dst g = unpack key
  rewritten : ∃ saddr daddr source dest ip_check udp_check,
    Rewritten f g saddr daddr source dest ip_check udp_check

theorem map_dst_of_sentTo {f : Frame} {keys : List UInt64} {frames : List Frame}
    (h : List.Forall₂ (SentTo f) keys frames) : frames.map dst = keys.map unpack := by
  induction h with
  | nil => rfl
  | cons hsent _ ih => rw [List.map_cons, List.map_cons, hsent.dst_eq, ih]

theorem rewritten_of_sentTo {f g : Frame} {keys : List UInt64} {frames : List Frame}
    (h : List.Forall₂ (SentTo f) keys frames) (hg : g ∈ frames) :
    ∃ saddr daddr source dest ip_check udp_check,
      Rewritten f g saddr daddr source dest ip_check udp_check := by
  induction h with
  | nil => cases hg
  | cons hsent _ ih =>
    rcases List.mem_cons.mp hg with rfl | hmem
    · exact hsent.rewritten
    · exact ih hmem

/-- **One clone for each key**, addressed to the client the key stands for. -/
theorem for_each_elem_sentTo {f skb : Frame} {saddr daddr source dest ip_check udp_check : Nat}
    (hf : refresh_headers f = true)
    (h : Rewritten f skb saddr daddr source dest ip_check udp_check) (cpu : Nat)
    (queue_mapping : UInt32) (keys : List UInt64) (s : KernState) :
    List.Forall₂ (SentTo f) keys
      ((for_each_elem (fun _ => {}) queue_mapping keys skb).run (kern cpu) s).1 := by
  refine for_each_elem_rule (P := fun skb => ∃ daddr dest ip_check udp_check,
    Rewritten f skb saddr daddr source dest ip_check udp_check) ?_ ⟨_, _, _, _, h⟩ cpu
    queue_mapping keys s
  intro skb key hskb
  obtain ⟨_, _, _, _, hskb⟩ := hskb
  obtain ⟨g, hedit, hg⟩ := callback_edit_ok hf hskb key
  exact ⟨g, hedit, ⟨_, _, _, _, hg⟩, dst_eq hg.daddr hg.dest, _, _, _, _, _, _, hg⟩

/-! ### The programs on a PUBLISH frame -/

/-- `xdp_broker` after the lookup in `topic_first_sub`. -/
def xdp_cached (f : Frame) : Option UInt64 → Prog KernSig (XdpAction × Frame)
  | none => .ret (.drop, f)
  | some packed => .op .clone_count fun _ => .ret (.tx, xdp_rewrite 128 packed f)

/-- `xdp_broker` after the lookup in `topic_sub_cnt`. -/
def xdp_counted (f : Frame) (t : TopicKey) (cnt : Option UInt32) :
    Prog KernSig (XdpAction × Frame) :=
  if cnt = some 1 then .op (.first_lookup t) (xdp_cached f) else .ret (.pass, f)

/-- `tc_ingress_broker` after the lookup in `topic_subscribe`, with `g` the
    frame it has turned around. -/
def tc_found (f g : Frame) (t : TopicKey) (found : Bool) : Prog KernSig TcPoint :=
  if found then .ret (.for_each t g) else .ret (.act_ok f)

/-! ### Other frames -/

section other
variable {f : Frame}

theorem xdp_broker_other (h : is_publish f = false) : xdp_broker f = .ret (.pass, f) := by
  unfold is_publish at h
  unfold xdp_broker
  rcases hp : parse_udp_packet f with _ | _
  · rfl
  rcases hb : broker_port f with _ | _
  · rfl
  rcases hs : starts_with (payload f) PUBLISH with _ | _
  · rfl
  · rw [hp, hb, hs] at h
    cases h

theorem xdp_broker_no_topic (h : is_publish f = true)
    (ht : extract_topic_id ((payload f).drop 8) = none) :
    xdp_broker f = .op .pub_count fun _ => .ret (.pass, f) := by
  unfold is_publish at h
  simp only [Bool.and_eq_true] at h
  unfold xdp_broker
  rw [h.1.1, h.1.2, h.2, ht]
  rfl

theorem tc_ingress_prologue_other (flt : TcFaults) (h : flt.pull = true ∨ is_publish f = false) :
    tc_ingress_prologue flt f = .ret (.act_ok f) := by
  rw [is_publish_eq] at h
  unfold tc_ingress_prologue
  rcases hpull : flt.pull with _ | _
  · rw [hpull] at h
    rcases hr : refresh_headers f with _ | _
    · rfl
    rcases hb : broker_port f with _ | _
    · rfl
    rcases hs : starts_with (payload f) PUBLISH with _ | _
    · rfl
    · rw [hr, hb, hs] at h
      simp at h
  · rfl

theorem tc_ingress_prologue_no_topic (flt : TcFaults) (hpull : flt.pull = false)
    (h : is_publish f = true) (ht : extract_topic_id ((payload f).drop 8) = none) :
    tc_ingress_prologue flt f = .op .pub_count fun _ => .ret (.act_ok f) := by
  rw [is_publish_eq] at h
  simp only [Bool.and_eq_true] at h
  unfold tc_ingress_prologue
  rw [hpull, h.1.1, h.1.2, h.2, ht]
  rfl

end other

section publish
variable {f : Frame} {t : TopicKey} (hf : Publishes f t)
include hf

/-- `xdp_broker` reaches its lookups. -/
theorem xdp_broker_eq :
    xdp_broker f =
      .op .pub_count fun _ => .op (.cnt_lookup t) (xdp_counted f t) := by
  unfold xdp_broker
  simp only [hf.parse, hf.broker_port, hf.starts_with, hf.topic_id, Bool.not_true,
    Bool.false_eq_true, if_false, Prog.op_bind, Prog.ret_bind, Prog.pure_eq_ret]
  congr 1
  funext _
  congr 1
  funext cnt
  unfold xdp_counted
  by_cases hone : cnt = some 1
  · rw [if_neg (fun h => h hone), if_pos hone]
    congr 1
  · rw [if_pos hone, if_neg hone]

/-- `tc_ingress_broker` reaches its lookup. -/
theorem tc_ingress_prologue_eq {g : Frame} (hg : tc_edit {} f = .ok g) :
    tc_ingress_prologue {} f =
      .op .pub_count fun _ =>
        .op (.outer_lookup t) (tc_found f g t) := by
  unfold tc_ingress_prologue
  simp only [hf.refresh, hf.broker_port, hf.starts_with, hf.topic_id, hg, Bool.not_true,
    Bool.false_eq_true, if_false, Prog.op_bind, Prog.ret_bind, Prog.pure_eq_ret]
  congr 1
  funext _
  congr 1
  funext found
  cases found <;> rfl

/-- **`xdp_broker`**: a counter of 1 sends the frame to the cached subscriber,
    anything else passes it on. -/
theorem xdp_broker_run (cpu : Nat) (s : KernState) :
    ((xdp_broker f).run (kern cpu) s).1 =
      if (s.maps.view t).cnt = some 1 then
        match (s.maps.view t).first with
        | none => (.drop, f)
        | some packed => (.tx, xdp_rewrite 128 packed f)
      else (.pass, f) := by
  rw [xdp_broker_eq hf, Prog.run_op, Prog.run_op]
  show ((xdp_counted f t (s.maps.view t).cnt).run _ _).1 = _
  unfold xdp_counted
  by_cases hone : (s.maps.view t).cnt = some 1
  · rw [if_pos hone, if_pos hone, Prog.run_op]
    show ((xdp_cached f (s.maps.view t).first).run _ _).1 = _
    cases (s.maps.view t).first <;> rfl
  · rw [if_neg hone, if_neg hone]
    rfl

/-- A frame that is passed on is passed on as it came. -/
theorem eq_of_xdp_pass {cpu : Nat} {s s' : KernState} {g : Frame}
    (h : (xdp_broker f).run (kern cpu) s = ((.pass, g), s')) : g = f := by
  have hrun := xdp_broker_run hf cpu s
  rw [h] at hrun
  by_cases hone : (s.maps.view t).cnt = some 1
  · -- dropped or sent
    rw [if_pos hone] at hrun
    rcases hfirst : (s.maps.view t).first with _ | packed
    · rw [hfirst] at hrun
      cases hrun
    · rw [hfirst] at hrun
      cases hrun
  · rw [if_neg hone] at hrun
    exact congrArg Prod.snd hrun

theorem tc_ingress_prologue_run {g : Frame} (hg : tc_edit {} f = .ok g) (cpu : Nat)
    (s : KernState) :
    (tc_ingress_prologue {} f).run (kern cpu) s =
      (if (s.maps.inner t).isSome then .for_each t g else .act_ok f,
        (kern cpu .pub_count s).2) := by
  rw [tc_ingress_prologue_eq hf hg, Prog.run_op, Prog.run_op]
  show (tc_found f g t (s.maps.inner t).isSome).run _ _ = _
  cases (s.maps.inner t).isSome <;> rfl

/-- **`tc_ingress_broker`**: one clone for each key of the inner map. -/
theorem tc_ingress_broker_sentTo {env : Env} (henv : env.Healthy) (s : KernState) :
    List.Forall₂ (SentTo f) (env.ord.walk (s.maps.subs t)) (tc_ingress_broker env f s).1.clones := by
  obtain ⟨g, hedit, hg⟩ := tc_edit_ok hf.refresh
  unfold tc_ingress_broker
  rw [henv.tc, henv.callback, tc_ingress_prologue_run hf hedit]
  rcases hi : (s.maps.inner t).isSome
  · -- no inner map: the frame goes up the stack, and nobody is subscribed
    have hnone : s.maps.inner t = none := by simpa using hi
    have hnil : s.maps.subs t = [] := by
      unfold Maps.subs
      rw [hnone]
    rw [hnil, (env.ord.walk_perm []).eq_nil]
    exact List.Forall₂.nil
  · exact for_each_elem_sentTo hf.refresh hg env.cpu env.queue_mapping
      (env.ord.walk (s.maps.subs t)) (kern env.cpu .pub_count s).2

/-- **The pipeline**: the cached subscriber alone when the counter is 1, else
    everybody in the inner map, in the order of the walk. -/
theorem receive_sentTo {env : Env} (henv : env.Healthy) (s : KernState) :
    List.Forall₂ (SentTo f)
      (if (s.maps.view t).cnt = some 1 then (s.maps.view t).first.toList
        else env.ord.walk (s.maps.view t).keys)
      (receive env f s).1 := by
  have hrun := xdp_broker_run hf env.cpu s
  have hmaps := maps_run env.cpu (xdp_broker f) s
  unfold receive
  generalize (xdp_broker f).run (kern env.cpu) s = result at hrun hmaps ⊢
  obtain ⟨⟨verdict, g⟩, s'⟩ := result
  by_cases hone : (s.maps.view t).cnt = some 1
  · rw [if_pos hone] at hrun ⊢
    rcases hfirst : (s.maps.view t).first with _ | packed
    · rw [hfirst] at hrun
      cases hrun
      exact List.Forall₂.nil
    · rw [hfirst] at hrun
      cases hrun
      have hlen := length_of_refresh hf.refresh
      have hsent : SentTo f packed (xdp_rewrite 128 packed f) :=
        ⟨dst_xdp_rewrite 128 packed hlen, _, _, _, _, _, _, xdp_rewrite_rewritten packed hlen 128⟩
      exact List.Forall₂.cons hsent List.Forall₂.nil
  · rw [if_neg hone] at hrun ⊢
    cases hrun
    have htc := tc_ingress_broker_sentTo hf henv s'
    rw [hmaps] at htc
    exact htc

/-- Where the frames go. -/
theorem receive_dst {env : Env} (henv : env.Healthy) (s : KernState) :
    ((receive env f s).1.map dst).Perm
      (if (s.maps.view t).cnt = some 1 then
        ((s.maps.view t).first.map unpack).toList
      else (s.maps.view t).keys.map unpack) := by
  rw [map_dst_of_sentTo (receive_sentTo hf henv s)]
  by_cases hone : (s.maps.view t).cnt = some 1
  · rw [if_pos hone, if_pos hone, Option.toList_map]
  · rw [if_neg hone, if_neg hone]
    exact (env.ord.walk_perm _).map unpack

/-- Maps in which the topic has `packed` as its only subscriber. -/
def Maps.one (t : TopicKey) (packed : UInt64) : Maps :=
  ⟨.single (by decide) t (.single (by decide) packed 1), .single (by decide) t 1,
    .single (by decide) t packed⟩

theorem xdp_broker_run_one (cpu : Nat) (stats : Stats) (packed : UInt64) :
    ((xdp_broker f).run (kern cpu) ⟨Maps.one t packed, stats⟩).1 =
      (.tx, xdp_rewrite 128 packed f) := by
  have hcnt : ((Maps.one t packed).view t).cnt = some 1 := by simp [Maps.view, Maps.one]
  have hfirst : ((Maps.one t packed).view t).first = some packed := by simp [Maps.view, Maps.one]
  rw [xdp_broker_run hf, if_pos hcnt, hfirst]

end publish

/-- Only publications are not passed on as they are. -/
theorem publishes_of_xdp {f : Frame} {cpu : Nat} {s : KernState}
    (h : ((xdp_broker f).run (kern cpu) s).1 ≠ (.pass, f)) : ∃ t, Publishes f t := by
  rcases hp : is_publish f with _ | _
  · rw [xdp_broker_other hp] at h
    exact absurd rfl h
  rcases ht : extract_topic_id ((payload f).drop 8) with _ | t
  · rw [xdp_broker_no_topic hp ht] at h
    exact absurd rfl h
  · exact ⟨t, publishes_iff.mpr ⟨hp, ht⟩⟩

theorem publishes_of_tc {f : Frame} {env : Env} {s : KernState}
    (h : (tc_ingress_broker env f s).1 ≠ .act_ok f) : ∃ t, Publishes f t := by
  rcases hp : is_publish f with _ | _
  · unfold tc_ingress_broker at h
    rw [tc_ingress_prologue_other env.tc (Or.inr hp)] at h
    exact absurd rfl h
  rcases hpull : env.tc.pull with _ | _
  · rcases ht : extract_topic_id ((payload f).drop 8) with _ | t
    · unfold tc_ingress_broker at h
      rw [tc_ingress_prologue_no_topic env.tc hpull hp ht] at h
      exact absurd rfl h
    · exact ⟨t, publishes_iff.mpr ⟨hp, ht⟩⟩
  · unfold tc_ingress_broker at h
    rw [tc_ingress_prologue_other env.tc (Or.inl hpull)] at h
    exact absurd rfl h

/-! ### Who gets a frame -/

/-- The clients a frame goes to. A counter that has wrapped to 1 hides all but
    the latest client. -/
def audience (subs : List SockAddr) : List SockAddr :=
  if subs.length % 4294967296 = 1 then subs.getLast?.toList else subs.dedup

/-- While the counter has not wrapped, every client once. -/
theorem audience_eq_dedup {subs : List SockAddr} (h : subs.length < 4294967296) :
    audience subs = subs.dedup := by
  unfold audience
  split
  · next hone =>
    obtain ⟨c, rfl⟩ := List.length_eq_one_iff.mp (show subs.length = 1 by omega)
    rfl
  · rfl

theorem mem_of_mem_audience {subs : List SockAddr} {c : SockAddr} (h : c ∈ audience subs) :
    c ∈ subs := by
  unfold audience at h
  split at h
  · exact List.mem_of_getLast? (Option.mem_toList.mp h)
  · exact List.mem_dedup.mp h

theorem mem_audience {subs : List SockAddr} {c : SockAddr} :
    c ∈ audience subs ↔ c ∈ subs ∧ (subs.length % 4294967296 = 1 → subs.getLast? = some c) := by
  refine ⟨?_, ?_⟩
  · intro h
    refine ⟨mem_of_mem_audience h, ?_⟩
    intro hone
    unfold audience at h
    rw [if_pos hone] at h
    exact Option.mem_toList.mp h
  · intro h
    unfold audience
    split
    · next hone => exact Option.mem_toList.mpr (h.2 hone)
    · exact List.mem_dedup.mpr h.1

/-- **Delivery from a directory**: the frame goes to the audience of its
    topic. -/
theorem receive_audience {f : Frame} {t : TopicKey} (hf : Publishes f t) {env : Env}
    (henv : env.Healthy) {s : KernState} {d : Directory MAX_TOPIC_ID} (h : Inv s.maps d) :
    ((receive env f s).1.map dst).Perm (audience (d.subs t)) := by
  have hmatch := h.topic t
  refine (receive_dst hf henv s).trans ?_
  unfold audience
  by_cases hone : (s.maps.view t).cnt = some 1
  · obtain ⟨c, hlast, hfirst⟩ := hmatch.first_of_cnt_one hone
    rw [if_pos hone, if_pos (hmatch.cnt_one.mp hone), hlast, hfirst]
    simp
  · rw [if_neg hone, if_neg (fun hlen => hone (hmatch.cnt_one.mpr hlen))]
    have hperm := hmatch.keys_perm (nodup_subs s.maps t)
    have := hperm.map unpack
    rwa [map_unpack_pack] at this

end BpfBroker.Hash
