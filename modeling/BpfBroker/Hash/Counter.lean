import BpfBroker.Hash.Delivery

/-! # What the Subscriber Counter Counts

    `add_subscriber` adds one to `topic_sub_cnt` for every SUBSCRIBE that it
    accepts, and stores the client under its address in the inner map. The
    second SUBSCRIBE of a client moves the counter but not the map, and from
    then on the topic is on the slow path, until its next FLUSH. -/

namespace BpfBroker.Hash

/-- The counter of a topic; a missing one reads as 0. -/
def Maps.cnt (m : Maps) (t : TopicKey) : UInt32 := (m.topic_sub_cnt.lookup t).getD 0

/-- The counter of `t` is the number of its subscribers, and a publication
    takes the fast path exactly when there is one. -/
structure Counted (m : Maps) (t : TopicKey) : Prop where
  cnt_eq : (m.cnt t).toNat = (m.subs t).length
  fast_path : ∀ f, Publishes f t → ∀ cpu stats,
    (((xdp_broker f).run (kern cpu) ⟨m, stats⟩).1.1 = .tx ↔ (m.subs t).length = 1)

section inv
variable {m : Maps} {d : Directory MAX_TOPIC_ID} (h : Inv m d) (t : TopicKey)
include h

theorem Inv.toNat_cnt : (m.cnt t).toNat = (d.subs t).length % 4294967296 := by
  have hcnt : m.cnt t = UInt32.ofNat (d.subs t).length := (h.topic t).cnt_eq
  rw [hcnt, UInt32.toNat_ofNat']

theorem Inv.length_subs : (m.subs t).length = (d.subs t).dedup.length := by
  have hperm := (h.topic t).keys_perm (nodup_subs m t)
  have hlen := hperm.length_eq
  rw [List.length_map] at hlen
  exact hlen

theorem Inv.mem_subs (c : SockAddr) : pack c ∈ m.subs t ↔ c ∈ d.subs t := by
  have hmem : pack c ∈ m.subs t ↔ pack c ∈ (d.subs t).map pack := (h.topic t).mem_keys (pack c)
  rw [hmem, List.mem_map]
  refine ⟨?_, ?_⟩
  · intro hex
    obtain ⟨c', hc', heq⟩ := hex
    rw [← pack_injective heq]
    exact hc'
  · intro hc
    exact ⟨c, hc, rfl⟩

/-- The fast path is taken on a counter of 1, which always has a cached
    subscriber. -/
theorem Inv.fast_path_iff {f : Frame} (hf : Publishes f t) (cpu : Nat) (stats : Stats) :
    ((xdp_broker f).run (kern cpu) ⟨m, stats⟩).1.1 = .tx ↔
      (d.subs t).length % 4294967296 = 1 := by
  rw [xdp_broker_run hf, ← (h.topic t).cnt_one]
  by_cases hone : (m.view t).cnt = some 1
  · obtain ⟨c, -, hfirst⟩ := (h.topic t).first_of_cnt_one hone
    dsimp only
    rw [if_pos hone, hfirst]
    exact ⟨fun _ => hone, fun _ => rfl⟩
  · dsimp only
    rw [if_neg hone]
    exact ⟨fun heq => absurd heq XdpAction.noConfusion, fun heq => absurd heq hone⟩

/-- **The counter is right** when no client has subscribed twice. -/
theorem Inv.counted_of_nodup (hnodup : (d.subs t).Nodup) : Counted m t := by
  have hlen := h.length_subs t
  have hle := length_subs_le m t
  rw [hnodup.dedup] at hlen
  -- an inner map has at most 256 keys, so the counter has not wrapped
  have hlt : (d.subs t).length < 4294967296 := by omega
  refine ⟨?_, ?_⟩
  · rw [h.toNat_cnt, Nat.mod_eq_of_lt hlt, hlen]
  · intro f hf cpu stats
    rw [h.fast_path_iff t hf, Nat.mod_eq_of_lt hlt, hlen]

end inv

/-- A SUBSCRIBE from a client that is there already is accepted. -/
theorem subs_exec_again {d : Directory MAX_TOPIC_ID} {name : List UInt8} {t : TopicKey}
    (hk : topic_key_of name = some t) {c : SockAddr} (hc : c ∈ d.subs t) :
    (d.exec room (.subscribe name c)).2.subs t = d.subs t ++ [c] := by
  have hreg : t ∈ d.keys := by
    by_contra hnot
    rw [Directory.subs_of_not_mem hnot] at hc
    exact absurd hc List.not_mem_nil
  have hroom : room (d.subs t) c = true := decide_eq_true (Or.inl hc)
  rw [Directory.subs_exec_subscribe, if_pos ⟨hk, hreg, hroom⟩]

/-- While nobody subscribes again, the accepted clients are different. -/
theorem nodup_subs_after (ord : HashOrder) (t : TopicKey) (rs : List Request)
    (hfresh : ∀ rs' r name c, rs' ++ [r] <+: rs → parse_request r = .subscribe name c →
      topic_key_of name = some t → pack c ∉ (serve_all ord rs' .empty).2.subs t) :
    ((Directory.after room rs : Directory MAX_TOPIC_ID).subs t).Nodup := by
  -- from the end of the sequence: only a SUBSCRIBE adds a client
  induction rs using List.reverseRecOn with
  | nil => exact List.nodup_nil
  | append_singleton rs r ih =>
    have hinv := (serve_all_refines ord rs).2
    have hrs : ((Directory.after room rs : Directory MAX_TOPIC_ID).subs t).Nodup := by
      apply ih
      intro rs' q name c hpre
      exact hfresh rs' q name c (hpre.trans (List.prefix_append _ _))
    rw [Directory.after_snoc, Directory.subs_exec]
    unfold Served.apply
    rcases hr : parse_request r with name | ⟨name, c⟩ | name | _
    · exact hrs
    · dsimp only
      split
      · -- an accepted SUBSCRIBE, of a client whose key is not in the inner map
        next hand =>
        have hnot := hfresh rs r name c List.prefix_rfl hr hand.1
        rw [hinv.mem_subs] at hnot
        exact List.nodup_append.mpr ⟨hrs, List.nodup_singleton c, by
          intro a ha b hb heq
          rw [List.mem_singleton] at hb
          exact hnot (hb ▸ heq ▸ ha)⟩
      · exact hrs
    · dsimp only
      split
      · exact List.nodup_nil
      · exact hrs
    · exact hrs

/-- **The counter counts subscribers**, after each of a sequence of requests,
    exactly when no SUBSCRIBE of the topic comes from a client that is in its
    inner map already. -/
theorem counter_counts_iff (ord : HashOrder) (rs : List Request) (t : TopicKey) :
    (∀ rs', rs' <+: rs → Counted (serve_all ord rs' .empty).2 t) ↔
      ∀ rs' r name c, rs' ++ [r] <+: rs → parse_request r = .subscribe name c →
        topic_key_of name = some t → pack c ∉ (serve_all ord rs' .empty).2.subs t := by
  refine ⟨?_, ?_⟩
  · intro hcounted rs' r name c hpre hr hk hmem
    have hinv := (serve_all_refines ord rs').2
    have hinv' := (serve_all_refines ord (rs' ++ [r])).2
    have hbefore := (hcounted rs' ((List.prefix_append _ _).trans hpre)).cnt_eq
    have hafter := (hcounted (rs' ++ [r]) hpre).cnt_eq
    rw [hinv.toNat_cnt, hinv.length_subs] at hbefore
    rw [hinv'.toNat_cnt, hinv'.length_subs] at hafter
    -- the key is in the map, so the client was accepted before
    have hc : c ∈ (Directory.after room rs' : Directory MAX_TOPIC_ID).subs t :=
      (hinv.mem_subs t c).mp hmem
    rw [Directory.after_snoc, hr, subs_exec_again hk hc] at hafter
    -- one more SUBSCRIBE, but no more clients
    have hdedup : (((Directory.after room rs' : Directory MAX_TOPIC_ID).subs t) ++
        [c]).dedup.length = ((Directory.after room rs' : Directory MAX_TOPIC_ID).subs t).dedup.length := by
      apply List.Perm.length_eq
      apply (List.perm_ext_iff_of_nodup (List.nodup_dedup _) (List.nodup_dedup _)).mpr
      intro a
      rw [List.mem_dedup, List.mem_dedup, List.mem_append, List.mem_singleton]
      refine ⟨?_, Or.inl⟩
      intro hor
      rcases hor with ha | ha
      · exact ha
      · exact ha ▸ hc
    rw [hdedup, List.length_append, List.length_singleton] at hafter
    omega
  · intro hfresh rs' hpre
    apply (serve_all_refines ord rs').2.counted_of_nodup
    apply nodup_subs_after ord
    intro rs'' r name c hpre'
    exact hfresh rs'' r name c (hpre'.trans hpre)

/-- A client that subscribes twice is one subscriber with a counter of 2, and
    its publications take the slow path. -/
theorem counter_drifts :
    ¬ ∀ (rs : List Request) (t : TopicKey), t ∈ (serve_all listed rs .empty).2.topic_subscribe.keys →
      Counted (serve_all listed rs .empty).2 t := by
  intro h
  have hcounted := h [datagram REGISTER [97] ⟨0x0700000a, 0x8813⟩,
    datagram SUBSCRIBE [97] ⟨0x0800000a, 0x8813⟩, datagram SUBSCRIBE [97] ⟨0x0800000a, 0x8813⟩]
    (TopicKey.ofName [97]) (by decide +kernel)
  exact absurd hcounted.cnt_eq (by decide +kernel)

end BpfBroker.Hash
