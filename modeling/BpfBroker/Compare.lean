import BpfBroker.Hash.Delivery
import BpfBroker.Clone.Delivery

/-! # The Two Brokers Compared

    Both brokers run on the same control datagrams. What the clients asked
    for is a third directory, with room for anyone; the hash broker keeps its
    different clients, the clone broker the first 2048 of its entries. -/

namespace BpfBroker

/-! ### What the clients asked for -/

/-- Room for everybody. -/
def anyone (_ : List SockAddr) (_ : SockAddr) : Bool := true

/-- The clients that sent a SUBSCRIBE for the registered topic `t` since its
    last FLUSH, in order and with repetitions. -/
def asked (rs : List Request) (t : TopicKey) : List SockAddr :=
  (Directory.after anyone rs : Directory Hash.MAX_TOPIC_ID).subs t

/-- A SUBSCRIBE of a registered topic is asked for. -/
theorem asked_snoc {rs : List Request} {r : Request} {name : List UInt8} {c : SockAddr}
    (hr : parse_request r = .subscribe name c) {t : TopicKey} (hk : topic_key_of name = some t)
    (hmem : t ∈ (Directory.after anyone rs : Directory Hash.MAX_TOPIC_ID).keys) :
    asked (rs ++ [r]) t = asked rs t ++ [c] := by
  unfold asked
  rw [Directory.after_snoc, hr, Directory.subs_exec_subscribe, if_pos ⟨hk, hmem, rfl⟩]

/-- **The hash broker** accepts everything that was asked for, as long as no
    topic has more than 256 different clients. -/
theorem Hash.after_eq_asked {rs : List Request}
    (h : ∀ rs' t, rs' <+: rs → (asked rs' t).dedup.length ≤ 256) :
    (Directory.after Hash.room rs : Directory Hash.MAX_TOPIC_ID) = Directory.after anyone rs := by
  induction rs using List.reverseRecOn with
  | nil => rfl
  | append_singleton rs r ih =>
    have hrs := ih fun rs' t hpre => h rs' t (hpre.trans (List.prefix_append _ _))
    rw [Directory.after_snoc, Directory.after_snoc, hrs]
    rcases hr : parse_request r with name | ⟨name, c⟩ | name | _
    · rfl
    · -- the only command for which room matters
      rcases hk : topic_key_of name with _ | t
      · simp only [Directory.exec, hk]
      by_cases hmem : t ∈ (Directory.after anyone rs : Directory Hash.MAX_TOPIC_ID).keys
      · have hle := h (rs ++ [r]) t List.prefix_rfl
        rw [asked_snoc hr hk hmem] at hle
        rw [Directory.exec_subscribe_yes _ hk hmem (Hash.room_of_dedup hle),
          Directory.exec_subscribe_yes _ hk hmem rfl]
      · have hno : ∀ room : List SockAddr → SockAddr → Bool, ∀ t', topic_key_of name = some t' →
            t' ∈ (Directory.after anyone rs : Directory Hash.MAX_TOPIC_ID).keys →
            ¬ room ((Directory.after anyone rs : Directory Hash.MAX_TOPIC_ID).subs t') c := by
          intro room t' hk' hmem'
          rw [hk] at hk'
          cases hk'
          exact absurd hmem' hmem
        rw [Directory.exec_subscribe_no _ (hno _), Directory.exec_subscribe_no _ (hno _)]
    · rfl
    · rfl

/-- **The clone broker** keeps the first 2048 of what was asked for, with the
    repetitions. -/
theorem Clone.subs_eq_asked (rs : List Request) :
    (∀ t, t ∈ (Directory.after Clone.room rs : Directory Clone.MAX_TOPIC_ID).keys ↔
      t ∈ (Directory.after anyone rs : Directory Hash.MAX_TOPIC_ID).keys) ∧
    ∀ t, (Directory.after Clone.room rs : Directory Clone.MAX_TOPIC_ID).subs t =
      (asked rs t).take Clone.MAX_SUBSCRIBERS := by
  induction rs using List.reverseRecOn with
  | nil => exact ⟨fun _ => Iff.rfl, fun _ => rfl⟩
  | append_singleton rs r ih =>
    obtain ⟨hkeys, hsubs⟩ := ih
    unfold asked at hsubs ⊢
    rw [Directory.after_snoc, Directory.after_snoc]
    generalize (Directory.after Clone.room rs : Directory Clone.MAX_TOPIC_ID) = d at hkeys hsubs ⊢
    generalize (Directory.after anyone rs : Directory Hash.MAX_TOPIC_ID) = e at hkeys hsubs ⊢
    refine ⟨?_, ?_⟩
    · intro t
      rw [Directory.mem_keys_exec, Directory.mem_keys_exec, hkeys]
      have hfits : d.fits t ↔ e.fits t := BMap.fits_congr hkeys t
      rw [hfits]
    · intro t
      rcases hr : parse_request r with name | ⟨name, c⟩ | name | _
      · rw [Directory.subs_exec, Directory.subs_exec]
        exact hsubs t
      · rw [Directory.subs_exec_subscribe, Directory.subs_exec_subscribe, hsubs]
        by_cases hjoin : topic_key_of name = some t ∧ t ∈ e.keys
        · -- one more entry, or the array is full
          by_cases hlt : (e.subs t).length < Clone.MAX_SUBSCRIBERS
          · have hroom : Clone.room ((e.subs t).take Clone.MAX_SUBSCRIBERS) c = true := by
              unfold Clone.room
              rw [decide_eq_true_iff, List.length_take]
              omega
            rw [if_pos ⟨hjoin.1, (hkeys t).mpr hjoin.2, hroom⟩, if_pos ⟨hjoin.1, hjoin.2, rfl⟩,
              List.take_of_length_le hlt.le, List.take_of_length_le]
            rw [List.length_append]
            exact hlt
          · have hroom : ¬ Clone.room ((e.subs t).take Clone.MAX_SUBSCRIBERS) c = true := by
              unfold Clone.room
              rw [decide_eq_true_iff, List.length_take]
              omega
            rw [if_neg (fun hand => hroom hand.2.2), if_pos ⟨hjoin.1, hjoin.2, rfl⟩,
              List.take_append_of_le_length (Nat.not_lt.mp hlt)]
        · rw [if_neg (fun hand => hjoin ⟨hand.1, (hkeys t).mp hand.2.1⟩),
            if_neg (fun hand => hjoin ⟨hand.1, hand.2.1⟩)]
      · rw [Directory.subs_exec, Directory.subs_exec]
        show (if _ then [] else d.subs t) = (if _ then [] else e.subs t).take _
        split
        · rfl
        · exact hsubs t
      · rw [Directory.subs_exec, Directory.subs_exec]
        exact hsubs t

/-! ### Delivery -/

/-- A list with few different elements is its first 2048 elements, up to
    repetitions, exactly when it has no repetitions. -/
theorem perm_take_iff {subs : List SockAddr} (h : subs.dedup.length ≤ 256) :
    subs.dedup.Perm (subs.take Clone.MAX_SUBSCRIBERS) ↔ subs.Nodup := by
  refine ⟨?_, ?_⟩
  · intro hperm
    have hlen := hperm.length_eq
    rw [List.length_take] at hlen
    simp only [Clone.MAX_SUBSCRIBERS] at hlen hperm
    rw [List.take_of_length_le (by omega)] at hperm
    exact hperm.nodup_iff.mp (List.nodup_dedup subs)
  · intro hnodup
    rw [hnodup.dedup] at h ⊢
    rw [List.take_of_length_le (by simp only [Clone.MAX_SUBSCRIBERS]; omega)]

/-- **Interchangeable**: while no topic has more than 256 different clients,
    the two brokers send a frame to the same clients, counted with
    repetitions, exactly when no client has asked for its topic twice. -/
theorem same_delivery_iff (ord : Hash.HashOrder) (rs : List Request)
    {token message : List UInt8} {f : Frame} (ht : ShortToken token)
    (hf : PublishFrame f token message) {env : Hash.Env} (henv : env.Healthy) (stats : Hash.Stats)
    (cpu : Nat) (pub : Nat → UInt32)
    (hle : ∀ rs' t, rs' <+: rs → (asked rs' t).dedup.length ≤ 256)
    (hlt : (asked rs (TopicKey.ofName token)).length < 2 ^ 32) :
    ((Hash.receive env f ⟨(Hash.serve_all ord rs .empty).2, stats⟩).1.map dst).Perm
        ((Clone.receive cpu f ⟨(Clone.serve_all rs .empty).2, pub⟩).1.map dst) ↔
      (asked rs (TopicKey.ofName token)).Nodup := by
  have hhash := Hash.receive_after ord rs ht.toToken hf henv stats
  have hclone := Clone.receive_after rs ht.toToken hf cpu pub
  rw [ht.pub_key_eq, Hash.after_eq_asked hle] at hhash
  rw [ht.pub_key_eq, (Clone.subs_eq_asked rs).2] at hclone
  change List.Perm _ (Hash.audience (asked rs (TopicKey.ofName token))) at hhash
  rw [Hash.audience_eq_dedup hlt] at hhash
  have hiff := perm_take_iff (hle rs (TopicKey.ofName token) List.prefix_rfl)
  rw [hclone]
  refine ⟨?_, ?_⟩
  · intro hperm
    exact hiff.mp (hhash.symm.trans hperm)
  · intro hnodup
    exact hhash.trans (hiff.mpr hnodup)

/-- A client that subscribed twice. -/
def twice : List Request :=
  [datagram REGISTER [97] ⟨0x0700000a, 0x8813⟩,
   datagram SUBSCRIBE [97] ⟨0x0800000a, 0x8813⟩,
   datagram SUBSCRIBE [97] ⟨0x0800000a, 0x8813⟩]

/-- Two clients that subscribed once. -/
def once_each : List Request :=
  [datagram REGISTER [97] ⟨0x0700000a, 0x8813⟩,
   datagram SUBSCRIBE [97] ⟨0x0800000a, 0x8813⟩,
   datagram SUBSCRIBE [97] ⟨0x0900000a, 0x8813⟩]

/-- Nobody is asked for by more clients than sent datagrams. -/
theorem length_asked_le (rs : List Request) (t : TopicKey) : (asked rs t).length ≤ rs.length := by
  induction rs using List.reverseRecOn with
  | nil => exact Nat.le_refl _
  | append_singleton rs r ih =>
    have hle : (asked (rs ++ [r]) t).length ≤ (asked rs t).length + 1 := by
      unfold asked
      rw [Directory.after_snoc, Directory.subs_exec]
      exact Served.length_apply_le _ _ _
    rw [List.length_append, List.length_singleton]
    omega

theorem dedup_asked_le {rs : List Request} (h : rs.length ≤ 256) (rs' : List Request)
    (t : TopicKey) (hpre : rs' <+: rs) : (asked rs' t).dedup.length ≤ 256 := by
  have hdedup : (asked rs' t).dedup.length ≤ (asked rs' t).length :=
    (List.dedup_sublist _).length_le
  have hasked := length_asked_le rs' t
  have hlen := hpre.length_le
  omega

/-- The hash broker sends one frame to a client that subscribed twice, the
    clone broker two. -/
theorem delivery_differs :
    ¬ ∀ (rs : List Request) (token message : List UInt8) (f : Frame), ShortToken token →
      PublishFrame f token message →
      (∀ rs' t, rs' <+: rs → (asked rs' t).dedup.length ≤ 256) →
      (asked rs (TopicKey.ofName token)).length < 2 ^ 32 →
        ((Hash.receive ⟨Hash.listed, 0, 0, {}, fun _ => {}⟩ f
          ⟨(Hash.serve_all Hash.listed rs .empty).2, .empty⟩).1.map dst).Perm
        ((Clone.receive 0 f ⟨(Clone.serve_all rs .empty).2, fun _ => 0⟩).1.map dst) := by
  intro h
  have hperm := h twice [97] [104, 105] _ shortToken_a (sample_frame_publish _ _)
    (dedup_asked_le (by decide)) (by decide +kernel)
  exact absurd hperm.length_eq (by decide +kernel)

theorem same_delivery_iff_sample :
    (asked once_each (TopicKey.ofName [97])).Nodup ∧
    ((Hash.receive ⟨Hash.listed, 0, 0, {}, fun _ => {}⟩ (sample_frame [97] [104, 105])
      ⟨(Hash.serve_all Hash.listed once_each .empty).2, .empty⟩).1.map dst).Perm
    ((Clone.receive 0 (sample_frame [97] [104, 105])
      ⟨(Clone.serve_all once_each .empty).2, fun _ => 0⟩).1.map dst) := by
  have hnodup : (asked once_each (TopicKey.ofName [97])).Nodup := by decide +kernel
  exact ⟨hnodup, (same_delivery_iff Hash.listed once_each shortToken_a
    (sample_frame_publish [97] [104, 105]) ⟨rfl, rfl⟩ .empty 0 (fun _ => 0)
    (dedup_asked_le (by decide)) (by decide +kernel)).mpr hnodup⟩

end BpfBroker
