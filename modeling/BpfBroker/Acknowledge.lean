import BpfBroker.Hash.Delivery
import BpfBroker.Clone.Delivery

/-! # Acknowledged Subscriptions

    The main loop answers every SUBSCRIBE with a SUBACK, whatever
    `add_subscriber` returned. An acknowledged client gets the publications of
    its topic exactly when the topic was registered and there was room for
    the client; in the hash broker also only while its counter does not come
    round to 1 with another client in the cache. -/

namespace BpfBroker

/-- The datagram sent back for a command that was carried out. -/
def Served.reply (e : Served) : Option (List UInt8) := e.cmd.reply e.ret

/-! ### Until the next FLUSH -/

/-- A client stays accepted after its SUBSCRIBE exactly when it was accepted
    then. -/
theorem Directory.accepted_iff (cap : Nat) (room : List SockAddr → SockAddr → Bool)
    (rs₁ rs₂ : List Request) {r : Request} {name : List UInt8} {c : SockAddr}
    (hr : parse_request r = .subscribe name c) {t : TopicKey}
    (hk : topic_key_of name = some t) (hflush : ∀ q ∈ rs₂, ¬ (parse_request q).Flushes t) :
    (∀ rs', rs' <+: rs₂ →
      c ∈ (Directory.after room (rs₁ ++ r :: rs') : Directory cap).subs t) ↔
      t ∈ (Directory.after room rs₁ : Directory cap).keys ∧
        (c ∈ (Directory.after room rs₁ : Directory cap).subs t ∨
          room ((Directory.after room rs₁ : Directory cap).subs t) c) := by
  have hjoined : c ∈ (Directory.exec room (.subscribe name c)
      (Directory.after room rs₁ : Directory cap)).2.subs t ↔ _ :=
    Directory.mem_subs_subscribe _ hk c
  rw [← hr, ← Directory.after_snoc] at hjoined
  rw [← hjoined]
  refine ⟨?_, ?_⟩
  · intro h
    exact h [] List.nil_prefix
  · intro h rs' hpre
    have hgrow : (Directory.after room (rs₁ ++ [r]) : Directory cap).subs t <+:
        (Directory.after room (rs₁ ++ [r] ++ rs') : Directory cap).subs t :=
      Directory.subs_after_prefix _ _ fun q hq => hflush q (hpre.subset hq)
    rw [List.append_assoc] at hgrow
    exact hgrow.subset h

/-! ### The hash broker -/

namespace Hash

/-- After the requests `rs`, the client is among the destinations of every
    publication to `token`. -/
def Reaches (ord : HashOrder) (env : Env) (stats : Stats) (rs : List Request)
    (token : List UInt8) (c : SockAddr) : Prop :=
  ∀ message f, PublishFrame f token message →
    c ∈ (receive env f ⟨(serve_all ord rs .empty).2, stats⟩).1.map dst

theorem reaches_iff (ord : HashOrder) {env : Env} (henv : env.Healthy) (stats : Stats)
    (rs : List Request) {token : List UInt8} (ht : ShortToken token) (c : SockAddr) :
    Reaches ord env stats rs token c ↔
      c ∈ audience ((Directory.after room rs : Directory MAX_TOPIC_ID).subs
        (TopicKey.ofName token)) := by
  have hdst : ∀ message f, PublishFrame f token message →
      (c ∈ (receive env f ⟨(serve_all ord rs .empty).2, stats⟩).1.map dst ↔
        c ∈ audience ((Directory.after room rs : Directory MAX_TOPIC_ID).subs
          (TopicKey.ofName token))) := by
    intro message f hf
    have hperm := receive_after ord rs ht.toToken hf henv stats
    rw [ht.pub_key_eq] at hperm
    exact hperm.mem_iff
  refine ⟨?_, ?_⟩
  · intro h
    exact (hdst [] _ (sample_frame_publish token [])).mp (h [] _ (sample_frame_publish token []))
  · intro h message f hf
    exact (hdst message f hf).mpr h

end Hash

/-! ### The clone broker -/

namespace Clone

/-- After the requests `rs`, the client is among the destinations of every
    publication to `token`. -/
def Reaches (cpu : Nat) (pub : Nat → UInt32) (rs : List Request) (token : List UInt8)
    (c : SockAddr) : Prop :=
  ∀ message f, PublishFrame f token message →
    c ∈ (receive cpu f ⟨(serve_all rs .empty).2, pub⟩).1.map dst

theorem reaches_iff (cpu : Nat) (pub : Nat → UInt32) (rs : List Request) {token : List UInt8}
    (ht : ShortToken token) (c : SockAddr) :
    Reaches cpu pub rs token c ↔
      c ∈ (Directory.after room rs : Directory MAX_TOPIC_ID).subs (TopicKey.ofName token) := by
  rw [← ht.pub_key_eq]
  refine ⟨?_, ?_⟩
  · intro h
    rw [← receive_after rs ht.toToken (sample_frame_publish token []) cpu pub]
    exact h [] _ (sample_frame_publish token [])
  · intro h message f hf
    rw [receive_after rs ht.toToken hf cpu pub]
    exact h

end Clone

/-! ### What a SUBACK is worth -/

/-- **Acknowledged**: the SUBACK for a SUBSCRIBE of `token` from `c`, sent
    after the requests `rs₁`, holds over the requests `rs₂` up to the next
    FLUSH of the topic exactly when the topic was registered and there was
    room for the client; in the hash broker, also the counter must not come
    round to 1 behind another client. -/
theorem acknowledged_iff (ord : Hash.HashOrder) (rs₁ rs₂ : List Request) {r : Request}
    {name : List UInt8} {c : SockAddr} (hr : parse_request r = .subscribe name c)
    {token : List UInt8} (ht : ShortToken token)
    (hk : topic_key_of name = some (TopicKey.ofName token))
    (hflush : ∀ q ∈ rs₂, ¬ (parse_request q).Flushes (TopicKey.ofName token))
    {env : Hash.Env} (henv : env.Healthy) (stats : Hash.Stats) (cpu : Nat) (pub : Nat → UInt32) :
    (((Hash.serve ord r (Hash.serve_all ord rs₁ .empty).2).1.reply.isSome →
        ∀ rs', rs' <+: rs₂ → Hash.Reaches ord env stats (rs₁ ++ r :: rs') token c) ↔
      TopicKey.ofName token ∈ (Hash.serve_all ord rs₁ .empty).2.topic_subscribe.keys ∧
      (c ∈ accepted (Hash.serve_all ord rs₁ .empty).1 (TopicKey.ofName token) ∨
        (accepted (Hash.serve_all ord rs₁ .empty).1 (TopicKey.ofName token)).dedup.length < 256) ∧
      ∀ rs', rs' <+: rs₂ →
        (accepted (Hash.serve_all ord (rs₁ ++ r :: rs') .empty).1
          (TopicKey.ofName token)).length % 2 ^ 32 = 1 →
        (accepted (Hash.serve_all ord (rs₁ ++ r :: rs') .empty).1
          (TopicKey.ofName token)).getLast? = some c) ∧
    (((Clone.serve r (Clone.serve_all rs₁ .empty).2).1.reply.isSome →
        ∀ rs', rs' <+: rs₂ → Clone.Reaches cpu pub (rs₁ ++ r :: rs') token c) ↔
      TopicKey.ofName token ∈ (Clone.serve_all rs₁ .empty).2.topic_sub_array.keys ∧
      (c ∈ accepted (Clone.serve_all rs₁ .empty).1 (TopicKey.ofName token) ∨
        (accepted (Clone.serve_all rs₁ .empty).1 (TopicKey.ofName token)).length < 2048)) := by
  refine ⟨?_, ?_⟩
  · have hreply : (Hash.serve ord r (Hash.serve_all ord rs₁ .empty).2).1.reply.isSome := by
      unfold Hash.serve
      rw [hr]
      rfl
    have hkept := Directory.accepted_iff Hash.MAX_TOPIC_ID Hash.room rs₁ rs₂ hr hk hflush
    have hroom : ∀ subs, Hash.room subs c = true ↔ c ∈ subs ∨ subs.dedup.length < 256 :=
      fun subs => decide_eq_true_iff
    rw [← (Hash.serve_all_refines ord rs₁).2.registered] at hkept
    simp only [hroom, Hash.subs_after_eq ord, or_self_left] at hkept
    simp only [hreply, true_implies, Hash.reaches_iff ord henv stats _ ht, Hash.mem_audience,
      Hash.subs_after_eq ord]
    rw [← and_assoc, ← hkept]
    refine ⟨?_, ?_⟩
    · intro h
      exact ⟨fun rs' hpre => (h rs' hpre).1, fun rs' hpre => (h rs' hpre).2⟩
    · intro h rs' hpre
      exact ⟨h.1 rs' hpre, h.2 rs' hpre⟩
  · have hreply : (Clone.serve r (Clone.serve_all rs₁ .empty).2).1.reply.isSome := by
      unfold Clone.serve
      rw [hr]
      rfl
    have hkept := Directory.accepted_iff Clone.MAX_TOPIC_ID Clone.room rs₁ rs₂ hr hk hflush
    have hroom : ∀ subs, Clone.room subs c = true ↔ subs.length < 2048 :=
      fun subs => decide_eq_true_iff
    rw [← (Clone.serve_all_refines rs₁).2.registered] at hkept
    simp only [hroom, Clone.subs_after_eq] at hkept
    simp only [hreply, true_implies, Clone.reaches_iff cpu pub _ ht, Clone.subs_after_eq]
    exact hkept

/-- A SUBSCRIBE of a topic that is not registered is acknowledged by both
    brokers, and the client gets nothing. -/
theorem unregistered_acknowledged :
    (¬ ∀ (rs : List Request) (r : Request) (name : List UInt8) (c : SockAddr)
      (token : List UInt8), parse_request r = .subscribe name c → ShortToken token →
      topic_key_of name = some (TopicKey.ofName token) →
      (Hash.serve Hash.listed r (Hash.serve_all Hash.listed rs .empty).2).1.reply.isSome →
        Hash.Reaches Hash.listed ⟨Hash.listed, 0, 0, {}, fun _ => {}⟩ .empty (rs ++ [r]) token c) ∧
    ¬ ∀ (rs : List Request) (r : Request) (name : List UInt8) (c : SockAddr)
      (token : List UInt8), parse_request r = .subscribe name c → ShortToken token →
      topic_key_of name = some (TopicKey.ofName token) →
      (Clone.serve r (Clone.serve_all rs .empty).2).1.reply.isSome →
        Clone.Reaches 0 (fun _ => 0) (rs ++ [r]) token c := by
  have hparse : parse_request (datagram SUBSCRIBE [97] ⟨0x0800000a, 0x8813⟩) =
      .subscribe (topic_key_buffer [97]) ⟨0x0800000a, 0x8813⟩ := by
    decide +kernel
  have hkey : topic_key_of (topic_key_buffer [97]) = some (TopicKey.ofName [97]) := by
    decide +kernel
  refine ⟨?_, ?_⟩
  · intro h
    have hmem := h [] _ _ _ [97] hparse shortToken_a hkey (by decide +kernel) [104, 105] _
      (sample_frame_publish _ _)
    exact absurd hmem (by decide +kernel)
  · intro h
    have hmem := h [] _ _ _ [97] hparse shortToken_a hkey (by decide +kernel) [104, 105] _
      (sample_frame_publish _ _)
    exact absurd hmem (by decide +kernel)

theorem acknowledged_iff_sample :
    Hash.Reaches Hash.listed ⟨Hash.listed, 0, 0, {}, fun _ => {}⟩ .empty
      ([datagram REGISTER [97] ⟨0x0700000a, 0x8813⟩] ++
        [datagram SUBSCRIBE [97] ⟨0x0800000a, 0x8813⟩]) [97] ⟨0x0800000a, 0x8813⟩ := by
  have hparse : parse_request (datagram SUBSCRIBE [97] ⟨0x0800000a, 0x8813⟩) =
      .subscribe (topic_key_buffer [97]) ⟨0x0800000a, 0x8813⟩ := by
    decide +kernel
  have hkey : topic_key_of (topic_key_buffer [97]) = some (TopicKey.ofName [97]) := by
    decide +kernel
  have henv : Hash.Env.Healthy ⟨Hash.listed, 0, 0, {}, fun _ => {}⟩ := ⟨rfl, rfl⟩
  have h := acknowledged_iff Hash.listed [datagram REGISTER [97] ⟨0x0700000a, 0x8813⟩] [] hparse
    shortToken_a hkey (by simp) henv .empty 0
    (fun _ => 0)
  refine h.1.mpr ⟨by decide +kernel, Or.inr (by decide +kernel), ?_⟩ (by decide +kernel) []
    List.prefix_rfl
  intro rs' hpre _
  rw [List.prefix_nil.mp hpre]
  decide +kernel

end BpfBroker
