import BpfBroker.Hash.Datapath

/-! # Delivery in the Hash Broker

    After any sequence of control datagrams, a PUBLISH frame goes to every
    client accepted for its topic, once, and to nobody else. -/

namespace BpfBroker.Hash

/-- A frame received after a sequence of requests goes to the audience of its
    topic. -/
theorem receive_after (ord : HashOrder) (rs : List Request) {token message : List UInt8}
    {f : Frame} (ht : Token token) (hf : PublishFrame f token message) {env : Env}
    (henv : env.Healthy) (stats : Stats) :
    ((receive env f ⟨(serve_all ord rs .empty).2, stats⟩).1.map dst).Perm
      (audience ((Directory.after room rs : Directory MAX_TOPIC_ID).subs (pub_key token))) :=
  receive_audience (hf.publishes ht) henv (serve_all_refines ord rs).2

/-- **Exact delivery**: each client whose SUBSCRIBE was accepted since the last
    FLUSH of the topic gets the frame once, whatever number of times it
    subscribed, and nobody else gets it. -/
theorem delivery_exact (ord : HashOrder) (rs : List Request) {token message : List UInt8}
    {f : Frame} (ht : ShortToken token) (hf : PublishFrame f token message) {env : Env}
    (henv : env.Healthy) (stats : Stats)
    (hlt : (accepted (serve_all ord rs .empty).1 (TopicKey.ofName token)).length < 2 ^ 32)
    (c : SockAddr) :
    ((receive env f ⟨(serve_all ord rs .empty).2, stats⟩).1.map dst).count c =
      if c ∈ accepted (serve_all ord rs .empty).1 (TopicKey.ofName token) then 1 else 0 := by
  have hperm := receive_after ord rs ht.toToken hf henv stats
  rw [ht.pub_key_eq, subs_after_eq ord, audience_eq_dedup hlt] at hperm
  rw [hperm.count_eq, List.count_dedup]

/-- Keys in the order in which the map lists them, and a stack of zeros. -/
def listed : HashOrder := ⟨id, fun _ => List.Perm.refl _, fun _ => 0⟩

theorem delivery_exact_sample :
    ((receive ⟨listed, 0, 0, {}, fun _ => {}⟩ (sample_frame [97] [104, 105])
      ⟨(serve_all listed sample_requests .empty).2, .empty⟩).1.map dst).count
        ⟨0x0700000a, 0x8813⟩ = 1 :=
  (delivery_exact listed sample_requests shortToken_a (sample_frame_publish [97] [104, 105])
    ⟨rfl, rfl⟩ .empty (by decide +kernel) ⟨0x0700000a, 0x8813⟩).trans (by decide +kernel)

end BpfBroker.Hash
