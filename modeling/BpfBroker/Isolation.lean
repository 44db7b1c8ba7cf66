import BpfBroker.Naming

/-! # Topics and Their Keys

    A frame is looked up under the first 19 bytes of its topic, a
    subscription is kept under its text up to the first CR. Where the two
    coincide for different topics, a publication to one goes to the
    subscribers of the other. -/

namespace BpfBroker

open CString

/-! ### Subscriptions by their text -/

/-- The topic that a client names behind `SUBSCRIBE `: up to the end of the
    line. -/
def Request.topic (r : Request) : List UInt8 :=
  (r.data.drop 10).takeWhile fun b => b ≠ NUL ∧ b ≠ LF

/-- The effect of a request on the subscriptions kept under the key `t`, as in
    `Served.apply`, with the text of each. -/
def subscription_step (t : TopicKey) (subs : List (List UInt8 × SockAddr)) (p : Request × Served) :
    List (List UInt8 × SockAddr) :=
  match p.2.cmd with
  | .subscribe name c =>
    if topic_key_of name = some t ∧ p.2.ret = 0 then subs ++ [(p.1.topic, c)] else subs
  | .flush name => if topic_key_of name = some t then [] else subs
  | _ => subs

/-- The accepted subscriptions under the key `t` since its last FLUSH, each
    with the topic it was for. -/
def subscriptions (hist : List (Request × Served)) (t : TopicKey) :
    List (List UInt8 × SockAddr) :=
  hist.foldl (subscription_step t) []

@[simp] theorem subscriptions_snoc (hist : List (Request × Served)) (p : Request × Served)
    (t : TopicKey) :
    subscriptions (hist ++ [p]) t = subscription_step t (subscriptions hist t) p := by
  simp [subscriptions, List.foldl_append]

/-- Without the texts, they are the accepted clients. -/
theorem map_snd_subscriptions (hist : List (Request × Served)) (t : TopicKey) :
    (subscriptions hist t).map Prod.snd = accepted (hist.map Prod.snd) t := by
  induction hist using List.reverseRecOn with
  | nil => rfl
  | append_singleton hist p ih =>
    rw [subscriptions_snoc, List.map_append, List.map_singleton, accepted_snoc, ← ih]
    rcases p with ⟨r, cmd, ret⟩
    unfold subscription_step Served.apply
    cases cmd with
    | register => rfl
    | subscribe name c =>
      dsimp only
      split
      · rw [List.map_append]
        rfl
      · rfl
    | flush name =>
      dsimp only
      split
      · rfl
      · rfl
    | unknown => rfl

/-- Every subscription comes from a SUBSCRIBE of the history. -/
theorem of_mem_subscriptions {hist : List (Request × Served)} {t : TopicKey} {v : List UInt8}
    {c : SockAddr} (h : (v, c) ∈ subscriptions hist t) :
    ∃ p ∈ hist, ∃ name, p.2.cmd = .subscribe name c ∧ topic_key_of name = some t ∧
      p.1.topic = v := by
  induction hist using List.reverseRecOn with
  | nil => cases h
  | append_singleton hist p ih =>
    rw [subscriptions_snoc] at h
    have hold : (v, c) ∈ subscriptions hist t → ∃ p' ∈ hist ++ [p], ∃ name,
        p'.2.cmd = .subscribe name c ∧ topic_key_of name = some t ∧ p'.1.topic = v := by
      intro hmem
      obtain ⟨p', hp', hrest⟩ := ih hmem
      exact ⟨p', List.mem_append_left _ hp', hrest⟩
    unfold subscription_step at h
    split at h
    · next name c' hcmd =>
      split at h
      · next hk =>
        rcases List.mem_append.mp h with h | h
        · exact hold h
        · -- the new one
          rw [List.mem_singleton] at h
          cases h
          exact ⟨p, by simp, name, hcmd, hk.1, rfl⟩
      · exact hold h
    · split at h
      · cases h
      · exact hold h
    · exact hold h

/-! ### Histories with their requests -/

section zip
variable {M : Type} {serve : Request → M → Served × M}

theorem length_main_loop (rs : List Request) (m : M) :
    (main_loop serve rs m).1.length = rs.length := by
  induction rs generalizing m with
  | nil => rfl
  | cons r rs ih => rw [main_loop_cons, List.length_cons, List.length_cons, ih]

theorem map_snd_zip_main_loop (rs : List Request) (m : M) :
    (rs.zip (main_loop serve rs m).1).map Prod.snd = (main_loop serve rs m).1 :=
  List.map_snd_zip (Nat.le_of_eq (length_main_loop rs m))

/-- Each entry of the history is about its request. -/
theorem cmd_of_mem_zip (hserve : ∀ r m, (serve r m).1.cmd = parse_request r) (rs : List Request)
    (m : M) : ∀ p ∈ rs.zip (main_loop serve rs m).1, p.2.cmd = parse_request p.1 := by
  induction rs generalizing m with
  | nil =>
    intro p hp
    cases hp
  | cons r rs ih =>
    intro p hp
    rw [main_loop_cons, List.zip_cons_cons] at hp
    rcases List.mem_cons.mp hp with rfl | hp
    · exact hserve r m
    · exact ih _ p hp

end zip

/-- The key of a SUBSCRIBE, from the topic its text names. -/
theorem key_of_subscribe {r : Request} {name : List UInt8} {c : SockAddr}
    (h : parse_request r = .subscribe name c) {t : TopicKey} (hk : topic_key_of name = some t) :
    (ctlName r.topic).length < MAX_TOPIC_ID_CHARS ∧ t = TopicKey.ofName (ctlName r.topic) := by
  have hname : name = topic_key_buffer ((r.data.drop 10).take 1013) ++ r.stack := by
    rw [List.take_drop]
    unfold parse_request at h
    dsimp only at h
    split at h
    · cases h
    split at h
    · cases h
      rfl
    split at h
    · cases h
    · cases h
  -- the line ends at LF or NUL, and the control process stops there as well
  have hctl : ctlName r.topic = ctlName (r.data.drop 10) := by
    unfold ctlName Request.topic
    rw [List.takeWhile_takeWhile]
    congr 1
    funext b
    by_cases hnul : b = NUL
    · simp [hnul]
    · by_cases hlf : b = LF
      · simp [hlf, isNewline]
      · simp [hnul, hlf]
  rw [hname] at hk
  rw [hctl]
  exact topic_key_of_take (by decide) hk

/-- Each subscription is kept under the key of its text up to the first CR. -/
theorem key_of_mem_subscriptions {M : Type} {serve : Request → M → Served × M}
    (hserve : ∀ r m, (serve r m).1.cmd = parse_request r) {rs : List Request} {m : M}
    {t : TopicKey} {v : List UInt8} {c : SockAddr}
    (h : (v, c) ∈ subscriptions (rs.zip (main_loop serve rs m).1) t) :
    (ctlName v).length < MAX_TOPIC_ID_CHARS ∧ t = TopicKey.ofName (ctlName v) := by
  obtain ⟨p, hp, name, hcmd, hk, rfl⟩ := of_mem_subscriptions h
  rw [cmd_of_mem_zip hserve rs m p hp] at hcmd
  exact key_of_subscribe hcmd hk

/-! ### Isolation -/

/-- The client has a subscription to the text `v`, under whatever key. -/
def Subscribed (hist : List (Request × Served)) (v : List UInt8) (c : SockAddr) : Prop :=
  ∃ t, (v, c) ∈ subscriptions hist t

/-- The destinations of a publication to `u` are subscribers of `u`; where
    nobody has subscribed to `u`, it goes to no subscriber of another topic. -/
structure Isolated (hist : List (Request × Served)) (u : List UInt8) (dests : List SockAddr) :
    Prop where
  exact_topic : ∀ c ∈ dests, Subscribed hist u c
  apart : (∀ c, ¬ Subscribed hist u c) → ∀ v, v ≠ u → ∀ c, Subscribed hist v c → c ∉ dests

/-- The second part follows from the first. -/
theorem isolated_of_exact_topic {hist : List (Request × Served)} {u : List UInt8}
    {dests : List SockAddr} (h : ∀ c ∈ dests, Subscribed hist u c) : Isolated hist u dests := by
  refine ⟨h, ?_⟩
  intro hnone v _ c _ hc
  exact hnone c (h c hc)

/-- The destinations are the clients under the key of `u` that `shown` picks:
    they are isolated when each of those with a text read as the first 19
    bytes of `u` has subscribed to `u` too. -/
theorem isolated_iff_of_mem {hist : List (Request × Served)} {u : List UInt8} (hu : Token u)
    (hkey : ∀ v t c, (v, c) ∈ subscriptions hist t →
      (ctlName v).length < MAX_TOPIC_ID_CHARS ∧ t = TopicKey.ofName (ctlName v))
    {dests : List SockAddr} (shown : TopicKey → SockAddr → Prop)
    (hdests : ∀ c, c ∈ dests ↔
      c ∈ (subscriptions hist (pub_key u)).map Prod.snd ∧ shown (pub_key u) c) :
    Isolated hist u dests ↔
      ∀ v t c, (v, c) ∈ subscriptions hist t → ctlName v = u.take 19 → shown t c →
        Subscribed hist u c := by
  refine ⟨?_, ?_⟩
  · intro h v t c hmem hname hshown
    have ht : t = pub_key u := by
      rw [(hkey v t c hmem).2, hname]
      rfl
    subst ht
    exact h.exact_topic c ((hdests c).mpr ⟨List.mem_map_of_mem hmem, hshown⟩)
  · intro h
    apply isolated_of_exact_topic
    intro c hc
    obtain ⟨hsub, hshown⟩ := (hdests c).mp hc
    obtain ⟨⟨v, c'⟩, hmem, rfl⟩ := List.mem_map.mp hsub
    obtain ⟨hlen, heq⟩ := hkey v _ c' hmem
    -- one key: the two names are the same 19 bytes
    have hname : u.take 19 = ctlName v := by
      apply TopicKey.ofName_injective _ hlen _ (ctlName_no_nul v) heq
      · rw [List.length_take]
        simp only [MAX_TOPIC_ID_CHARS]
        omega
      · exact fun hnul => hu.no_nul (List.mem_of_mem_take hnul)
    exact h v _ c' hmem hname.symm hshown

/-- **Topic isolation**: after any requests, a publication to `u` goes only to
    subscribers of `u` exactly when every client with a subscription whose
    text, up to its first CR, is the first 19 bytes of `u` has subscribed to
    `u` itself. In the hash broker, when the number of subscriptions is 1
    modulo 2^32, only the last of them matters. -/
theorem isolated_iff (ord : Hash.HashOrder) (rs : List Request) {u message : List UInt8}
    (hu : Token u) {f : Frame} (hf : PublishFrame f u message) {env : Hash.Env}
    (henv : env.Healthy) (stats : Hash.Stats) (cpu : Nat) (pub : Nat → UInt32) :
    (Isolated (rs.zip (Hash.serve_all ord rs .empty).1) u
        ((Hash.receive env f ⟨(Hash.serve_all ord rs .empty).2, stats⟩).1.map dst) ↔
      ∀ v t c, (v, c) ∈ subscriptions (rs.zip (Hash.serve_all ord rs .empty).1) t →
        ctlName v = u.take 19 →
        ((accepted (Hash.serve_all ord rs .empty).1 t).length % 2 ^ 32 = 1 →
          (accepted (Hash.serve_all ord rs .empty).1 t).getLast? = some c) →
        Subscribed (rs.zip (Hash.serve_all ord rs .empty).1) u c) ∧
    (Isolated (rs.zip (Clone.serve_all rs .empty).1) u
        ((Clone.receive cpu f ⟨(Clone.serve_all rs .empty).2, pub⟩).1.map dst) ↔
      ∀ v t c, (v, c) ∈ subscriptions (rs.zip (Clone.serve_all rs .empty).1) t →
        ctlName v = u.take 19 →
        Subscribed (rs.zip (Clone.serve_all rs .empty).1) u c) := by
  refine ⟨?_, ?_⟩
  · apply isolated_iff_of_mem hu
    · intro v t c hmem
      exact key_of_mem_subscriptions (fun _ _ => rfl) hmem
    · intro c
      rw [(Hash.receive_after ord rs hu hf henv stats).mem_iff, Hash.subs_after_eq ord,
        Hash.mem_audience, map_snd_subscriptions]
      unfold Hash.serve_all
      rw [map_snd_zip_main_loop]
      rfl
  · rw [isolated_iff_of_mem hu _ fun _ _ => True]
    · simp only [true_implies]
    · intro c
      rw [Clone.receive_after rs hu hf cpu pub, Clone.subs_after_eq, map_snd_subscriptions]
      unfold Clone.serve_all
      rw [map_snd_zip_main_loop, and_true]
    · intro v t c hmem
      exact key_of_mem_subscriptions (fun _ _ => rfl) hmem

/-- Two topics with a subscriber each. -/
def two_topics : List Request :=
  [datagram REGISTER [97] ⟨0x0700000a, 0x8813⟩,
   datagram REGISTER [98] ⟨0x0700000a, 0x8813⟩,
   datagram SUBSCRIBE [97] ⟨0x0700000a, 0x8813⟩,
   datagram SUBSCRIBE [98] ⟨0x0800000a, 0x8813⟩]

/-- A publication to 20 bytes goes to the subscriber of the first 19, in both
    brokers, though nobody has subscribed to the 20. -/
theorem truncated_topic_delivered :
    (¬ ∀ (rs : List Request) (u v message : List UInt8) (f : Frame) (c : SockAddr),
      Token u → Token v → u ≠ v → PublishFrame f u message →
      (∀ c, ¬ Subscribed (rs.zip (Hash.serve_all Hash.listed rs .empty).1) u c) →
      Subscribed (rs.zip (Hash.serve_all Hash.listed rs .empty).1) v c →
        c ∉ (Hash.receive ⟨Hash.listed, 0, 0, {}, fun _ => {}⟩ f
          ⟨(Hash.serve_all Hash.listed rs .empty).2, .empty⟩).1.map dst) ∧
    ¬ ∀ (rs : List Request) (u v message : List UInt8) (f : Frame) (c : SockAddr),
      Token u → Token v → u ≠ v → PublishFrame f u message →
      (∀ c, ¬ Subscribed (rs.zip (Clone.serve_all rs .empty).1) u c) →
      Subscribed (rs.zip (Clone.serve_all rs .empty).1) v c →
        c ∉ (Clone.receive 0 f ⟨(Clone.serve_all rs .empty).2, fun _ => 0⟩).1.map dst := by
  have hdelim : ∀ n, ∀ c ∈ List.replicate n (97 : UInt8), isDelim c = false := by
    intro n c hc
    rw [List.eq_of_mem_replicate hc]
    decide
  have hu : Token (List.replicate 20 97) := ⟨by decide, hdelim 20⟩
  have hv : Token (List.replicate 19 97) := ⟨by decide, hdelim 19⟩
  have hlong : ¬ (ctlName (List.replicate 20 97)).length < MAX_TOPIC_ID_CHARS := by decide
  refine ⟨?_, ?_⟩
  · intro h
    refine h [datagram REGISTER (List.replicate 19 97) ⟨0x0700000a, 0x8813⟩,
      datagram SUBSCRIBE (List.replicate 19 97) ⟨0x0800000a, 0x8813⟩] (List.replicate 20 97)
      (List.replicate 19 97) [104, 105] _ ⟨0x0800000a, 0x8813⟩ hu hv (by decide)
      (sample_frame_publish _ _) ?_ ⟨TopicKey.ofName (List.replicate 19 97), ?_⟩ ?_
    · rintro c ⟨t, hmem⟩
      exact hlong (key_of_mem_subscriptions (fun _ _ => rfl) hmem).1
    · decide +kernel
    · decide +kernel
  · intro h
    refine h [datagram REGISTER (List.replicate 19 97) ⟨0x0700000a, 0x8813⟩,
      datagram SUBSCRIBE (List.replicate 19 97) ⟨0x0800000a, 0x8813⟩] (List.replicate 20 97)
      (List.replicate 19 97) [104, 105] _ ⟨0x0800000a, 0x8813⟩ hu hv (by decide)
      (sample_frame_publish _ _) ?_ ⟨TopicKey.ofName (List.replicate 19 97), ?_⟩ ?_
    · rintro c ⟨t, hmem⟩
      exact hlong (key_of_mem_subscriptions (fun _ _ => rfl) hmem).1
    · decide +kernel
    · decide +kernel

/-- A publication to `a`, with subscribers of `a` and of `b`. -/
theorem isolated_iff_sample :
    Isolated (two_topics.zip (Hash.serve_all Hash.listed two_topics .empty).1) [97]
      ((Hash.receive ⟨Hash.listed, 0, 0, {}, fun _ => {}⟩ (sample_frame [97] [104, 105])
        ⟨(Hash.serve_all Hash.listed two_topics .empty).2, .empty⟩).1.map dst) := by
  have henv : Hash.Env.Healthy ⟨Hash.listed, 0, 0, {}, fun _ => {}⟩ := ⟨rfl, rfl⟩
  have htext : ∀ p ∈ two_topics.zip (Hash.serve_all Hash.listed two_topics .empty).1,
      ctlName p.1.topic = [97] → p.1.topic = [97] := by
    decide +kernel
  refine (isolated_iff Hash.listed two_topics shortToken_a.toToken
    (sample_frame_publish [97] [104, 105]) henv .empty 0 (fun _ => 0)).1.mpr ?_
  intro v t c hmem hname _
  obtain ⟨p, hp, _, _, _, hv⟩ := of_mem_subscriptions hmem
  rw [← hv] at hname hmem
  exact ⟨t, htext p hp hname ▸ hmem⟩

end BpfBroker
