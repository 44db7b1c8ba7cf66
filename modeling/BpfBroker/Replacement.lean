import Mathlib.Data.Finset.Sort
import BpfBroker.Checksum
import BpfBroker.Hash.Delivery
import BpfBroker.UserSpace

/-! # The Kernel Broker Replaces the User-Space Broker

    Both brokers receive the same frames: REGISTER, SUBSCRIBE, FLUSH and
    PUBLISH datagrams of arbitrary clients. What they have in common is said
    in terms of the datagrams alone: the topics registered so far, and for
    each topic the clients that sent a SUBSCRIBE since its last FLUSH. The
    user-space broker keeps a set for each registered topic; the maps of the
    kernel broker hold a directory. A publication goes from both to the same
    clients, with the same bytes.

    The sockets are left out: `handle_message` gets every datagram, and the
    main loop every datagram that the kernel programs hand on, whichever of
    the broker's ports it was sent to. -/

namespace BpfBroker

open Atomic Buffer Text UserSpace

/-! ### Datagrams -/

inductive Message where
  | register (t : List UInt8)
  | subscribe (t : List UInt8)
  | flush (t : List UInt8)
  | publish (t : List UInt8) (text : List Char)
  deriving DecidableEq

namespace Message

def topic : Message → List UInt8
  | .register t => t
  | .subscribe t => t
  | .flush t => t
  | .publish t _ => t

/-- The payload of the datagram. -/
def bytes : Message → List UInt8
  | .register t => REGISTER ++ t
  | .subscribe t => SUBSCRIBE ++ t
  | .flush t => FLUSH ++ t
  | .publish t text => PUBLISH ++ (t ++ SP :: utf8 text)

/-- The topic is a name, a published text is not empty and does not end in
    white space, and the datagram fits in the buffer. -/
structure WellFormed (m : Message) : Prop where
  topic : TopicName m.topic
  text : ∀ t text, m = .publish t text →
    text ≠ [] ∧ ∀ c, text.getLast? = some c → is_whitespace c = false
  fits : m.bytes.length ≤ 4096

end Message

/-- The data of the UDP datagram in a frame, as a socket returns it. -/
def udp_payload (f : Frame) : List UInt8 := (payload f).take (udp_len f - 8)

/-- The frame carries a datagram with the given payload to a broker port.
    There may be bytes behind the datagram. -/
structure Wire (f : Frame) (bytes : List UInt8) : Prop where
  eth_proto : rd16 f ETH_PROTO = bswap16 ETH_P_IP
  ihl : (rd8 f IP).toNat % 16 = 5
  protocol : (rd8 f IP_PROTOCOL).toNat = IPPROTO_UDP
  total : bswap16 (rd16 f (IP + 2)) = 20 + udp_len f
  port : broker_port f = true
  udp_len : udp_len f = 8 + bytes.length
  payload : bytes <+: payload f

/-- A datagram on its way: the frame that carries it, the environment in which
    the kernel receives it, and what lies behind `topic_key` in the memory of
    the control process. -/
structure Arrival where
  message : Message
  frame : Frame
  env : Hash.Env
  stack : List UInt8 := []

structure Arrival.Valid (a : Arrival) : Prop where
  wellFormed : a.message.WellFormed
  wire : Wire a.frame a.message.bytes
  healthy : a.env.Healthy

/-! ### The two brokers -/

/-- The kernel broker on a frame: `xdp_broker`, then `tc_ingress_broker`, and
    what both hand on goes to the main loop. Returns the frames forwarded. -/
def Hash.deliver (env : Hash.Env) (stack : List UInt8) (f : Frame) (s : Hash.KernState) :
    List Frame × Hash.KernState :=
  match (Hash.xdp_broker f).run (Hash.kern env.cpu) s with
  | ((.tx, f), s) => ([f], s)
  | ((.drop, _), s) => ([], s)
  | ((.pass, f), s) =>
    match Hash.tc_ingress_broker env f s with
    | (.act_shot clones, s) => (clones, s)
    | (.act_ok f, s) =>
      ([], { s with maps := (Hash.serve env.ord ⟨udp_payload f, src f, stack⟩ s.maps).2 })

/-- The kernel broker after a sequence of datagrams. -/
def kernel_after (as : List Arrival) : Hash.KernState :=
  as.foldl (fun s a => (Hash.deliver a.env a.stack a.frame s).2) ⟨.empty, .empty⟩

/-- The user-space broker after a sequence of datagrams. -/
def user_after (ord : SetOrder) (as : List Arrival) : Broker :=
  as.foldl (fun b a => (UserSpace.receive ord (udp_payload a.frame) (src a.frame) b).2) .empty

/-! ### What the datagrams ask for -/

/-- The topics of the REGISTER datagrams. -/
def registered (as : List Arrival) : List (List UInt8) :=
  as.filterMap fun a =>
    match a.message with
    | .register t => some t
    | _ => none

/-- One datagram's effect on the subscribers of `t`. -/
def Arrival.apply (a : Arrival) (t : List UInt8) (subs : List SockAddr) : List SockAddr :=
  match a.message with
  | .subscribe t' => if t' = t then subs ++ [src a.frame] else subs
  | .flush t' => if t' = t then [] else subs
  | _ => subs

/-- The clients that sent a SUBSCRIBE for `t` since its last FLUSH, in order
    and with repetitions. -/
def subscribers (as : List Arrival) (t : List UInt8) : List SockAddr :=
  as.foldl (fun subs a => a.apply t subs) []

/-- A sequence of datagrams within the limits of the kernel broker: at most 10
    topics, each registered before it is subscribed to, at no time more than
    256 different subscribers of a topic, and fewer than `2^32` SUBSCRIBEs for
    it between FLUSHes. -/
structure Session (as : List Arrival) : Prop where
  valid : ∀ a ∈ as, a.Valid
  topics : (registered as).dedup.length ≤ 10
  ordered : ∀ pre a t, pre ++ [a] <+: as → a.message = .subscribe t → t ∈ registered pre
  distinct : ∀ pre t, pre <+: as → (subscribers pre t).dedup.length ≤ 256
  counted : ∀ pre t, pre <+: as → (subscribers pre t).length < 2 ^ 32

theorem Session.of_prefix {as pre : List Arrival} (h : Session as) (hpre : pre <+: as) :
    Session pre := by
  have hsub : registered pre ⊆ registered as := by
    intro t ht
    unfold registered at ht ⊢
    exact List.filterMap_subset _ hpre.subset ht
  -- all limits are about prefixes, or grow with the sequence
  refine ⟨fun a ha => h.valid a (hpre.subset ha), ?_, ?_, ?_, ?_⟩
  · have hdedup : (registered pre).dedup.Subperm (registered as).dedup :=
      List.subperm_of_subset (List.nodup_dedup _) fun t ht =>
        List.mem_dedup.mpr (hsub (List.mem_dedup.mp ht))
    exact hdedup.length_le.trans h.topics
  · intro q a t hq
    exact h.ordered q a t (hq.trans hpre)
  · intro q t hq
    exact h.distinct q t (hq.trans hpre)
  · intro q t hq
    exact h.counted q t (hq.trans hpre)

section snoc
variable (as : List Arrival) (a : Arrival)

theorem subscribers_snoc (t : List UInt8) :
    subscribers (as ++ [a]) t = a.apply t (subscribers as t) := by
  unfold subscribers
  rw [List.foldl_append]
  rfl

theorem mem_registered_snoc (t : List UInt8) :
    t ∈ registered (as ++ [a]) ↔ t ∈ registered as ∨ a.message = .register t := by
  unfold registered
  rw [List.filterMap_append, List.mem_append]
  -- the last datagram registers a topic only if it is a REGISTER
  apply or_congr_right
  rcases ha : a.message with t' | t' | t' | ⟨t', text⟩ <;> simp [ha, eq_comm]

theorem kernel_after_snoc :
    kernel_after (as ++ [a]) = (Hash.deliver a.env a.stack a.frame (kernel_after as)).2 := by
  unfold kernel_after
  rw [List.foldl_append]
  rfl

theorem user_after_snoc (ord : SetOrder) :
    user_after ord (as ++ [a]) =
      (UserSpace.receive ord (udp_payload a.frame) (src a.frame) (user_after ord as)).2 := by
  unfold user_after
  rw [List.foldl_append]
  rfl

end snoc

/-! ### Frames of a session -/

section wire
variable {f : Frame} {bytes : List UInt8} (h : Wire f bytes)
include h

theorem Wire.udp_payload_eq : udp_payload f = bytes := by
  obtain ⟨trailer, htrailer⟩ := h.payload
  unfold udp_payload
  rw [h.udp_len, Nat.add_sub_cancel_left, ← htrailer, List.take_left' rfl]

/-- A frame with another command is no publication: the first byte of its
    payload differs. -/
theorem Wire.not_publish {b : UInt8} {rest : List UInt8} (hbytes : bytes = b :: rest)
    (hne : b ≠ 80) : is_publish f = false := by
  have hstart : starts_with (BpfBroker.payload f) PUBLISH = false := by
    rw [Bool.eq_false_iff]
    intro hs
    obtain ⟨trailer, htrailer⟩ := h.payload
    have hpre := starts_with_iff.mp hs
    rw [← htrailer, hbytes] at hpre
    exact hne (List.cons_prefix_cons.mp hpre).1.symm
  unfold is_publish
  rw [hstart, Bool.and_false]

/-- A frame with a PUBLISH is a publication. -/
theorem Wire.publishFrame {t message : List UInt8} (hbytes : bytes = PUBLISH ++ (t ++ SP :: message)) :
    ∃ rest, PublishFrame f t rest := by
  obtain ⟨trailer, htrailer⟩ := h.payload
  refine ⟨message ++ trailer, h.eth_proto, h.protocol, ?_, ?_⟩
  · have hport := h.port
    unfold broker_port at hport
    simpa [Nat.not_lt] using hport
  · rw [← htrailer, hbytes]
    simp

end wire

/-! ### The user-space broker -/

/-- A topic that is not registered has no subscribers. -/
theorem Session.subscribers_eq_nil {as : List Arrival} (h : Session as) {t : List UInt8}
    (ht : t ∉ registered as) : subscribers as t = [] := by
  induction as using List.reverseRecOn with
  | nil => rfl
  | append_singleton as a ih =>
    rw [mem_registered_snoc, not_or] at ht
    have hnil := ih (h.of_prefix (List.prefix_append _ _)) ht.1
    rw [subscribers_snoc, hnil]
    unfold Arrival.apply
    rcases ha : a.message with t' | t' | t' | ⟨t', text⟩
    · rfl
    · -- its SUBSCRIBE would come after its REGISTER
      have hreg := h.ordered as a t' List.prefix_rfl ha
      have hne : t' ≠ t := fun heq => ht.1 (heq ▸ hreg)
      exact if_neg hne
    · show (if t' = t then [] else []) = []
      rw [ite_self]
    · rfl

/-- What a datagram does to the set of topic `t`. -/
def Arrival.update (a : Arrival) (t : List UInt8) (set : Option SubscriberSet) :
    Option SubscriberSet :=
  match a.message with
  | .register t' => if t' = t then some (set.getD ∅) else set
  | .subscribe t' => if t' = t then some (insert (src a.frame) (set.getD ∅)) else set
  | .flush t' => if t' = t then set.map (fun _ => ∅) else set
  | .publish _ _ => set

theorem store_topics (b : Broker) {t t' : List UInt8} (ht : TopicName t) (ht' : TopicName t')
    (set : SubscriberSet) :
    (b.store (ascii t') set).topics (ascii t) = if t' = t then some set else b.topics (ascii t) := by
  have hinj : ascii t = ascii t' ↔ t' = t :=
    ⟨fun heq => (ascii_injective ht.is_ascii ht'.is_ascii heq).symm, fun heq => heq ▸ rfl⟩
  show (if ascii t = ascii t' then _ else _) = _
  rw [if_congr hinj rfl rfl]

/-- One datagram through `handle_message`. -/
theorem receive_update (ord : SetOrder) {a : Arrival} (ha : a.Valid) (b : Broker)
    {t : List UInt8} (ht : TopicName t) :
    (UserSpace.receive ord (udp_payload a.frame) (src a.frame) b).2.topics (ascii t) =
      a.update t (b.topics (ascii t)) := by
  obtain ⟨m, f, env, stack⟩ := a
  have hwell := ha.wellFormed
  rw [ha.wire.udp_payload_eq]
  rcases m with t' | t' | t' | ⟨t', text⟩
  · have ht' : TopicName t' := hwell.topic
    show (UserSpace.receive ord (REGISTER ++ t') _ b).2.topics _ = if t' = t then _ else _
    rw [receive_register ord ht', store_topics b ht ht']
    by_cases heq : t' = t
    · rw [if_pos heq, if_pos heq, heq]
    · rw [if_neg heq, if_neg heq]
  · have ht' : TopicName t' := hwell.topic
    show (UserSpace.receive ord (SUBSCRIBE ++ t') _ b).2.topics _ = if t' = t then _ else _
    rw [receive_subscribe ord ht', store_topics b ht ht']
    by_cases heq : t' = t
    · rw [if_pos heq, if_pos heq, heq]
    · rw [if_neg heq, if_neg heq]
  · have ht' : TopicName t' := hwell.topic
    show (UserSpace.receive ord (FLUSH ++ t') _ b).2.topics _ = if t' = t then _ else _
    rw [receive_flush ord ht']
    -- `get_mut` finds the set or does not
    rcases hset : b.topics (ascii t') with _ | set
    · by_cases heq : t' = t
      · rw [if_pos heq, ← heq, hset]
        rfl
      · rw [if_neg heq]
    · show (b.store (ascii t') ∅).topics (ascii t) = _
      rw [store_topics b ht ht']
      by_cases heq : t' = t
      · rw [if_pos heq, if_pos heq, ← heq, hset]
        rfl
      · rw [if_neg heq, if_neg heq]
  · have ht' : TopicName t' := hwell.topic
    -- a PUBLISH touches only the counters
    obtain ⟨hne, hlast⟩ := hwell.text t' text rfl
    show (UserSpace.receive ord (PUBLISH ++ (t' ++ SP :: utf8 text)) _ b).2.topics _ = b.topics _
    rw [(receive_publish ord ht' _ b hne hlast hwell.fits).2]

/-- **The sets of the user-space broker**: one for each registered topic, with
    its subscribers. -/
theorem user_after_topics (ord : SetOrder) {as : List Arrival} (h : Session as) {t : List UInt8}
    (ht : TopicName t) :
    (user_after ord as).topics (ascii t) =
      if t ∈ registered as then some (subscribers as t).toFinset else none := by
  induction as using List.reverseRecOn with
  | nil => rfl
  | append_singleton as a ih =>
    have hpre := h.of_prefix (List.prefix_append as [a])
    have hord : ∀ t', a.message = .subscribe t' → t' ∈ registered as := fun t' =>
      h.ordered as a t' List.prefix_rfl
    have hnil : t ∉ registered as → subscribers as t = [] := hpre.subscribers_eq_nil
    rw [user_after_snoc, receive_update ord (h.valid a (by simp)) _ ht, ih hpre, subscribers_snoc,
      if_congr (mem_registered_snoc as a t) rfl rfl]
    -- one case for each command; only the topic of the datagram changes
    unfold Arrival.update Arrival.apply
    rcases ha : a.message with t' | t' | t' | ⟨t', text⟩
    · by_cases heq : t' = t
      · subst heq
        by_cases hreg : t' ∈ registered as
        · simp [hreg]
        · simp [hreg, hnil hreg]
      · simp [heq]
    · have hreg := hord t' ha
      by_cases heq : t' = t
      · subst heq
        -- the topic is registered, so `insert` adds to the set that is there
        have hset : (subscribers as t' ++ [src a.frame]).toFinset =
            insert (src a.frame) (subscribers as t').toFinset := by
          ext c
          simp
        dsimp only
        rw [if_pos rfl, if_pos rfl, hset]
        simp [hreg]
      · simp [heq]
    · by_cases heq : t' = t
      · subst heq
        by_cases hreg : t' ∈ registered as
        · simp [hreg]
        · simp [hreg]
      · simp [heq]
    · simp

/-! ### The kernel broker -/

/-- The datagram as the main loop would receive it. -/
def Arrival.request (a : Arrival) : Request := ⟨udp_payload a.frame, src a.frame, a.stack⟩

namespace Hash

/-- What is forwarded is what the kernel programs send. -/
theorem deliver_frames (env : Env) (stack : List UInt8) (f : Frame) (s : KernState) :
    (deliver env stack f s).1 = (receive env f s).1 := by
  unfold deliver receive
  -- the two differ in what they do with the state alone
  generalize (xdp_broker f).run (kern env.cpu) s = result
  obtain ⟨⟨verdict, g⟩, s'⟩ := result
  cases verdict with
  | tx => rfl
  | drop => rfl
  | pass =>
    dsimp only
    generalize tc_ingress_broker env g s' = result
    obtain ⟨verdict, s''⟩ := result
    cases verdict <;> rfl

/-- A frame that is no publication reaches the main loop. -/
theorem deliver_control (env : Env) (stack : List UInt8) {f : Frame} (h : is_publish f = false)
    (s : KernState) :
    (deliver env stack f s).2.maps = (serve env.ord ⟨udp_payload f, src f, stack⟩ s.maps).2 := by
  unfold deliver
  rw [xdp_broker_other h]
  dsimp only [Prog.run_ret]
  unfold tc_ingress_broker
  rw [tc_ingress_prologue_other env.tc (Or.inr h)]
  rfl

/-- A publication leaves the maps alone, also when its topic is not known and
    it reaches the main loop. -/
theorem deliver_publish {env : Env} (henv : env.Healthy) (stack : List UInt8) {f : Frame}
    {t : TopicKey} (hf : Publishes f t) (hparse : parse_request ⟨udp_payload f, src f, stack⟩ = .unknown)
    (s : KernState) : (deliver env stack f s).2.maps = s.maps := by
  have hserve : ∀ m : Maps, (serve env.ord ⟨udp_payload f, src f, stack⟩ m).2 = m := by
    intro m
    unfold serve
    rw [hparse]
    rfl
  have hmaps := maps_run env.cpu (xdp_broker f) s
  unfold deliver
  rcases hrun : (xdp_broker f).run (kern env.cpu) s with ⟨⟨verdict, g⟩, s'⟩
  rw [hrun] at hmaps
  cases verdict with
  | tx => exact hmaps
  | drop => exact hmaps
  | pass =>
    have hg := eq_of_xdp_pass hf hrun
    subst hg
    obtain ⟨skb, hedit, -⟩ := tc_edit_ok hf.refresh
    dsimp only
    unfold tc_ingress_broker
    rw [henv.tc, tc_ingress_prologue_run hf hedit]
    cases hfound : (s'.maps.inner t).isSome with
    | false =>
      -- the topic is not known, and the main loop does not know the command
      show (serve env.ord _ s'.maps).2 = _
      rw [hserve]
      exact hmaps
    | true =>
      exact (maps_run env.cpu _ _).trans hmaps

end Hash

section request
variable {a : Arrival} (ha : a.Valid)
include ha

/-- The command of a datagram. -/
theorem Arrival.Valid.parse_request_eq :
    parse_request a.request = match a.message with
      | .register t => .register (topic_key_buffer (t.take 1014) ++ a.stack)
      | .subscribe t => .subscribe (topic_key_buffer (t.take 1013) ++ a.stack) (src a.frame)
      | .flush t => .flush (topic_key_buffer (t.take 1017) ++ a.stack)
      | .publish _ _ => .unknown := by
  have hdata := ha.wire.udp_payload_eq
  unfold Arrival.request
  rw [hdata]
  rcases a.message with t | t | t | ⟨t, text⟩
  · exact parse_register t _ _
  · exact parse_subscribe t _ _
  · exact parse_flush t _ _
  · exact parse_publish _ _ _

/-- One datagram through the kernel broker: the main loop's command for a
    control datagram, nothing for a PUBLISH. -/
theorem Arrival.Valid.deliver_inv {s : Hash.KernState} {d : Directory Hash.MAX_TOPIC_ID}
    (h : Hash.Inv s.maps d) :
    Hash.Inv (Hash.deliver a.env a.stack a.frame s).2.maps
      (d.exec Hash.room (parse_request a.request)).2 := by
  have hserve := (Hash.serve_refines a.env.ord a.request h).2
  have hparse := ha.parse_request_eq
  have hwire := ha.wire
  have htopic := ha.wellFormed.topic
  have hcontrol : is_publish a.frame = false →
      Hash.Inv (Hash.deliver a.env a.stack a.frame s).2.maps
        (d.exec Hash.room (parse_request a.request)).2 := by
    intro hno
    rw [Hash.deliver_control a.env a.stack hno s]
    exact hserve
  rcases hm : a.message with t | t | t | ⟨t, text⟩
  · rw [hm] at hwire
    exact hcontrol (hwire.not_publish rfl (by decide))
  · rw [hm] at hwire
    exact hcontrol (hwire.not_publish rfl (by decide))
  · rw [hm] at hwire
    exact hcontrol (hwire.not_publish rfl (by decide))
  · rw [hm] at hparse hwire htopic
    obtain ⟨rest, hframe⟩ := hwire.publishFrame rfl
    rw [Hash.deliver_publish ha.healthy a.stack (hframe.publishes htopic.shortToken.toToken) hparse,
      hparse]
    exact h

end request

/-- **The maps of the kernel broker** hold the directory of the datagrams. -/
theorem kernel_after_inv {as : List Arrival} (h : ∀ a ∈ as, a.Valid) :
    Hash.Inv (kernel_after as).maps (Directory.after Hash.room (as.map Arrival.request)) := by
  induction as using List.reverseRecOn with
  | nil => exact Hash.inv_empty
  | append_singleton as a ih =>
    have hpre := ih fun b hb => h b (List.mem_append_left _ hb)
    rw [kernel_after_snoc, List.map_append, List.map_singleton, Directory.after_snoc]
    exact (h a (by simp)).deliver_inv hpre

/-- Only the REGISTER datagrams register a topic. -/
theorem Arrival.Valid.registers_iff {a : Arrival} (ha : a.Valid) (k : TopicKey) :
    (∃ name, parse_request a.request = .register name ∧ topic_key_of name = some k) ↔
      ∃ t, a.message = .register t ∧ TopicKey.ofName t = k := by
  have hshort := ha.wellFormed.topic.shortToken
  rw [ha.parse_request_eq]
  generalize a.message = m at hshort ⊢
  rcases m with t | t | t | ⟨t, text⟩
  · have hkey : topic_key_of (topic_key_buffer (t.take 1014) ++ a.stack) = some (TopicKey.ofName t) :=
      hshort.topic_key_eq (by decide) a.stack
    simp [hkey]
  · simp
  · simp
  · simp

/-- The topics of the directory. -/
theorem Session.mem_keys {as : List Arrival} (h : Session as) (k : TopicKey) :
    k ∈ (Directory.after Hash.room (as.map Arrival.request) : Directory Hash.MAX_TOPIC_ID).keys ↔
      ∃ t ∈ registered as, TopicKey.ofName t = k := by
  induction as using List.reverseRecOn generalizing k with
  | nil => simp [registered, Directory.after]
  | append_singleton as a ih =>
    have hkeys := ih (h.of_prefix (List.prefix_append as [a]))
    -- the topics grow by the topic of a REGISTER
    have hreg : ∀ k, (∃ t ∈ registered (as ++ [a]), TopicKey.ofName t = k) ↔
        (∃ t ∈ registered as, TopicKey.ofName t = k) ∨
          ∃ t, a.message = .register t ∧ TopicKey.ofName t = k := by
      intro k
      simp only [mem_registered_snoc, or_and_right, exists_or]
    -- all topics of the session together fit
    have hlist : ∀ k, k ∈ (registered (as ++ [a])).dedup.map TopicKey.ofName ↔
        ∃ t ∈ registered (as ++ [a]), TopicKey.ofName t = k := by
      intro k
      rw [List.mem_map]
      simp only [List.mem_dedup]
    have hfits : (∃ t, a.message = .register t ∧ TopicKey.ofName t = k) →
        (Directory.after Hash.room (as.map Arrival.request) :
          Directory Hash.MAX_TOPIC_ID).fits k := by
      intro hnew
      have hlen : ((registered (as ++ [a])).dedup.map TopicKey.ofName).length ≤
          Hash.MAX_TOPIC_ID := by
        rw [List.length_map]
        exact h.topics
      apply BMap.fits_of_subset hlen
      · intro k' hk'
        exact (hlist k').mpr ((hreg k').mpr (Or.inl ((hkeys k').mp hk')))
      · exact (hlist k).mpr ((hreg k).mpr (Or.inr hnew))
    rw [List.map_append, List.map_singleton, Directory.after_snoc, Directory.mem_keys_exec,
      hkeys k, (h.valid a (by simp)).registers_iff, hreg k, and_iff_left_of_imp hfits]

/-- The clients of a topic in the directory. -/
theorem Session.subs_eq {as : List Arrival} (h : Session as) {t : List UInt8} (ht : TopicName t) :
    (Directory.after Hash.room (as.map Arrival.request) : Directory Hash.MAX_TOPIC_ID).subs
      (TopicKey.ofName t) = subscribers as t := by
  induction as using List.reverseRecOn with
  | nil => rfl
  | append_singleton as a ih =>
    have hpre := h.of_prefix (List.prefix_append as [a])
    have hsubs := ih hpre
    have ha := h.valid a (by simp)
    have htopic := ha.wellFormed.topic
    have hle := h.distinct (as ++ [a]) t List.prefix_rfl
    rw [subscribers_snoc] at hle ⊢
    rw [List.map_append, List.map_singleton, Directory.after_snoc, ha.parse_request_eq]
    -- REGISTER and PUBLISH leave the clients alone
    unfold Arrival.apply at hle ⊢
    rcases hm : a.message with t' | t' | t' | ⟨t', text⟩
    · rw [Directory.subs_exec]
      exact hsubs
    · rw [hm] at htopic hle
      have ht' : TopicName t' := htopic
      have hkey : topic_key_of (topic_key_buffer (t'.take 1013) ++ a.stack) =
          some (TopicKey.ofName t') := ht'.shortToken.topic_key_eq (by decide) a.stack
      dsimp only at hle ⊢
      rw [Directory.subs_exec_subscribe, hkey, hsubs]
      by_cases heq : t' = t
      · subst heq
        rw [if_pos rfl] at hle ⊢
        -- the topic is registered and has room, so the SUBSCRIBE is accepted
        have hmem := (hpre.mem_keys (TopicKey.ofName t')).mpr
          ⟨t', h.ordered as a t' List.prefix_rfl hm, rfl⟩
        rw [if_pos ⟨rfl, hmem, Hash.room_of_dedup hle⟩]
      · have hne : TopicKey.ofName t' ≠ TopicKey.ofName t := fun hk =>
          heq ((ht'.ofName_inj ht).mp hk)
        rw [if_neg heq, if_neg fun hand => hne (Option.some.inj hand.1)]
    · rw [hm] at htopic
      have ht' : TopicName t' := htopic
      have hkey : topic_key_of (topic_key_buffer (t'.take 1017) ++ a.stack) =
          some (TopicKey.ofName t') := ht'.shortToken.topic_key_eq (by decide) a.stack
      rw [Directory.subs_exec, hsubs]
      unfold Served.apply
      dsimp only
      rw [hkey, if_congr (Option.some_inj.trans (ht'.ofName_inj ht)) rfl rfl]
    · rw [Directory.subs_exec]
      exact hsubs

/-! ### Both together -/

theorem Rewritten.udp_payload_eq {f g : Frame} {saddr daddr source dest ip_check udp_check : Nat}
    (h : Rewritten f g saddr daddr source dest ip_check udp_check) (hlen : PAYLOAD ≤ f.length) :
    udp_payload g = udp_payload f := by
  unfold udp_payload
  rw [h.payload_eq hlen, h.udp_len_eq hlen]

section publication
variable {pre : List Arrival} (h : Session pre) {a : Arrival} (ha : a.Valid) {t : List UInt8}
  {text : List Char} (hm : a.message = .publish t text)
include h ha hm

/-- What the user-space broker sends for a publication. -/
theorem user_sends (ord : SetOrder) :
    (UserSpace.receive ord (udp_payload a.frame) (src a.frame) (user_after ord pre)).1 =
      (if t ∈ registered pre then ord.iter (subscribers pre t).toFinset else []).map
        fun c => (c, udp_payload a.frame) := by
  have hdata := ha.wire.udp_payload_eq
  have hwell := ha.wellFormed
  rw [hm] at hdata hwell
  have ht : TopicName t := hwell.topic
  obtain ⟨hne, hlast⟩ := hwell.text t text rfl
  rw [hdata]
  refine (receive_publish ord ht (src a.frame) (user_after ord pre) hne hlast hwell.fits).1.trans ?_
  rw [user_after_topics ord h ht]
  split
  · rfl
  · rfl

/-- What the kernel broker sends: one frame for each subscriber. -/
theorem kernel_sends :
    ((Hash.deliver a.env a.stack a.frame (kernel_after pre)).1.map dst).Perm
        (subscribers pre t).dedup ∧
      ∀ g ∈ (Hash.deliver a.env a.stack a.frame (kernel_after pre)).1,
        udp_payload g = udp_payload a.frame := by
  have hwire := ha.wire
  have hwell := ha.wellFormed
  rw [hm] at hwire hwell
  have ht : TopicName t := hwell.topic
  obtain ⟨rest, hframe⟩ := hwire.publishFrame rfl
  have hpub := hframe.publishes ht.shortToken.toToken
  rw [ht.shortToken.pub_key_eq] at hpub
  rw [Hash.deliver_frames]
  refine ⟨?_, ?_⟩
  · -- fewer than `2^32` SUBSCRIBEs: the counter tells one client from several
    have haud := Hash.receive_audience hpub ha.healthy (kernel_after_inv h.valid)
    rw [h.subs_eq ht, Hash.audience_eq_dedup (h.counted pre t List.prefix_rfl)] at haud
    exact haud
  · intro g hg
    have hall := Hash.receive_sentTo hpub ha.healthy (kernel_after pre)
    obtain ⟨_, _, _, _, _, _, hrew⟩ := Hash.rewritten_of_sentTo hall hg
    exact hrew.udp_payload_eq (length_of_refresh hpub.refresh)

end publication

/-- **The kernel broker refines the user-space broker**: in every session, for
    every publication, both send one datagram to each of the same clients,
    with the same data. -/
theorem refines_user_space (ord : SetOrder) {as pre post : List Arrival} {a : Arrival}
    (h : Session as) (hsplit : as = pre ++ a :: post) {t : List UInt8} {text : List Char}
    (hm : a.message = .publish t text) :
    ((UserSpace.receive ord (udp_payload a.frame) (src a.frame) (user_after ord pre)).1).Perm
        ((Hash.deliver a.env a.stack a.frame (kernel_after pre)).1.map
          fun g => (dst g, udp_payload g)) ∧
      ((Hash.deliver a.env a.stack a.frame (kernel_after pre)).1.map dst).Nodup := by
  have hpre : Session pre := h.of_prefix (hsplit ▸ List.prefix_append pre (a :: post))
  have ha : a.Valid := h.valid a (by rw [hsplit]; simp)
  obtain ⟨hdst, hdata⟩ := kernel_sends hpre ha hm
  have hnodup := hdst.nodup_iff.mpr (List.nodup_dedup _)
  refine ⟨?_, hnodup⟩
  -- each frame carries the data of the publication
  have hsame : (Hash.deliver a.env a.stack a.frame (kernel_after pre)).1.map
        (fun g => (dst g, udp_payload g)) =
      ((Hash.deliver a.env a.stack a.frame (kernel_after pre)).1.map dst).map
        fun c => (c, udp_payload a.frame) := by
    rw [List.map_map]
    apply List.map_congr_left
    intro g hg
    show (dst g, udp_payload g) = (dst g, udp_payload a.frame)
    rw [hdata g hg]
  -- the set of the user-space broker and the keys of the kernel broker
  have hset : (if t ∈ registered pre then ord.iter (subscribers pre t).toFinset else []).Perm
      (subscribers pre t).dedup := by
    by_cases hreg : t ∈ registered pre
    · rw [if_pos hreg, List.perm_ext_iff_of_nodup (ord.nodup _) (List.nodup_dedup _)]
      intro c
      rw [ord.mem_iff, List.mem_toFinset, List.mem_dedup]
    · rw [if_neg hreg, hpre.subscribers_eq_nil hreg]
      exact List.Perm.nil
  rw [user_sends hpre ha hm ord, hsame]
  exact (hset.trans hdst.symm).map _

/-- Each SUBSCRIBE adds one client. -/
theorem length_subscribers_le (as : List Arrival) (t : List UInt8) :
    (subscribers as t).length ≤ as.length := by
  induction as using List.reverseRecOn with
  | nil => exact Nat.le_refl _
  | append_singleton as a ih =>
    rw [subscribers_snoc, List.length_append, List.length_singleton]
    unfold Arrival.apply
    split
    · split
      · rw [List.length_append, List.length_singleton]
        omega
      · omega
    · split
      · exact Nat.zero_le _
      · omega
    · omega

/-- A datagram from 10.0.0.7:5000 to 10.0.0.1:49152. -/
def sample_arrival (m : Message) : Arrival where
  message := m
  frame := [2, 0, 0, 0, 0, 1, 2, 0, 0, 0, 0, 2, 8, 0,
    69, 0, 0, UInt8.ofNat (28 + m.bytes.length), 0, 1, 0, 0, 64, 17, 0, 0, 10, 0, 0, 7, 10, 0, 0, 1,
    19, 136, 192, 0, 0, UInt8.ofNat (8 + m.bytes.length), 0, 0] ++ m.bytes
  env := { ord := Hash.listed }

/-- A client that registers a topic, subscribes to it and publishes. -/
def sample_session : List Arrival :=
  [sample_arrival (.register [97]), sample_arrival (.subscribe [97]),
   sample_arrival (.publish [97] ['h', 'i'])]

theorem sample_session_valid : Session sample_session := by
  have htopic : TopicName [97] :=
    ⟨by decide, by decide, List.forall_mem_singleton.mpr (by decide)⟩
  have hshort : sample_session.length = 3 := rfl
  refine ⟨?_, by decide, ?_, ?_, ?_⟩
  · intro a ha
    simp only [sample_session, List.mem_cons, List.not_mem_nil, or_false] at ha
    rcases ha with rfl | rfl | rfl
    · exact ⟨⟨htopic, nofun, by decide⟩, ⟨rfl, rfl, rfl, rfl, by decide, rfl, by decide⟩, rfl, rfl⟩
    · exact ⟨⟨htopic, nofun, by decide⟩, ⟨rfl, rfl, rfl, rfl, by decide, rfl, by decide⟩, rfl, rfl⟩
    · refine ⟨⟨htopic, ?_, by decide⟩, ⟨rfl, rfl, rfl, rfl, by decide, rfl, by decide⟩, rfl, rfl⟩
      intro t text heq
      cases heq
      refine ⟨by decide, ?_⟩
      intro c hc
      cases hc
      decide
  · -- only the second datagram subscribes
    intro pre a t hpre hm
    rcases pre with _ | ⟨x, _ | ⟨y, _ | ⟨z, pre⟩⟩⟩
    · obtain ⟨rfl, -⟩ := List.cons_prefix_cons.mp hpre
      cases hm
    · obtain ⟨rfl, hrest⟩ := List.cons_prefix_cons.mp hpre
      obtain ⟨rfl, -⟩ := List.cons_prefix_cons.mp hrest
      cases hm
      decide
    · obtain ⟨rfl, hrest⟩ := List.cons_prefix_cons.mp hpre
      obtain ⟨rfl, hlast⟩ := List.cons_prefix_cons.mp hrest
      obtain ⟨rfl, -⟩ := List.cons_prefix_cons.mp hlast
      cases hm
    · have := hpre.length_le
      simp at this
      omega
  · intro pre t hpre
    have hdedup := (List.dedup_sublist (subscribers pre t)).length_le
    have hle := length_subscribers_le pre t
    have := hpre.length_le
    omega
  · intro pre t hpre
    have hle := length_subscribers_le pre t
    have := hpre.length_le
    omega

/-- Clients in the order of their packed addresses. -/
def by_address : SetOrder :=
  letI : LinearOrder SockAddr :=
    LinearOrder.lift' (fun c => (pack c).toNat) fun _ _ h => pack_injective (UInt64.toNat_inj.mp h)
  ⟨fun s => s.sort, fun s => s.sort_nodup (· ≤ ·), fun _ _ => Finset.mem_sort (· ≤ ·)⟩

theorem refines_user_space_sample :
    (Hash.deliver { ord := Hash.listed } [] (sample_arrival (.publish [97] ['h', 'i'])).frame
        (kernel_after [sample_arrival (.register [97]), sample_arrival (.subscribe [97])])).1.map dst =
      [⟨0x0700000a, 0x8813⟩] ∧
    ((UserSpace.receive by_address (udp_payload (sample_arrival (.publish [97] ['h', 'i'])).frame)
        ⟨0x0700000a, 0x8813⟩
        (user_after by_address
          [sample_arrival (.register [97]), sample_arrival (.subscribe [97])])).1).Perm
      ((Hash.deliver { ord := Hash.listed } [] (sample_arrival (.publish [97] ['h', 'i'])).frame
        (kernel_after [sample_arrival (.register [97]), sample_arrival (.subscribe [97])])).1.map
          fun g => (dst g, udp_payload g)) :=
  ⟨by decide +kernel,
    (refines_user_space by_address (a := sample_arrival (.publish [97] ['h', 'i']))
      sample_session_valid rfl rfl).1⟩

end BpfBroker
