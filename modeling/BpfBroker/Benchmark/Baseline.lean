import BpfBroker.Benchmark.EndToEnd

/-! # The User-Space Broker in a Trial

    The benchmark runs against the user-space broker as well, which broadcasts
    like the kernel brokers: to the sockets that have subscribed since the
    topic was cleared. It does not send a message on byte by byte, as it cuts
    off what its buffer has no room for and the space at the end, but the
    fields that the subscribers read come through.

    `main` starts one receive loop only, at the first of the 16 ports that the
    publishers send to. -/

namespace BpfBroker

open Text

namespace UserSpace

/-- The ports of the threads that `main` starts. -/
def ports : List Nat := (List.range 1).map fun core_id => 49152 + core_id

/-- The broker after these datagrams. -/
def serve_all (ord : SetOrder) (qs : List Request) (b : Broker) : Broker :=
  qs.foldl (fun b q => (receive ord q.data q.client b).2) b

/-- What the broker sends for these datagrams. -/
def send_all (ord : SetOrder) : List Request → Broker → List (SockAddr × List UInt8)
  | [], _ => []
  | q :: qs, b =>
    let (sent, b) := receive ord q.data q.client b
    sent ++ send_all ord qs b

/-- The parts of a datagram. -/
def parts (q : Request) : List (List Char) :=
  splitn ' ' 3 (trim (from_utf8_lossy (q.data.take 4096)))

theorem topics_store (b : Broker) (topic : Topic) (set : SubscriberSet) :
    (b.store topic set).topics topic = some set := if_pos rfl

/-- A datagram about another topic leaves a topic alone. -/
theorem topics_receive_other (ord : SetOrder) {q : Request} {topic : Topic}
    (h : (parts q)[1]? ≠ some topic) (b : Broker) :
    (receive ord q.data q.client b).2.topics topic = b.topics topic := by
  have hstore : ∀ {b : Broker} {topic' : Topic} {set : SubscriberSet}, topic' ≠ topic →
      (b.store topic' set).topics topic = b.topics topic := by
    intro b topic' set hne
    exact if_neg hne.symm
  have hrun : receive ord q.data q.client b =
      handle_message ord (from_utf8_lossy (q.data.take 4096)) q.client b := rfl
  rw [hrun]
  unfold handle_message
  unfold parts at h
  generalize splitn ' ' 3 (trim (from_utf8_lossy (q.data.take 4096))) = words at h ⊢
  match words, h with
  | [], _ => rfl
  | [word], _ =>
    dsimp only
    split_ifs <;> rfl
  | word :: topic' :: rest, h =>
    have hne : topic' ≠ topic := fun heq => h (congrArg some heq)
    dsimp only
    split_ifs
    · exact hstore hne
    · exact hstore hne
    · cases rest with
      | nil => rfl
      | cons text rest =>
        dsimp only
        split <;> rfl
    · split
      · exact hstore hne
      · rfl
    · rfl

end UserSpace

namespace Benchmark

open LTS Broadcast UserSpace Text

/-! ### Setting up -/

/-- The clients that ask for a topic. -/
def joiners (t : List UInt8) (qs : List Request) : List SockAddr :=
  (qs.filter fun q => q.data = SUBSCRIBE ++ t).map (·.client)

section setup
variable (ord : SetOrder) {t : List UInt8} (ht : TopicName t)
include ht

theorem topics_after_clear (flusher registrar : SockAddr) (b : Broker) :
    (serve_all ord (clear t flusher registrar) b).topics (ascii t) = some ∅ := by
  have hflush := receive_flush ord ht flusher b
  show (UserSpace.receive ord (REGISTER ++ t) registrar
    (UserSpace.receive ord (FLUSH ++ t) flusher b).2).2.topics (ascii t) = some ∅
  rw [receive_register ord ht, hflush, topics_store]
  dsimp only
  cases hb : b.topics (ascii t) with
  | none =>
    dsimp only
    rw [hb]
    rfl
  | some set =>
    dsimp only
    rw [topics_store]
    rfl

/-- **The set of a topic**: the clients that have asked for it. -/
theorem topics_after_joins {b : Broker} (hb : b.topics (ascii t) = some ∅) {qs : List Request}
    (hothers : ∀ q ∈ qs, q.data = SUBSCRIBE ++ t ∨ (parts q)[1]? ≠ some (ascii t)) :
    (serve_all ord qs b).topics (ascii t) = some (joiners t qs).toFinset := by
  induction qs using List.reverseRecOn with
  | nil => exact hb
  | append_singleton qs q ih =>
    have hstep := ih fun q' hq' => hothers q' (List.mem_append_left _ hq')
    have hsnoc : joiners t (qs ++ [q]) = joiners t qs ++ joiners t [q] := by
      unfold joiners
      rw [List.filter_append, List.map_append]
    unfold serve_all at hstep ⊢
    rw [List.foldl_append, List.foldl_cons, List.foldl_nil, hsnoc]
    by_cases hdata : q.data = SUBSCRIBE ++ t
    · have hone : joiners t [q] = [q.client] := by simp [joiners, hdata]
      rw [hdata, receive_subscribe ord ht, hone, hstep, topics_store]
      congr 1
      ext c
      simp
    · have hno : joiners t [q] = [] := by simp [joiners, hdata]
      rcases hothers q (by simp) with h | h
      · exact absurd h hdata
      · rw [topics_receive_other ord h, hstep, hno, List.append_nil]

end setup

/-! ### Messages -/

/-- The text that is made of a publication, as it is sent on. -/
def forwarded (bytes : List UInt8) : List UInt8 := utf8 (trim (from_utf8_lossy (bytes.take 4096)))

section message
variable {t : List UInt8} (ht : TopicName t) (ts q : Nat) {payload : List UInt8}
  (hpayload : ∀ b ∈ payload, 33 ≤ b.toNat ∧ b.toNat ≤ 126)
include ht

/-- The buffer has room for the fields. -/
theorem take_message (payload : List UInt8) :
    ∃ k, (message (ascii t) ts q payload).take 4096 = message (ascii t) ts q (payload.take k) := by
  have hshort : ShortToken (utf8 (ascii t)) := by
    rw [utf8_ascii ht.is_ascii]
    exact ht.shortToken
  have hhead := length_head_le hshort
  obtain ⟨pre, hlen, hsplit⟩ := fields_split (ascii t) ts q
  have hmessage : ∀ payload, message (ascii t) ts q payload = (pre ++ [SP]) ++ payload := by
    intro payload
    rw [List.append_assoc]
    exact hsplit (SP :: payload)
  have hle : (pre ++ [SP]).length ≤ 4096 := by
    rw [List.length_append, List.length_singleton]
    omega
  refine ⟨4096 - (pre ++ [SP]).length, ?_⟩
  rw [hmessage, hmessage, List.take_append, List.take_of_length_le hle]

include hpayload

theorem trim_message :
    ∃ k, trim (from_utf8_lossy ((message (ascii t) ts q payload).take 4096)) =
      publish_text (ascii t) (fields ts q (kept (payload.take k))) := by
  obtain ⟨k, htake⟩ := take_message ht ts q payload
  have hgraphic : ∀ b ∈ payload.take k, 33 ≤ b.toNat ∧ b.toNat ≤ 126 :=
    fun b hb => hpayload b (List.mem_of_mem_take hb)
  have hascii : ∀ b ∈ SP :: payload.take k, b.toNat < 128 := by
    intro b hb
    rcases List.mem_cons.mp hb with rfl | hb
    · decide
    · have := (hgraphic b hb).2
      omega
  have htext : message (ascii t) ts q (payload.take k) =
      utf8 (publish_text (ascii t) (fields ts q (SP :: payload.take k))) :=
    (utf8_fields (ascii t) ts q hascii).symm
  refine ⟨k, ?_⟩
  rw [htake, htext, from_utf8_lossy_utf8, trim_fields (ascii t) ts q hgraphic]

/-- **A message of a publisher** goes to each client of its topic. -/
theorem receive_message (ord : SetOrder) (sender : SockAddr) (b : Broker) :
    (UserSpace.receive ord (message (ascii t) ts q payload) sender b).1 =
        ((b.topics (ascii t)).elim [] ord.iter).map
          (fun sub => (sub, forwarded (message (ascii t) ts q payload))) ∧
      (UserSpace.receive ord (message (ascii t) ts q payload) sender b).2.topics = b.topics := by
  obtain ⟨k, htrim⟩ := trim_message ht ts q hpayload
  have hpublish := handle_publish ord ht.no_space htrim sender b
  unfold forwarded
  rw [htrim]
  exact hpublish

/-- **The fields come through.** -/
theorem hasFields_forwarded :
    HasFields (ascii t) ts q (forwarded (message (ascii t) ts q payload)) := by
  obtain ⟨k, htrim⟩ := trim_message ht ts q hpayload
  have hkept : ∀ b ∈ kept (payload.take k), b.toNat < 128 := by
    intro b hb
    rcases List.mem_cons.mp (mem_of_mem_kept hb) with rfl | hb
    · decide
    · have := (hpayload b (List.mem_of_mem_take hb)).2
      omega
  refine ⟨kept (payload.take k), kept_cases _, ?_⟩
  unfold forwarded
  rw [htrim, utf8_fields (ascii t) ts q hkept]

end message

/-! ### A trial -/

/-- What the broker has been asked before a trial, whatever it holds: FLUSH and
    REGISTER, and then the SUBSCRIBEs of the sockets, in any order and any
    number of times, with datagrams about other topics in between. -/
structure UserSetup (t : List UInt8) (host : UInt32) (subs : Nat) where
  earlier : Broker
  flusher : SockAddr
  registrar : SockAddr
  joining : List Request
  others : ∀ q ∈ joining, q.data = SUBSCRIBE ++ t ∨ (parts q)[1]? ≠ some (ascii t)
  joined : ∀ c, c ∈ joiners t joining ↔ c ∈ sockets host subs

def UserSetup.broker {t : List UInt8} {host : UInt32} {subs : Nat} (x : UserSetup t host subs)
    (ord : SetOrder) : Broker :=
  serve_all ord x.joining (serve_all ord (clear t x.flusher x.registrar) x.earlier)

section broadcast
variable {t : List UInt8} (ht : TopicName t) (ord : SetOrder)
include ht

theorem UserSetup.topics {host : UInt32} {subs : Nat} (x : UserSetup t host subs) :
    (x.broker ord).topics (ascii t) = some (sockets host subs).toFinset := by
  unfold UserSetup.broker
  rw [topics_after_joins ord ht (topics_after_clear ord ht x.flusher x.registrar x.earlier) x.others]
  congr 1
  ext c
  rw [List.mem_toFinset, List.mem_toFinset, x.joined]

/-- **The user-space broker broadcasts.** -/
theorem user_broadcasts {members : List SockAddr} (hmembers : members.Nodup) {qs : List Request}
    {packets : List Packet} (hqs : qs.map (·.data) = packets.map Packet.bytes)
    (hpackets : ∀ p ∈ packets, ∃ ts q payload, (∀ b ∈ payload, 33 ≤ b.toNat ∧ b.toNat ≤ 126) ∧
      p.bytes = message (ascii t) ts q payload)
    {b : Broker} (hb : b.topics (ascii t) = some members.toFinset) :
    (send_all ord qs b).Perm (copies members (packets.map fun p => forwarded p.bytes)) := by
  have hiter : (ord.iter members.toFinset).Perm members := by
    refine (List.perm_ext_iff_of_nodup (ord.nodup _) hmembers).mpr ?_
    intro c
    rw [ord.mem_iff, List.mem_toFinset]
  induction qs generalizing packets b with
  | nil =>
    cases packets with
    | nil => exact List.Perm.nil
    | cons p packets => cases hqs
  | cons q qs ih =>
    cases packets with
    | nil => cases hqs
    | cons p packets =>
      obtain ⟨hdata, hrest⟩ := List.cons.inj hqs
      obtain ⟨ts, number, payload, hgraphic, hbytes⟩ := hpackets p List.mem_cons_self
      have hreceive := receive_message ht ts number hgraphic ord q.client b
      rw [← hbytes, ← hdata] at hreceive
      obtain ⟨hsent, htopics⟩ := hreceive
      rw [hb] at hsent
      have hnext := ih hrest (fun p' hp' => hpackets p' (List.mem_cons_of_mem _ hp'))
        (htopics ▸ hb)
      show ((UserSpace.receive ord q.data q.client b).1 ++ send_all ord qs _).Perm _
      rw [hsent, hdata, List.map_cons, copies_cons]
      exact (hiter.map _).append hnext

end broadcast

section run
variable {args : PublisherArgs} {t : List UInt8} (ht : TopicName t) (htopic : args.topic = ascii t)
  {r : Run (publishing args)} {n : Nat} (hn : n ≤ r.len)
include ht htopic

theorem shortToken_topic : ShortToken (utf8 args.topic) := by
  rw [htopic, utf8_ascii ht.is_ascii]
  exact ht.shortToken

include hn

omit ht in
theorem message_of_wire {p : Packet} (hp : p ∈ (r.states n).shared.wire) :
    ∃ ts q payload, (∀ b ∈ payload, 33 ≤ b.toNat ∧ b.toNat ≤ 126) ∧
      p.bytes = message (ascii t) ts q payload := by
  obtain ⟨sent, hwire, -⟩ := wire_stamps r hn
  rw [hwire] at hp
  obtain ⟨e, -, rfl⟩ := List.mem_map.mp hp
  rw [← htopic]
  exact ⟨_, _, _, args.payload_chars e.1, rfl⟩

omit hn in
/-- What a worker gets of a message that the broker has sent on. -/
theorem carried_forwarded (e : Fin args.pubs × Stamp) :
    e.2.Carried args (cut (forwarded (e.2.bytes args e.1))) := by
  have hall : e.2.Carried args (forwarded (e.2.bytes args e.1)) := by
    unfold Stamp.Carried Stamp.bytes
    rw [htopic]
    exact hasFields_forwarded ht _ _ (args.payload_chars e.1)
  exact hall.cut (shortToken_topic ht htopic)

/-- The copies that the workers receive are of the messages that have arrived. -/
theorem received_of_user_space {stamps : List (Fin args.pubs × Stamp)}
    (harrived : (stamps.map fun e => e.2.packet args e.1).Subperm (r.states n).shared.wire)
    {host : UInt32} {subs : Nat} (hports : subs ≤ 50536) (x : UserSetup t host subs) (ord : SetOrder)
    {qs : List Request}
    (hqs : qs.map (·.data) = (stamps.map fun e => e.2.packet args e.1).map Packet.bytes)
    {workers : List (List (SockAddr × Batch))}
    (hnet : Delivered (send_all ord qs (x.broker ord)) workers) :
    Received (sockets host subs) (stamps.map fun e => cut (forwarded (e.2.bytes args e.1)))
      ((publications workers).map Receipt.delivery) := by
  have hbroadcast := (user_broadcasts ht ord (nodup_sockets host hports) hqs
    (fun p hp => message_of_wire htopic hn (harrived.subset hp)) (x.topics ht ord)).map
      fun e => (e.1, cut e.2)
  have hbytes : ((stamps.map fun e => e.2.packet args e.1).map fun p => forwarded p.bytes).map cut =
      stamps.map fun e => cut (forwarded (e.2.bytes args e.1)) := by
    rw [List.map_map, List.map_map]
    rfl
  rw [map_copies, hbytes] at hbroadcast
  exact List.Subperm.trans hnet hbroadcast.subperm

/-- **The samples**: one for each message that every socket has received, from
    the time that the publisher took for it. -/
theorem user_space_samples (hseq : (r.states n).shared.global_seq ≤ 10 ^ 10)
    {arrived : List Packet}
    (harrived : arrived.Subperm ((r.states n).shared.wire.filter fun p => p.dest_port ∈ ports))
    {host : UInt32} {subs : Nat} (hsubs : 0 < subs) (hports : subs ≤ 50536)
    (x : UserSetup t host subs) (ord : SetOrder) {qs : List Request}
    (hqs : qs.map (·.data) = arrived.map Packet.bytes) {workers : List (List (SockAddr × Batch))}
    (hnet : Delivered (send_all ord qs (x.broker ord)) workers)
    (hroom : arrived.length ≤ MAX_TRACKED_PKTS) (mord : MapOrder) (tx_msgs : Nat) :
    ∃ stamps : List (Fin args.pubs × Stamp),
      arrived = stamps.map (fun e => e.2.packet args e.1) ∧ (∀ e ∈ stamps, Made r n e) ∧
      ((run_benchmark mord subs false tx_msgs (batches workers)).latencies : Multiset Nat) =
        ((stamps.filter fun e =>
            Complete (sockets host subs) workers (cut (forwarded (e.2.bytes args e.1)))).map fun e =>
          last_ns workers (cut (forwarded (e.2.bytes args e.1))) - e.2.now_ns.toNat % 10 ^ 20 :
            List Nat) := by
  have hwire : arrived.Subperm (r.states n).shared.wire :=
    harrived.trans List.filter_sublist.subperm
  obtain ⟨stamps, rfl, hstamps⟩ := arrived_stamps r hn hwire
  rw [List.length_map] at hroom
  have hreceived := received_of_user_space ht htopic hn hwire hports x ord hqs hnet
  have hspace := space_not_mem (shortToken_topic ht htopic).toToken
  have hall := hstamps.latencies hspace hseq (fun e _ => carried_forwarded ht htopic e)
    (nodup_sockets host hports) hreceived (sockets_ne_nil host hsubs) hroom mord tx_msgs
  rw [length_sockets] at hall
  exact ⟨stamps, rfl, hstamps.made, hall⟩

/-- **The verdict**: with all publishers done, a trial passes with tolerance 0
    exactly when something was sent and other datagrams make up for each copy
    that is missing. A message to another port than that of the broker comes to
    no socket, so without other datagrams all messages must have gone there. -/
theorem user_space_passes_iff (hseq : (r.states n).shared.global_seq ≤ 10 ^ 10)
    (hidle : ∀ i, ((r.states n).publishers i).inFlight = 0) {arrived : List Packet}
    (harrived : arrived.Subperm ((r.states n).shared.wire.filter fun p => p.dest_port ∈ ports))
    {host : UInt32} {subs : Nat} (hports : subs ≤ 50536) (x : UserSetup t host subs)
    (ord : SetOrder) {qs : List Request} (hqs : qs.map (·.data) = arrived.map Packet.bytes)
    {workers : List (List (SockAddr × Batch))}
    (hnet : Delivered (send_all ord qs (x.broker ord)) workers) (mord : MapOrder) (sink : Bool) :
    (trial_passes 0 subs
        (run_benchmark mord subs sink (r.states n).shared.global_counter (batches workers)) = true ↔
      0 < (r.states n).shared.wire.length * subs ∧
        (missing (sockets host subs)
          ((r.states n).shared.wire.map fun p => cut (forwarded p.bytes))
          ((receipts workers).map Receipt.delivery)).length ≤ (others workers).length) ∧
    (∀ p ∈ (r.states n).shared.wire, p.dest_port ≠ 49152 →
      ∀ c, (c, cut (forwarded p.bytes)) ∉ (receipts workers).map Receipt.delivery) ∧
    (others workers = [] →
      (trial_passes 0 subs
          (run_benchmark mord subs sink (r.states n).shared.global_counter (batches workers)) = true ↔
        0 < (r.states n).shared.wire.length * subs ∧
          ∀ p ∈ (r.states n).shared.wire,
            p.dest_port = 49152 ∧ Complete (sockets host subs) workers (cut (forwarded p.bytes)))) := by
  have hwire : arrived.Subperm (r.states n).shared.wire :=
    harrived.trans List.filter_sublist.subperm
  obtain ⟨stamps, rfl, hstamps⟩ := arrived_stamps r hn hwire
  have hcome : ∀ e : Fin args.pubs × Stamp, e.2.Carried args (cut (forwarded (e.2.bytes args e.1))) :=
    carried_forwarded ht htopic
  have hspace := space_not_mem (shortToken_topic ht htopic).toToken
  have hreceived := received_of_user_space ht htopic hn hwire hports x ord hqs hnet
  -- a message that a socket has received was sent to the port of the broker
  have hport : ∀ p ∈ (r.states n).shared.wire, p.dest_port ≠ 49152 →
      ∀ c, (c, cut (forwarded p.bytes)) ∉ (receipts workers).map Receipt.delivery := by
    intro p hp hne c hmem
    obtain ⟨e, he, heq⟩ := List.mem_map.mp hmem
    have hbytes : e.bytes = cut (forwarded p.bytes) := congrArg Prod.snd heq
    have hpub : e ∈ publications workers := by
      refine List.mem_filter.mpr ⟨he, ?_⟩
      rw [hbytes]
      exact publish_of_wire hn (fun m => cut (forwarded m)) hcome hp
    obtain ⟨e', he', hsame⟩ := List.mem_map.mp (hreceived.mem (List.mem_map_of_mem hpub)).2
    have hin := harrived.subset (List.mem_map_of_mem he')
    obtain rfl : e'.2.packet args e'.1 = p :=
      List.inj_on_of_nodup_map (nodup_wire hn (fun m => cut (forwarded m)) hcome hspace hseq)
        (hwire.subset (List.mem_map_of_mem he')) hp (hsame.trans hbytes)
    exact hne (List.mem_singleton.mp (of_decide_eq_true (List.mem_filter.mp hin).2))
  have hverdict := verdict hn (fun m => cut (forwarded m)) hcome hspace hseq hidle hstamps hwire
    (nodup_sockets host hports) hreceived mord sink
  rw [length_sockets] at hverdict
  refine ⟨hverdict.1, hport, ?_⟩
  intro hothers
  rw [hverdict.2 hothers]
  apply and_congr_right
  intro hsome
  have hne := sockets_ne_nil host (Nat.pos_of_mul_pos_left hsome)
  obtain ⟨c, hc⟩ := List.exists_mem_of_ne_nil _ hne
  refine forall₂_congr fun p hp => ⟨fun hcomplete => ⟨?_, hcomplete⟩, fun hand => hand.2⟩
  by_contra hother
  exact hport p hp hother c (hcomplete c hc)

end run

/-! ### A trial of two messages -/

def sample_user_setup : UserSetup [97] 0x0700000a 1 where
  earlier := .empty
  flusher := ⟨0x0700000a, 0x8813⟩
  registrar := ⟨0x0700000a, 0x8913⟩
  joining := [datagram SUBSCRIBE [97] (subscriber 0x0700000a 0)]
  others q hq := by
    rw [List.mem_singleton.mp hq]
    exact Or.inl rfl
  joined c := by
    have hall : joiners [97] [datagram SUBSCRIBE [97] (subscriber 0x0700000a 0)] =
        sockets 0x0700000a 1 := by
      decide +kernel
    rw [hall]

def sample_user_requests : List Request :=
  sample_packets.map fun p => ⟨p.bytes, ⟨0x0700000a, 0x3075⟩, []⟩

theorem sample_user_data : sample_user_requests.map (·.data) = sample_packets.map Packet.bytes :=
  List.map_map

theorem sample_topic_name : TopicName [97] where
  ne_nil := List.cons_ne_nil 97 []
  length_le := by decide
  graphic b hb := by
    rw [List.mem_singleton.mp hb]
    decide

theorem sample_user_arrived :
    sample_packets.Subperm ((sample_run.states 75).shared.wire.filter fun p => p.dest_port ∈ ports) := by
  have hall : (sample_packets.filter fun p => p.dest_port ∈ ports) = sample_packets := by
    decide +kernel
  rw [sample_wire, hall]

/-- The second copy is lost. -/
theorem sample_user_delivered :
    Delivered (send_all by_address sample_user_requests (sample_user_setup.broker by_address))
      sample_workers := by
  have hsent : (copies (sockets 0x0700000a 1) (sample_packets.map fun p => forwarded p.bytes)).map
      (fun e => (e.1, cut e.2)) =
        (publications sample_workers).map Receipt.delivery ++
          [(subscriber 0x0700000a 0, message ['a'] 5 1 (List.replicate 22 33))] := by
    decide +kernel
  have hbroadcast := (user_broadcasts sample_topic_name by_address
    (nodup_sockets 0x0700000a (show 1 ≤ 50536 by decide)) sample_user_data
    (fun p hp => message_of_wire (t := [97]) rfl (r := sample_run) (n := 75) (by decide)
      (by rw [sample_wire]; exact hp))
    (sample_user_setup.topics sample_topic_name by_address)).map fun e => (e.1, cut e.2)
  rw [hsent] at hbroadcast
  exact (List.sublist_append_left _ _).subperm.trans hbroadcast.symm.subperm

theorem user_space_samples_sample :
    ((run_benchmark listed 1 false 2 (batches sample_workers)).latencies : Multiset Nat) =
      ([4] : List Nat) := by
  obtain ⟨stamps, harrived, hmade, hall⟩ := user_space_samples sample_topic_name rfl
    (r := sample_run) (n := 75) (by decide) (by decide +kernel) sample_user_arrived (by decide)
    (by decide) sample_user_setup by_address sample_user_data sample_user_delivered (by decide)
    listed 2
  have hone : (sample_packets.filter fun p =>
      Complete (sockets 0x0700000a 1) sample_workers (cut (forwarded p.bytes))).map (fun p =>
        last_ns sample_workers (cut (forwarded p.bytes)) - 5) = [4] := by
    decide +kernel
  rw [harrived, List.filter_map, List.map_map] at hone
  simp only [Function.comp_def, Stamp.packet] at hone
  rw [hall, ← hone]
  refine congrArg Multiset.ofList (List.map_congr_left ?_)
  intro e he
  have hnow : e.2.now_ns.toNat % 10 ^ 20 = 5 := by
    rw [sample_made (hmade e (List.mem_filter.mp he).1)]
    decide
  rw [hnow]

/-- Nothing makes up for the second copy. -/
theorem user_space_passes_iff_sample :
    ¬ trial_passes 0 1 (run_benchmark listed 1 true (sample_run.states 75).shared.global_counter
      (batches sample_workers)) = true := by
  have hiff := (user_space_passes_iff sample_topic_name rfl (r := sample_run) (n := 75) (by decide)
    (by decide +kernel) (by decide +kernel) sample_user_arrived (by decide) sample_user_setup
    by_address sample_user_data sample_user_delivered listed true).2.2 rfl
  rw [hiff]
  intro hall
  have hlost := (hall.2 ⟨49152, message ['a'] 5 1 (List.replicate 22 33)⟩ (by
    rw [sample_wire]
    exact List.mem_cons_of_mem _ List.mem_cons_self)).2
  revert hlost
  decide +kernel

end Benchmark

end BpfBroker
