import BpfBroker.Benchmark.Accounting
import BpfBroker.Benchmark.Forwarding
import BpfBroker.Benchmark.Latency
import BpfBroker.Benchmark.Numbering

/-! # A Trial from End to End

    Publishers send, the broker forwards, the network may lose what it likes,
    the workers receive, and `run_benchmark` evaluates. A latency sample then
    stands for a message that every socket of the trial has received, and each
    such message has one; a trial passes when nothing is missing, or when other
    datagrams make up for it. -/

namespace BpfBroker.Benchmark

open LTS Broadcast Text

/-! ### What the workers receive -/

/-- A datagram on a socket, and the time taken after it. -/
structure Receipt where
  socket : SockAddr
  bytes : List UInt8
  now_ns : Nat

def Receipt.delivery (r : Receipt) : SockAddr × List UInt8 := (r.socket, r.bytes)

/-- The datagrams of all workers; each worker goes round its sockets, so a
    batch comes with the socket it was read from. -/
def receipts (workers : List (List (SockAddr × Batch))) : List Receipt :=
  workers.flatMap fun batches =>
    batches.flatMap fun b => b.2.packets.map fun pkt => ⟨b.1, pkt, b.2.now_ns⟩

/-- Those that start with `"PUBLISH "`. -/
def publications (workers : List (List (SockAddr × Batch))) : List Receipt :=
  (receipts workers).filter fun r => PUBLISH.isPrefixOf r.bytes

/-- What the workers make of the batches does not depend on the socket. -/
def batches (workers : List (List (SockAddr × Batch))) : List (List Batch) :=
  workers.map (·.map Prod.snd)

/-- The others, such as the broker's replies to the SUBSCRIBEs. -/
def others (workers : List (List (SockAddr × Batch))) : List Receipt :=
  (receipts workers).filter fun r => !PUBLISH.isPrefixOf r.bytes

def PKT_BUF : Nat := 2048

/-- `recvmmsg` cuts off what its buffer has no room for. -/
def cut (bytes : List UInt8) : List UInt8 := bytes.take PKT_BUF

/-- **The network**: each datagram that the broker sends is received once, by
    the socket it is addressed to and as far as the buffer has room for it, or
    lost. Nobody else sends publications to these sockets; other datagrams may
    come in. -/
def Delivered (sent : List (SockAddr × List UInt8)) (workers : List (List (SockAddr × Batch))) :
    Prop :=
  ((publications workers).map Receipt.delivery).Subperm (sent.map fun e => (e.1, cut e.2))

/-- The number in a message. -/
def seq_of (bytes : List UInt8) : BitVec 64 := ((parse_seq_number bytes).getD none).getD 0

/-- The time in a message. -/
def sent_of (bytes : List UInt8) : Nat := (((parse_timestamp_ns bytes).getD none).getD 0).toNat

/-- The last time taken after this message. -/
def last_ns (workers : List (List (SockAddr × Batch))) (bytes : List UInt8) : Nat :=
  ((((receipts workers).filter fun r => r.bytes = bytes).map Receipt.now_ns : List Nat) :
    Multiset Nat).sup

/-- The message has come to all of these sockets. -/
def Complete (members : List SockAddr) (workers : List (List (SockAddr × Batch)))
    (bytes : List UInt8) : Prop :=
  ∀ c ∈ members, (c, bytes) ∈ (receipts workers).map Receipt.delivery

instance (members : List SockAddr) (workers : List (List (SockAddr × Batch))) (bytes : List UInt8) :
    Decidable (Complete members workers bytes) :=
  inferInstanceAs (Decidable (∀ c ∈ members, _))

/-- A message that a worker can read. -/
structure Readable (bytes : List UInt8) : Prop where
  publish : PUBLISH.isPrefixOf bytes = true
  seq : ∃ seq, parse_seq_number bytes = some (some seq)
  time : ∃ ts, parse_timestamp_ns bytes = some (some ts)

/-- The copy that a receipt is. -/
def Receipt.copy (r : Receipt) : Copy := ⟨seq_of r.bytes, sent_of r.bytes, r.now_ns⟩

theorem Readable.copy_of_eq {bytes : List UInt8} (h : Readable bytes) (now_ns : Nat) :
    copy_of now_ns bytes = some ⟨seq_of bytes, sent_of bytes, now_ns⟩ := by
  obtain ⟨seq, hseq⟩ := h.seq
  obtain ⟨ts, hts⟩ := h.time
  unfold copy_of seq_of sent_of
  rw [h.publish, hseq, hts]
  rfl

section workers
variable {workers : List (List (SockAddr × Batch))}

theorem received_batches : received (batches workers) = (receipts workers).map Receipt.bytes := by
  unfold received batches receipts
  rw [List.flatMap_map, List.map_flatMap]
  congr 1
  funext bs
  rw [List.flatMap_map, List.map_flatMap]
  congr 1
  funext b
  rw [List.map_map]
  exact (List.map_id _).symm

/-- The copies that the workers find are the readable publications. -/
theorem copies_of_batches (h : ∀ r ∈ publications workers, Readable r.bytes) :
    (batches workers).flatMap copies_of = (publications workers).map Receipt.copy := by
  have hall : (batches workers).flatMap copies_of =
      (receipts workers).filterMap fun r => copy_of r.now_ns r.bytes := by
    unfold batches receipts copies_of
    rw [List.flatMap_map, List.filterMap_flatMap]
    congr 1
    funext bs
    rw [List.flatMap_map, List.filterMap_flatMap]
    congr 1
    funext b
    rw [List.filterMap_map]
    rfl
  rw [hall]
  unfold publications at h ⊢
  generalize receipts workers = l at h ⊢
  induction l with
  | nil => rfl
  | cons r l ih =>
    rw [List.filterMap_cons]
    by_cases hp : PUBLISH.isPrefixOf r.bytes = true
    · rw [List.filter_cons_of_pos (by exact hp)] at h ⊢
      rw [(h r List.mem_cons_self).copy_of_eq, List.map_cons,
        ih fun r' hr' => h r' (List.mem_cons_of_mem _ hr')]
      rfl
    · rw [List.filter_cons_of_neg (by exact hp)] at h ⊢
      have hnone : copy_of r.now_ns r.bytes = none := by
        unfold copy_of
        rw [Bool.not_eq_true] at hp
        rw [hp]
        rfl
      rw [hnone, ih h]

/-- A worker's share of the publications. -/
theorem mem_copies_of {bs : List (SockAddr × Batch)} (hbs : bs ∈ workers)
    (h : ∀ r ∈ publications workers, Readable r.bytes) {c : Copy}
    (hc : c ∈ copies_of (bs.map Prod.snd)) : ∃ r ∈ publications workers, c = r.copy := by
  have hmem : c ∈ (batches workers).flatMap copies_of :=
    List.mem_flatMap.mpr ⟨bs.map Prod.snd, List.mem_map_of_mem hbs, hc⟩
  rw [copies_of_batches h] at hmem
  obtain ⟨r, hr, heq⟩ := List.mem_map.mp hmem
  exact ⟨r, hr, heq.symm⟩

end workers

/-! ### The samples -/

/-- The messages are read with different numbers, and each copy of them is
    received once or lost. -/
structure Observed (members : List SockAddr) (msgs : List (List UInt8))
    (workers : List (List (SockAddr × Batch))) : Prop where
  nodup : members.Nodup
  readable : ∀ m ∈ msgs, Readable m
  seqs : (msgs.map seq_of).Nodup
  received : Received members msgs ((publications workers).map Receipt.delivery)

section observed
variable {members : List SockAddr} {msgs : List (List UInt8)}
  {workers : List (List (SockAddr × Batch))} (h : Observed members msgs workers)
include h

theorem Observed.mem {r : Receipt} (hr : r ∈ publications workers) :
    r.socket ∈ members ∧ r.bytes ∈ msgs :=
  h.received.mem (List.mem_map_of_mem hr)

theorem Observed.readable_of_mem : ∀ r ∈ publications workers, Readable r.bytes :=
  fun r hr => h.readable r.bytes (h.mem hr).2

/-- A number stands for one message. -/
theorem Observed.seq_of_eq_iff {m m' : List UInt8} (hm : m ∈ msgs) (hm' : m' ∈ msgs) :
    seq_of m = seq_of m' ↔ m = m' :=
  ⟨List.inj_on_of_nodup_map h.seqs hm hm', congrArg seq_of⟩

theorem Observed.nodup_msgs : msgs.Nodup := List.Nodup.of_map _ h.seqs

/-- The receipts of a message are publications. -/
theorem Observed.mem_delivery_iff {c : SockAddr} {m : List UInt8} (hm : m ∈ msgs) :
    (c, m) ∈ (publications workers).map Receipt.delivery ↔
      (c, m) ∈ (receipts workers).map Receipt.delivery := by
  constructor
  · intro hmem
    obtain ⟨r, hr, heq⟩ := List.mem_map.mp hmem
    exact List.mem_map.mpr ⟨r, (List.mem_filter.mp hr).1, heq⟩
  · intro hmem
    obtain ⟨r, hr, heq⟩ := List.mem_map.mp hmem
    have hbytes : r.bytes = m := congrArg Prod.snd heq
    refine List.mem_map.mpr ⟨r, List.mem_filter.mpr ⟨hr, ?_⟩, heq⟩
    rw [hbytes]
    exact (h.readable m hm).publish

/-- The receipts with the number of a message are those of the message. -/
theorem Observed.filter_seq {m : List UInt8} (hm : m ∈ msgs) :
    ((publications workers).filter fun r => seq_of r.bytes = seq_of m) =
      (receipts workers).filter fun r => r.bytes = m := by
  have hpub : ((receipts workers).filter fun r => r.bytes = m) =
      (publications workers).filter fun r => r.bytes = m := by
    unfold publications
    rw [List.filter_filter]
    apply List.filter_congr
    intro r _
    by_cases heq : r.bytes = m
    · simp [heq, (h.readable m hm).publish]
    · simp [heq]
  rw [hpub]
  apply List.filter_congr
  intro r hr
  exact decide_eq_decide.mpr (h.seq_of_eq_iff (h.mem hr).2 hm)

/-- **As many copies as sockets** means a copy on every socket. -/
theorem Observed.complete_iff {m : List UInt8} (hm : m ∈ msgs) :
    ((receipts workers).filter fun r => r.bytes = m).length = members.length ↔
      Complete members workers m := by
  have hcount : (((publications workers).map Receipt.delivery).filter fun r => r.2 = m).length =
      ((receipts workers).filter fun r => r.bytes = m).length := by
    rw [List.filter_map, List.length_map, ← h.filter_seq hm]
    congr 1
    apply List.filter_congr
    intro r hr
    exact (decide_eq_decide.mpr (h.seq_of_eq_iff (h.mem hr).2 hm)).symm
  rw [← hcount, h.received.complete_iff h.nodup h.nodup_msgs]
  exact forall₂_congr fun c _ => h.mem_delivery_iff hm

/-- The numbers with as many copies as sockets are those of the messages that
    have come to all of them. -/
theorem Observed.complete_seqs (hpos : members ≠ []) :
    ((((publications workers).map fun r => seq_of r.bytes).toFinset).filter fun k =>
        ((publications workers).filter fun r => seq_of r.bytes = k).length = members.length).val =
      ((msgs.filter fun m => Complete members workers m).map seq_of : List (BitVec 64)) := by
  apply Multiset.Nodup.ext (Finset.nodup _) (Multiset.coe_nodup.mpr ?_) |>.mpr
  · intro k
    rw [Finset.mem_val, Finset.mem_filter, List.mem_toFinset, Multiset.mem_coe]
    simp only [List.mem_map, List.mem_filter, decide_eq_true_eq]
    constructor
    · intro hk
      obtain ⟨⟨r, hr, rfl⟩, hcount⟩ := hk
      obtain ⟨-, hm⟩ := h.mem hr
      rw [h.filter_seq hm, h.complete_iff hm] at hcount
      exact ⟨r.bytes, ⟨hm, hcount⟩, rfl⟩
    · intro hk
      obtain ⟨m, ⟨hm, hcomplete⟩, rfl⟩ := hk
      constructor
      · -- there is a socket, and it has the message
        obtain ⟨c, hc⟩ := List.exists_mem_of_ne_nil _ hpos
        obtain ⟨r, hr, heq⟩ := List.mem_map.mp ((h.mem_delivery_iff hm).mpr (hcomplete c hc))
        have hbytes : r.bytes = m := congrArg Prod.snd heq
        exact ⟨r, hr, by rw [hbytes]⟩
      · rw [h.filter_seq hm, h.complete_iff hm]
        exact hcomplete
  · exact h.seqs.sublist (List.filter_sublist.map _)

/-- **The samples**: one for each message that has come to every socket, from
    its time to the last of its copies. -/
theorem Observed.latencies (hpos : members ≠ []) (hroom : msgs.length ≤ MAX_TRACKED_PKTS)
    (ord : MapOrder) (tx_msgs : Nat) :
    ((run_benchmark ord members.length false tx_msgs (batches workers)).latencies : Multiset Nat) =
      ((msgs.filter fun m => Complete members workers m).map fun m =>
        last_ns workers m - sent_of m : List Nat) := by
  obtain ⟨sent, hsent⟩ : ∃ sent : BitVec 64 → Nat, ∀ m ∈ msgs, sent (seq_of m) = sent_of m :=
    Tally.exists_value h.seqs
  have hread := h.readable_of_mem
  -- what a worker tracks are copies of the messages
  have hcopy : ∀ bs ∈ batches workers, ∀ c ∈ copies_of bs,
      ∃ m ∈ msgs, c.seq = seq_of m ∧ c.sent_ns = sent_of m := by
    intro bs hbs c hc
    obtain ⟨bs', hbs', rfl⟩ := List.mem_map.mp hbs
    obtain ⟨r, hr, rfl⟩ := mem_copies_of hbs' hread hc
    exact ⟨r.bytes, (h.mem hr).2, rfl, rfl⟩
  have htime : ∀ bs ∈ batches workers, ∀ c ∈ copies_of bs, c.sent_ns = sent c.seq := by
    intro bs hbs c hc
    obtain ⟨m, hm, hseq, htime⟩ := hcopy bs hbs c hc
    rw [hseq, htime, hsent m hm]
  have htracked : ∀ bs ∈ batches workers,
      ((copies_of bs).map Copy.seq).toFinset.card ≤ MAX_TRACKED_PKTS := by
    intro bs hbs
    have hsub : ((copies_of bs).map Copy.seq).toFinset ⊆ (msgs.map seq_of).toFinset := by
      intro k hk
      obtain ⟨c, hc, rfl⟩ := List.mem_map.mp (List.mem_toFinset.mp hk)
      obtain ⟨m, hm, hseq, -⟩ := hcopy bs hbs c hc
      rw [hseq]
      exact List.mem_toFinset.mpr (List.mem_map_of_mem hm)
    calc _ ≤ (msgs.map seq_of).toFinset.card := Finset.card_le_card hsub
      _ ≤ (msgs.map seq_of).length := List.toFinset_card_le _
      _ ≤ MAX_TRACKED_PKTS := by rwa [List.length_map]
  have hglobal := Holds.merge_loop ord (workers_hold htime htracked) 0 holds_empty
  rw [add_zero, sum_copies, copies_of_batches hread] at hglobal
  have hfilter : ∀ k, (((publications workers).map Receipt.copy : List Copy) : Multiset Copy).filter
      (fun c => c.seq = k) =
        (((publications workers).filter fun r => seq_of r.bytes = k).map Receipt.copy : List Copy) := by
    intro k
    rw [Multiset.filter_coe, List.filter_map]
    rfl
  have hentries := hglobal.entries
  simp only [hfilter, Multiset.map_coe, List.map_map, Multiset.coe_card, List.length_map] at hentries
  unfold run_benchmark
  dsimp only
  rw [if_neg Bool.false_ne_true]
  generalize merge_loop ord 0 _ ∅ = global at hentries ⊢
  rw [← Multiset.map_coe, ← Multiset.filter_coe, Multiset.coe_eq_coe.mpr (ord.perm _ global),
    hentries, Multiset.filter_map, Multiset.map_map]
  refine (congrArg (Multiset.map _) (h.complete_seqs hpos)).trans ?_
  rw [Multiset.map_coe, List.map_map]
  congr 1
  apply List.map_congr_left
  intro m hm
  have hmem := (List.mem_filter.mp hm).1
  unfold last_ns
  rw [← h.filter_seq hmem, ← hsent m hmem]
  rfl

/-- **The verdict** of a trial in which all of `all` was sent: with tolerance 0
    it passes when something was sent and other datagrams make up for each
    copy that is missing. -/
theorem Observed.passes_iff {all : List (List UInt8)} (hall : all.Nodup) (hmsgs : msgs.Subperm all)
    (hpublish : ∀ m ∈ all, PUBLISH.isPrefixOf m = true) (ord : MapOrder) (sink : Bool) :
    trial_passes 0 members.length
        (run_benchmark ord members.length sink all.length (batches workers)) = true ↔
      0 < all.length * members.length ∧
        (missing members all ((receipts workers).map Receipt.delivery)).length ≤
          (others workers).length := by
  have hrx : (run_benchmark ord members.length sink all.length (batches workers)).rx_msgs =
      ((publications workers).map Receipt.delivery).length + (others workers).length := by
    rw [rx_msgs_eq, received_batches, List.length_map, List.length_map]
    unfold publications others
    rw [List.length_eq_length_filter_add fun r => PUBLISH.isPrefixOf r.bytes]
  have htxs : (run_benchmark ord members.length sink all.length (batches workers)).tx_msgs =
      all.length := rfl
  have hmissing : missing members all ((receipts workers).map Receipt.delivery) =
      missing members all ((publications workers).map Receipt.delivery) := by
    unfold missing
    apply List.filter_congr
    intro e he
    apply decide_eq_decide.mpr
    apply not_congr
    constructor
    · intro hmem
      obtain ⟨r, hr, rfl⟩ := List.mem_map.mp hmem
      exact List.mem_map_of_mem (List.mem_filter.mpr ⟨hr, hpublish _ (mem_copies.mp he).2⟩)
    · intro hmem
      obtain ⟨r, hr, rfl⟩ := List.mem_map.mp hmem
      exact List.mem_map_of_mem (List.mem_filter.mp hr).1
  have hsum := (h.received.mono hmsgs).length_add_missing h.nodup hall
  rw [trial_passes_zero, hrx, htxs, hmissing]
  apply and_congr_right
  intro _
  omega

/-- With no other datagrams, nothing may be missing. -/
theorem Observed.passes_iff_nothing_missing {all : List (List UInt8)} (hall : all.Nodup)
    (hmsgs : msgs.Subperm all) (hpublish : ∀ m ∈ all, PUBLISH.isPrefixOf m = true)
    (hothers : others workers = []) (ord : MapOrder) (sink : Bool) :
    trial_passes 0 members.length
        (run_benchmark ord members.length sink all.length (batches workers)) = true ↔
      0 < all.length * members.length ∧ ∀ m ∈ all, Complete members workers m := by
  rw [h.passes_iff hall hmsgs hpublish, hothers, List.length_nil, Nat.le_zero, List.length_eq_zero_iff,
    missing_eq_nil_iff]
  rfl

end observed

/-! ### Messages of the publishers -/

/-- A topic that is one word for the broker has no space. -/
theorem space_not_mem {topic : List Char} (h : Token (utf8 topic)) : ' ' ∉ topic := by
  intro hmem
  have hsp : SP ∈ utf8 topic := List.mem_flatMap.mpr ⟨' ', hmem, by decide⟩
  exact absurd (h.no_delim SP hsp) (by decide)

theorem head_eq (topic : List Char) : head topic = PUBLISH ++ (utf8 topic ++ [SP]) := by
  unfold head
  rw [utf8_append, utf8_append]
  rfl

theorem length_head_le {topic : List Char} (h : ShortToken (utf8 topic)) :
    (head topic).length ≤ 28 := by
  have hword : PUBLISH.length = 8 := rfl
  have hshort : (utf8 topic).length < 20 := h.length_lt
  rw [head_eq, List.length_append, List.length_append, hword, List.length_singleton]
  omega

section messages
variable {args : PublisherArgs} {s : Stamp} {bytes : List UInt8} (h : s.Carried args bytes)
include h

/-- The buffer of a worker has room for the fields. -/
theorem Stamp.Carried.cut (htopic : ShortToken (utf8 args.topic)) : s.Carried args (cut bytes) := by
  have hhead := length_head_le htopic
  apply HasFields.take h
  unfold PKT_BUF
  omega

theorem Stamp.Carried.publish : PUBLISH.isPrefixOf bytes = true := by
  obtain ⟨tail, -, rfl⟩ := h
  rw [head_eq, List.append_assoc]
  exact List.isPrefixOf_iff_prefix.mpr (List.prefix_append _ _)

theorem Stamp.Carried.readable (htopic : ' ' ∉ args.topic) (hs : s.seq < 10 ^ 10) :
    Readable bytes := by
  obtain ⟨hts, hq⟩ := h.read htopic hs
  exact ⟨h.publish, ⟨_, hq⟩, _, hts⟩

/-- The time in a message is that of its stamp. -/
theorem Stamp.Carried.sent_of_eq (htopic : ' ' ∉ args.topic) (hs : s.seq < 10 ^ 10) :
    sent_of bytes = s.now_ns.toNat % 10 ^ 20 := by
  obtain ⟨hts, -⟩ := h.read htopic hs
  have hlt : s.now_ns.toNat % 10 ^ 20 < 2 ^ 128 :=
    Nat.lt_trans (Nat.mod_lt _ (by decide)) (by decide)
  unfold sent_of
  rw [hts, Option.getD_some, Option.getD_some, BitVec.toNat_ofNat, Nat.mod_eq_of_lt hlt]

end messages

section stamps
variable {args : PublisherArgs} {r : Run (publishing args)} {n : Nat}
  {stamps : List (Fin args.pubs × Stamp)} (h : Genuine r n stamps) (htopic : ' ' ∉ args.topic)
  (hseq : (r.states n).shared.global_seq ≤ 10 ^ 10) {bytes : Fin args.pubs × Stamp → List UInt8}
  (hbytes : ∀ e ∈ stamps, e.2.Carried args (bytes e))
include h htopic hseq hbytes

theorem Genuine.readable : ∀ e ∈ stamps, Readable (bytes e) := fun e he =>
  (hbytes e he).readable htopic (Nat.lt_of_lt_of_le (h.seq_lt e he) hseq)

theorem Genuine.nodup_seqs : ((stamps.map bytes).map seq_of).Nodup := by
  have hnodup := h.nodup_read htopic hseq hbytes
  have hsame : stamps.map (fun e => parse_seq_number (bytes e)) =
      ((stamps.map bytes).map seq_of).map fun q => some (some q) := by
    rw [List.map_map, List.map_map]
    apply List.map_congr_left
    intro e he
    obtain ⟨seq, hq⟩ := (h.readable htopic hseq hbytes e he).seq
    show parse_seq_number (bytes e) = some (some (seq_of (bytes e)))
    unfold seq_of
    rw [hq]
    rfl
  rw [hsame] at hnodup
  exact List.Nodup.of_map _ hnodup

/-- What the workers observe, when the messages come to them as `bytes`. -/
theorem Genuine.observed {members : List SockAddr} (hmembers : members.Nodup)
    {workers : List (List (SockAddr × Batch))}
    (hreceived : Received members (stamps.map bytes)
      ((publications workers).map Receipt.delivery)) :
    Observed members (stamps.map bytes) workers := by
  refine ⟨hmembers, ?_, h.nodup_seqs htopic hseq hbytes, hreceived⟩
  intro m hm
  obtain ⟨e, he, rfl⟩ := List.mem_map.mp hm
  exact h.readable htopic hseq hbytes e he

/-- **The samples** with the times that the publishers wrote. -/
theorem Genuine.latencies {members : List SockAddr} (hmembers : members.Nodup)
    {workers : List (List (SockAddr × Batch))}
    (hreceived : Received members (stamps.map bytes)
      ((publications workers).map Receipt.delivery))
    (hpos : members ≠ []) (hroom : stamps.length ≤ MAX_TRACKED_PKTS) (ord : MapOrder)
    (tx_msgs : Nat) :
    ((run_benchmark ord members.length false tx_msgs (batches workers)).latencies : Multiset Nat) =
      ((stamps.filter fun e => Complete members workers (bytes e)).map fun e =>
        last_ns workers (bytes e) - e.2.now_ns.toNat % 10 ^ 20 : List Nat) := by
  have hobs := h.observed htopic hseq hbytes hmembers hreceived
  rw [hobs.latencies hpos (by rwa [List.length_map]), List.filter_map, List.map_map]
  congr 1
  apply List.map_congr_left
  intro e he
  have hmem := (List.mem_filter.mp he).1
  show last_ns workers (bytes e) - sent_of (bytes e) = _
  rw [(hbytes e hmem).sent_of_eq htopic (Nat.lt_of_lt_of_le (h.seq_lt e hmem) hseq)]

end stamps

section wire
variable {args : PublisherArgs} {r : Run (publishing args)} {n : Nat} (hn : n ≤ r.len)
  (come : List UInt8 → List UInt8)
  (hcome : ∀ e : Fin args.pubs × Stamp, e.2.Carried args (come (e.2.bytes args e.1)))
include hn hcome

theorem publish_of_wire {p : Packet} (hp : p ∈ (r.states n).shared.wire) :
    PUBLISH.isPrefixOf (come p.bytes) = true := by
  obtain ⟨all, hwire, -⟩ := wire_stamps r hn
  rw [hwire] at hp
  obtain ⟨e, -, rfl⟩ := List.mem_map.mp hp
  exact (hcome e).publish

variable (htopic : ' ' ∉ args.topic) (hseq : (r.states n).shared.global_seq ≤ 10 ^ 10)
include htopic hseq

/-- The messages are different, also as they come to the sockets. -/
theorem nodup_wire : ((r.states n).shared.wire.map fun p => come p.bytes).Nodup := by
  obtain ⟨all, hwire, hall⟩ := wire_stamps r hn
  rw [hwire, List.map_map]
  exact List.Nodup.of_map _ (hall.nodup_seqs htopic hseq fun e _ => hcome e)

/-- **The verdict**, when the messages come to the sockets as `come` says. -/
theorem verdict (hidle : ∀ i, ((r.states n).publishers i).inFlight = 0)
    {stamps : List (Fin args.pubs × Stamp)} (hstamps : Genuine r n stamps)
    (harrived : (stamps.map fun e => e.2.packet args e.1).Subperm (r.states n).shared.wire)
    {members : List SockAddr} (hmembers : members.Nodup) {workers : List (List (SockAddr × Batch))}
    (hreceived : Received members (stamps.map fun e => come (e.2.bytes args e.1))
      ((publications workers).map Receipt.delivery)) (ord : MapOrder) (sink : Bool) :
    (trial_passes 0 members.length (run_benchmark ord members.length sink
        (r.states n).shared.global_counter (batches workers)) = true ↔
      0 < (r.states n).shared.wire.length * members.length ∧
        (missing members ((r.states n).shared.wire.map fun p => come p.bytes)
          ((receipts workers).map Receipt.delivery)).length ≤ (others workers).length) ∧
    (others workers = [] →
      (trial_passes 0 members.length (run_benchmark ord members.length sink
          (r.states n).shared.global_counter (batches workers)) = true ↔
        0 < (r.states n).shared.wire.length * members.length ∧
          ∀ p ∈ (r.states n).shared.wire, Complete members workers (come p.bytes))) := by
  have hobs := hstamps.observed htopic hseq (fun e _ => hcome e) hmembers hreceived
  have htx : (r.states n).shared.global_counter = (r.states n).shared.wire.length :=
    (accounted r hn).counter_eq hidle
  have hmsgs : (stamps.map fun e => come (e.2.bytes args e.1)).Subperm
      ((r.states n).shared.wire.map fun p => come p.bytes) := by
    have hmap := subperm_map (fun p : Packet => come p.bytes) harrived
    rwa [List.map_map] at hmap
  have hnodup := nodup_wire hn come hcome htopic hseq
  have hpublish : ∀ m ∈ (r.states n).shared.wire.map (fun p => come p.bytes),
      PUBLISH.isPrefixOf m = true :=
    List.forall_mem_map.mpr fun p hp => publish_of_wire hn come hcome hp
  rw [htx]
  constructor
  · have hpass := hobs.passes_iff hnodup hmsgs hpublish ord sink
    rwa [List.length_map] at hpass
  · intro hothers
    have hpass := hobs.passes_iff_nothing_missing hnodup hmsgs hpublish hothers ord sink
    rwa [List.length_map, List.forall_mem_map] at hpass

end wire

/-- Every packet on the wire publishes to the topic. -/
theorem publishesTo_of_wire {args : PublisherArgs} {r : Run (publishing args)} {n : Nat}
    (hn : n ≤ r.len) {p : Packet} (hp : p ∈ (r.states n).shared.wire) :
    PublishesTo (utf8 args.topic) p := by
  obtain ⟨sent, hwire, -⟩ := wire_stamps r hn
  rw [hwire] at hp
  obtain ⟨⟨i, s⟩, -, rfl⟩ := List.mem_map.mp hp
  have hport : s.dest.val < 16 := s.dest.isLt
  refine ⟨Nat.le_add_right _ _, ?_, ?_⟩
  · show 49152 + s.dest.val < 49168
    omega
  · show ∃ rest, message args.topic _ _ _ = _
    unfold message
    rw [head_eq, List.append_assoc, List.append_assoc]
    exact ⟨_, rfl⟩

section run
variable {args : PublisherArgs} (htopic : ShortToken (utf8 args.topic))
  {r : Run (publishing args)} {n : Nat} (hn : n ≤ r.len)
include htopic hn

/-- **The broker broadcasts the trial**: whatever the interleaving of the
    publishers, each packet of theirs that arrives goes to every socket once. -/
theorem trial_broadcast {arrived : List Packet} (harrived : arrived.Subperm (r.states n).shared.wire)
    {host : UInt32} {subs : Nat} {x : Setup (utf8 args.topic) host subs} {sent : List Frame}
    (hsends : Sends x arrived sent) :
    (sent.map delivery).Perm (copies (sockets host subs) (arrived.map Packet.bytes)) :=
  hsends.broadcast htopic fun _ hp => publishesTo_of_wire hn (harrived.subset hp)

/-- The copies that the workers receive are of the messages that have arrived. -/
theorem received_of_delivered {stamps : List (Fin args.pubs × Stamp)}
    (harrived : (stamps.map fun e => e.2.packet args e.1).Subperm (r.states n).shared.wire)
    {host : UInt32} {subs : Nat} {x : Setup (utf8 args.topic) host subs} {sent : List Frame}
    (hsends : Sends x (stamps.map fun e => e.2.packet args e.1) sent)
    {workers : List (List (SockAddr × Batch))} (hnet : Delivered (sent.map delivery) workers) :
    Received (sockets host subs) (stamps.map fun e => cut (e.2.bytes args e.1))
      ((publications workers).map Receipt.delivery) := by
  have hbroadcast := (hsends.broadcast htopic fun p hp =>
    publishesTo_of_wire hn (harrived.subset hp)).map fun e => (e.1, cut e.2)
  have hbytes : ((stamps.map fun e => e.2.packet args e.1).map Packet.bytes).map cut =
      stamps.map fun e => cut (e.2.bytes args e.1) := by
    rw [List.map_map, List.map_map]
    rfl
  rw [map_copies, hbytes] at hbroadcast
  exact List.Subperm.trans hnet hbroadcast.subperm

/-- The samples, when the packets of these stamps have arrived. -/
theorem latencies_of_delivered (hseq : (r.states n).shared.global_seq ≤ 10 ^ 10)
    {stamps : List (Fin args.pubs × Stamp)} (hstamps : Genuine r n stamps)
    (harrived : (stamps.map fun e => e.2.packet args e.1).Subperm (r.states n).shared.wire)
    {host : UInt32} {subs : Nat} (hsubs : 0 < subs) {x : Setup (utf8 args.topic) host subs}
    {sent : List Frame} (hsends : Sends x (stamps.map fun e => e.2.packet args e.1) sent)
    {workers : List (List (SockAddr × Batch))} (hnet : Delivered (sent.map delivery) workers)
    (hroom : stamps.length ≤ MAX_TRACKED_PKTS) (ord : MapOrder) (tx_msgs : Nat) :
    ((run_benchmark ord subs false tx_msgs (batches workers)).latencies : Multiset Nat) =
      ((stamps.filter fun e =>
          Complete (sockets host subs) workers (cut (e.2.bytes args e.1))).map fun e =>
        last_ns workers (cut (e.2.bytes args e.1)) - e.2.now_ns.toNat % 10 ^ 20 : List Nat) := by
  have hreceived := received_of_delivered htopic hn harrived hsends hnet
  have hcarried : ∀ e ∈ stamps, e.2.Carried args (cut (e.2.bytes args e.1)) :=
    fun e _ => (e.2.carried_bytes args e.1).cut htopic
  have hall := hstamps.latencies (space_not_mem htopic.toToken) hseq hcarried
    (nodup_sockets host hsends.subs_le) hreceived (sockets_ne_nil host hsubs) hroom ord tx_msgs
  rwa [length_sockets] at hall

/-- **A sample is a message that everybody has received**, and each of these
    has one: from the time that the publisher took for it to the last of its
    copies. -/
theorem samples_of_complete (hseq : (r.states n).shared.global_seq ≤ 10 ^ 10)
    {arrived : List Packet} (harrived : arrived.Subperm (r.states n).shared.wire) {host : UInt32}
    {subs : Nat} (hsubs : 0 < subs) {x : Setup (utf8 args.topic) host subs} {sent : List Frame}
    (hsends : Sends x arrived sent) {workers : List (List (SockAddr × Batch))}
    (hnet : Delivered (sent.map delivery) workers) (hroom : arrived.length ≤ MAX_TRACKED_PKTS)
    (ord : MapOrder) (tx_msgs : Nat) :
    ∃ stamps : List (Fin args.pubs × Stamp),
      arrived = stamps.map (fun e => e.2.packet args e.1) ∧ (∀ e ∈ stamps, Made r n e) ∧
      ((run_benchmark ord subs false tx_msgs (batches workers)).latencies : Multiset Nat) =
        ((stamps.filter fun e =>
            Complete (sockets host subs) workers (cut (e.2.bytes args e.1))).map fun e =>
          last_ns workers (cut (e.2.bytes args e.1)) - e.2.now_ns.toNat % 10 ^ 20 : List Nat) := by
  obtain ⟨stamps, rfl, hstamps⟩ := arrived_stamps r hn harrived
  rw [List.length_map] at hroom
  exact ⟨stamps, rfl, hstamps.made, latencies_of_delivered htopic hn hseq hstamps harrived hsubs
    hsends hnet hroom ord tx_msgs⟩

/-- **The verdict**: with all publishers done, a trial passes with tolerance 0
    exactly when something was sent and other datagrams, such as the broker's
    replies, make up for each copy that is missing: without such datagrams,
    when every message sent has come to every socket. -/
theorem passes_iff_complete (hseq : (r.states n).shared.global_seq ≤ 10 ^ 10)
    (hidle : ∀ i, ((r.states n).publishers i).inFlight = 0)
    {arrived : List Packet} (harrived : arrived.Subperm (r.states n).shared.wire) {host : UInt32}
    {subs : Nat} {x : Setup (utf8 args.topic) host subs} {sent : List Frame}
    (hsends : Sends x arrived sent) {workers : List (List (SockAddr × Batch))}
    (hnet : Delivered (sent.map delivery) workers) (ord : MapOrder) (sink : Bool) :
    (trial_passes 0 subs
        (run_benchmark ord subs sink (r.states n).shared.global_counter (batches workers)) = true ↔
      0 < (r.states n).shared.wire.length * subs ∧
        (missing (sockets host subs) ((r.states n).shared.wire.map fun p => cut p.bytes)
          ((receipts workers).map Receipt.delivery)).length ≤ (others workers).length) ∧
    (others workers = [] →
      (trial_passes 0 subs
          (run_benchmark ord subs sink (r.states n).shared.global_counter (batches workers)) = true ↔
        0 < (r.states n).shared.wire.length * subs ∧
          ∀ p ∈ (r.states n).shared.wire, Complete (sockets host subs) workers (cut p.bytes))) := by
  obtain ⟨stamps, rfl, hstamps⟩ := arrived_stamps r hn harrived
  have hcome : ∀ e : Fin args.pubs × Stamp, e.2.Carried args (cut (e.2.bytes args e.1)) :=
    fun e => (e.2.carried_bytes args e.1).cut htopic
  have hverdict := verdict hn cut hcome (space_not_mem htopic.toToken) hseq hidle hstamps harrived
    (nodup_sockets host hsends.subs_le) (received_of_delivered htopic hn harrived hsends hnet) ord sink
  rwa [length_sockets] at hverdict

end run

/-! ### A trial -/

/-- The two packets of the sample run. -/
def sample_packets : List Packet :=
  [⟨49152, message ['a'] 5 0 (List.replicate 22 33)⟩, ⟨49152, message ['a'] 5 1 (List.replicate 22 33)⟩]

theorem sample_wire : (sample_run.states 75).shared.wire = sample_packets := by decide +kernel

/-- The frame of a message of 64 bytes from 10.0.0.7:30000 to 10.0.0.1:49152. -/
def frame_of (p : Packet) : Frame :=
  [2, 0, 0, 0, 0, 1, 2, 0, 0, 0, 0, 2, 8, 0,
    69, 0, 0, 92, 0, 1, 0, 0, 64, 17, 0, 0, 10, 0, 0, 7, 10, 0, 0, 1,
    117, 48, 192, 0, 0, 72, 0, 0] ++ p.bytes

theorem frame_of_carries {p : Packet} (hport : p.dest_port = 49152) (hlen : p.bytes.length = 64) :
    FrameOf (frame_of p) p := by
  -- the header fields, byte by byte
  have hrd : ∀ i a b, Buffer.rd8 (frame_of p) i = a → Buffer.rd8 (frame_of p) (i + 1) = b →
      Buffer.rd16 (frame_of p) i = a.toNat + 256 * b.toNat := by
    intro i a b ha hb
    unfold Buffer.rd16
    rw [ha, hb]
  have hihl : Buffer.rd8 (frame_of p) IP = 69 := rfl
  have hprotocol : Buffer.rd8 (frame_of p) IP_PROTOCOL = 17 := rfl
  have hproto := hrd ETH_PROTO 8 0 rfl rfl
  have htotal := hrd (IP + 2) 0 92 rfl rfl
  have hdest := hrd UDP_DEST 192 0 rfl rfl
  have hudp : udp_len (frame_of p) = 72 := by
    unfold udp_len
    rw [hrd UDP_LEN 0 72 rfl rfl]
    decide
  constructor
  · rw [hproto]
    decide
  · rw [hihl]
    decide
  · rw [hprotocol]
    decide
  · rw [htotal, hudp]
    decide
  · rw [hudp, hlen]
  · rw [hdest, hport]
    decide
  · exact List.prefix_rfl

/-- A broker that has just started, and one subscriber. -/
def sample_setup : Setup (utf8 ['a']) 0x0700000a 1 where
  earlier := []
  flusher := ⟨0x0700000a, 0x8813⟩
  registrar := ⟨0x0700000a, 0x8913⟩
  joining := [datagram SUBSCRIBE [97] (subscriber 0x0700000a 0)]
  kept := by
    intro q hq h
    obtain ⟨name, hcmd, -⟩ := h
    rw [List.mem_singleton.mp hq, datagram, parse_subscribe] at hcmd
    cases hcmd
  joined := by
    have hall : joins (TopicKey.ofName (utf8 ['a']))
        [datagram SUBSCRIBE [97] (subscriber 0x0700000a 0)] = sockets 0x0700000a 1 := by
      decide +kernel
    rw [hall]

/-- What the clone broker sends for the two packets. -/
def sample_sent : List Frame :=
  Clone.send_all (sample_packets.map fun p => (0, frame_of p))
    ⟨(Clone.serve_all sample_setup.requests .empty).2, fun _ => 0⟩

theorem sample_sends : Sends sample_setup sample_packets sample_sent := by
  refine .clone _ _ ?_ (by decide) (by decide +kernel)
  have hfirst := frame_of_carries (p := ⟨49152, message ['a'] 5 0 (List.replicate 22 33)⟩) rfl
    (by decide +kernel)
  have hsecond := frame_of_carries (p := ⟨49152, message ['a'] 5 1 (List.replicate 22 33)⟩) rfl
    (by decide +kernel)
  exact .cons hfirst (.cons hsecond .nil)

theorem sample_topic : ShortToken (utf8 sample_args.topic) := by
  have hbytes : utf8 sample_args.topic = [97] := by decide +kernel
  rw [hbytes]
  exact shortToken_a

theorem sample_arrived : sample_packets.Subperm (sample_run.states 75).shared.wire := by
  rw [sample_wire]

theorem trial_broadcast_sample :
    (sample_sent.map delivery).Perm
      (copies (sockets 0x0700000a 1) (sample_packets.map Packet.bytes)) :=
  trial_broadcast sample_topic (by decide) sample_arrived sample_sends

/-- The second copy is lost. -/
def sample_workers : List (List (SockAddr × Batch)) :=
  [[(subscriber 0x0700000a 0, ⟨[message ['a'] 5 0 (List.replicate 22 33)], 9⟩)]]

theorem sample_delivered : Delivered (sample_sent.map delivery) sample_workers := by
  have hall : (copies (sockets 0x0700000a 1) (sample_packets.map Packet.bytes)).map
      (fun e => (e.1, cut e.2)) =
        (publications sample_workers).map Receipt.delivery ++
          [(subscriber 0x0700000a 0, message ['a'] 5 1 (List.replicate 22 33))] := by
    decide +kernel
  have hbroadcast := (sample_sends.broadcast sample_topic fun _ hp =>
    publishesTo_of_wire (by decide) (sample_arrived.subset hp)).map fun e => (e.1, cut e.2)
  rw [hall] at hbroadcast
  exact (List.sublist_append_left _ _).subperm.trans hbroadcast.symm.subperm

/-- All times of the sample run are 5. -/
theorem sample_made {e : Fin 1 × Stamp} (h : Made sample_run 75 e) : e.2.now_ns = 5 := by
  have hall : ∀ k < 75, (stamped sample_run k).all fun e => e.2.now_ns = 5 := by decide +kernel
  obtain ⟨k, hk, hstamped⟩ := h
  have hone := hall k hk
  rw [hstamped] at hone
  exact of_decide_eq_true hone

theorem samples_of_complete_sample :
    ((run_benchmark listed 1 false 2 (batches sample_workers)).latencies : Multiset Nat) =
      ([4] : List Nat) := by
  obtain ⟨stamps, harrived, hmade, hall⟩ := samples_of_complete sample_topic (r := sample_run)
    (n := 75) (by decide) (by decide +kernel) sample_arrived (by decide) sample_sends
    sample_delivered (by decide) listed 2
  have hone : (sample_packets.filter fun p =>
      Complete (sockets 0x0700000a 1) sample_workers (cut p.bytes)).map (fun p =>
        last_ns sample_workers (cut p.bytes) - 5) = [4] := by
    decide +kernel
  rw [harrived, List.filter_map, List.map_map] at hone
  simp only [Function.comp_def, Stamp.packet] at hone
  rw [hall, ← hone]
  refine congrArg Multiset.ofList (List.map_congr_left ?_)
  intro e he
  have hnow : e.2.now_ns.toNat % 10 ^ 20 = 5 := by
    rw [sample_made (hmade e (List.mem_filter.mp he).1)]
    decide
  rw [hnow]

/-- Nothing makes up for the second copy. -/
theorem passes_iff_complete_sample :
    ¬ trial_passes 0 1 (run_benchmark listed 1 true (sample_run.states 75).shared.global_counter
      (batches sample_workers)) = true := by
  have hiff := (passes_iff_complete sample_topic (r := sample_run) (n := 75) (by decide)
    (by decide +kernel) (by decide +kernel) sample_arrived sample_sends sample_delivered listed
    true).2 rfl
  rw [hiff]
  intro hall
  have hlost := hall.2 ⟨49152, message ['a'] 5 1 (List.replicate 22 33)⟩ (by
    rw [sample_wire]
    exact List.mem_cons_of_mem _ List.mem_cons_self)
  revert hlost
  decide +kernel

end BpfBroker.Benchmark
