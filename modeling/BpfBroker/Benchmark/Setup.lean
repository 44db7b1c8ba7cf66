import BpfBroker.Directory
import BpfBroker.Publish

/-! # Setting up a Trial

    Before a trial of `find_ndr`, `flush_topic` and `register_topic` clear the
    topic at the broker. `run_benchmark` then deals the subscribers out to the
    worker threads, and each worker subscribes a socket for every id it got.
    The threads run side by side, so their SUBSCRIBEs reach the broker in any
    order, and other clients go on with other topics in between. The topic has
    exactly these sockets as its clients, whatever the broker held before. -/

namespace BpfBroker.Benchmark

/-! ### The sockets -/

/-- The loop over the subscriber ids: `groups[idx % sub_workers].push(sub_id)`. -/
def groups (sub_workers subs : Nat) : List (List Nat) :=
  (List.range subs).foldl (fun groups idx => groups.modify (idx % sub_workers) (· ++ [idx]))
    (List.replicate sub_workers [])

/-- The ids that each worker thread gets: at most 32 threads. -/
def subscriber_ids (subs : Nat) : List (List Nat) :=
  let sub_workers := min subs 32
  if sub_workers = 0 then [] else groups sub_workers subs

/-- The socket of a subscriber: port `15000 + id`, as a `u16`. -/
def subscriber (host : UInt32) (id : Nat) : SockAddr := ⟨host, htons (UInt16.ofNat (15000 + id))⟩

/-- The sockets of a trial, worker by worker. -/
def sockets (host : UInt32) (subs : Nat) : List SockAddr :=
  (subscriber_ids subs).flatten.map (subscriber host)

theorem length_groups (sub_workers subs : Nat) : (groups sub_workers subs).length = sub_workers := by
  unfold groups
  induction subs with
  | zero => exact List.length_replicate
  | succ n ih =>
    rw [List.range_succ, List.foldl_append, List.foldl_cons, List.foldl_nil, List.length_modify]
    exact ih

/-- An id pushed to one group is in one group. -/
theorem flatten_modify {groups : List (List Nat)} {i : Nat} (hi : i < groups.length) (id : Nat) :
    ((groups.modify i (· ++ [id])).flatten).Perm (groups.flatten ++ [id]) := by
  induction groups generalizing i with
  | nil => exact absurd hi (Nat.not_lt_zero i)
  | cons g groups ih =>
    cases i with
    | zero =>
      rw [List.modify_zero_cons, List.flatten_cons, List.flatten_cons, List.append_assoc,
        List.append_assoc]
      exact List.perm_append_comm.append_left g
    | succ i =>
      rw [List.modify_succ_cons, List.flatten_cons, List.flatten_cons, List.append_assoc]
      exact (ih (Nat.lt_of_succ_lt_succ hi)).append_left g

/-- **Every id goes to one worker.** -/
theorem flatten_groups {sub_workers : Nat} (hpos : 0 < sub_workers) (subs : Nat) :
    (groups sub_workers subs).flatten.Perm (List.range subs) := by
  induction subs with
  | zero =>
    unfold groups
    rw [List.range_zero, List.foldl_nil, List.flatten_replicate_nil]
  | succ n ih =>
    have hi : n % sub_workers < (groups sub_workers n).length := by
      rw [length_groups]
      exact Nat.mod_lt n hpos
    have hstep : groups sub_workers (n + 1) =
        (groups sub_workers n).modify (n % sub_workers) (· ++ [n]) := by
      unfold groups
      rw [List.range_succ, List.foldl_append]
      rfl
    rw [hstep, List.range_succ]
    exact (flatten_modify hi n).trans (ih.append_right [n])

theorem flatten_subscriber_ids (subs : Nat) :
    (subscriber_ids subs).flatten.Perm (List.range subs) := by
  unfold subscriber_ids
  dsimp only
  split
  · next hnone =>
    have hzero : subs = 0 := by omega
    subst hzero
    exact List.Perm.refl _
  · next hsome => exact flatten_groups (by omega) subs

@[simp] theorem length_sockets (host : UInt32) (subs : Nat) : (sockets host subs).length = subs := by
  unfold sockets
  rw [List.length_map, (flatten_subscriber_ids subs).length_eq, List.length_range]

theorem sockets_ne_nil (host : UInt32) {subs : Nat} (hsubs : 0 < subs) : sockets host subs ≠ [] := by
  apply List.ne_nil_of_length_pos
  rw [length_sockets]
  exact hsubs

/-- The sockets are different while no port wraps around. -/
theorem nodup_sockets (host : UInt32) {subs : Nat} (hsubs : subs ≤ 50536) :
    (sockets host subs).Nodup := by
  refine List.Nodup.map_on ?_ ((flatten_subscriber_ids subs).nodup_iff.mpr List.nodup_range)
  intro a ha b hb heq
  have hlt : ∀ id ∈ (subscriber_ids subs).flatten, id < 50536 := by
    intro id hid
    have := List.mem_range.mp ((flatten_subscriber_ids subs).mem_iff.mp hid)
    omega
  have hport : UInt16.ofNat (15000 + a) = UInt16.ofNat (15000 + b) := by
    have hsame := congrArg htons (congrArg SockAddr.sin_port heq)
    rwa [subscriber, subscriber, htons_htons, htons_htons] at hsame
  have hnat := congrArg UInt16.toNat hport
  rw [UInt16.toNat_ofNat', UInt16.toNat_ofNat'] at hnat
  have hla := hlt a ha
  have hlb := hlt b hb
  omega

/-! ### The clients of the topic -/

/-- The clients that ask for a topic, in order. -/
def joins (t : TopicKey) (qs : List Request) : List SockAddr :=
  qs.filterMap fun q =>
    match parse_request q with
    | .subscribe name c => if topic_key_of name = some t then some c else none
    | _ => none

/-- `flush_topic` and `register_topic`; each sends from a socket of its own. -/
def clear (topic : List UInt8) (flusher registrar : SockAddr) : List Request :=
  [datagram FLUSH topic flusher, datagram REGISTER topic registrar]

section directory
variable {cap : Nat} {room : List SockAddr → SockAddr → Bool} {rs : List Request}

/-- After FLUSH and REGISTER the topic is there and has no clients. -/
theorem after_clear {topic : List UInt8} (htopic : ShortToken topic)
    (hfits : (Directory.after room rs : Directory cap).fits (TopicKey.ofName topic))
    (flusher registrar : SockAddr) :
    TopicKey.ofName topic ∈
        (Directory.after room (rs ++ clear topic flusher registrar) : Directory cap).keys ∧
      (Directory.after room (rs ++ clear topic flusher registrar) : Directory cap).subs
        (TopicKey.ofName topic) = [] := by
  have hflush : parse_request (datagram FLUSH topic flusher) =
      .flush (topic_key_buffer (topic.take 1017) ++ []) := parse_flush topic flusher []
  have hregister : parse_request (datagram REGISTER topic registrar) =
      .register (topic_key_buffer (topic.take 1014) ++ []) := parse_register topic registrar []
  have hkey : topic_key_of (topic_key_buffer (topic.take 1017) ++ []) =
      some (TopicKey.ofName topic) := htopic.topic_key_eq (by decide) []
  have hkey' : topic_key_of (topic_key_buffer (topic.take 1014) ++ []) =
      some (TopicKey.ofName topic) := htopic.topic_key_eq (by decide) []
  have hsplit : rs ++ clear topic flusher registrar =
      (rs ++ [datagram FLUSH topic flusher]) ++ [datagram REGISTER topic registrar] := by
    rw [List.append_assoc]
    rfl
  rw [hsplit, Directory.after_snoc, Directory.after_snoc, hflush, hregister]
  constructor
  · rw [Directory.mem_keys_exec]
    -- FLUSH leaves the topics alone, so the REGISTER finds the same room
    right
    refine ⟨⟨_, rfl, hkey'⟩, ?_⟩
    refine (BMap.fits_congr ?_ _).mpr hfits
    intro k
    rw [Directory.mem_keys_exec]
    constructor
    · intro h
      rcases h with hmem | ⟨⟨name, hcmd, -⟩, -⟩
      · exact hmem
      · cases hcmd
    · exact Or.inl
  · have hempty : (Directory.exec room (.flush (topic_key_buffer (topic.take 1017) ++ []))
        (Directory.after room rs : Directory cap)).2.subs (TopicKey.ofName topic) = [] := by
      rw [Directory.subs_exec]
      exact if_pos hkey
    rw [Directory.subs_exec]
    exact hempty

/-- **The clients of the topic** are those that asked for it, as long as there
    is room for each in its turn. -/
theorem subs_joins {t : TopicKey} (hmem : t ∈ (Directory.after room rs : Directory cap).keys)
    (hnone : (Directory.after room rs : Directory cap).subs t = []) {qs : List Request}
    (hflush : ∀ q ∈ qs, ¬ (parse_request q).Flushes t)
    (hroom : ∀ pre c, pre ++ [c] <+: joins t qs → room pre c = true) :
    t ∈ (Directory.after room (rs ++ qs) : Directory cap).keys ∧
      (Directory.after room (rs ++ qs) : Directory cap).subs t = joins t qs := by
  induction qs using List.reverseRecOn with
  | nil =>
    rw [List.append_nil]
    exact ⟨hmem, hnone⟩
  | append_singleton qs q ih =>
    have hsnoc : joins t (qs ++ [q]) = joins t qs ++ joins t [q] := List.filterMap_append
    obtain ⟨hkeys, hsubs⟩ := ih (fun p hp => hflush p (List.mem_append_left _ hp))
      fun pre c hpre => hroom pre c (hpre.trans (hsnoc ▸ List.prefix_append _ _))
    have hlast := hflush q (by simp)
    rw [← List.append_assoc, Directory.after_snoc]
    refine ⟨(Directory.mem_keys_exec _ _ _).mpr (Or.inl hkeys), ?_⟩
    -- only a SUBSCRIBE of the topic adds to its clients
    rcases hcmd : parse_request q with name | ⟨name, c⟩ | name | _
    · have hno : joins t [q] = [] := by simp [joins, hcmd]
      rw [hsnoc, hno, List.append_nil, Directory.subs_exec, ← hsubs]
      rfl
    · rw [Directory.subs_exec_subscribe, hsubs]
      by_cases hk : topic_key_of name = some t
      · have hone : joins t [q] = [c] := by simp [joins, hcmd, hk]
        rw [hone] at hsnoc
        rw [if_pos ⟨hk, hkeys, hroom _ c (hsnoc ▸ List.prefix_rfl)⟩, hsnoc]
      · have hno : joins t [q] = [] := by simp [joins, hcmd, hk]
        rw [if_neg fun hand => hk hand.1, hsnoc, hno, List.append_nil]
    · have hno : joins t [q] = [] := by simp [joins, hcmd]
      rw [hcmd] at hlast
      have hk : ¬ topic_key_of name = some t := fun hk => hlast ⟨name, rfl, hk⟩
      rw [hsnoc, hno, List.append_nil, Directory.subs_exec, ← hsubs]
      exact if_neg hk
    · have hno : joins t [q] = [] := by simp [joins, hcmd]
      rw [hsnoc, hno, List.append_nil, Directory.subs_exec, ← hsubs]
      rfl

end directory

end BpfBroker.Benchmark
