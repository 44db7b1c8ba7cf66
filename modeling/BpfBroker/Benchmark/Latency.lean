import BpfBroker.Benchmark.Subscriber

/-! # Latency Samples

    A message has a latency when all of its copies have come in. The copies
    are spread over the workers, each with a map of its own; the maps are
    merged at the end. The samples are those of the copies taken together. -/

namespace BpfBroker.Benchmark

open Tally

/-! ### What a map should hold -/

/-- The entry for the copies of one sequence number, which were sent at
    `sent_ns`. -/
def summary (sent_ns : Nat) (copies : Multiset Copy) : Option Entry :=
  if copies = 0 then none
  else some ⟨sent_ns, (copies.map Copy.now_ns).sup, copies.card⟩

/-- One latency for each sequence number with `subs` copies: its last receive
    time minus its timestamp. -/
def latency_samples (subs : Nat) (sent : BitVec 64 → Nat) (copies : Multiset Copy) :
    Multiset Nat :=
  ((copies.map Copy.seq).toFinset.filter fun k =>
      (copies.filter fun c => c.seq = k).card = subs).val.map
    fun k => ((copies.filter fun c => c.seq = k).map Copy.now_ns).sup - sent k

/-- The map holds what the copies come to. -/
def Holds (sent : BitVec 64 → Nat) (map : PerPacket) (copies : Multiset Copy) : Prop :=
  ∀ k, map.lookup k = summary (sent k) (copies.filter fun c => c.seq = k)

section summary
variable {sent_ns : Nat} {copies copies' : Multiset Copy}

@[simp] theorem summary_zero : summary sent_ns 0 = none := if_pos rfl

theorem summary_of_ne (h : copies ≠ 0) :
    summary sent_ns copies = some ⟨sent_ns, (copies.map Copy.now_ns).sup, copies.card⟩ :=
  if_neg h

theorem max_eq_ite (a b : Nat) : (if b > a then b else a) = a ⊔ b := by
  split
  · exact (max_eq_right (by omega)).symm
  · exact (max_eq_left (by omega)).symm

/-- Two summaries merged are the summary of both. -/
theorem merged_summary (k : BitVec 64) :
    ((summary sent_ns copies').elim (summary sent_ns copies) fun e =>
        some (merged (summary sent_ns copies) ⟨k, e⟩)) =
      summary sent_ns (copies' + copies) := by
  by_cases h' : copies' = 0
  · rw [h', summary_zero, zero_add]
    rfl
  · have hsum : copies' + copies ≠ 0 := fun hzero => h' (add_eq_zero.mp hzero).1
    rw [summary_of_ne h', summary_of_ne hsum, Option.elim_some, Option.some.injEq,
      Multiset.map_add, Multiset.sup_add, Multiset.card_add]
    unfold merged
    dsimp only
    rw [max_eq_ite]
    by_cases h : copies = 0
    · rw [h, summary_zero]
      simp
    · rw [summary_of_ne h, Option.getD_some, sup_comm, Nat.add_comm]

end summary

/-! ### The map of a worker -/

section worker
variable {sent : BitVec 64 → Nat}

theorem holds_empty : Holds sent ∅ 0 := by
  intro k
  rw [Multiset.filter_zero, summary_zero]
  rfl

theorem Holds.mem_keys {map : PerPacket} {copies : Multiset Copy} (h : Holds sent map copies)
    {k : BitVec 64} : k ∈ map.keys ↔ k ∈ copies.map Copy.seq := by
  have hmem : k ∈ map.keys ↔ (map.lookup k).isSome := AList.lookup_isSome.symm
  rw [hmem, h k, Multiset.mem_map]
  unfold summary
  split
  · next hzero =>
    simp only [Option.isSome_none, Bool.false_eq_true, false_iff, not_exists, not_and]
    rw [Multiset.filter_eq_nil] at hzero
    exact hzero
  · next hne =>
    obtain ⟨c, hc⟩ := Multiset.exists_mem_of_ne_zero hne
    rw [Multiset.mem_filter] at hc
    simp only [Option.isSome_some, true_iff]
    exact ⟨c, hc⟩

/-- **One more copy.** -/
theorem Holds.track {map : PerPacket} {copies : Multiset Copy} (h : Holds sent map copies)
    {c : Copy} (hsent : c.sent_ns = sent c.seq)
    (hroom : c.seq ∈ map.keys ∨ map.keys.length < MAX_TRACKED_PKTS) :
    Holds sent (track map c) (c ::ₘ copies) := by
  -- the entry of the copy's own sequence number
  have hvalue : ∃ e, Benchmark.track map c = map.insert c.seq e ∧
      some e = summary (sent c.seq) (c ::ₘ copies.filter fun d => d.seq = c.seq) := by
    have hlook := h c.seq
    rw [summary_of_ne (Multiset.cons_ne_zero), Multiset.map_cons, Multiset.sup_cons,
      Multiset.card_cons]
    unfold Benchmark.track
    by_cases hnone : (copies.filter fun d => d.seq = c.seq) = 0
    · rw [hnone, summary_zero] at hlook
      have hnew : c.seq ∉ map.keys := AList.lookup_eq_none.mp hlook
      rw [hlook, hnone]
      refine ⟨⟨c.sent_ns, c.now_ns, 1⟩, if_pos (hroom.resolve_left hnew), ?_⟩
      rw [hsent]
      simp
    · rw [summary_of_ne hnone] at hlook
      rw [hlook]
      refine ⟨_, rfl, ?_⟩
      rw [max_eq_ite, sup_comm]
  obtain ⟨e, htrack, he⟩ := hvalue
  intro k
  rw [htrack]
  by_cases hk : k = c.seq
  · rw [hk, AList.lookup_insert,
      Multiset.filter_cons_of_pos (p := fun d : Copy => d.seq = c.seq) copies rfl]
    exact he
  · rw [AList.lookup_insert_ne hk,
      Multiset.filter_cons_of_neg (p := fun d : Copy => d.seq = k) copies (Ne.symm hk)]
    exact h k

/-- **All copies of a worker**, with room for their sequence numbers. -/
theorem Holds.track_all {room : Finset (BitVec 64)} (hroom : room.card ≤ MAX_TRACKED_PKTS)
    {l : List Copy} (hl : ∀ c ∈ l, c.sent_ns = sent c.seq ∧ c.seq ∈ room) {map : PerPacket}
    {copies : Multiset Copy} (h : Holds sent map copies) (hcopies : ∀ c ∈ copies, c.seq ∈ room) :
    Holds sent (l.foldl Benchmark.track map) (copies + l) := by
  induction l generalizing map copies with
  | nil => simpa using h
  | cons c l ih =>
    obtain ⟨hsent, hmem⟩ := hl c List.mem_cons_self
    have hfits : c.seq ∈ map.keys ∨ map.keys.length < MAX_TRACKED_PKTS := by
      by_cases hold : c.seq ∈ map.keys
      · exact Or.inl hold
      · -- the sequence numbers seen so far and this one are different
        right
        have hsub : (c.seq :: map.keys).toFinset ⊆ room := by
          intro k hk
          rw [List.mem_toFinset, List.mem_cons] at hk
          rcases hk with rfl | hk
          · exact hmem
          · obtain ⟨d, hd, rfl⟩ := Multiset.mem_map.mp (h.mem_keys.mp hk)
            exact hcopies d hd
        have hcard := Finset.card_le_card hsub
        rw [List.toFinset_card_of_nodup (List.nodup_cons.mpr ⟨hold, map.keys_nodup⟩),
          List.length_cons] at hcard
        omega
    have hnext := ih (fun d hd => hl d (List.mem_cons_of_mem _ hd)) (h.track hsent hfits) (by
      intro d hd
      rcases Multiset.mem_cons.mp hd with rfl | hd
      · exact hmem
      · exact hcopies d hd)
    rw [List.foldl_cons, ← Multiset.cons_coe, Multiset.add_cons, ← Multiset.cons_add]
    exact hnext

end worker

/-- The copies in the batches of a worker. -/
def copies_of (batches : List Batch) : List Copy :=
  batches.flatMap fun b => b.packets.filterMap (copy_of b.now_ns)

/-- A worker tracks its copies one after the other. -/
theorem worker_per_packet (batches : List Batch) :
    (subscriber_worker false batches).per_packet = some ((copies_of batches).foldl track ∅) := by
  have hbatch : ∀ (packets : List (List UInt8)) (now_ns : Nat) (map : PerPacket),
      packets.foldl (fun map pkt => (copy_of now_ns pkt).elim map (track map)) map =
        (packets.filterMap (copy_of now_ns)).foldl track map := by
    intro packets now_ns
    induction packets with
    | nil =>
      intro map
      rfl
    | cons pkt packets ih =>
      intro map
      rw [List.foldl_cons, ih, List.filterMap_cons]
      rcases copy_of now_ns pkt with _ | c
      · rfl
      · rfl
  have hrun : ∀ (batches : List Batch) (r : SubResult) (map : PerPacket),
      r.per_packet = some map →
      (batches.foldl (receive_batch false) r).per_packet =
        some ((copies_of batches).foldl track map) := by
    intro batches
    induction batches with
    | nil =>
      intro r map h
      exact h
    | cons b batches ih =>
      intro r map h
      have hone : (receive_batch false r b).per_packet =
          some ((b.packets.filterMap (copy_of b.now_ns)).foldl track map) := by
        unfold receive_batch
        dsimp only
        split
        · next hn =>
          rw [List.length_eq_zero_iff.mp hn]
          exact h
        · rw [← hbatch]
          show Option.map _ r.per_packet = _
          rw [h]
          rfl
      rw [List.foldl_cons, ih _ _ hone]
      unfold copies_of
      rw [List.flatMap_cons, List.foldl_append]
  exact hrun batches _ ∅ rfl

/-! ### The merged map -/

section merge
variable {sent : BitVec 64 → Nat}

/-- **One more worker's map**, in whatever order it is iterated. -/
theorem Holds.merge {ord : MapOrder} {i : Nat} {map global : PerPacket}
    {copies copies' : Multiset Copy} (h : Holds sent global copies) (h' : Holds sent map copies') :
    Holds sent ((ord.iter i map).foldl (record Sigma.fst merged) global) (copies' + copies) := by
  intro k
  rw [lookup_merge merged (ord.perm i map), h k, h' k, merged_summary, Multiset.filter_add]

/-- All of them. -/
theorem Holds.merge_loop (ord : MapOrder) {maps : List PerPacket} {parts : List (Multiset Copy)}
    (hparts : List.Forall₂ (Holds sent) maps parts) (i : Nat) {global : PerPacket}
    {copies : Multiset Copy} (h : Holds sent global copies) :
    Holds sent (Benchmark.merge_loop ord i maps global) (parts.sum + copies) := by
  induction hparts generalizing i global copies with
  | nil =>
    rw [List.sum_nil, zero_add]
    exact h
  | cons hmap _ ih =>
    rw [List.sum_cons, Multiset.add_comm _ (List.sum _), Multiset.add_assoc]
    exact ih (i + 1) (h.merge hmap)

end merge

/-! ### The samples -/

/-- The entries of a map that holds the copies. -/
theorem Holds.entries {sent : BitVec 64 → Nat} {map : PerPacket} {copies : Multiset Copy}
    (h : Holds sent map copies) :
    (map.entries : Multiset (Σ _ : BitVec 64, Entry)) =
      (copies.map Copy.seq).toFinset.val.map fun k =>
        ⟨k, sent k, ((copies.filter fun c => c.seq = k).map Copy.now_ns).sup,
          (copies.filter fun c => c.seq = k).card⟩ := by
  apply entries_eq
  intro k
  rw [h k]
  by_cases hk : k ∈ (copies.map Copy.seq).toFinset
  · rw [if_pos hk, summary_of_ne]
    obtain ⟨c, hc, hseq⟩ := Multiset.mem_map.mp (Multiset.mem_toFinset.mp hk)
    intro hzero
    exact Multiset.filter_eq_nil.mp hzero c hc hseq
  · rw [if_neg hk]
    have hzero : (copies.filter fun c => c.seq = k) = 0 := by
      refine Multiset.filter_eq_nil.mpr ?_
      intro c hc hseq
      exact hk (Multiset.mem_toFinset.mpr (Multiset.mem_map.mpr ⟨c, hc, hseq⟩))
    rw [hzero, summary_zero]

/-- Each worker's map holds its copies. -/
theorem workers_hold {sent : BitVec 64 → Nat} {workers : List (List Batch)}
    (hsent : ∀ batches ∈ workers, ∀ c ∈ copies_of batches, c.sent_ns = sent c.seq)
    (hroom : ∀ batches ∈ workers,
      ((copies_of batches).map Copy.seq).toFinset.card ≤ MAX_TRACKED_PKTS) :
    List.Forall₂ (Holds sent) ((workers.map (subscriber_worker false)).filterMap (·.per_packet))
      (workers.map fun batches => ((copies_of batches : List Copy) : Multiset Copy)) := by
  induction workers with
  | nil => exact List.Forall₂.nil
  | cons batches workers ih =>
    have hone : Holds sent ((copies_of batches).foldl track ∅) (copies_of batches : List Copy) := by
      have hcopies : ∀ c ∈ copies_of batches, c.sent_ns = sent c.seq ∧
          c.seq ∈ ((copies_of batches).map Copy.seq).toFinset := by
        intro c hc
        exact ⟨hsent batches List.mem_cons_self c hc, List.mem_toFinset.mpr (List.mem_map_of_mem hc)⟩
      have hall := holds_empty.track_all (hroom batches List.mem_cons_self) hcopies (by simp)
      rwa [zero_add] at hall
    rw [List.map_cons, List.map_cons, List.filterMap_cons, worker_per_packet]
    exact List.Forall₂.cons hone (ih
      (fun b hb => hsent b (List.mem_cons_of_mem _ hb))
      (fun b hb => hroom b (List.mem_cons_of_mem _ hb)))

/-- The copies of the workers together. -/
theorem sum_copies (workers : List (List Batch)) :
    (workers.map fun batches => ((copies_of batches : List Copy) : Multiset Copy)).sum =
      (workers.flatMap copies_of : List Copy) := by
  induction workers with
  | nil => rfl
  | cons batches workers ih =>
    rw [List.map_cons, List.sum_cons, ih, List.flatMap_cons, Multiset.coe_add]

/-- **Latency samples** are those of all copies taken together: they do not
    depend on which worker received which copy, in which order, nor on the
    order in which the maps are iterated. -/
theorem latencies_eq (ord : MapOrder) (subs tx_msgs : Nat) (workers : List (List Batch))
    (sent : BitVec 64 → Nat)
    (hsent : ∀ batches ∈ workers, ∀ c ∈ copies_of batches, c.sent_ns = sent c.seq)
    (hroom : ∀ batches ∈ workers,
      ((copies_of batches).map Copy.seq).toFinset.card ≤ MAX_TRACKED_PKTS) :
    ((run_benchmark ord subs false tx_msgs workers).latencies : Multiset Nat) =
      latency_samples subs sent (workers.flatMap copies_of : List Copy) := by
  have hglobal := Holds.merge_loop ord (workers_hold hsent hroom) 0 holds_empty
  rw [add_zero, sum_copies] at hglobal
  unfold run_benchmark latency_samples
  dsimp only
  rw [if_neg Bool.false_ne_true]
  generalize merge_loop ord 0 _ ∅ = global at hglobal ⊢
  generalize ((workers.flatMap copies_of : List Copy) : Multiset Copy) = copies at hglobal ⊢
  rw [← Multiset.map_coe, ← Multiset.filter_coe,
    Multiset.coe_eq_coe.mpr (ord.perm _ global), hglobal.entries, Multiset.filter_map,
    Multiset.map_map, Finset.filter_val]
  rfl

theorem latencies_eq_sample :
    ((run_benchmark listed 2 false 1 [[⟨[message ['a'] 5 7 []], 9⟩],
        [⟨[message ['a'] 5 7 []], 12⟩]]).latencies : Multiset Nat) =
      latency_samples 2 (fun _ => 5) ([⟨7, 5, 9⟩, ⟨7, 5, 12⟩] : List Copy) := by
  have hfirst : copies_of [⟨[message ['a'] 5 7 []], 9⟩] = [⟨7, 5, 9⟩] := by decide +kernel
  have hsecond : copies_of [⟨[message ['a'] 5 7 []], 12⟩] = [⟨7, 5, 12⟩] := by decide +kernel
  have hall := latencies_eq listed 2 1 [[⟨[message ['a'] 5 7 []], 9⟩],
    [⟨[message ['a'] 5 7 []], 12⟩]] (fun _ => 5) (by
      intro batches hb c hc
      rcases List.mem_pair.mp hb with rfl | rfl
      · rw [hfirst, List.mem_singleton] at hc
        rw [hc]
      · rw [hsecond, List.mem_singleton] at hc
        rw [hc]) (by
      intro batches hb
      rcases List.mem_pair.mp hb with rfl | rfl
      · rw [hfirst]
        decide
      · rw [hsecond]
        decide)
  rw [List.flatMap_cons, List.flatMap_cons, hfirst, hsecond] at hall
  exact hall

end BpfBroker.Benchmark
