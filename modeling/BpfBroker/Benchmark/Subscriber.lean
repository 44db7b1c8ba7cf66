import Mathlib.Data.Multiset.Lattice
import BpfBroker.Acknowledge
import BpfBroker.Benchmark.Message
import BpfBroker.Lib.Rounding
import BpfBroker.Lib.Tally

/-! # Benchmark Subscribers

    The worker threads of `pubsub-benchmark` count the datagrams on their
    sockets and keep, for each sequence number, the last receive time and the
    number of copies. `run_benchmark` adds the counts up and merges the maps;
    `find_ndr` compares the count with what was sent.

    Counters are natural numbers here: a number of datagrams stays far below
    `2 ^ 64`. -/

namespace BpfBroker.Benchmark

open Tally Rounding

/-! ### A worker -/

/-- What one call of `recvmmsg` returned, and the time taken after it. -/
structure Batch where
  packets : List (List UInt8)
  now_ns : Nat

/-- The value kept for a sequence number. -/
structure Entry where
  send_ts_ns : Nat
  max_recv_time_ns : Nat
  copy_count : Nat
  deriving DecidableEq

abbrev PerPacket : Type := AList fun _ : BitVec 64 => Entry

def MAX_TRACKED_PKTS : Nat := 500000

/-- A received copy of a publication. -/
structure Copy where
  seq : BitVec 64
  sent_ns : Nat
  now_ns : Nat
  deriving DecidableEq

/-- The copy that a datagram is, if it starts with `"PUBLISH "` and has both
    fields; reading them does not panic (`parse_timestamp_ns_isSome`,
    `parse_seq_number_isSome`). -/
def copy_of (now_ns : Nat) (pkt : List UInt8) : Option Copy :=
  if !PUBLISH.isPrefixOf pkt then none
  else match parse_timestamp_ns pkt, parse_seq_number pkt with
    | some (some sent_ns), some (some seq) => some ⟨seq, sent_ns.toNat, now_ns⟩
    | _, _ => none

/-- A copy is entered into `per_packet`; a new sequence number only while there
    are not too many. -/
def track (map : PerPacket) (c : Copy) : PerPacket :=
  match map.lookup c.seq with
  | some e =>
    map.insert c.seq
      ⟨e.send_ts_ns, if c.now_ns > e.max_recv_time_ns then c.now_ns else e.max_recv_time_ns,
        e.copy_count + 1⟩
  | none =>
    if map.keys.length < MAX_TRACKED_PKTS then map.insert c.seq ⟨c.sent_ns, c.now_ns, 1⟩ else map

structure SubResult where
  raw_received : Nat
  per_packet : Option PerPacket

/-- One pass over a socket. A sink does not look at the datagrams. -/
def receive_batch (sink : Bool) (r : SubResult) (b : Batch) : SubResult :=
  let n := b.packets.length
  if n = 0 then r
  else
    let r := { r with raw_received := r.raw_received + n }
    if sink then r
    else
      { r with per_packet := r.per_packet.map fun map =>
          b.packets.foldl (fun map pkt => (copy_of b.now_ns pkt).elim map (track map)) map }

/-- `spawn_subscriber_worker`, over what its sockets receive. -/
def subscriber_worker (sink : Bool) (batches : List Batch) : SubResult :=
  batches.foldl (receive_batch sink) ⟨0, if sink then none else some ∅⟩

/-! ### `run_benchmark` -/

/-- The order in which the iterator of each `HashMap` visits its entries: the
    maps of the workers by number, and the merged map behind them. -/
structure MapOrder where
  iter : Nat → PerPacket → List (Σ _ : BitVec 64, Entry)
  perm : ∀ i map, (iter i map).Perm map.entries

/-- The new value in the merged map: `or_insert`, then the maximum and the
    sum. -/
def merged (cur : Option Entry) (e : Σ _ : BitVec 64, Entry) : Entry :=
  let cur := cur.getD ⟨e.2.send_ts_ns, 0, 0⟩
  ⟨cur.send_ts_ns,
    if e.2.max_recv_time_ns > cur.max_recv_time_ns then e.2.max_recv_time_ns
    else cur.max_recv_time_ns,
    cur.copy_count + e.2.copy_count⟩

/-- The loop over the maps of the workers, from number `i` on. -/
def merge_loop (ord : MapOrder) : Nat → List PerPacket → PerPacket → PerPacket
  | _, [], global => global
  | i, map :: maps, global =>
    merge_loop ord (i + 1) maps ((ord.iter i map).foldl (record Sigma.fst merged) global)

structure BenchmarkResult where
  tx_msgs : Nat
  rx_msgs : Nat
  latencies : List Nat

/-- `run_benchmark`, when the publishers have sent `tx_msgs` messages and the
    workers have received the given batches. -/
def run_benchmark (ord : MapOrder) (subs : Nat) (sink : Bool) (tx_msgs : Nat)
    (workers : List (List Batch)) : BenchmarkResult :=
  let results := workers.map (subscriber_worker sink)
  let rx_msgs := (results.map (·.raw_received)).sum
  let latencies :=
    if sink then []
    else
      let global := merge_loop ord 0 (results.filterMap (·.per_packet)) ∅
      ((ord.iter results.length global).filter fun e => e.2.copy_count = subs).map
        fun e => e.2.max_recv_time_ns - e.2.send_ts_ns
  ⟨tx_msgs, rx_msgs, latencies⟩

/-! ### The verdict of `find_ndr` -/

/-- `drop_frac`, an `f64`. -/
def drop_frac (subs : Nat) (result : BenchmarkResult) : ℚ :=
  let expected_rx := result.tx_msgs * subs
  let drop_count := expected_rx - result.rx_msgs
  if expected_rx > 0 then f64 (f64 drop_count / f64 expected_rx) else 1

def trial_passes (ndr_tolerance : ℚ) (subs : Nat) (result : BenchmarkResult) : Bool :=
  decide (drop_frac subs result ≤ ndr_tolerance)

/-! ### What is counted -/

/-- The datagrams that the workers receive. -/
def received (workers : List (List Batch)) : List (List UInt8) :=
  workers.flatMap fun batches => batches.flatMap (·.packets)

/-- The number of those that start with `"PUBLISH "`. -/
def published (workers : List (List Batch)) : Nat :=
  (received workers).countP PUBLISH.isPrefixOf

theorem receive_batch_raw (sink : Bool) (r : SubResult) (b : Batch) :
    (receive_batch sink r b).raw_received = r.raw_received + b.packets.length := by
  unfold receive_batch
  dsimp only
  split
  · next hn => rw [hn, Nat.add_zero]
  split
  · rfl
  · rfl

theorem worker_raw (sink : Bool) (batches : List Batch) :
    (subscriber_worker sink batches).raw_received = (batches.flatMap (·.packets)).length := by
  have hrun : ∀ (batches : List Batch) (r : SubResult),
      (batches.foldl (receive_batch sink) r).raw_received =
        r.raw_received + (batches.flatMap (·.packets)).length := by
    intro batches
    induction batches with
    | nil =>
      intro r
      rfl
    | cons b batches ih =>
      intro r
      rw [List.foldl_cons, ih, receive_batch_raw, List.flatMap_cons, List.length_append,
        Nat.add_assoc]
  unfold subscriber_worker
  rw [hrun]
  exact Nat.zero_add _

/-- **`rx_msgs`** is the number of all datagrams received. -/
theorem rx_msgs_eq (ord : MapOrder) (subs : Nat) (sink : Bool) (tx_msgs : Nat)
    (workers : List (List Batch)) :
    (run_benchmark ord subs sink tx_msgs workers).rx_msgs = (received workers).length := by
  unfold run_benchmark received
  dsimp only
  rw [List.length_flatMap, List.map_map]
  congr 1
  apply List.map_congr_left
  intro batches _
  exact worker_raw sink batches

/-- With tolerance 0, a trial passes when something was sent and nothing is
    missing. -/
theorem trial_passes_zero (subs : Nat) (result : BenchmarkResult) :
    trial_passes 0 subs result = true ↔
      0 < result.tx_msgs * subs ∧ result.tx_msgs * subs ≤ result.rx_msgs := by
  unfold trial_passes drop_frac
  rw [decide_eq_true_eq]
  dsimp only
  split
  · next hpos =>
    have hdrop : (0 : ℚ) ≤ f64 ((result.tx_msgs * subs - result.rx_msgs : Nat) : ℚ) :=
      f64_nonneg (Nat.cast_nonneg _)
    have hexp : 0 < f64 ((result.tx_msgs * subs : Nat) : ℚ) := f64_pos (Nat.cast_pos.mpr hpos)
    rw [f64_nonpos_iff (div_nonneg hdrop hexp.le), div_eq_zero_iff, or_iff_left hexp.ne',
      f64_eq_zero_iff (Nat.cast_nonneg _), Nat.cast_eq_zero, Nat.sub_eq_zero_iff_le]
    exact ⟨fun hle => ⟨hpos, hle⟩, fun hand => hand.2⟩
  · next hpos =>
    refine ⟨fun hle => ?_, fun hand => absurd hand.1 hpos⟩
    exact absurd hle (by norm_num)

/-- **When the count is that of the publications**, and a trial that passes
    with tolerance 0 means that none was lost: no other datagram came in. -/
theorem rx_counts_publications_iff (ord : MapOrder) (subs : Nat) (sink : Bool) (tx_msgs : Nat)
    (workers : List (List Batch)) :
    ((run_benchmark ord subs sink tx_msgs workers).rx_msgs = published workers ∧
      (trial_passes 0 subs (run_benchmark ord subs sink tx_msgs workers) = true →
        tx_msgs * subs ≤ published workers)) ↔
    ∀ pkt ∈ received workers, PUBLISH <+: pkt := by
  have hall : published workers = (received workers).length ↔
      ∀ pkt ∈ received workers, PUBLISH <+: pkt := by
    unfold published
    rw [List.countP_eq_length]
    simp only [List.isPrefixOf_iff_prefix]
  rw [rx_msgs_eq, ← hall]
  constructor
  · intro h
    exact h.1.symm
  · intro h
    refine ⟨h.symm, ?_⟩
    intro hpass
    have hle := ((trial_passes_zero _ _).mp hpass).2
    rw [rx_msgs_eq] at hle
    rw [h]
    exact hle

/-- Entries in the order in which the map holds them. -/
def listed : MapOrder := ⟨fun _ map => map.entries, fun _ map => List.Perm.refl map.entries⟩

/-- One message is sent to one subscriber and lost. The broker's reply to the
    SUBSCRIBE makes up for it, and the trial passes without drops. -/
theorem reply_counted :
    (Hash.serve Hash.listed (datagram SUBSCRIBE [97] ⟨0x0800000a, 0x8813⟩)
        (Hash.serve_all Hash.listed [datagram REGISTER [97] ⟨0x0700000a, 0x8813⟩] .empty).2).1.reply =
      some (SUBACK ++ [97]) ∧
    (run_benchmark listed 1 true 1 [[⟨[SUBACK ++ [97]], 0⟩]]).rx_msgs = 1 ∧
    trial_passes 0 1 (run_benchmark listed 1 true 1 [[⟨[SUBACK ++ [97]], 0⟩]]) = true ∧
    published [[⟨[SUBACK ++ [97]], 0⟩]] = 0 := by
  have hrx : (run_benchmark listed 1 true 1 [[⟨[SUBACK ++ [97]], 0⟩]]).rx_msgs = 1 := by
    decide +kernel
  refine ⟨by decide +kernel, hrx, ?_, by decide +kernel⟩
  rw [trial_passes_zero, hrx]
  exact ⟨by decide, by decide⟩

end BpfBroker.Benchmark
