import BpfBroker.Benchmark.EndToEnd
import BpfBroker.Lib.OrderStatistics

/-! # The Report of a Trial

    `print_results` prints the throughput and, over the latency samples, the
    least and the greatest one, the mean and three percentiles. The samples
    come out of hash maps, in an order that changes from run to run; the report
    does not depend on it. -/

namespace BpfBroker.Benchmark

open LTS Broadcast Text Rounding OrderStatistics

/-! ### `print_results` -/

/-- The quotient of two `f64`, when it is a finite number. -/
def quotient (a b : ℚ) : Option ℚ := if b = 0 then none else some (f64 (a / b))

/-- The line `TX` or `RX`. -/
structure Traffic where
  msgs : Nat
  msgs_per_sec : Option ℚ
  mbit_per_sec : Option ℚ

def traffic (msgs msg_size duration_secs : Nat) : Traffic where
  msgs := msgs
  msgs_per_sec := quotient (f64 msgs) (f64 duration_secs)
  mbit_per_sec := quotient (f64 (f64 (msgs * msg_size * 8 : Nat) / 1000000)) (f64 duration_secs)

/-- The line of the latencies, in microseconds. -/
structure LatencyLine where
  received : Nat
  min : Nat
  max : Nat
  avg : ℚ
  p50 : Nat
  p90 : Nat
  p99 : Nat

/-- What is said about the latencies. -/
inductive Analysis where
  | disabled
  | latency (line : LatencyLine)
  | unparsed (rx_msgs : Nat)
  | nothing

structure Report where
  tx : Traffic
  rx : Traffic
  analysis : Analysis

/-- The numbers in nanoseconds; `none` where an index is out of range or a list
    is empty, and the program panics. -/
def latency_line (latencies : List Nat) : Option LatencyLine := do
  let min ← latencies.min?
  let max ← latencies.max?
  let avg := f64 (f64 latencies.sum / f64 latencies.length)
  let sorted := latencies.insertionSort (· ≤ ·)
  let n := sorted.length
  let p50 ← sorted[n * 50 / 100]?
  let p90 ← sorted[n * 90 / 100]?
  let p99 ← sorted[n * 99 / 100]?
  return ⟨n, min / 1000, max / 1000, f64 (avg / 1000), p50 / 1000, p90 / 1000, p99 / 1000⟩

/-- `print_results`. -/
def print_results (result : BenchmarkResult) (duration_secs msg_size : Nat) (sink : Bool) :
    Option Report := do
  let analysis ←
    if sink then some .disabled
    else if result.latencies ≠ [] then (latency_line result.latencies).map .latency
    else if result.rx_msgs > 0 then some (.unparsed result.rx_msgs)
    else some .nothing
  return ⟨traffic result.tx_msgs msg_size duration_secs,
    traffic result.rx_msgs msg_size duration_secs, analysis⟩

/-! ### The percentiles -/

/-- The line describes these samples, the `k`-th smallest of which is `nth k`. -/
structure Describes (line : LatencyLine) (latencies : List Nat) (nth : Nat → Nat) : Prop where
  received : line.received = latencies.length
  isNth : ∀ k, k < latencies.length → IsNth latencies k (nth k)
  min : line.min = nth 0 / 1000
  p50 : line.p50 = nth (latencies.length * 50 / 100) / 1000
  p90 : line.p90 = nth (latencies.length * 90 / 100) / 1000
  p99 : line.p99 = nth (latencies.length * 99 / 100) / 1000
  max : line.max = nth (latencies.length - 1) / 1000

/-- The smallest element of a list, by index. -/
theorem min?_eq {l : List Nat} {v : Nat} (h : IsNth l 0 v) : l.min? = some v :=
  List.min?_eq_some_iff.mpr ⟨h.mem, fun _ ha => h.min_le ha⟩

theorem max?_eq {l : List Nat} {v : Nat} (h : IsNth l (l.length - 1) v) : l.max? = some v :=
  List.max?_eq_some_iff.mpr ⟨h.mem, fun _ ha => h.le_max ha⟩

/-- **The indices are in range**, and the values at them are the percentiles. -/
theorem latency_line_describes {latencies : List Nat} (hsome : latencies ≠ []) :
    ∃ line nth, latency_line latencies = some line ∧ Describes line latencies nth := by
  have hpos : 0 < latencies.length := List.length_pos_of_ne_nil hsome
  have hperm : (latencies.insertionSort (· ≤ ·)).Perm latencies := List.perm_insertionSort _ _
  have hlen : (latencies.insertionSort (· ≤ ·)).length = latencies.length := hperm.length_eq
  obtain ⟨nth, hget, hnth⟩ : ∃ nth : Nat → Nat,
      (∀ k, k < latencies.length → (latencies.insertionSort (· ≤ ·))[k]? = some (nth k)) ∧
      ∀ k, k < latencies.length → IsNth latencies k (nth k) := by
    refine ⟨fun k => (latencies.insertionSort (· ≤ ·)).getD k 0, ?_, ?_⟩
    · intro k hk
      dsimp only
      rw [List.getD_eq_getElem _ _ (hlen ▸ hk), List.getElem?_eq_getElem (hlen ▸ hk)]
    · intro k hk
      dsimp only
      rw [List.getD_eq_getElem _ _ (hlen ▸ hk)]
      exact (isNth_getElem (List.pairwise_insertionSort _ _) (hlen ▸ hk)).perm hperm
  let n := latencies.length
  let line : LatencyLine :=
    { received := n
      min := nth 0 / 1000
      max := nth (n - 1) / 1000
      avg := f64 (f64 (f64 latencies.sum / f64 n) / 1000)
      p50 := nth (n * 50 / 100) / 1000
      p90 := nth (n * 90 / 100) / 1000
      p99 := nth (n * 99 / 100) / 1000 }
  refine ⟨line, nth, ?_, rfl, hnth, rfl, rfl, rfl, rfl, rfl⟩
  unfold latency_line
  dsimp only
  rw [hlen, min?_eq (hnth 0 hpos), max?_eq (hnth (latencies.length - 1) (by omega)),
    hget _ (by omega), hget _ (by omega), hget _ (by omega)]
  rfl

theorem Describes.ordered {line : LatencyLine} {latencies : List Nat} {nth : Nat → Nat}
    (h : Describes line latencies nth) (hsome : latencies ≠ []) :
    line.min ≤ line.p50 ∧ line.p50 ≤ line.p90 ∧ line.p90 ≤ line.p99 ∧ line.p99 ≤ line.max := by
  have hpos : 0 < latencies.length := List.length_pos_of_ne_nil hsome
  have hmono : ∀ k k', k ≤ k' → k' < latencies.length → nth k / 1000 ≤ nth k' / 1000 := by
    intro k k' hle hlt
    exact Nat.div_le_div_right ((h.isNth k (by omega)).mono (h.isNth k' hlt) hle)
  rw [h.min, h.p50, h.p90, h.p99, h.max]
  exact ⟨hmono _ _ (by omega) (by omega), hmono _ _ (by omega) (by omega),
    hmono _ _ (by omega) (by omega), hmono _ _ (by omega) (by omega)⟩

/-- The line does not depend on the order of the samples. -/
theorem latency_line_perm {l l' : List Nat} (h : l.Perm l') : latency_line l = latency_line l' := by
  have hsort : l.insertionSort (· ≤ ·) = l'.insertionSort (· ≤ ·) :=
    ((List.perm_insertionSort _ l).trans (h.trans (List.perm_insertionSort _ l').symm)).eq_of_pairwise
      (fun _ _ _ _ hle hge => Nat.le_antisymm hle hge) (List.pairwise_insertionSort _ l)
      (List.pairwise_insertionSort _ l')
  by_cases hsome : l = []
  · subst hsome
    rw [List.nil_perm.mp h]
  · obtain ⟨_, nth, -, hdesc⟩ := latency_line_describes hsome
    have hpos : 0 < l.length := List.length_pos_of_ne_nil hsome
    have hmin := hdesc.isNth 0 hpos
    have hmax := hdesc.isNth (l.length - 1) (by omega)
    have hmax' := hmax.perm h
    rw [h.length_eq] at hmax'
    unfold latency_line
    rw [min?_eq hmin, max?_eq hmax, min?_eq (hmin.perm h), max?_eq hmax', hsort, h.sum_eq, h.length_eq]

/-! ### The order of the hash maps -/

/-- Merging in another order gives the same values. -/
theorem lookup_merge_loop (ord ord' : MapOrder) (maps : List PerPacket) (i : Nat)
    {global global' : PerPacket} (h : ∀ k, global.lookup k = global'.lookup k) (k : BitVec 64) :
    (merge_loop ord i maps global).lookup k = (merge_loop ord' i maps global').lookup k := by
  induction maps generalizing i global global' with
  | nil => exact h k
  | cons map maps ih =>
    unfold merge_loop
    apply ih
    intro k
    rw [Tally.lookup_merge merged (ord.perm i map), Tally.lookup_merge merged (ord'.perm i map), h k]

theorem latencies_perm (ord ord' : MapOrder) (subs : Nat) (sink : Bool) (tx_msgs : Nat)
    (workers : List (List Batch)) :
    (run_benchmark ord subs sink tx_msgs workers).latencies.Perm
      (run_benchmark ord' subs sink tx_msgs workers).latencies := by
  unfold run_benchmark
  dsimp only
  split
  · exact List.Perm.refl _
  · apply List.Perm.map
    apply List.Perm.filter
    refine (ord.perm _ _).trans (List.Perm.trans ?_ (ord'.perm _ _).symm)
    apply List.lookup_ext (AList.nodupKeys _) (AList.nodupKeys _)
    intro k e
    have hempty : ∀ k, (∅ : PerPacket).lookup k = (∅ : PerPacket).lookup k := fun _ => rfl
    have hlook := lookup_merge_loop ord ord'
      ((workers.map (subscriber_worker sink)).filterMap (·.per_packet)) 0 hempty k
    exact iff_of_eq (congrArg (e ∈ ·) hlook)

/-- **The report does not depend on the hash maps.** -/
theorem report_order_independent (ord ord' : MapOrder) (subs : Nat) (sink : Bool) (tx_msgs : Nat)
    (workers : List (List Batch)) (duration_secs msg_size : Nat) :
    print_results (run_benchmark ord subs sink tx_msgs workers) duration_secs msg_size sink =
      print_results (run_benchmark ord' subs sink tx_msgs workers) duration_secs msg_size sink := by
  have hperm := latencies_perm ord ord' subs sink tx_msgs workers
  have hempty : (run_benchmark ord subs sink tx_msgs workers).latencies ≠ [] ↔
      (run_benchmark ord' subs sink tx_msgs workers).latencies ≠ [] :=
    not_congr ⟨fun h => List.nil_perm.mp (h ▸ hperm), fun h => List.nil_perm.mp (h ▸ hperm.symm)⟩
  unfold print_results
  rw [latency_line_perm hperm, rx_msgs_eq, rx_msgs_eq]
  simp only [hempty]
  rfl

/-! ### The report of a trial -/

section run
variable {args : PublisherArgs} (htopic : ShortToken (utf8 args.topic))
  {r : Run (publishing args)} {n : Nat} (hn : n ≤ r.len)
include htopic hn

/-- **The percentiles are those of the messages that everybody has received**,
    from the times that the publishers took for them: there is a line as soon
    as there is such a message. -/
theorem report_of_complete (hseq : (r.states n).shared.global_seq ≤ 10 ^ 10)
    {arrived : List Packet} (harrived : arrived.Subperm (r.states n).shared.wire) {host : UInt32}
    {subs : Nat} (hsubs : 0 < subs) {x : Setup (utf8 args.topic) host subs} {sent : List Frame}
    (hsends : Sends x arrived sent) {workers : List (List (SockAddr × Batch))}
    (hnet : Delivered (sent.map delivery) workers) (hroom : arrived.length ≤ MAX_TRACKED_PKTS)
    (ord : MapOrder) (tx_msgs duration_secs msg_size : Nat)
    (hsome : ∃ p ∈ arrived, Complete (sockets host subs) workers (cut p.bytes)) :
    ∃ (stamps : List (Fin args.pubs × Stamp)) (report : Report) (line : LatencyLine)
        (nth : Nat → Nat),
      arrived = stamps.map (fun e => e.2.packet args e.1) ∧ (∀ e ∈ stamps, Made r n e) ∧
      print_results (run_benchmark ord subs false tx_msgs (batches workers)) duration_secs msg_size
        false = some report ∧
      report.analysis = .latency line ∧
      Describes line ((stamps.filter fun e =>
        Complete (sockets host subs) workers (cut (e.2.bytes args e.1))).map fun e =>
          last_ns workers (cut (e.2.bytes args e.1)) - e.2.now_ns.toNat % 10 ^ 20) nth ∧
      line.min ≤ line.p50 ∧ line.p50 ≤ line.p90 ∧ line.p90 ≤ line.p99 ∧ line.p99 ≤ line.max := by
  obtain ⟨stamps, rfl, hstamps⟩ := arrived_stamps r hn harrived
  rw [List.length_map] at hroom
  have hperm := Multiset.coe_eq_coe.mp (latencies_of_delivered htopic hn hseq hstamps harrived hsubs
    hsends hnet hroom ord tx_msgs)
  -- the message that everybody has received makes a sample
  have hnonempty : ((stamps.filter fun e =>
      Complete (sockets host subs) workers (cut (e.2.bytes args e.1))).map fun e =>
        last_ns workers (cut (e.2.bytes args e.1)) - e.2.now_ns.toNat % 10 ^ 20) ≠ [] := by
    obtain ⟨p, hp, hcomplete⟩ := hsome
    obtain ⟨e, he, rfl⟩ := List.mem_map.mp hp
    rw [Ne, List.map_eq_nil_iff]
    exact List.ne_nil_of_mem (List.mem_filter.mpr ⟨he, decide_eq_true hcomplete⟩)
  have hsamples : (run_benchmark ord subs false tx_msgs (batches workers)).latencies ≠ [] := by
    intro h
    rw [h] at hperm
    exact hnonempty (List.nil_perm.mp hperm)
  obtain ⟨line, nth, hline, hdesc⟩ := latency_line_describes hnonempty
  let result := run_benchmark ord subs false tx_msgs (batches workers)
  refine ⟨stamps, ⟨traffic result.tx_msgs msg_size duration_secs,
    traffic result.rx_msgs msg_size duration_secs, .latency line⟩, line, nth, rfl, hstamps.made, ?_,
    rfl, hdesc, hdesc.ordered hnonempty⟩
  unfold print_results
  rw [if_neg Bool.false_ne_true, if_pos hsamples, latency_line_perm hperm, hline]
  rfl

end run

theorem report_of_complete_sample :
    ∃ report line,
      print_results (run_benchmark listed 1 false 2 (batches sample_workers)) 10 64 false =
        some report ∧
      report.analysis = .latency line ∧ line.received = 1 := by
  obtain ⟨stamps, report, line, _, harrived, -, hreport, hline, hdesc, -⟩ :=
    report_of_complete sample_topic (r := sample_run) (n := 75) (by decide) (by decide +kernel)
      sample_arrived (by decide) sample_sends sample_delivered (by decide) listed 2 10 64
      ⟨⟨49152, message ['a'] 5 0 (List.replicate 22 33)⟩, List.mem_cons_self, by decide +kernel⟩
  have hone : (sample_packets.filter fun p =>
      Complete (sockets 0x0700000a 1) sample_workers (cut p.bytes)).length = 1 := by
    decide +kernel
  rw [harrived, List.filter_map, List.length_map] at hone
  simp only [Function.comp_def, Stamp.packet] at hone
  refine ⟨report, line, hreport, hline, ?_⟩
  rw [hdesc.received, List.length_map, hone]

end BpfBroker.Benchmark
