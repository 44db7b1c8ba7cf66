import BpfBroker.Benchmark.Message
import BpfBroker.Lib.Rounding
import BpfBroker.Lib.System

/-! # Benchmark Publishers

    The publisher threads of `pubsub-benchmark` send batches of 64 messages.
    They share two counters: `global_seq` gives each message its sequence
    number when the message is put together, `global_counter` counts the
    messages after `sendmmsg` has returned. A third thread prints how far the
    counters have come. The threads run side by side, with every access to
    what they share a step of its own, and a clock that goes on between the
    steps. -/

namespace BpfBroker.Benchmark

open LTS Rounding

/-! ### The threads -/

def BATCH : Nat := 64

/-- What is left of the message size for the payload. -/
def payload_size (topic : List Char) (msg_size : Nat) : Nat :=
  msg_size - ((head topic).length + TS_LEN + 1 + SEQ_LEN + 1)

/-- The arguments of `run_benchmark` that reach the publishers, and the
    payload that each thread made up. The duration is in seconds. -/
structure PublisherArgs where
  topic : List Char
  pubs : Nat
  msg_size : Nat
  duration : Nat
  rate_pps : Nat
  payload : Fin pubs → List UInt8
  payload_length : ∀ i, (payload i).length = payload_size topic msg_size
  payload_chars : ∀ i, ∀ b ∈ payload i, 33 ≤ b.toNat ∧ b.toNat ≤ 126

/-- Where a publisher thread is. -/
inductive Point where
  | starting
  /-- At the test of the outer loop. -/
  | elapsed
  /-- About to fill in packet `i` of the batch. -/
  | fill (i : Nat)
  /-- In `sendmmsg`, with `k` packets sent. -/
  | sendmmsg (k : Nat)
  /-- `sendmmsg` has returned `n`, which is not counted yet. -/
  | sent (n : Nat)
  /-- About to compare the schedule with the clock. -/
  | pace
  | sleep (wake : Nat)
  | finished
  /-- A slice was out of range. -/
  | panicked
  deriving DecidableEq

structure Publisher where
  point : Point
  start : Nat
  dest_ports : List Nat
  msg_bufs : List (List UInt8)
  total_sent : Nat

/-- A datagram as it was sent. -/
structure Packet where
  dest_port : Nat
  bytes : List UInt8
  deriving DecidableEq

/-- The reporter: what it printed last, the value of `tx_counter` between the
    two loads, and the rows. -/
structure Reporter where
  last_tx : Nat
  last_rx : Nat
  tx : Option Nat
  rows : List (Nat × Nat)

/-- What the threads share. `global_seq` counts the numbers handed out; the
    atomic holds it modulo `2 ^ 64`. The other two counters stay far below
    `2 ^ 64`, as numbers of datagrams do. Times are in nanoseconds. -/
structure Shared where
  clock : Nat
  global_seq : Nat
  global_counter : Nat
  recv_counter : Nat
  wire : List Packet

/-! ### Steps -/

/-- `Duration::from_secs_f64`: to the nearest nanosecond. -/
def from_secs_f64 (secs : ℚ) : Nat := (nearest (secs * 1000000000)).toNat

/-- When the message after these is due. -/
def target (rate_pps total_sent : Nat) : Nat :=
  from_secs_f64 (f64 (f64 total_sent / f64 rate_pps))

/-- What a publisher does next. -/
inductive Act where
  | start
  | test
  /-- Fill in a packet for a port, with the time of day. -/
  | fill (dest : Fin 16) (now_ns : BitVec 128)
  /-- `sendmmsg` sends a packet. -/
  | transmit
  /-- `sendmmsg` returns. -/
  | ret
  | count
  | pace
  | wake
  deriving DecidableEq

/-- The first lines of a thread: 64 copies of the template. -/
def Publisher.init (args : PublisherArgs) (i : Fin args.pubs) : Publisher where
  point := .starting
  start := 0
  dest_ports := List.replicate BATCH 0
  msg_bufs := List.replicate BATCH (msg_template args.topic (args.payload i))
  total_sent := 0

/-- `spawn_publisher_thread`, one step. -/
def Publisher.next (args : PublisherArgs) (sh : Shared) (p : Publisher) (a : Act) :
    Option (Publisher × Shared) :=
  match p.point, a with
  | .starting, .start => some ({ p with point := .elapsed, start := sh.clock }, sh)
  | .elapsed, .test =>
    let more := sh.clock - p.start < args.duration * 1000000000
    some ({ p with point := if more then .fill 0 else .finished }, sh)
  | .fill i, .fill dest now_ns =>
    let seq := sh.global_seq
    let sh := { sh with global_seq := seq + 1 }
    match fill args.topic (p.msg_bufs.getD i []) now_ns (BitVec.ofNat 64 seq) with
    | none => some ({ p with point := .panicked }, sh)
    | some buf =>
      some ({ p with
        point := if i + 1 < BATCH then .fill (i + 1) else .sendmmsg 0
        dest_ports := p.dest_ports.set i (49152 + dest.val)
        msg_bufs := p.msg_bufs.set i buf }, sh)
  | .sendmmsg k, .transmit =>
    if k < BATCH then
      some ({ p with point := .sendmmsg (k + 1) },
        { sh with wire := sh.wire ++ [⟨p.dest_ports.getD k 0, p.msg_bufs.getD k []⟩] })
    else none
  -- with nothing sent, `sendmmsg` returns -1
  | .sendmmsg k, .ret => some ({ p with point := if k > 0 then .sent k else .elapsed }, sh)
  | .sent n, .count =>
    some ({ p with
      point := if args.rate_pps > 0 then .pace else .elapsed
      total_sent := p.total_sent + n },
      { sh with global_counter := sh.global_counter + n })
  | .pace, .pace =>
    let target := target args.rate_pps p.total_sent
    let elapsed := sh.clock - p.start
    some ({ p with point := if target > elapsed then .sleep (p.start + target) else .elapsed }, sh)
  | .sleep wake, .wake => if wake ≤ sh.clock then some ({ p with point := .elapsed }, sh) else none
  | _, _ => none

/-- A row of the interval table: the reporter loads one counter, then the
    other. -/
def Reporter.next (sh : Shared) (r : Reporter) : Reporter :=
  match r.tx with
  | none => { r with tx := some sh.global_counter }
  | some tx =>
    let rx := sh.recv_counter
    ⟨tx, rx, none, r.rows ++ [(tx - r.last_tx, rx - r.last_rx)]⟩

structure Trial (args : PublisherArgs) where
  shared : Shared
  publishers : Fin args.pubs → Publisher
  reporter : Reporter

namespace Trial

variable {args : PublisherArgs}

def init (args : PublisherArgs) : Trial args where
  shared := ⟨0, 0, 0, 0, []⟩
  publishers := Publisher.init args
  reporter := ⟨0, 0, none, []⟩

inductive Label (args : PublisherArgs) where
  | tick (ns : Nat)
  | publisher (i : Fin args.pubs) (a : Act)
  /-- A subscriber worker adds a batch to `recv_counter`. -/
  | received (n : Nat)
  | report

instance : Inhabited (Label args) := ⟨.report⟩

/-- One step. -/
def next (t : Trial args) : Label args → Option (Trial args)
  | .tick ns => some { t with shared := { t.shared with clock := t.shared.clock + ns } }
  | .publisher i a =>
    ((t.publishers i).next args t.shared a).map fun r =>
      { t with shared := r.2, publishers := Function.update t.publishers i r.1 }
  | .received n =>
    some { t with shared := { t.shared with recv_counter := t.shared.recv_counter + n } }
  | .report => some { t with reporter := t.reporter.next t.shared }

end Trial

/-- The publishers of a trial, from their start. -/
def publishing (args : PublisherArgs) : System (Trial args) (Trial.Label args) :=
  ofNext Trial.next (Trial.init args)

/-! ### What a publisher can do -/

/-- The steps of a publisher, with where each one leads. -/
inductive PublisherStep (args : PublisherArgs) (sh : Shared) (p : Publisher) :
    Act → Publisher → Shared → Prop where
  | start (h : p.point = .starting) :
    PublisherStep args sh p .start { p with point := .elapsed, start := sh.clock } sh
  | again (h : p.point = .elapsed) (htime : sh.clock - p.start < args.duration * 1000000000) :
    PublisherStep args sh p .test { p with point := .fill 0 } sh
  | finish (h : p.point = .elapsed) :
    PublisherStep args sh p .test { p with point := .finished } sh
  | panic {i : Nat} {dest : Fin 16} {now_ns : BitVec 128} (h : p.point = .fill i)
      (hfill : fill args.topic (p.msg_bufs.getD i []) now_ns (BitVec.ofNat 64 sh.global_seq) = none) :
    PublisherStep args sh p (.fill dest now_ns) { p with point := .panicked }
      { sh with global_seq := sh.global_seq + 1 }
  | fill {i : Nat} {dest : Fin 16} {now_ns : BitVec 128} {buf : List UInt8} (h : p.point = .fill i)
      (hfill : fill args.topic (p.msg_bufs.getD i []) now_ns (BitVec.ofNat 64 sh.global_seq) =
        some buf) :
    PublisherStep args sh p (.fill dest now_ns)
      { p with
        point := if i + 1 < BATCH then .fill (i + 1) else .sendmmsg 0
        dest_ports := p.dest_ports.set i (49152 + dest.val)
        msg_bufs := p.msg_bufs.set i buf }
      { sh with global_seq := sh.global_seq + 1 }
  | transmit {k : Nat} (h : p.point = .sendmmsg k) (hk : k < BATCH) :
    PublisherStep args sh p .transmit { p with point := .sendmmsg (k + 1) }
      { sh with wire := sh.wire ++ [⟨p.dest_ports.getD k 0, p.msg_bufs.getD k []⟩] }
  | ret {k : Nat} (h : p.point = .sendmmsg k) :
    PublisherStep args sh p .ret { p with point := if k > 0 then .sent k else .elapsed } sh
  | count {n : Nat} (h : p.point = .sent n) :
    PublisherStep args sh p .count
      { p with
        point := if args.rate_pps > 0 then .pace else .elapsed
        total_sent := p.total_sent + n }
      { sh with global_counter := sh.global_counter + n }
  | pace (h : p.point = .pace) :
    PublisherStep args sh p .pace
      { p with
        point :=
          if target args.rate_pps p.total_sent > sh.clock - p.start then
            .sleep (p.start + target args.rate_pps p.total_sent)
          else .elapsed } sh
  | wake {wake : Nat} (h : p.point = .sleep wake) (htime : wake ≤ sh.clock) :
    PublisherStep args sh p .wake { p with point := .elapsed } sh

theorem Publisher.step_of_next {args : PublisherArgs} {sh sh' : Shared} {p p' : Publisher} {a : Act}
    (h : p.next args sh a = some (p', sh')) : PublisherStep args sh p a p' sh' := by
  unfold Publisher.next at h
  split at h
  · next hp =>
    cases h
    exact .start hp
  · next hp =>
    dsimp only at h
    split at h
    · next htime =>
      cases h
      exact .again hp htime
    · cases h
      exact .finish hp
  · next hp =>
    dsimp only at h
    split at h
    · next hfill =>
      cases h
      exact .panic hp hfill
    · next hfill =>
      cases h
      exact .fill hp hfill
  · next hp =>
    split at h
    · next hk =>
      cases h
      exact .transmit hp hk
    · cases h
  · next hp =>
    cases h
    exact .ret hp
  · next hp =>
    cases h
    exact .count hp
  · next hp =>
    cases h
    exact .pace hp
  · next hp =>
    split at h
    · next htime =>
      cases h
      exact .wake hp htime
    · cases h
  · cases h

/-- **What a step can do**: one publisher makes a step, or the clock, the
    count of the workers or the reporter goes on. -/
theorem Trial.next_cases {args : PublisherArgs} {t t' : Trial args} {l : Trial.Label args}
    (h : t.next l = some t') :
    (∃ i a p sh, l = .publisher i a ∧ PublisherStep args t.shared (t.publishers i) a p sh ∧
      t' = { t with shared := sh, publishers := Function.update t.publishers i p }) ∨
    (∃ ns, t' = { t with shared := { t.shared with clock := t.shared.clock + ns } }) ∨
    (∃ n, t' = { t with shared := { t.shared with recv_counter := t.shared.recv_counter + n } }) ∨
    t' = { t with reporter := t.reporter.next t.shared } := by
  cases l with
  | tick ns =>
    cases h
    exact Or.inr (Or.inl ⟨ns, rfl⟩)
  | publisher i a =>
    obtain ⟨⟨p, sh⟩, hnext, rfl⟩ := Option.map_eq_some_iff.mp h
    exact Or.inl ⟨i, a, p, sh, rfl, Publisher.step_of_next hnext, rfl⟩
  | received n =>
    cases h
    exact Or.inr (Or.inr (Or.inl ⟨n, rfl⟩))
  | report =>
    cases h
    exact Or.inr (Or.inr (Or.inr rfl))

/-! ### A run -/

/-- One publisher of 64-byte messages, 10 a second for a second. -/
def sample_args : PublisherArgs where
  topic := ['a']
  pubs := 1
  msg_size := 64
  duration := 1
  rate_pps := 10
  payload _ := List.replicate 22 33
  payload_length _ := rfl
  payload_chars i b hb := by
    rw [List.eq_of_mem_replicate hb]
    decide

/-- A batch, of which `sendmmsg` sends two packets, and the sleep behind it. -/
def sample_acts : List Act :=
  [.start, .test] ++ List.replicate BATCH (.fill 0 5) ++
    [.transmit, .transmit, .ret, .count, .pace]

def sample_labels : List (Trial.Label sample_args) :=
  sample_acts.map (.publisher ⟨0, Nat.one_pos⟩) ++
    [.report, .tick 200000000, .publisher ⟨0, Nat.one_pos⟩ .wake, .report]

theorem sample_labels_run : (exec Trial.next (Trial.init sample_args) sample_labels).isSome := by
  decide +kernel

def sample_run : Run (publishing sample_args) :=
  Run.ofLabels Trial.next (Trial.init sample_args) sample_labels sample_labels_run

end BpfBroker.Benchmark
