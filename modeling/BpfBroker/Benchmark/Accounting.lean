import BpfBroker.Benchmark.Publisher
import BpfBroker.Lib.Workers

/-! # The Counters of a Trial

    `global_counter` runs behind the wire by what the publishers have sent
    and not counted yet, the rows of the interval table run behind the
    counters, and with a rate the publishers wait until the next batch is
    due. -/

namespace BpfBroker.Benchmark

open LTS Rounding Workers

/-! ### What is counted -/

/-- Packets on the wire that the publisher has not counted yet. -/
def Publisher.inFlight (p : Publisher) : Nat :=
  match p.point with
  | .sendmmsg k => k
  | .sent n => n
  | _ => 0

/-- The packets of a publisher on the wire. -/
def Publisher.out (p : Publisher) : Nat := p.total_sent + p.inFlight

/-- The counters of a trial against its wire, and the rows of the reporter
    against the counters. -/
structure Trial.Accounted {args : PublisherArgs} (t : Trial args) : Prop where
  inFlight_le : ∀ i, (t.publishers i).inFlight ≤ BATCH
  wire : t.shared.wire.length = total Publisher.out t.publishers
  counter : t.shared.global_counter = total Publisher.total_sent t.publishers
  tx_rows : (t.reporter.rows.map Prod.fst).sum = t.reporter.last_tx
  rx_rows : (t.reporter.rows.map Prod.snd).sum = t.reporter.last_rx
  last_tx : t.reporter.last_tx ≤ t.reporter.tx.getD t.shared.global_counter
  tx_le : t.reporter.tx.getD t.shared.global_counter ≤ t.shared.global_counter
  last_rx : t.reporter.last_rx ≤ t.shared.recv_counter

/-- One step of a publisher puts at most one packet on the wire, and counts
    what it has sent. -/
theorem PublisherStep.counted {args : PublisherArgs} {sh sh' : Shared} {p p' : Publisher} {a : Act}
    (hstep : PublisherStep args sh p a p' sh') (h : p.inFlight ≤ BATCH) :
    p'.inFlight ≤ BATCH ∧ sh'.recv_counter = sh.recv_counter ∧
      (∃ d, sh'.wire.length = sh.wire.length + d ∧ p'.out = p.out + d) ∧
      ∃ e, sh'.global_counter = sh.global_counter + e ∧ p'.total_sent = p.total_sent + e := by
  unfold Publisher.out
  unfold Publisher.inFlight at h ⊢
  cases hstep with
  | start hp => simp [hp]
  | again hp _ => simp [hp]
  | finish hp => simp [hp]
  | panic hp _ => simp [hp]
  | fill hp _ =>
    rw [hp]
    refine ⟨?_, rfl, ⟨0, rfl, ?_⟩, 0, rfl, rfl⟩
    · dsimp only
      split_ifs <;> exact Nat.zero_le _
    · dsimp only
      split_ifs <;> rfl
  | transmit hp hk =>
    rw [hp]
    refine ⟨hk, rfl, ⟨1, ?_, rfl⟩, 0, rfl, rfl⟩
    rw [List.length_append, List.length_singleton]
  | @ret k hp =>
    rw [hp] at h ⊢
    refine ⟨?_, rfl, ⟨0, rfl, ?_⟩, 0, rfl, rfl⟩
    · dsimp only
      split_ifs
      · exact h
      · exact Nat.zero_le _
    · dsimp only
      split_ifs with hk
      · rfl
      · rw [Nat.eq_zero_of_not_pos hk]
        rfl
  | count hp =>
    rw [hp] at h ⊢
    refine ⟨?_, rfl, ⟨0, rfl, ?_⟩, _, rfl, rfl⟩
    · dsimp only
      split_ifs <;> exact Nat.zero_le _
    · dsimp only
      split_ifs <;> rfl
  | pace hp =>
    rw [hp]
    refine ⟨?_, rfl, ⟨0, rfl, ?_⟩, 0, rfl, rfl⟩
    · dsimp only
      split_ifs <;> exact Nat.zero_le _
    · dsimp only
      split_ifs <;> rfl
  | wake hp _ => simp [hp]

section accounted
variable {args : PublisherArgs}

theorem accounted_init : (Trial.init args).Accounted := by
  have hnone : ∀ share : Publisher → Nat, (∀ i, share (Publisher.init args i) = 0) →
      total share (Trial.init args).publishers = 0 := fun share h => total_eq_zero h
  constructor
  · intro i
    exact Nat.zero_le _
  · rw [hnone _ fun i => rfl]
    rfl
  · rw [hnone _ fun i => rfl]
    rfl
  · rfl
  · rfl
  · exact Nat.le_refl 0
  · exact Nat.le_refl 0
  · exact Nat.le_refl 0

/-- A publisher that counts does not change what the reporter has loaded. -/
theorem Trial.Accounted.publisher {t : Trial args} (h : t.Accounted) {i : Fin args.pubs}
    {a : Act} {p : Publisher} {sh : Shared}
    (hstep : PublisherStep args t.shared (t.publishers i) a p sh) :
    Trial.Accounted { t with shared := sh, publishers := Function.update t.publishers i p } := by
  obtain ⟨hflight, hrecv, ⟨d, hwire, hout⟩, e, hcounter, hsent⟩ := hstep.counted (h.inFlight_le i)
  have hgrow : t.shared.global_counter ≤ sh.global_counter := by omega
  constructor
  · intro j
    show (Function.update t.publishers i p j).inFlight ≤ BATCH
    by_cases hj : j = i
    · subst hj
      rw [Function.update_self]
      exact hflight
    · rw [Function.update_of_ne hj]
      exact h.inFlight_le j
  · have htotal : total Publisher.out (Function.update t.publishers i p) + 0 =
        total Publisher.out t.publishers + d := total_update_of_add hout
    show sh.wire.length = _
    rw [hwire, h.wire]
    exact htotal.symm
  · have htotal : total Publisher.total_sent (Function.update t.publishers i p) + 0 =
        total Publisher.total_sent t.publishers + e := total_update_of_add hsent
    show sh.global_counter = _
    rw [hcounter, h.counter]
    exact htotal.symm
  · exact h.tx_rows
  · exact h.rx_rows
  · have hlast := h.last_tx
    show t.reporter.last_tx ≤ t.reporter.tx.getD sh.global_counter
    cases htx : t.reporter.tx with
    | none =>
      rw [htx] at hlast
      exact hlast.trans hgrow
    | some tx =>
      rw [htx] at hlast
      exact hlast
  · have hle := h.tx_le
    show t.reporter.tx.getD sh.global_counter ≤ sh.global_counter
    cases htx : t.reporter.tx with
    | none => exact Nat.le_refl _
    | some tx =>
      rw [htx] at hle
      exact le_trans hle hgrow
  · show t.reporter.last_rx ≤ sh.recv_counter
    rw [hrecv]
    exact h.last_rx

/-- The reporter subtracts from each counter an earlier value of it. -/
theorem Trial.Accounted.report {t : Trial args} (h : t.Accounted) :
    Trial.Accounted { t with reporter := t.reporter.next t.shared } := by
  have htx := h.tx_rows
  have hrx := h.rx_rows
  have hlast := h.last_tx
  have hle := h.tx_le
  have hrecv := h.last_rx
  unfold Reporter.next
  cases hr : t.reporter.tx with
  | none =>
    rw [hr] at hlast
    exact ⟨h.inFlight_le, h.wire, h.counter, htx, hrx, hlast, Nat.le_refl _, hrecv⟩
  | some tx =>
    rw [hr, Option.getD_some] at hlast hle
    refine ⟨h.inFlight_le, h.wire, h.counter, ?_, ?_, hle, Nat.le_refl _, Nat.le_refl _⟩
    · show ((t.reporter.rows ++ [_]).map Prod.fst).sum = tx
      rw [List.map_append, List.sum_append, htx, List.map_singleton, List.sum_singleton]
      omega
    · show ((t.reporter.rows ++ [_]).map Prod.snd).sum = t.shared.recv_counter
      rw [List.map_append, List.sum_append, hrx, List.map_singleton, List.sum_singleton]
      omega

theorem Trial.Accounted.step {t t' : Trial args} (h : t.Accounted) {l : Trial.Label args}
    (hnext : t.next l = some t') : t'.Accounted := by
  rcases Trial.next_cases hnext with ⟨i, a, p, sh, -, hstep, rfl⟩ | ⟨ns, rfl⟩ | ⟨n, rfl⟩ | rfl
  · exact h.publisher hstep
  · exact ⟨h.inFlight_le, h.wire, h.counter, h.tx_rows, h.rx_rows, h.last_tx, h.tx_le, h.last_rx⟩
  · exact ⟨h.inFlight_le, h.wire, h.counter, h.tx_rows, h.rx_rows, h.last_tx, h.tx_le,
      h.last_rx.trans (Nat.le_add_right _ _)⟩
  · exact h.report

theorem accounted (r : Run (publishing args)) {n : Nat} (hn : n ≤ r.len) :
    (r.states n).Accounted := by
  refine r.invariant (P := fun _ t => t.Accounted) ?_ ?_ n hn
  · intro t ht
    cases ht
    exact accounted_init
  · intro k _ h hstep
    exact h.step hstep

/-- What is on the wire and not counted is in flight. -/
theorem Trial.Accounted.wire_eq {t : Trial args} (h : t.Accounted) :
    t.shared.wire.length = t.shared.global_counter + total Publisher.inFlight t.publishers := by
  rw [h.wire, h.counter, ← total_add]
  rfl

/-- With nothing in flight, the count is that of the packets. -/
theorem Trial.Accounted.counter_eq {t : Trial args} (h : t.Accounted)
    (hidle : ∀ i, (t.publishers i).inFlight = 0) :
    t.shared.global_counter = t.shared.wire.length := by
  rw [h.wire_eq, total_eq_zero hidle, Nat.add_zero]

/-- **Every packet is counted**, up to one batch of each publisher; when none
    of them is on its way back from `sendmmsg`, the count is exact. The rows of
    the interval table add up to what the counters have reached, and no
    subtraction of the reporter underflows. -/
theorem packets_accounted (r : Run (publishing args)) {n : Nat} (hn : n ≤ r.len) :
    (r.states n).shared.global_counter ≤ (r.states n).shared.wire.length ∧
    (r.states n).shared.wire.length ≤
      (r.states n).shared.global_counter + args.pubs * BATCH ∧
    ((∀ i, ((r.states n).publishers i).inFlight = 0) →
      (r.states n).shared.global_counter = (r.states n).shared.wire.length) ∧
    ((r.states n).reporter.rows.map Prod.fst).sum ≤ (r.states n).shared.global_counter ∧
    ((r.states n).reporter.rows.map Prod.snd).sum ≤ (r.states n).shared.recv_counter ∧
    (∀ tx, (r.states n).reporter.tx = some tx → (r.states n).reporter.last_tx ≤ tx) ∧
    (r.states n).reporter.last_rx ≤ (r.states n).shared.recv_counter := by
  have h := accounted r hn
  have hsplit := h.wire_eq
  have hflight : total Publisher.inFlight (r.states n).publishers ≤ args.pubs * BATCH := by
    have hle := total_le h.inFlight_le
    rwa [Fintype.card_fin] at hle
  refine ⟨by omega, by omega, h.counter_eq, ?_, ?_, ?_, h.last_rx⟩
  · rw [h.tx_rows]
    exact le_trans h.last_tx h.tx_le
  · rw [h.rx_rows]
    exact h.last_rx
  · intro tx htx
    have hlast := h.last_tx
    rwa [htx] at hlast

theorem packets_accounted_sample :
    (sample_run.states 75).shared.global_counter = (sample_run.states 75).shared.wire.length :=
  (packets_accounted sample_run (n := 75) (by decide)).2.2.1 (by decide +kernel)

end accounted

/-! ### The pace -/

theorem target_zero (rate_pps : Nat) : target rate_pps 0 = 0 := by
  have hzero : nearest 0 = 0 := by exact_mod_cast nearest_intCast 0
  unfold target from_secs_f64
  rw [Nat.cast_zero, f64_zero, zero_div, f64_zero, zero_mul, hzero]
  rfl

/-- A message that is due before the end is one of those that the rate allows
    for the duration. -/
theorem le_of_target_lt {rate_pps duration n : Nat} (hrate : 0 < rate_pps)
    (hsmall : rate_pps * duration ≤ 2 ^ 53)
    (h : target rate_pps n < duration * 1000000000) : n ≤ rate_pps * duration := by
  by_contra hlarge
  have hpos : 0 < duration := by
    rcases Nat.eq_zero_or_pos duration with rfl | hpos
    · rw [Nat.zero_mul] at h
      exact absurd h (Nat.not_lt_zero _)
    · exact hpos
  have hrate_le : rate_pps ≤ 2 ^ 53 := le_trans (Nat.le_mul_of_pos_right _ hpos) hsmall
  have hduration_le : duration ≤ 2 ^ 53 := le_trans (Nat.le_mul_of_pos_left _ hrate) hsmall
  have hratepos : (0 : ℚ) < rate_pps := by exact_mod_cast hrate
  -- the quotient is not below the duration, before and after each rounding
  have hcount : ((rate_pps * duration : Nat) : ℚ) ≤ f64 n := by
    rw [← f64_natCast hsmall]
    apply f64_mono
    exact_mod_cast (not_le.mp hlarge).le
  have hquotient : (duration : ℚ) ≤ f64 (f64 n / f64 rate_pps) := by
    rw [← f64_natCast hduration_le, f64_natCast hrate_le]
    apply f64_mono
    rw [le_div_iff₀ hratepos]
    calc (duration : ℚ) * rate_pps = ((rate_pps * duration : Nat) : ℚ) := by
          push_cast
          ring
      _ ≤ f64 n := hcount
  have hnanos : ((duration * 1000000000 : Nat) : ℤ) ≤
      nearest (f64 (f64 n / f64 rate_pps) * 1000000000) := by
    apply le_nearest
    push_cast
    exact mul_le_mul_of_nonneg_right hquotient (by norm_num)
  unfold target from_secs_f64 at h
  omega

/-- A publisher with a rate is not ahead of its schedule when it starts a
    batch, so what it has sent by then is what the rate allows. -/
def OnSchedule (args : PublisherArgs) (clock : Nat) (p : Publisher) : Prop :=
  match p.point with
  | .starting => p.total_sent = 0
  | .elapsed =>
    target args.rate_pps p.total_sent ≤ clock - p.start ∧
      p.total_sent ≤ args.rate_pps * args.duration + BATCH
  | .fill _ | .sendmmsg _ =>
    target args.rate_pps p.total_sent ≤ clock - p.start ∧
      p.total_sent ≤ args.rate_pps * args.duration
  | .sent _ | .panicked => p.total_sent ≤ args.rate_pps * args.duration
  | .sleep wake =>
    wake = p.start + target args.rate_pps p.total_sent ∧
      p.total_sent ≤ args.rate_pps * args.duration + BATCH
  | .pace | .finished => p.total_sent ≤ args.rate_pps * args.duration + BATCH

section schedule
variable {args : PublisherArgs}

theorem OnSchedule.tick {clock : Nat} {p : Publisher} (h : OnSchedule args clock p) (ns : Nat) :
    OnSchedule args (clock + ns) p := by
  unfold OnSchedule at h ⊢
  cases hp : p.point with
  | starting =>
    rw [hp] at h
    exact h
  | elapsed =>
    rw [hp] at h
    exact ⟨h.1.trans (Nat.sub_le_sub_right (Nat.le_add_right _ ns) _), h.2⟩
  | fill i =>
    rw [hp] at h
    exact ⟨h.1.trans (Nat.sub_le_sub_right (Nat.le_add_right _ ns) _), h.2⟩
  | sendmmsg k =>
    rw [hp] at h
    exact ⟨h.1.trans (Nat.sub_le_sub_right (Nat.le_add_right _ ns) _), h.2⟩
  | sent n =>
    rw [hp] at h
    exact h
  | pace =>
    rw [hp] at h
    exact h
  | sleep wake =>
    rw [hp] at h
    exact h
  | finished =>
    rw [hp] at h
    exact h
  | panicked =>
    rw [hp] at h
    exact h

/-- **One step** keeps a publisher on its schedule. -/
theorem PublisherStep.onSchedule (hrate : 0 < args.rate_pps)
    (hsmall : args.rate_pps * args.duration ≤ 2 ^ 53) {sh sh' : Shared} {p p' : Publisher}
    {a : Act} (hstep : PublisherStep args sh p a p' sh') (hflight : p.inFlight ≤ BATCH)
    (h : OnSchedule args sh.clock p) :
    sh'.clock = sh.clock ∧ OnSchedule args sh.clock p' := by
  unfold OnSchedule at h
  cases hstep with
  | start hp =>
    rw [hp] at h
    refine ⟨rfl, ?_⟩
    show target args.rate_pps p.total_sent ≤ _ ∧ p.total_sent ≤ _
    rw [show p.total_sent = 0 from h, target_zero]
    exact ⟨Nat.zero_le _, Nat.zero_le _⟩
  | again hp htime =>
    rw [hp] at h
    exact ⟨rfl, h.1, le_of_target_lt hrate hsmall (lt_of_le_of_lt h.1 htime)⟩
  | finish hp =>
    rw [hp] at h
    exact ⟨rfl, h.2⟩
  | panic hp _ =>
    rw [hp] at h
    exact ⟨rfl, h.2⟩
  | fill hp _ =>
    rw [hp] at h
    refine ⟨rfl, ?_⟩
    unfold OnSchedule
    dsimp only
    split_ifs
    · exact h
    · exact h
  | transmit hp _ =>
    rw [hp] at h
    exact ⟨rfl, h⟩
  | ret hp =>
    rw [hp] at h
    refine ⟨rfl, ?_⟩
    unfold OnSchedule
    dsimp only
    split_ifs
    · exact h.2
    · exact ⟨h.1, h.2.trans (Nat.le_add_right _ _)⟩
  | @count n hp =>
    rw [hp] at h
    have hn : n ≤ BATCH := by
      unfold Publisher.inFlight at hflight
      rwa [hp] at hflight
    refine ⟨rfl, ?_⟩
    unfold OnSchedule
    dsimp only
    rw [if_pos hrate]
    exact Nat.add_le_add h hn
  | pace hp =>
    rw [hp] at h
    refine ⟨rfl, ?_⟩
    unfold OnSchedule
    dsimp only
    split_ifs with hearly
    · exact ⟨rfl, h⟩
    · exact ⟨not_lt.mp hearly, h⟩
  | wake hp htime =>
    rw [hp] at h
    refine ⟨rfl, ?_, h.2⟩
    show target args.rate_pps p.total_sent ≤ sh.clock - p.start
    have hwake := h.1
    omega

theorem onSchedule (hrate : 0 < args.rate_pps) (hsmall : args.rate_pps * args.duration ≤ 2 ^ 53)
    (r : Run (publishing args)) {n : Nat} (hn : n ≤ r.len) (i : Fin args.pubs) :
    OnSchedule args (r.states n).shared.clock ((r.states n).publishers i) := by
  have hall : ∀ n, n ≤ r.len → (r.states n).Accounted ∧
      ∀ i, OnSchedule args (r.states n).shared.clock ((r.states n).publishers i) := by
    refine r.invariant (P := fun _ t => t.Accounted ∧
      ∀ i, OnSchedule args t.shared.clock (t.publishers i)) ?_ ?_
    · intro t ht
      cases ht
      exact ⟨accounted_init, fun i => rfl⟩
    · intro k _ h hnext
      refine ⟨h.1.step hnext, ?_⟩
      rcases Trial.next_cases hnext with ⟨i, a, p, sh, -, hstep, heq⟩ | ⟨ns, heq⟩ | ⟨m, heq⟩ | heq
      · obtain ⟨hclock, hp⟩ := hstep.onSchedule hrate hsmall (h.1.inFlight_le i) (h.2 i)
        intro j
        rw [heq]
        show OnSchedule args sh.clock (Function.update (r.states k).publishers i p j)
        rw [hclock]
        by_cases hj : j = i
        · subst hj
          rw [Function.update_self]
          exact hp
        · rw [Function.update_of_ne hj]
          exact h.2 j
      · intro j
        rw [heq]
        exact (h.2 j).tick ns
      · rw [heq]
        exact h.2
      · rw [heq]
        exact h.2
  exact (hall n hn).2 i

/-- **The rate is kept**: with `--rate-pps`, each publisher sends at most what
    the rate allows for the duration, and one batch, whatever the clock does
    and however long a thread is held up. -/
theorem paced_total (hrate : 0 < args.rate_pps) (hsmall : args.rate_pps * args.duration ≤ 2 ^ 53)
    (r : Run (publishing args)) {n : Nat} (hn : n ≤ r.len) :
    (∀ i, ((r.states n).publishers i).out ≤ args.rate_pps * args.duration + BATCH) ∧
    (r.states n).shared.wire.length ≤ args.pubs * (args.rate_pps * args.duration + BATCH) := by
  have h := accounted r hn
  have hout : ∀ i, ((r.states n).publishers i).out ≤ args.rate_pps * args.duration + BATCH := by
    intro i
    have hflight := h.inFlight_le i
    have hp := onSchedule hrate hsmall r hn i
    generalize (r.states n).publishers i = p at hflight hp
    unfold Publisher.out
    unfold Publisher.inFlight at hflight ⊢
    unfold OnSchedule at hp
    cases hpoint : p.point <;> simp only [hpoint] at hp hflight ⊢ <;> omega
  refine ⟨hout, ?_⟩
  have hle := total_le hout
  rwa [Fintype.card_fin, ← h.wire] at hle

theorem paced_total_sample : (sample_run.states 75).shared.wire.length ≤ 1 * (10 * 1 + BATCH) :=
  (paced_total (by decide) (by decide) sample_run (n := 75) (by decide)).2

end schedule

end BpfBroker.Benchmark
