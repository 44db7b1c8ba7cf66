import Mathlib.Data.UInt
import BpfBroker.Lib.Bisect

/-! # The Search for the No-Drop Rate

    `find_ndr` looks for the highest rate without drops by bisection. Each
    iteration runs a trial at the midpoint; the trial's verdict decides which
    half is searched next. -/

namespace BpfBroker.Benchmark

open Bisect

/-! ### `find_ndr` -/

/-- The bounds of the search, and the trials run so far with their verdicts,
    as they are printed. -/
structure Search where
  lo : UInt64
  hi : UInt64
  trials : List (UInt64 × Bool)

/-- `a + b` and `a - b`, where they do not overflow. -/
def checked_add (a b : UInt64) : Option UInt64 :=
  if a.toNat + b.toNat < 2 ^ 64 then some (a + b) else none

def checked_sub (a b : UInt64) : Option UInt64 := if b ≤ a then some (a - b) else none

/-- After a trial at `mid`. -/
def Search.after (s : Search) (mid : UInt64) (pass : Bool) : Search where
  lo := if pass then mid else s.lo
  hi := if pass then s.hi else mid
  trials := s.trials ++ [(mid, pass)]

/-- How far apart the bounds are. The subtraction saturates. -/
def Search.gap (s : Search) : Nat := s.hi.toNat - s.lo.toNat

/-- One iteration of the loop: the search after it, and whether the loop goes
    on. `pass` is the verdict of a trial, by the iteration and the rate. -/
def iteration (pass : Nat → UInt64 → Bool) (iter : Nat) (s : Search) : Option (Search × Bool) := do
  if s.hi ≤ s.lo then return (s, false)
  else
    let range ← checked_sub s.hi s.lo
    let mid ← checked_add s.lo (range / 2)
    if mid = 0 then return (s, false)
    else
      let s := s.after mid (pass iter mid)
      return (s, !decide (s.gap ≤ 100))

/-- The loop, from iteration `iter` on. -/
def ndr_loop (pass : Nat → UInt64 → Bool) : Nat → Nat → Search → Option Search
  | 0, _, s => some s
  | n + 1, iter, s => do
    let (s, continues) ← iteration pass iter s
    if continues then ndr_loop pass n (iter + 1) s else return s

/-- The searches that the loop goes through, the first and the last
    included. -/
def ndr_states (pass : Nat → UInt64 → Bool) : Nat → Nat → Search → List Search
  | 0, _, s => [s]
  | n + 1, iter, s =>
    s :: match iteration pass iter s with
      | some (s', true) => ndr_states pass n (iter + 1) s'
      | some (s', false) => [s']
      | none => []

/-- The search at the end of `find_ndr`. -/
def ndr_search (pass : Nat → UInt64 → Bool) (ndr_min_pps ndr_max_pps : UInt64)
    (ndr_iterations : Nat) : Option Search :=
  ndr_loop pass ndr_iterations 0 ⟨ndr_min_pps, ndr_max_pps, []⟩

/-- `find_ndr`: the rate it returns. -/
def find_ndr (pass : Nat → UInt64 → Bool) (ndr_min_pps ndr_max_pps : UInt64)
    (ndr_iterations : Nat) : Option UInt64 :=
  (ndr_search pass ndr_min_pps ndr_max_pps ndr_iterations).map (·.lo)

/-! ### One iteration -/

/-- **What an iteration can do** to bounds in order: leave the loop because
    the range is empty, or because its midpoint is 0, or run a trial at the
    midpoint. -/
inductive Iterated (pass : Nat → UInt64 → Bool) (iter : Nat) (s : Search) :
    Option (Search × Bool) → Prop
  | empty (h : s.gap = 0) : Iterated pass iter s (some (s, false))
  | zero (hlo : s.lo.toNat = 0) (hhi : s.hi.toNat = 1) : Iterated pass iter s (some (s, false))
  | trial {r : UInt64} (hr : r.toNat = mid s.lo.toNat s.hi.toNat) (hlt : s.lo.toNat < s.hi.toNat)
      (hne : r ≠ 0) :
      Iterated pass iter s
        (some (s.after r (pass iter r), !decide ((s.after r (pass iter r)).gap ≤ 100)))

theorem iterated (pass : Nat → UInt64 → Bool) (iter : Nat) (s : Search) :
    Iterated pass iter s (iteration pass iter s) := by
  unfold iteration
  by_cases hle : s.hi ≤ s.lo
  · rw [if_pos hle]
    refine .empty ?_
    have := UInt64.le_iff_toNat_le.mp hle
    unfold Search.gap
    omega
  have hlt : s.lo.toNat < s.hi.toNat := by
    rw [UInt64.le_iff_toNat_le] at hle
    omega
  have hsub : s.lo ≤ s.hi := UInt64.le_iff_toNat_le.mpr hlt.le
  have hrange : ((s.hi - s.lo) / 2).toNat = (s.hi.toNat - s.lo.toNat) / 2 := by
    rw [UInt64.toNat_div, UInt64.toNat_sub_of_le _ _ hsub]
    rfl
  -- the midpoint is below the upper bound, so the sum does not overflow
  have hfits : s.lo.toNat + ((s.hi - s.lo) / 2).toNat < 2 ^ 64 := by
    have := s.hi.toNat_lt
    rw [hrange]
    omega
  have hmid : (s.lo + (s.hi - s.lo) / 2).toNat = mid s.lo.toNat s.hi.toNat := by
    rw [UInt64.toNat_add, Nat.mod_eq_of_lt hfits, hrange]
    rfl
  rw [if_neg hle]
  unfold checked_sub checked_add
  rw [if_pos hsub]
  simp only [Option.bind_eq_bind, Option.bind_some, if_pos hfits]
  by_cases hzero : s.lo + (s.hi - s.lo) / 2 = 0
  · rw [if_pos hzero]
    have hnat : mid s.lo.toNat s.hi.toNat = 0 := by
      rw [← hmid, hzero]
      rfl
    unfold mid at hnat
    exact .zero (by omega) (by omega)
  · rw [if_neg hzero]
    exact .trial hmid hlt hzero

/-! ### The whole search -/

section run
variable {pass : Nat → UInt64 → Bool}

/-- **Invariants of the loop**: what a trial at the midpoint preserves holds of
    every search the loop goes through, and of the last one. The loop does not
    overflow. -/
theorem ndr_loop_invariant {P : Search → Prop}
    (hstep : ∀ iter s r, P s → r.toNat = mid s.lo.toNat s.hi.toNat →
      s.lo.toNat < s.hi.toNat → r ≠ 0 → P (s.after r (pass iter r)))
    (n iter : Nat) {s : Search} (hs : P s) :
    (∀ t ∈ ndr_states pass n iter s, P t) ∧
      ∃ t ∈ ndr_states pass n iter s, ndr_loop pass n iter s = some t := by
  induction n generalizing iter s with
  | zero =>
    refine ⟨?_, s, List.mem_singleton_self s, rfl⟩
    intro t ht
    rw [List.mem_singleton.mp ht]
    exact hs
  | succ n ih =>
    have hcases := iterated pass iter s
    unfold ndr_states ndr_loop
    generalize iteration pass iter s = next at hcases ⊢
    -- where the loop is left, or has run its trial, there is one more search
    have hlast (s' : Search) (hs' : P s') :
        (∀ t ∈ s :: [s'], P t) ∧ ∃ t ∈ s :: [s'], some s' = some t := by
      refine ⟨?_, s', by simp, rfl⟩
      intro t ht
      rcases List.mem_pair.mp ht with rfl | rfl
      · exact hs
      · exact hs'
    cases hcases with
    | empty => exact hlast s hs
    | zero => exact hlast s hs
    | @trial r hr hlt hne =>
      have hnext := hstep iter s r hs hr hlt hne
      generalize s.after r (pass iter r) = s' at hnext ⊢
      rcases decide (s'.gap ≤ 100) with _ | _
      · obtain ⟨hall, t, ht, hloop⟩ := ih (iter + 1) hnext
        refine ⟨?_, t, List.mem_cons_of_mem _ ht, hloop⟩
        intro u hu
        rcases List.mem_cons.mp hu with rfl | hu
        · exact hs
        · exact hall u hu
      · exact hlast s' hnext

/-- The same, for the last search. -/
theorem ndr_loop_last {P : Search → Prop}
    (hstep : ∀ iter s r, P s → r.toNat = mid s.lo.toNat s.hi.toNat →
      s.lo.toNat < s.hi.toNat → r ≠ 0 → P (s.after r (pass iter r)))
    {n iter : Nat} {s t : Search} (hs : P s) (h : ndr_loop pass n iter s = some t) : P t := by
  obtain ⟨hall, t', ht', hloop⟩ := ndr_loop_invariant hstep n iter hs
  rw [h] at hloop
  rw [Option.some.inj hloop]
  exact hall t' ht'

/-! ### The bracket -/

/-- **The bracket**: the bounds are in order and in the range, and each one is
    the range's or that of a trial with the right verdict. -/
structure Bracket (pass : Nat → UInt64 → Bool) (ndr_min_pps ndr_max_pps : UInt64) (s : Search) :
    Prop where
  min_le : ndr_min_pps ≤ s.lo
  le : s.lo ≤ s.hi
  le_max : s.hi ≤ ndr_max_pps
  lower : s.lo = ndr_min_pps ∨ (s.lo, true) ∈ s.trials
  upper : s.hi = ndr_max_pps ∨ (s.hi, false) ∈ s.trials
  verdicts : ∀ r ok, (r, ok) ∈ s.trials → ∃ i, pass i r = ok

theorem mem_after {s : Search} {r r' : UInt64} {ok ok' : Bool} :
    (r', ok') ∈ (s.after r ok).trials ↔ (r', ok') ∈ s.trials ∨ r' = r ∧ ok' = ok := by
  simp [Search.after]

theorem Bracket.after {ndr_min_pps ndr_max_pps : UInt64} (iter : Nat) (s : Search) (r : UInt64)
    (h : Bracket pass ndr_min_pps ndr_max_pps s) (hr : r.toNat = mid s.lo.toNat s.hi.toNat)
    (hlt : s.lo.toNat < s.hi.toNat) (_ : r ≠ 0) :
    Bracket pass ndr_min_pps ndr_max_pps (s.after r (pass iter r)) := by
  have hlo : s.lo ≤ r := UInt64.le_iff_toNat_le.mpr (by rw [hr]; exact le_mid _ _)
  have hhi : r ≤ s.hi := UInt64.le_iff_toNat_le.mpr (by rw [hr]; exact (mid_lt hlt).le)
  have hverdicts : ∀ r' ok, (r', ok) ∈ (s.after r (pass iter r)).trials → ∃ i, pass i r' = ok := by
    intro r' ok hmem
    rcases mem_after.mp hmem with hmem | ⟨rfl, rfl⟩
    · exact h.verdicts r' ok hmem
    · exact ⟨iter, rfl⟩
  rcases hpass : pass iter r with _ | _
  · -- the trial failed: the upper bound comes down
    rw [hpass] at hverdicts
    refine ⟨h.min_le, hlo, UInt64.le_trans hhi h.le_max, ?_, Or.inr ?_, hverdicts⟩
    · exact h.lower.imp_right fun hmem => mem_after.mpr (Or.inl hmem)
    · exact mem_after.mpr (Or.inr ⟨rfl, rfl⟩)
  · rw [hpass] at hverdicts
    refine ⟨UInt64.le_trans h.min_le hlo, hhi, h.le_max, Or.inr ?_, ?_, hverdicts⟩
    · exact mem_after.mpr (Or.inr ⟨rfl, rfl⟩)
    · exact h.upper.imp_right fun hmem => mem_after.mpr (Or.inl hmem)

/-! ### The gap -/

/-- A trial leaves half of the gap, the larger half when it passes. -/
theorem gap_after {s : Search} {r : UInt64} (hr : r.toNat = mid s.lo.toNat s.hi.toNat)
    (hlt : s.lo.toNat < s.hi.toNat) (ok : Bool) :
    (s.after r ok).gap = if ok then (s.gap + 1) / 2 else s.gap / 2 := by
  unfold Search.gap Search.after
  rcases ok with _ | _
  · show r.toNat - s.lo.toNat = _
    rw [hr, mid_sub]
    rfl
  · show s.hi.toNat - r.toNat = _
    rw [hr, sub_mid hlt.le]
    rfl

/-- **One round of a loop** that ends with `t`: it is left where no trial can be
    run, it ends with its trial, or it goes on from there. -/
inductive Round (pass : Nat → UInt64 → Bool) (n iter : Nat) (s t : Search) : Prop
  | left (hgap : s.gap = 0 ∨ s.lo.toNat = 0 ∧ s.gap = 1) (h : s = t)
  | last {r : UInt64} (hr : r.toNat = mid s.lo.toNat s.hi.toNat) (hlt : s.lo.toNat < s.hi.toNat)
      (hne : r ≠ 0) (hsmall : (s.after r (pass iter r)).gap ≤ 100)
      (h : s.after r (pass iter r) = t)
  | next {r : UInt64} (hr : r.toNat = mid s.lo.toNat s.hi.toNat) (hlt : s.lo.toNat < s.hi.toNat)
      (hne : r ≠ 0) (hlarge : 100 < (s.after r (pass iter r)).gap)
      (h : ndr_loop pass n (iter + 1) (s.after r (pass iter r)) = some t)

theorem ndr_loop_round {n iter : Nat} {s t : Search} (h : ndr_loop pass (n + 1) iter s = some t) :
    Round pass n iter s t := by
  have hcases := iterated pass iter s
  unfold ndr_loop at h
  generalize iteration pass iter s = next at hcases h
  cases hcases with
  | empty hgap => exact .left (Or.inl hgap) (Option.some.inj h)
  | zero hlo hhi =>
    refine .left (Or.inr ⟨hlo, ?_⟩) (Option.some.inj h)
    unfold Search.gap
    omega
  | @trial r hr hlt hne =>
    by_cases hsmall : (s.after r (pass iter r)).gap ≤ 100
    · simp only [hsmall, decide_true, Bool.not_true] at h
      exact .last hr hlt hne hsmall (Option.some.inj h)
    · simp only [hsmall, decide_false, Bool.not_false] at h
      exact .next hr hlt hne (Nat.lt_of_not_le hsmall) h

/-- **Convergence**: the gap is halved until it is small or the iterations are
    used up. -/
theorem ndr_loop_gap {n iter : Nat} {s t : Search} (h : ndr_loop pass n iter s = some t) :
    t.gap ≤ max 100 (shrunk s.gap n) := by
  induction n generalizing iter s with
  | zero =>
    cases h
    rw [shrunk_zero]
    exact Nat.le_max_right _ _
  | succ n ih =>
    cases ndr_loop_round h with
    | left hgap hst =>
      rw [← hst]
      exact le_trans (by omega) (Nat.le_max_left _ _)
    | last hr hlt hne hsmall hst =>
      rw [← hst]
      exact le_trans hsmall (Nat.le_max_left _ _)
    | next hr hlt hne hlarge hrest =>
      refine le_trans (ih hrest) (max_le_max (Nat.le_refl 100) (shrunk_le ?_ n))
      rw [gap_after hr hlt]
      split
      · exact Nat.le_refl _
      · exact Nat.div_le_div_right (Nat.le_succ _)

/-! ### The rate that is returned -/

/-- A trial of the search passed. -/
def Search.Found (s : Search) : Prop := ∃ r, (r, true) ∈ s.trials

/-- The lower bound is a rate that passed as soon as there is one. -/
theorem found_lower {n iter : Nat} {s t : Search} (hs : s.trials = [])
    (h : ndr_loop pass n iter s = some t) (ht : t.Found) : (t.lo, true) ∈ t.trials ∧ t.lo ≠ 0 := by
  refine ndr_loop_last (P := fun s => s.Found → (s.lo, true) ∈ s.trials ∧ s.lo ≠ 0) ?_ ?_ h ht
  · intro iter s r hs _ _ hne hfound
    rcases hpass : pass iter r with _ | _
    · obtain ⟨r', hr'⟩ := hfound
      rw [hpass] at hr'
      have hold := (mem_after.mp hr').resolve_right fun hand => Bool.false_ne_true hand.2.symm
      obtain ⟨hmem, hlo⟩ := hs ⟨r', hold⟩
      exact ⟨mem_after.mpr (Or.inl hmem), hlo⟩
    · exact ⟨mem_after.mpr (Or.inr ⟨rfl, rfl⟩), hne⟩
  · intro hfound
    obtain ⟨r, hr⟩ := hfound
    rw [hs] at hr
    cases hr

/-- Where every trial fails, the `i`-th one is run: the first when the range
    is not empty and its midpoint not 0, the others when the gap is still
    large. -/
def StillTried (lo gap i : Nat) : Prop :=
  if i = 0 then 0 < gap ∧ 0 < lo + gap / 2 else 100 < gap / 2 ^ i

theorem stillTried_half {lo gap : Nat} (h : 100 < gap / 2) (i : Nat) :
    StillTried lo (gap / 2) i ↔ StillTried lo gap (i + 1) := by
  unfold StillTried
  rw [if_neg (Nat.succ_ne_zero i), Nat.pow_succ, Nat.mul_comm, ← Nat.div_div_eq_div_mul]
  cases i with
  | zero =>
    rw [if_pos rfl, Nat.pow_zero, Nat.div_one]
    omega
  | succ i => rw [if_neg (Nat.succ_ne_zero i)]

theorem StillTried.pos {lo gap i : Nat} (h : StillTried lo gap i) : 0 < gap := by
  unfold StillTried at h
  split at h
  · exact h.1
  · by_contra hzero
    rw [Nat.eq_zero_of_not_pos hzero, Nat.zero_div] at h
    omega

theorem StillTried.lt_half {lo gap i : Nat} (h : StillTried lo gap (i + 1)) : 100 < gap / 2 := by
  unfold StillTried at h
  rw [if_neg (Nat.succ_ne_zero i), Nat.pow_succ, Nat.mul_comm, ← Nat.div_div_eq_div_mul] at h
  exact Nat.lt_of_lt_of_le h (Nat.div_le_self _ _)

/-- The rate of the `i`-th trial where all before it fail. -/
def falling_rate (lo gap i : Nat) : UInt64 := UInt64.ofNat (lo + gap / 2 ^ (i + 1))

theorem falling_rate_half (lo gap i : Nat) :
    falling_rate lo (gap / 2) i = falling_rate lo gap (i + 1) := by
  unfold falling_rate
  rw [Nat.div_div_eq_div_mul, ← Nat.pow_succ']

/-- The first trial of the series is the one at the midpoint. -/
theorem falling_rate_zero {s : Search} {r : UInt64} (hr : r.toNat = mid s.lo.toNat s.hi.toNat) :
    falling_rate s.lo.toNat s.gap 0 = r := by
  apply UInt64.toNat_inj.mp
  have hmid : s.lo.toNat + s.gap / 2 ^ (0 + 1) = r.toNat := hr.symm
  unfold falling_rate
  rw [hmid, UInt64.toNat_ofNat', Nat.mod_eq_of_lt r.toNat_lt]

theorem stillTried_zero {s : Search} {r : UInt64} (hr : r.toNat = mid s.lo.toNat s.hi.toNat)
    (hlt : s.lo.toNat < s.hi.toNat) (hne : r ≠ 0) : StillTried s.lo.toNat s.gap 0 := by
  have hpos : r.toNat ≠ 0 := fun hzero => hne (UInt64.toNat_inj.mp hzero)
  have hmid : r.toNat = s.lo.toNat + s.gap / 2 := hr
  refine ⟨?_, by omega⟩
  unfold Search.gap
  omega

theorem found_after {s : Search} {r : UInt64} {ok : Bool} :
    (s.after r ok).Found ↔ s.Found ∨ ok = true := by
  unfold Search.Found
  simp only [mem_after, exists_or, exists_and_right, exists_eq, true_and]
  exact or_congr_right eq_comm

/-- A passing trial of the falling series, from iteration `iter` on. -/
def FallingPass (pass : Nat → UInt64 → Bool) (iter lo gap n : Nat) : Prop :=
  ∃ i < n, StillTried lo gap i ∧ pass (iter + i) (falling_rate lo gap i) = true

/-- The first trial of the series, or a later one, which is then one of the
    lower half. -/
theorem fallingPass_succ {iter lo gap : Nat} (n : Nat) :
    FallingPass pass iter lo gap (n + 1) ↔
      (StillTried lo gap 0 ∧ pass iter (falling_rate lo gap 0) = true) ∨
        100 < gap / 2 ∧ FallingPass pass (iter + 1) lo (gap / 2) n := by
  unfold FallingPass
  rw [Nat.exists_lt_succ_left, Nat.add_zero]
  refine or_congr_right ⟨?_, ?_⟩
  · intro h
    obtain ⟨i, hi, htried, hpass⟩ := h
    refine ⟨htried.lt_half, i, hi, (stillTried_half htried.lt_half i).mpr htried, ?_⟩
    rwa [falling_rate_half, Nat.add_right_comm]
  · intro h
    obtain ⟨hhalf, i, hi, htried, hpass⟩ := h
    refine ⟨i, hi, (stillTried_half hhalf i).mp htried, ?_⟩
    rwa [falling_rate_half, Nat.add_right_comm] at hpass

/-- Where no trial can be run, none passes. -/
theorem not_fallingPass {iter lo gap n : Nat} (h : gap = 0 ∨ lo = 0 ∧ gap = 1) :
    ¬ FallingPass pass iter lo gap n := by
  intro hpass
  obtain ⟨i, _, htried, _⟩ := hpass
  rcases h with rfl | ⟨rfl, rfl⟩
  · exact absurd htried.pos (by decide)
  · cases i with
    | zero => exact absurd htried.2 (by decide)
    | succ i => exact absurd htried.lt_half (by decide)

/-- **When a trial passes**: one of the falling series does. -/
theorem found_iff {n iter : Nat} {s t : Search} (h : ndr_loop pass n iter s = some t) :
    t.Found ↔ s.Found ∨ FallingPass pass iter s.lo.toNat s.gap n := by
  induction n generalizing iter s with
  | zero =>
    have hst : s = t := Option.some.inj h
    rw [hst]
    simp [FallingPass]
  | succ n ih =>
    -- a trial that passes is the first of the series
    have hfirst {r : UInt64} (hr : r.toNat = mid s.lo.toNat s.hi.toNat)
        (hlt : s.lo.toNat < s.hi.toNat) (hne : r ≠ 0) :
        FallingPass pass iter s.lo.toNat s.gap (n + 1) ↔ pass iter r = true ∨
          100 < s.gap / 2 ∧ FallingPass pass (iter + 1) s.lo.toNat (s.gap / 2) n := by
      rw [fallingPass_succ, falling_rate_zero hr, and_iff_right (stillTried_zero hr hlt hne)]
    cases ndr_loop_round h with
    | left hgap hst =>
      rw [← hst]
      exact (or_iff_left (not_fallingPass hgap)).symm
    | @last r hr hlt hne hsmall hst =>
      rw [← hst, found_after, hfirst hr hlt hne]
      rw [gap_after hr hlt] at hsmall
      by_cases hpass : pass iter r = true
      · simp [hpass]
      · -- the lower half is not searched
        rw [if_neg hpass] at hsmall
        rw [or_iff_left (show ¬ (100 < s.gap / 2 ∧ _) from fun hand => by omega)]
    | @next r hr hlt hne hlarge hrest =>
      rw [ih hrest, found_after, hfirst hr hlt hne]
      rw [gap_after hr hlt] at hlarge ⊢
      by_cases hpass : pass iter r = true
      · simp [hpass]
      · -- the search goes on in the lower half
        rw [if_neg hpass] at hlarge ⊢
        have hlo : (s.after r (pass iter r)).lo = s.lo := if_neg hpass
        rw [hlo, or_assoc, and_iff_right hlarge]

end run

/-- `spawn_publisher_thread` sleeps between its batches only when the rate is
    not 0. -/
def paced (rate_pps : UInt64) : Bool := decide (rate_pps > 0)

theorem paced_iff {rate_pps : UInt64} : paced rate_pps = true ↔ rate_pps ≠ 0 := by
  unfold paced
  rw [decide_eq_true_eq]
  exact UInt64.pos_iff_ne_zero

/-- **When the rate was measured**: a trial passes in the series of rates that
    fall from the middle of the range towards its lower bound. -/
theorem measured_rate_iff (pass : Nat → UInt64 → Bool) (ndr_min_pps ndr_max_pps : UInt64)
    (ndr_iterations : Nat) :
    (∃ s rate, ndr_search pass ndr_min_pps ndr_max_pps ndr_iterations = some s ∧
      find_ndr pass ndr_min_pps ndr_max_pps ndr_iterations = some rate ∧
      (rate, true) ∈ s.trials ∧ paced rate) ↔
    FallingPass pass 0 ndr_min_pps.toNat (ndr_max_pps.toNat - ndr_min_pps.toNat)
      ndr_iterations := by
  obtain ⟨-, t, -, hloop⟩ := @ndr_loop_invariant pass (fun _ => True)
    (fun _ _ _ _ _ _ _ => trivial) ndr_iterations 0 (s := ⟨ndr_min_pps, ndr_max_pps, []⟩) trivial
  have hfound := found_iff hloop
  have hno : ¬ Search.Found ⟨ndr_min_pps, ndr_max_pps, []⟩ := by
    intro hnone
    obtain ⟨r, hr⟩ := hnone
    cases hr
  have hiff : t.Found ↔ FallingPass pass 0 ndr_min_pps.toNat
      (ndr_max_pps.toNat - ndr_min_pps.toNat) ndr_iterations :=
    hfound.trans (or_iff_right hno)
  have hrate : find_ndr pass ndr_min_pps ndr_max_pps ndr_iterations = some t.lo := by
    unfold find_ndr ndr_search
    rw [hloop, Option.map_some]
  rw [← hiff]
  constructor
  · intro h
    obtain ⟨s, rate, hs, -, hmem, -⟩ := h
    have hst : t = s := Option.some.inj (hloop.symm.trans hs)
    rw [hst]
    exact ⟨rate, hmem⟩
  · intro h
    obtain ⟨hmem, hne⟩ := found_lower rfl hloop h
    exact ⟨t, t.lo, hloop, hrate, hmem, paced_iff.mpr hne⟩

/-- With the default range and no rate without drops, the search returns 0,
    which is sent without a limit. -/
theorem unmeasured_rate :
    (∃ s, ndr_search (fun _ _ => false) 0 1000000 10 = some s ∧ s.trials.length = 10 ∧
      ∀ e ∈ s.trials, e.2 = false) ∧
    find_ndr (fun _ _ => false) 0 1000000 10 = some 0 ∧ paced 0 = false := by
  refine ⟨?_, by decide +kernel, by decide +kernel⟩
  have hrun : ((ndr_search (fun _ _ => false) 0 1000000 10).map fun s => s.trials.map (·.2)) =
      some (List.replicate 10 false) := by
    decide +kernel
  obtain ⟨s, hs, htrials⟩ := Option.map_eq_some_iff.mp hrun
  refine ⟨s, hs, ?_, ?_⟩
  · have hlen := congrArg List.length htrials
    rwa [List.length_map] at hlen
  · intro e he
    have hmem : e.2 ∈ s.trials.map (·.2) := List.mem_map_of_mem he
    rw [htrials] at hmem
    exact List.eq_of_mem_replicate hmem

/-- **The search brackets the threshold and converges**, without overflow. With
    a threshold `R` in the range, the rate returned is at most `R` and within
    the last gap of it. -/
theorem find_ndr_brackets (pass : Nat → UInt64 → Bool) {ndr_min_pps ndr_max_pps : UInt64}
    (h : ndr_min_pps ≤ ndr_max_pps) (ndr_iterations : Nat) :
    (∀ s ∈ ndr_states pass ndr_iterations 0 ⟨ndr_min_pps, ndr_max_pps, []⟩,
      Bracket pass ndr_min_pps ndr_max_pps s) ∧
    ∃ s ∈ ndr_states pass ndr_iterations 0 ⟨ndr_min_pps, ndr_max_pps, []⟩,
      ndr_search pass ndr_min_pps ndr_max_pps ndr_iterations = some s ∧
      find_ndr pass ndr_min_pps ndr_max_pps ndr_iterations = some s.lo ∧
      s.hi.toNat - s.lo.toNat ≤
        max 100 (shrunk (ndr_max_pps.toNat - ndr_min_pps.toNat) ndr_iterations) ∧
      ∀ R, ndr_min_pps ≤ R → R < ndr_max_pps → (∀ i r, pass i r = true ↔ r ≤ R) →
        s.lo ≤ R ∧ R.toNat - s.lo.toNat ≤
          max 100 (shrunk (ndr_max_pps.toNat - ndr_min_pps.toNat) ndr_iterations) := by
  have hstart : Bracket pass ndr_min_pps ndr_max_pps ⟨ndr_min_pps, ndr_max_pps, []⟩ :=
    ⟨UInt64.le_refl _, h, UInt64.le_refl _, Or.inl rfl, Or.inl rfl, fun _ _ hmem => by cases hmem⟩
  obtain ⟨hall, s, hs, hloop⟩ := ndr_loop_invariant Bracket.after ndr_iterations 0 hstart
  have hgap : s.hi.toNat - s.lo.toNat ≤
      max 100 (shrunk (ndr_max_pps.toNat - ndr_min_pps.toNat) ndr_iterations) :=
    ndr_loop_gap hloop
  have hrate : find_ndr pass ndr_min_pps ndr_max_pps ndr_iterations = some s.lo := by
    unfold find_ndr ndr_search
    rw [hloop, Option.map_some]
  refine ⟨hall, s, hs, hloop, hrate, hgap, ?_⟩
  intro R hmin hmax hR
  have hb := hall s hs
  have hlo : s.lo ≤ R := by
    rcases hb.lower with heq | hmem
    · rwa [heq]
    · obtain ⟨i, hi⟩ := hb.verdicts _ _ hmem
      exact (hR i _).mp hi
  have hhi : R < s.hi := by
    rcases hb.upper with heq | hmem
    · rwa [heq]
    · obtain ⟨i, hi⟩ := hb.verdicts _ _ hmem
      rw [← UInt64.not_le, ← hR i, hi]
      exact Bool.false_ne_true
  refine ⟨hlo, le_trans ?_ hgap⟩
  have := UInt64.lt_iff_toNat_lt.mp hhi
  omega

theorem find_ndr_brackets_sample :
    (0 : UInt64) ≤ 1000000 ∧
      ∃ s ∈ ndr_states (fun _ r => decide (r ≤ 250000)) 10 0 ⟨0, 1000000, []⟩,
        find_ndr (fun _ r => decide (r ≤ 250000)) 0 1000000 10 = some s.lo ∧ s.lo ≤ 250000 := by
  have hle : (0 : UInt64) ≤ 1000000 := by decide
  obtain ⟨-, s, hs, -, hrate, -, hR⟩ :=
    find_ndr_brackets (fun _ r => decide (r ≤ 250000)) hle 10
  refine ⟨hle, s, hs, hrate, ?_⟩
  exact (hR 250000 (by decide) (by decide) (fun _ _ => decide_eq_true_iff)).1

end BpfBroker.Benchmark
