/-! # Labelled Transition Systems and Finite Runs

    A system has initial states and labelled steps. A run is a finite
    sequence of steps from an initial state, with the states and labels
    indexed by position, so that properties can speak about what happens
    before, between and after given steps. -/

namespace LTS

/-- A labelled transition system. -/
structure System (State Label : Type) where
  init : State → Prop
  step : State → Label → State → Prop

/-- A run of `len` steps. States and labels past the end carry no meaning. -/
structure Run {State Label : Type} (sys : System State Label) where
  len : Nat
  states : Nat → State
  labels : Nat → Label
  init : sys.init (states 0)
  step : ∀ n, n < len → sys.step (states n) (labels n) (states (n + 1))

namespace Run

variable {State Label : Type} {sys : System State Label}

/-- **Invariance** over a segment: what holds at position `a` and is kept by
    every step of the segment holds throughout it. The assertion may depend
    on the position, and so on what the run did up to there. -/
theorem invariant_from (r : Run sys) {P : Nat → State → Prop} {a b : Nat} (hb : b ≤ r.len)
    (hbase : P a (r.states a))
    (hstep : ∀ n, a ≤ n → n < b → P n (r.states n) →
      sys.step (r.states n) (r.labels n) (r.states (n + 1)) → P (n + 1) (r.states (n + 1))) :
    ∀ n, a ≤ n → n ≤ b → P n (r.states n) := by
  intro n
  induction n with
  | zero =>
    intro hle _
    have : a = 0 := Nat.le_zero.mp hle
    rw [← this]; exact hbase
  | succ n ih =>
    intro hle hnb
    rcases Nat.eq_or_lt_of_le hle with rfl | hlt
    · exact hbase
    · have han : a ≤ n := Nat.lt_succ_iff.mp hlt
      exact hstep n han hnb (ih han (Nat.le_of_succ_le hnb)) (r.step n (Nat.lt_of_lt_of_le hnb hb))

/-- **Invariance** over the whole run. -/
theorem invariant (r : Run sys) {P : Nat → State → Prop}
    (hbase : ∀ s, sys.init s → P 0 s)
    (hstep : ∀ n, n < r.len → P n (r.states n) →
      sys.step (r.states n) (r.labels n) (r.states (n + 1)) → P (n + 1) (r.states (n + 1))) :
    ∀ n, n ≤ r.len → P n (r.states n) := by
  intro n hn
  exact r.invariant_from (Nat.le_refl _) (hbase _ r.init)
    (fun m _ hm => hstep m hm) n (Nat.zero_le n) hn

end Run

/-! ### Deterministic steps

    When a label determines the next state, a run is given by its labels. -/

section deterministic
variable {State Label : Type} (next : State → Label → Option State)

/-- The system whose steps are those of `next`, from the state `s₀`. -/
def ofNext (s₀ : State) : System State Label where
  init s := s = s₀
  step s l s' := next s l = some s'

/-- The state after a list of labels, if each of them can be taken. -/
def exec : State → List Label → Option State
  | s, [] => some s
  | s, l :: ls => (next s l).bind fun s' => exec s' ls

theorem exec_snoc (s : State) (ls : List Label) (l : Label) :
    exec next s (ls ++ [l]) = (exec next s ls).bind fun s' => next s' l := by
  induction ls generalizing s with
  | nil =>
    show (next s l).bind some = next s l
    cases next s l <;> rfl
  | cons l' ls ih =>
    show ((next s l').bind fun s' => exec next s' (ls ++ [l])) = _
    rw [funext fun s' => ih s']
    show _ = ((next s l').bind fun s' => exec next s' ls).bind _
    rw [Option.bind_assoc]

/-- Every initial segment of labels that can be taken can be taken. -/
theorem exec_take {s : State} {ls : List Label} (h : (exec next s ls).isSome) (n : Nat) :
    (exec next s (ls.take n)).isSome := by
  induction ls generalizing s n with
  | nil => rw [List.take_nil]; rfl
  | cons l ls ih =>
    cases n with
    | zero => rfl
    | succ n =>
      rcases hn : next s l with _ | s'
      · simp [exec, hn] at h
      · simp only [exec, hn, Option.bind_some] at h
        simp only [List.take_succ_cons, exec, hn, Option.bind_some]
        exact ih h n

/-- The run along a list of labels. -/
def Run.ofLabels [Inhabited Label] (s₀ : State) (ls : List Label)
    (h : (exec next s₀ ls).isSome) : Run (ofNext next s₀) where
  len := ls.length
  states n := (exec next s₀ (ls.take n)).getD s₀
  labels n := ls.getD n default
  init := rfl
  step n hn := by
    obtain ⟨s, hs⟩ := Option.isSome_iff_exists.mp (exec_take next h n)
    obtain ⟨s', hs'⟩ := Option.isSome_iff_exists.mp (exec_take next h (n + 1))
    have htake : ls.take (n + 1) = ls.take n ++ [ls.getD n default] := by
      rw [List.take_add_one, List.getD_eq_getElem?_getD, List.getElem?_eq_getElem hn]
      rfl
    have hstep : exec next s₀ (ls.take (n + 1)) = next s (ls.getD n default) := by
      rw [htake, exec_snoc, hs]
      rfl
    show next _ _ = some _
    rw [hs, hs']
    exact hstep.symm.trans hs'

end deterministic

end LTS
