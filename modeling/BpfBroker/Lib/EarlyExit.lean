import BpfBroker.Lib.Prog

/-! # Programs that may Stop

    A program whose result says whether to go on: `none`, or `some e` when it
    has stopped with `e`. Such programs are put one behind the other, or
    repeated over a list, and the first one that stops ends them all. -/

namespace Atomic

namespace Prog

variable {S : Sig} {σ α ε : Type}

/-- Go on with `q` unless `p` stops. -/
def andThen (p q : Prog S (Option ε)) : Prog S (Option ε) :=
  p >>= fun r =>
    match r with
    | none => q
    | some e => .ret (some e)

/-- One round for each element, until one stops. -/
def forEach (f : α → Prog S (Option ε)) : List α → Prog S (Option ε)
  | [] => .ret none
  | a :: as => (f a).andThen (forEach f as)

theorem run_andThen (h : Handler S σ) (p q : Prog S (Option ε)) (s : σ) :
    (p.andThen q).run h s =
      match p.run h s with
      | (none, s') => q.run h s'
      | (some e, s') => (some e, s') := by
  unfold andThen
  rw [run_bind]
  obtain ⟨r, s'⟩ := p.run h s
  cases r with
  | none => rfl
  | some e => rfl

theorem AllOps.andThen {P : S.Op → Prop} {p q : Prog S (Option ε)} (hp : p.AllOps P)
    (hq : q.AllOps P) : (p.andThen q).AllOps P := by
  refine hp.bind ?_
  intro r
  cases r with
  | none => exact hq
  | some e => trivial

theorem allOps_forEach {P : S.Op → Prop} {f : α → Prog S (Option ε)} (hf : ∀ a, (f a).AllOps P)
    (l : List α) : (forEach f l).AllOps P := by
  induction l with
  | nil => trivial
  | cons a l ih => exact (hf a).andThen ih

/-- An assertion for either end: `R` when the program goes on, `F` when it has
    stopped. -/
def OnExit (R : σ → Prop) (F : ε → σ → Prop) : Option ε → σ → Prop
  | none, s => R s
  | some e, s => F e s

section rules
variable {h : Handler S σ} {I : S.Op → σ → Prop} {F : ε → σ → Prop}

/-- **Sequencing** with an assertion in between. -/
theorem outline_andThen {R R' : σ → Prop} {p q : Prog S (Option ε)} {s : σ}
    (hp : p.Outline h I (OnExit R F) s) (hq : ∀ s, R s → q.Outline h I (OnExit R' F) s) :
    (p.andThen q).Outline h I (OnExit R' F) s := by
  unfold andThen
  rw [outline_bind]
  refine hp.mono (fun _ _ hI => hI) ?_
  intro r s hr
  cases r with
  | none => exact hq s hr
  | some e => exact hr

/-- **Loops**: the invariant speaks about the elements that are done. -/
theorem outline_forEach {f : α → Prog S (Option ε)} {l : List α} (Inv : List α → σ → Prop)
    (hstep : ∀ done a rest s, l = done ++ a :: rest → Inv done s →
      (f a).Outline h I (OnExit (Inv (done ++ [a])) F) s)
    {s : σ} (hs : Inv [] s) : (forEach f l).Outline h I (OnExit (Inv l) F) s := by
  have hloop : ∀ rest done s, l = done ++ rest → Inv done s →
      (forEach f rest).Outline h I (OnExit (Inv l) F) s := by
    intro rest
    induction rest with
    | nil =>
      intro done s hl hdone
      rw [hl, List.append_nil]
      exact hdone
    | cons a rest ih =>
      intro done s hl hdone
      refine outline_andThen (hstep done a rest s hl hdone) ?_
      intro s' hnext
      exact ih (done ++ [a]) s' (by rw [hl, List.append_assoc]; rfl) hnext
  exact hloop l [] s rfl hs

end rules

end Prog

end Atomic
