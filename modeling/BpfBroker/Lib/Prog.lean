/-! # Programs of Atomic Operations

    A program is a tree: it either returns, or performs one operation on a
    shared state and continues with the operation's result. The same program
    can be run to its end without interruption (`Prog.run`), or one
    operation at a time with other parties in between.

    `Prog.Outline` is a proof outline for a program: an assertion about the
    state at each operation that is still to be performed, and one about the
    result. It is preserved by performing the next operation, so an outline
    proved for the uninterrupted run also holds at every point of a run in
    which others only read. -/

namespace Atomic

/-- Operations and the type of each one's result. -/
structure Sig where
  Op : Type
  Res : Op → Type

/-- A program over the operations of `S` that returns an `α`. -/
inductive Prog (S : Sig) (α : Type) : Type where
  | ret (a : α)
  | op (o : S.Op) (next : S.Res o → Prog S α)

/-- What each operation does to a state. -/
abbrev Handler (S : Sig) (σ : Type) : Type := (o : S.Op) → σ → S.Res o × σ

namespace Prog

variable {S : Sig} {σ α β : Type}

/-- Run `p`, then the program that `f` gives for its result. -/
def bind : Prog S α → (α → Prog S β) → Prog S β
  | .ret a, f => f a
  | .op o next, f => .op o (fun r => (next r).bind f)

instance : Monad (Prog S) where
  pure := .ret
  bind := Prog.bind

/-- The operation that is performed next; none when the program returns. -/
def pending : Prog S α → Option S.Op
  | .ret _ => none
  | .op o _ => some o

@[simp] theorem pure_eq_ret (a : α) : (pure a : Prog S α) = .ret a := rfl

@[simp] theorem ret_bind (a : α) (f : α → Prog S β) : (Prog.ret a : Prog S α) >>= f = f a := rfl

@[simp] theorem op_bind (o : S.Op) (next : S.Res o → Prog S α) (f : α → Prog S β) :
    (Prog.op o next) >>= f = .op o (fun r => next r >>= f) := rfl

@[simp] theorem pending_ret (a : α) : (Prog.ret a : Prog S α).pending = none := rfl

@[simp] theorem pending_op (o : S.Op) (next : S.Res o → Prog S α) :
    (Prog.op o next).pending = some o := rfl

/-! ### Uninterrupted runs -/

/-- Run a program to its end. -/
def run (h : Handler S σ) : Prog S α → σ → α × σ
  | .ret a, s => (a, s)
  | .op o next, s => (next (h o s).1).run h (h o s).2

@[simp] theorem run_ret (h : Handler S σ) (a : α) (s : σ) :
    (Prog.ret a : Prog S α).run h s = (a, s) := rfl

@[simp] theorem run_op (h : Handler S σ) (o : S.Op) (next : S.Res o → Prog S α) (s : σ) :
    (Prog.op o next).run h s = (next (h o s).1).run h (h o s).2 := rfl

theorem run_bind (h : Handler S σ) (p : Prog S α) (f : α → Prog S β) (s : σ) :
    (p >>= f).run h s = (f (p.run h s).1).run h (p.run h s).2 := by
  induction p generalizing s with
  | ret a => rfl
  | op o next ih =>
    rw [op_bind, run_op, run_op]
    exact ih _ _

/-- What no operation changes, no program changes. -/
theorem run_preserves {τ : Type} {h : Handler S σ} {view : σ → τ}
    (hview : ∀ o s, view (h o s).2 = view s) (p : Prog S α) (s : σ) :
    view (p.run h s).2 = view s := by
  induction p generalizing s with
  | ret a => rfl
  | op o next ih => rw [run_op, ih, hview]

/-! ### The operations of a program -/

/-- Every operation the program can come to perform satisfies `P`. -/
def AllOps (P : S.Op → Prop) : Prog S α → Prop
  | .ret _ => True
  | .op o next => P o ∧ ∀ r, (next r).AllOps P

@[simp] theorem allOps_ret (P : S.Op → Prop) (a : α) : (Prog.ret a : Prog S α).AllOps P := trivial

@[simp] theorem allOps_op (P : S.Op → Prop) (o : S.Op) (next : S.Res o → Prog S α) :
    (Prog.op o next).AllOps P ↔ P o ∧ ∀ r, (next r).AllOps P := Iff.rfl

theorem AllOps.imp {P Q : S.Op → Prop} {p : Prog S α} (hp : p.AllOps P) (h : ∀ o, P o → Q o) :
    p.AllOps Q := by
  induction p with
  | ret a => trivial
  | op o next ih => exact ⟨h o hp.1, fun r => ih r (hp.2 r)⟩

theorem AllOps.bind {P : S.Op → Prop} {p : Prog S α} {f : α → Prog S β} (hp : p.AllOps P)
    (hf : ∀ a, (f a).AllOps P) : (p >>= f).AllOps P := by
  induction p with
  | ret a => exact hf a
  | op o next ih => exact ⟨hp.1, fun r => ih r (hp.2 r)⟩

/-- What none of its operations changes, a program does not change. -/
theorem AllOps.run_preserves {τ : Type} {P : S.Op → Prop} {h : Handler S σ} {p : Prog S α}
    (hp : p.AllOps P) (view : σ → τ) (hview : ∀ o, P o → ∀ s, view (h o s).2 = view s) (s : σ) :
    view (p.run h s).2 = view s := by
  induction p generalizing s with
  | ret a => rfl
  | op o next ih => rw [run_op, ih _ (hp.2 _), hview o hp.1]

/-- **Simulation**: when each of its operations gives the same result in two
    related states and keeps them related, so does the program. -/
theorem AllOps.run_simulates {P : S.Op → Prop} {R : σ → σ → Prop} {h : Handler S σ}
    {p : Prog S α} (hp : p.AllOps P)
    (hR : ∀ o, P o → ∀ s s', R s s' → (h o s').1 = (h o s).1 ∧ R (h o s).2 (h o s').2)
    {s s' : σ} (hs : R s s') :
    (p.run h s').1 = (p.run h s).1 ∧ R (p.run h s).2 (p.run h s').2 := by
  induction p generalizing s s' with
  | ret a => exact ⟨rfl, hs⟩
  | op o next ih =>
    obtain ⟨hres, hnext⟩ := hR o hp.1 s s' hs
    rw [run_op, run_op, hres]
    exact ih _ (hp.2 _) hnext

/-! ### Proof outlines -/

/-- Along the run of the program from `s`, `I o` holds of the state whenever
    the operation `o` is about to be performed, and `Q` holds of the result
    and the final state. -/
def Outline (h : Handler S σ) (I : S.Op → σ → Prop) (Q : α → σ → Prop) : Prog S α → σ → Prop
  | .ret a, s => Q a s
  | .op o next, s => I o s ∧ (next (h o s).1).Outline h I Q (h o s).2

section outline
variable {h : Handler S σ} {I J : S.Op → σ → Prop} {Q R : α → σ → Prop}

@[simp] theorem outline_ret (a : α) (s : σ) :
    (Prog.ret a : Prog S α).Outline h I Q s ↔ Q a s := Iff.rfl

@[simp] theorem outline_op (o : S.Op) (next : S.Res o → Prog S α) (s : σ) :
    (Prog.op o next).Outline h I Q s ↔
      I o s ∧ (next (h o s).1).Outline h I Q (h o s).2 := Iff.rfl

/-- **Sequencing**: an outline of `p >>= f` is one of `p` whose result
    assertion is an outline of what `f` continues with. -/
theorem outline_bind {Q : β → σ → Prop} (p : Prog S α) (f : α → Prog S β) (s : σ) :
    (p >>= f).Outline h I Q s ↔ p.Outline h I (fun a s => (f a).Outline h I Q s) s := by
  induction p generalizing s with
  | ret a => rfl
  | op o next ih =>
    rw [op_bind, outline_op, outline_op]
    exact and_congr_right fun _ => ih _ _

/-- **Consequence**: assertions may be weakened. -/
theorem Outline.mono {p : Prog S α} {s : σ} (hp : p.Outline h I Q s)
    (hI : ∀ o s, I o s → J o s) (hQ : ∀ a s, Q a s → R a s) : p.Outline h J R s := by
  induction p generalizing s with
  | ret a => exact hQ a s hp
  | op o next ih => exact ⟨hI o s hp.1, ih _ hp.2⟩

/-- **Conjunction**: two outlines of one program are an outline. -/
theorem Outline.and {p : Prog S α} {s : σ} (hp : p.Outline h I Q s) (hp' : p.Outline h J R s) :
    p.Outline h (fun o s => I o s ∧ J o s) (fun a s => Q a s ∧ R a s) s := by
  induction p generalizing s with
  | ret a => exact ⟨hp, hp'⟩
  | op o next ih => exact ⟨⟨hp.1, hp'.1⟩, ih _ hp.2 hp'.2⟩

/-- What all its operations preserve holds along the whole run. -/
theorem AllOps.outline {P : S.Op → Prop} {K : σ → Prop} {p : Prog S α} (hp : p.AllOps P)
    (hK : ∀ o, P o → ∀ s, K s → K (h o s).2) {s : σ} (hs : K s) :
    p.Outline h (fun o s => P o ∧ K s) (fun _ s => K s) s := by
  induction p generalizing s with
  | ret a => exact hs
  | op o next ih => exact ⟨⟨hp.1, hs⟩, ih _ (hp.2 _) (hK o hp.1 s hs)⟩

/-- The result assertion holds when the program is run to its end. -/
theorem Outline.result {p : Prog S α} {s : σ} (hp : p.Outline h I Q s) :
    Q (p.run h s).1 (p.run h s).2 := by
  induction p generalizing s with
  | ret a => exact hp
  | op o next ih => exact ih _ hp.2

end outline

end Prog

end Atomic
