import BpfBroker.Lib.Prog

/-! # A Server that Works Operation by Operation

    A server owns a state and carries out commands one after the other. Each
    command is a program; the server performs one operation of it at a time,
    so that others can look at the state in between. It keeps a log of the
    commands it has finished and what they returned. -/

namespace Atomic

/-- A server over the operations of `S`, with commands `C` that return an
    `α`. -/
structure Server (S : Sig) (σ C α : Type) where
  state : σ
  /-- The command being carried out, with what is left of its program. -/
  busy : Option (C × Prog S α)
  /-- The finished commands. -/
  log : List (C × α)

namespace Server

variable {S : Sig} {σ C α : Type}

/-- Perform the next operation of the program `p` for the command `c`, and
    finish the command if that was the last one. -/
def advance (h : Handler S σ) (sv : Server S σ C α) (c : C) : Prog S α → Server S σ C α
  | .ret a => { sv with busy := none, log := sv.log ++ [(c, a)] }
  | .op o next =>
    match next (h o sv.state).1 with
    | .ret a => ⟨(h o sv.state).2, none, sv.log ++ [(c, a)]⟩
    | .op o' next' => ⟨(h o sv.state).2, some (c, .op o' next'), sv.log⟩

section advance
variable {h : Handler S σ} {sv : Server S σ C α} {c : C}

theorem advance_ret (a : α) :
    sv.advance h c (.ret a) = { sv with busy := none, log := sv.log ++ [(c, a)] } := rfl

theorem state_advance_op (o : S.Op) (next : S.Res o → Prog S α) :
    (sv.advance h c (.op o next)).state = (h o sv.state).2 := by
  unfold advance
  dsimp only
  split <;> rfl

/-- The server stays with its command. -/
theorem busy_advance {p p' : Prog S α} {c' : C}
    (hbusy : (sv.advance h c p).busy = some (c', p')) : c' = c := by
  cases p with
  | ret a => cases hbusy
  | op o next =>
    unfold advance at hbusy
    dsimp only at hbusy
    split at hbusy
    · cases hbusy
    · cases hbusy
      rfl

/-- **What a step can do**: finish the command, or leave the rest of its
    program. Either way the proof outline of the program goes on. -/
theorem advance_outline {I : S.Op → σ → Prop} {Q : α → σ → Prop} {p : Prog S α}
    (hp : p.Outline h I Q sv.state) :
    (∃ a, (sv.advance h c p).busy = none ∧ (sv.advance h c p).log = sv.log ++ [(c, a)] ∧
      Q a (sv.advance h c p).state) ∨
    (∃ o next, (sv.advance h c p).busy = some (c, .op o next) ∧
      (sv.advance h c p).log = sv.log ∧
      (Prog.op o next).Outline h I Q (sv.advance h c p).state) := by
  cases p with
  | ret a => exact Or.inl ⟨a, rfl, rfl, hp⟩
  | op o next =>
    have hnext := hp.2
    unfold advance
    dsimp only
    rcases hr : next (h o sv.state).1 with a | ⟨o', next'⟩
    · rw [hr] at hnext
      exact Or.inl ⟨a, rfl, rfl, hnext⟩
    · rw [hr] at hnext
      exact Or.inr ⟨o', next', rfl, rfl, hnext⟩

/-- The operations left are among those of the program. -/
theorem advance_allOps {P : S.Op → Prop} {p : Prog S α} (hp : p.AllOps P) {c' : C}
    {p' : Prog S α} (hbusy : (sv.advance h c p).busy = some (c', p')) : p'.AllOps P := by
  cases p with
  | ret a => cases hbusy
  | op o next =>
    have hnext := hp.2 (h o sv.state).1
    unfold advance at hbusy
    dsimp only at hbusy
    rcases hr : next (h o sv.state).1 with a | ⟨o', next'⟩
    · rw [hr] at hbusy
      cases hbusy
    · rw [hr] at hbusy hnext
      cases hbusy
      exact hnext

end advance

end Server

end Atomic
