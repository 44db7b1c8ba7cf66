import BpfBroker.Clone.Concurrent

/-! # Copies Sent to Nobody

    The number of copies is fixed when the original frame is seen, and each
    copy's slot is looked up later, without a look at the count. A FLUSH in
    between zeroes the slot, and the copy goes to 0.0.0.0:0.

    That is the only way: as long as no copy looks a slot up that a FLUSH has
    zeroed and no SUBSCRIBE has filled again, every copy goes to a client that
    subscribed to the topic. -/

namespace BpfBroker.Clone

open Atomic LTS Buffer

/-! ### What happened in a run -/

section history
variable {cpu : Nat → Nat} (r : Run (system cpu)) (n : Nat)

/-- The command was received before position `n`. -/
def Received (cmd : Cmd) : Prop :=
  ∃ p, p < n ∧ ∃ q, r.labels p = .recv q ∧ parse_request q = cmd

/-- The client issued a SUBSCRIBE for `t` before position `n`. Topics are told
    apart by their keys here: two texts with the same key are one topic. -/
def Subscribed (t : TopicKey) (c : SockAddr) : Prop :=
  ∃ name, Received r n (.subscribe name c) ∧ topic_key_of name = some t

/-- Frame `x` arrived as `f` before position `n`. -/
def Arrived (x : Nat) (f : Frame) : Prop :=
  ∃ p, p < n ∧ r.labels p = .frame x (.arrive f)

/-- Step `p` stores to the slot, for the command `cmd`. -/
def StoresTo (p : Nat) (cmd : Cmd) (t : TopicKey) (idx : UInt32) : Prop :=
  ∃ v next, (r.states p).serving (r.labels p) = some (cmd, .op (.slot_update t idx v) next)

/-- Before position `n`, the last store to the slot is one of a FLUSH. -/
def Zeroed (t : TopicKey) (idx : UInt32) : Prop :=
  ∃ p, p < n ∧ (∃ cmd, cmd.Flushes t ∧ StoresTo r p cmd t idx) ∧
    ∀ q, p < q → q < n → ∀ cmd, ¬ StoresTo r q cmd t idx

end history

section monotone
variable {cpu : Nat → Nat} {r : Run (system cpu)} {n : Nat}

theorem Received.succ {cmd : Cmd} (h : Received r n cmd) : Received r (n + 1) cmd := by
  obtain ⟨p, hp, q, hlabel, hcmd⟩ := h
  exact ⟨p, Nat.lt_succ_of_lt hp, q, hlabel, hcmd⟩

theorem Subscribed.succ {t : TopicKey} {c : SockAddr} (h : Subscribed r n t c) :
    Subscribed r (n + 1) t c := by
  obtain ⟨name, hrecv, hk⟩ := h
  exact ⟨name, hrecv.succ, hk⟩

theorem Arrived.succ {x : Nat} {f : Frame} (h : Arrived r n x f) : Arrived r (n + 1) x f := by
  obtain ⟨p, hp, hlabel⟩ := h
  exact ⟨p, Nat.lt_succ_of_lt hp, hlabel⟩

/-- The slot stays zeroed until the next store. -/
theorem Zeroed.succ {t : TopicKey} {idx : UInt32} (h : Zeroed r n t idx)
    (hstore : ∀ cmd, ¬ StoresTo r n cmd t idx) : Zeroed r (n + 1) t idx := by
  obtain ⟨p, hp, hflush, hlast⟩ := h
  refine ⟨p, Nat.lt_succ_of_lt hp, hflush, ?_⟩
  -- no store between the FLUSH and now, and none in this step
  intro q hpq hqn
  rcases Nat.lt_or_eq_of_le (Nat.lt_succ_iff.mp hqn) with hlt | rfl
  · exact hlast q hpq hlt
  · exact hstore

/-- The store of a FLUSH zeroes the slot. -/
theorem zeroed_of_store {cmd : Cmd} {t : TopicKey} {idx : UInt32} (hcmd : cmd.Flushes t)
    (hstore : StoresTo r n cmd t idx) : Zeroed r (n + 1) t idx := by
  refine ⟨n, Nat.lt_succ_self n, ⟨cmd, hcmd, hstore⟩, ?_⟩
  intro q hlo hhi
  omega

end monotone

/-! ### Slots -/

/-- The slot exists, and holds a client that subscribed or was zeroed. -/
def Filled {cpu : Nat → Nat} (r : Run (system cpu)) (n : Nat) (t : TopicKey) (idx : UInt32) :
    Prop :=
  ∃ v, (r.states n).maps.slot t idx = some v ∧
    (Zeroed r n t idx ∨ ∃ c, Subscribed r n t c ∧ v = pack c)

/-- Nothing happens to the slot. -/
theorem Filled.keep {cpu : Nat → Nat} {r : Run (system cpu)} {n : Nat} {t : TopicKey}
    {idx : UInt32} (h : Filled r n t idx) (hmaps : (r.states (n + 1)).maps = (r.states n).maps)
    (hstore : ∀ cmd, ¬ StoresTo r n cmd t idx) : Filled r (n + 1) t idx := by
  obtain ⟨v, hv, hcase⟩ := h
  refine ⟨v, by rw [hmaps]; exact hv, ?_⟩
  -- a zeroed slot stays zeroed, a client stays received
  rcases hcase with hz | ⟨c, hsub, hc⟩
  · exact Or.inl (hz.succ hstore)
  · exact Or.inr ⟨c, hsub.succ, hc⟩

/-- What an operation makes of a slot: its own store, or nothing. -/
theorem slot_ctl {o : CtlOp} {m : Maps} {t : TopicKey} {idx : UInt32} {v : UInt64}
    (h : m.slot t idx = some v) (hfresh : ∀ t, o = .outer_update t → ¬ m.found t) :
    (∃ v', o = .slot_update t idx v' ∧ (ctl o m).2.slot t idx = some v') ∨
    (∀ v', o ≠ .slot_update t idx v') ∧ (ctl o m).2.slot t idx = some v := by
  cases o with
  | slot_update t' idx' v' =>
    unfold ctl
    dsimp only
    rcases hput : (m.topic_sub_array.lookup t').bind fun a => a.put idx' v' with _ | a'
    · -- the store fails: it was to a topic or an index that does not exist
      refine Or.inr ⟨?_, h⟩
      rintro v'' heq
      cases heq
      obtain ⟨a, hl, hget⟩ := Option.bind_eq_some_iff.mp h
      rw [hl, Option.bind_some] at hput
      have hrange : idx.toNat < MAX_SUBSCRIBERS := by
        by_contra hnot
        rw [Slots.get_eq_none.mpr hnot] at hget
        cases hget
      have hstored := (Slots.put_isSome (a := a) (v := v')).mpr hrange
      rw [hput] at hstored
      cases hstored
    · -- a store to this slot, or to another one
      obtain ⟨a, hl, hp⟩ := Option.bind_eq_some_iff.mp hput
      have hslot := slot_modify hl hp t idx
      by_cases heq : t = t' ∧ idx = idx'
      · obtain ⟨rfl, rfl⟩ := heq
        rw [if_pos ⟨rfl, rfl⟩] at hslot
        exact Or.inl ⟨v', rfl, hslot⟩
      · rw [if_neg heq] at hslot
        refine Or.inr ⟨?_, hslot.trans h⟩
        rintro v'' ho
        cases ho
        exact heq ⟨rfl, rfl⟩
  | outer_update t' =>
    refine Or.inr ⟨nofun, ?_⟩
    unfold ctl
    dsimp only
    split
    · exact h
    · next ts hu =>
      -- a new topic is not the one that has the slot
      have hne : t ≠ t' := by
        rintro rfl
        exact hfresh t rfl (slot_isSome_found h)
      exact (slot_outer_update hu hne idx).trans h
  | cnt_update t' n =>
    refine Or.inr ⟨nofun, ?_⟩
    unfold ctl
    dsimp only
    split
    · exact h
    · exact h
  | outer_lookup => exact Or.inr ⟨nofun, h⟩
  | inner_fd => exact Or.inr ⟨nofun, h⟩
  | inner_create => exact Or.inr ⟨nofun, h⟩
  | cnt_lookup => exact Or.inr ⟨nofun, h⟩

/-- What an operation makes of a count. -/
theorem cnt_ctl (o : CtlOp) (m : Maps) (t : TopicKey) :
    (ctl o m).2.cnt t = m.cnt t ∨ ∃ n, o = .cnt_update t n ∧ (ctl o m).2.cnt t = n := by
  cases o with
  | cnt_update t' n =>
    unfold ctl
    dsimp only
    split
    · exact Or.inl rfl
    · next cnt hu =>
      have hcnt := cnt_update hu t
      by_cases heq : t = t'
      · rw [if_pos heq] at hcnt
        exact Or.inr ⟨n, by rw [heq], hcnt⟩
      · rw [if_neg heq] at hcnt
        exact Or.inl hcnt
  | slot_update t' idx v =>
    unfold ctl
    dsimp only
    split
    · exact Or.inl rfl
    · exact Or.inl rfl
  | outer_update t' =>
    unfold ctl
    dsimp only
    split
    · exact Or.inl rfl
    · exact Or.inl rfl
  | outer_lookup => exact Or.inl rfl
  | inner_fd => exact Or.inl rfl
  | inner_create => exact Or.inl rfl
  | cnt_lookup => exact Or.inl rfl

section control
variable {cpu : Nat → Nat} {r : Run (system cpu)} {n : Nat}

/-- The command that the control process works on was received. -/
def Working (r : Run (system cpu)) (n : Nat) : Prop :=
  ∀ cmd p, (r.states n).server.busy = some (cmd, p) → Received r n cmd

theorem received_of_serving (h : Working r n) {cmd : Cmd} {p : Prog CtlSig Int}
    (hserving : (r.states n).serving (r.labels n) = some (cmd, p)) : Received r (n + 1) cmd := by
  rcases hl : r.labels n with q | _ | ⟨i, e⟩
  · rw [hl] at hserving
    unfold World.serving at hserving
    dsimp only at hserving
    split at hserving
    · cases hserving
      exact ⟨n, Nat.lt_succ_self n, q, hl, rfl⟩
    · cases hserving
  · rw [hl] at hserving
    exact (h cmd p hserving).succ
  · rw [hl] at hserving
    cases hserving

theorem Working.advance (h : Working r n) {cmd : Cmd} {p : Prog CtlSig Int}
    (hserving : (r.states n).serving (r.labels n) = some (cmd, p))
    (hserver : (r.states (n + 1)).server = (r.states n).server.advance ctl cmd p) :
    Working r (n + 1) := by
  intro cmd' p' hb
  rw [hserver] at hb
  rw [Server.busy_advance hb]
  exact received_of_serving h hserving

/-- An operation of the control process keeps a slot filled. -/
theorem Filled.advance {t : TopicKey} {idx : UInt32} (h : Filled r n t idx) (hwork : Working r n)
    {cmd : Cmd} {d : Directory MAX_TOPIC_ID} {o : CtlOp} {next : CtlOp.Res o → Prog CtlSig Int}
    (hserving : (r.states n).serving (r.labels n) = some (cmd, .op o next))
    (hmaps : (r.states (n + 1)).maps = (ctl o (r.states n).maps).2)
    (hmid : Mid cmd d o (r.states n).maps) (hfills : Fills cmd o) : Filled r (n + 1) t idx := by
  obtain ⟨v, hv, hcase⟩ := h
  have hrecv := received_of_serving hwork hserving
  rcases slot_ctl hv hmid.fresh with ⟨v', rfl, hv'⟩ | ⟨hne, hv'⟩
  · -- a store to this slot, by a FLUSH or by a SUBSCRIBE
    refine ⟨v', by rw [hmaps]; exact hv', ?_⟩
    rcases hfills t idx v' rfl with hflush | ⟨name, c, rfl, hk, rfl⟩
    · exact Or.inl (zeroed_of_store hflush ⟨v', next, hserving⟩)
    · exact Or.inr ⟨c, ⟨name, hrecv, hk⟩, rfl⟩
  · refine ⟨v, by rw [hmaps]; exact hv', ?_⟩
    rcases hcase with hz | ⟨c, hsub, rfl⟩
    · refine Or.inl (hz.succ ?_)
      rintro cmd' ⟨v', next', hs⟩
      rw [hserving] at hs
      cases hs
      exact hne v' rfl
    · exact Or.inr ⟨c, hsub.succ, rfl⟩

/-- All slots below the count are filled. -/
def Counted (r : Run (system cpu)) (n : Nat) : Prop :=
  ∀ t idx, idx.toNat < ((r.states n).maps.cnt t).toNat → Filled r n t idx

/-- A count is raised only behind a slot that has just been stored. -/
theorem Counted.advance (h : Counted r n) (hwork : Working r n) {cmd : Cmd}
    {d : Directory MAX_TOPIC_ID} {o : CtlOp} {next : CtlOp.Res o → Prog CtlSig Int}
    (hserving : (r.states n).serving (r.labels n) = some (cmd, .op o next))
    (hmaps : (r.states (n + 1)).maps = (ctl o (r.states n).maps).2)
    (hmid : Mid cmd d o (r.states n).maps) (hfills : Fills cmd o) : Counted r (n + 1) := by
  intro t idx hidx
  rw [hmaps] at hidx
  rcases cnt_ctl o (r.states n).maps t with hsame | ⟨m, rfl, hcnt⟩
  · rw [hsame] at hidx
    exact (h t idx hidx).advance hwork hserving hmaps hmid hfills
  · rw [hcnt] at hidx
    have hne : m ≠ 0 := by
      rintro rfl
      exact absurd hidx (Nat.not_lt_zero _)
    obtain ⟨name, c, rfl, hk, hlen, hslot⟩ := hmid.count t m rfl hne
    -- the slots below the old count were filled before
    rcases Nat.lt_or_ge idx.toNat (d.subs t).length with hlt | hge
    · rw [← hmid.cnt_eq] at hlt
      exact (h t idx hlt).advance hwork hserving hmaps hmid hfills
    · -- the slot behind the last one
      have hidx' : idx = m - 1 := by
        apply UInt32.toNat_inj.mp
        have hle : (1 : UInt32) ≤ m := by
          rw [UInt32.le_iff_toNat_le, UInt32.toNat_one]
          omega
        rw [UInt32.toNat_sub_of_le _ _ hle, UInt32.toNat_one]
        omega
      rw [← hidx'] at hslot
      rcases slot_ctl hslot hmid.fresh with ⟨v', ho, -⟩ | ⟨-, hv⟩
      · cases ho
      · exact ⟨pack c, by rw [hmaps]; exact hv,
          Or.inr ⟨c, ⟨name, received_of_serving hwork hserving, hk⟩, rfl⟩⟩

/-- **The control process**: every step keeps the slots below the counts, and
    those that were below them, filled. -/
theorem control_step (hsound : ∃ d, Sound (r.states n) d) (hwork : Working r n)
    {cmd : Cmd} {p : Prog CtlSig Int}
    (hserving : (r.states n).serving (r.labels n) = some (cmd, p))
    (hserver : (r.states (n + 1)).server = (r.states n).server.advance ctl cmd p) :
    (∀ t idx, Filled r n t idx → Filled r (n + 1) t idx) ∧
      (Counted r n → Counted r (n + 1)) := by
  obtain ⟨d, hd⟩ := hsound
  obtain ⟨hout, hfills⟩ := hd.serving hserving
  cases p with
  | op o next =>
    have hmaps : (r.states (n + 1)).maps = (ctl o (r.states n).maps).2 := by
      unfold World.maps
      rw [hserver, Server.state_advance_op]
    refine ⟨?_, ?_⟩
    · intro t idx h
      exact h.advance hwork hserving hmaps hout.1 hfills.1
    · intro h
      exact h.advance hwork hserving hmaps hout.1 hfills.1
  | ret a =>
    -- no operation is left: the command is only logged
    have hmaps : (r.states (n + 1)).maps = (r.states n).maps := by
      unfold World.maps
      rw [hserver, Server.advance_ret]
    have hkeep : ∀ t idx, Filled r n t idx → Filled r (n + 1) t idx := by
      intro t idx h
      refine Filled.keep h hmaps ?_
      rintro cmd' ⟨v, next, hs⟩
      rw [hserving] at hs
      cases hs
    refine ⟨hkeep, ?_⟩
    intro h t idx hidx
    rw [hmaps] at hidx
    exact hkeep t idx (h t idx hidx)

end control

/-! ### Frames -/

/-- Where a copy for slot `idx` can be, when `ok` are the clients it may go
    to. -/
inductive CopyOk (ok : SockAddr → Prop) (f : Frame) (t : TopicKey) (idx : UInt32) :
    CopyState → Prop where
  | waiting : CopyOk ok f t idx .waiting
  | start : CopyOk ok f t idx (.running (.op (.outer_lookup t) (xdp_array f t idx)))
  | lookup : CopyOk ok f t idx (.running (.op (.slot_lookup t idx) (xdp_addressed f)))
  | dropped : CopyOk ok f t idx (.running (.ret (XDP_DROP, f)))
  | sent {g : Frame} : ok (dst g) → CopyOk ok f t idx (.running (.ret (XDP_TX, g)))

/-- Where a frame can be, when it is one of `arrived`, `filled` are the slots
    that are filled, and `ok` are the clients of each topic. -/
inductive FrameOk (arrived : Frame → Prop) (filled : TopicKey → UInt32 → Prop)
    (ok : TopicKey → SockAddr → Prop) : FrameState → Prop where
  | idle : FrameOk arrived filled ok .idle
  | done : FrameOk arrived filled ok .done
  | passed (f : Frame) : FrameOk arrived filled ok (.original (.ret (XDP_PASS, f)))
  | no_topic (f : Frame) : FrameOk arrived filled ok
    (.original (.op .pub_count fun _ => .ret (XDP_PASS, f)))
  | start {f : Frame} {t : TopicKey} : arrived f → Publishes f t → FrameOk arrived filled ok
    (.original (.op .pub_count fun _ => .op (.cnt_lookup t) (xdp_counted f)))
  | count {f : Frame} {t : TopicKey} : arrived f → Publishes f t → FrameOk arrived filled ok
    (.original (.op (.cnt_lookup t) (xdp_counted f)))
  /-- The verdict is for slots that are filled. -/
  | verdict {f : Frame} {t : TopicKey} {n : UInt32} : arrived f → Publishes f t →
    (∀ idx, idx.toNat < n.toNat → filled t idx) → FrameOk arrived filled ok
    (.original (.ret (XDP_CLONE_TX n, f)))
  | cloning {f : Frame} {t : TopicKey} {n : Nat} {copies : Nat → CopyState} : arrived f →
    Publishes f t → n < 4294967296 → (∀ idx, idx.toNat < n → filled t idx) →
    (∀ k, copies k = .waiting ∨ 1 ≤ k ∧ k ≤ n ∧
      CopyOk (ok t) f t (UInt32.ofNat (k - 1)) (copies k)) →
    FrameOk arrived filled ok (.cloning f n copies)

theorem CopyOk.mono {ok ok' : SockAddr → Prop} {f : Frame} {t : TopicKey} {idx : UInt32}
    {cs : CopyState} (h : CopyOk ok f t idx cs) (hok : ∀ c, ok c → ok' c) :
    CopyOk ok' f t idx cs := by
  cases h with
  | waiting => exact .waiting
  | start => exact .start
  | lookup => exact .lookup
  | dropped => exact .dropped
  | sent hc => exact .sent (hok _ hc)

theorem FrameOk.mono {arrived arrived' : Frame → Prop} {filled filled' : TopicKey → UInt32 → Prop}
    {ok ok' : TopicKey → SockAddr → Prop} {fs : FrameState} (h : FrameOk arrived filled ok fs)
    (harr : ∀ f, arrived f → arrived' f) (hfilled : ∀ t idx, filled t idx → filled' t idx)
    (hok : ∀ t c, ok t c → ok' t c) : FrameOk arrived' filled' ok' fs := by
  cases h with
  | idle => exact .idle
  | done => exact .done
  | passed f => exact .passed f
  | no_topic f => exact .no_topic f
  | start ha hp => exact .start (harr _ ha) hp
  | count ha hp => exact .count (harr _ ha) hp
  | verdict ha hp hslots =>
    exact .verdict (harr _ ha) hp fun idx hidx => hfilled _ _ (hslots idx hidx)
  | cloning ha hp hn hslots hcopies =>
    refine .cloning (harr _ ha) hp hn (fun idx hidx => hfilled _ _ (hslots idx hidx)) ?_
    intro k
    rcases hcopies k with hw | ⟨hlo, hhi, hk⟩
    · exact Or.inl hw
    · exact Or.inr ⟨hlo, hhi, hk.mono (hok _)⟩

/-- The copies a verdict asks for are no more than the count. -/
theorem copies_le (n : UInt32) : (XDP_CLONE_TX n >>> 5).toNat ≤ n.toNat := by
  unfold XDP_CLONE_TX CLONE_TX
  rw [UInt32.toNat_shiftRight, UInt32.toNat_or, UInt32.toNat_shiftLeft]
  show (n.toNat <<< 5 % 4294967296 ||| 6) >>> 5 ≤ n.toNat
  rw [Nat.shiftRight_or_distrib, Nat.shiftLeft_eq, Nat.shiftRight_eq_div_pow]
  show n.toNat * 32 % 4294967296 / 32 ||| 0 ≤ n.toNat
  rw [Nat.or_zero]
  omega

/-- The frame `xdp_broker` starts on. -/
theorem frameOk_start {arrived : Frame → Prop} {filled : TopicKey → UInt32 → Prop}
    {ok : TopicKey → SockAddr → Prop} {f : Frame} (h : arrived f) :
    FrameOk arrived filled ok (.original (xdp_broker [] f)) := by
  show FrameOk arrived filled ok (.original (xdp_original f))
  by_cases hpub : ∃ t, Publishes f t
  · obtain ⟨t, ht⟩ := hpub
    rw [xdp_original_eq ht]
    exact .start h ht
  · rcases xdp_original_other (fun t ht => hpub ⟨t, ht⟩) with heq | heq
    · rw [heq]
      exact .passed f
    · rw [heq]
      exact .no_topic f

section next
variable {arrived : Frame → Prop} {filled : TopicKey → UInt32 → Prop}
  {ok : TopicKey → SockAddr → Prop} {cpu : Nat} {s : KernState}

/-- A lookup for the original frame. -/
theorem FrameOk.kern {o : KernOp} {next : KernOp.Res o → Prog KernSig (UInt32 × Frame)}
    (h : FrameOk arrived filled ok (.original (.op o next)))
    (hcounted : ∀ t idx, idx.toNat < (s.maps.cnt t).toNat → filled t idx) :
    FrameOk arrived filled ok (.original (next (Clone.kern cpu o s).1)) := by
  cases h with
  | no_topic f => exact .passed f
  | start ha hp => exact .count ha hp
  | @count f t ha hp =>
    show FrameOk arrived filled ok (.original (xdp_counted f (s.maps.topic_sub_cnt.lookup t)))
    rcases hl : s.maps.topic_sub_cnt.lookup t with _ | n
    · exact .passed f
    · unfold xdp_counted
      dsimp only
      split
      · exact .passed f
      · -- the count is read here: the slots below it are filled
        refine .verdict ha hp ?_
        intro idx hidx
        apply hcounted t idx
        unfold Maps.cnt
        rw [hl]
        exact hidx

/-- The driver acts on the verdict. -/
theorem FrameOk.act {verdict : UInt32} {f : Frame}
    (h : FrameOk arrived filled ok (.original (.ret (verdict, f)))) :
    FrameOk arrived filled ok (if verdict &&& 31 = CLONE_TX
      then .cloning f (verdict >>> 5).toNat fun _ => .waiting else .done) := by
  cases h with
  | passed f =>
    rw [if_neg (by decide)]
    exact .done
  | @verdict f t n ha hp hslots =>
    have hle := copies_le n
    split
    · -- no more copies than the count, so each has a filled slot
      refine .cloning ha hp (UInt32.toNat_lt _) ?_ (fun k => Or.inl rfl)
      intro idx hidx
      exact hslots idx (Nat.lt_of_lt_of_le hidx hle)
    · exact .done

/-- A lookup for a copy: the slot that is looked up holds a client. -/
theorem CopyOk.kern {ok : SockAddr → Prop} {f : Frame} {t : TopicKey} {idx : UInt32}
    {o : KernOp} {next : KernOp.Res o → Prog KernSig (UInt32 × Frame)}
    (h : CopyOk ok f t idx (.running (.op o next))) (hf : Publishes f t)
    (hlook : o = .slot_lookup t idx → ∃ c, ok c ∧ s.maps.slot t idx = some (pack c)) :
    CopyOk ok f t idx (.running (next (Clone.kern cpu o s).1)) := by
  cases h with
  | start =>
    show CopyOk ok f t idx (.running (xdp_array f t idx (s.maps.topic_sub_array.lookup t).isSome))
    unfold xdp_array
    split
    · exact .lookup
    · exact .dropped
  | lookup =>
    -- the slot holds a client of the topic, and the copy goes there
    obtain ⟨c, hc, hslot⟩ := hlook rfl
    show CopyOk ok f t idx (.running (xdp_addressed f (s.maps.slot t idx)))
    rw [hslot]
    refine .sent ?_
    rw [dst_xdp_rewrite 1024 _ hf.length_le, unpack_pack]
    exact hc

/-- **A step of a frame.** -/
theorem FrameOk.next {fs fs' : FrameState} {e : Event} {pub : Nat → UInt32}
    (h : FrameOk arrived filled ok fs) (harrive : ∀ f, e = .arrive f → arrived f)
    (hcounted : ∀ t idx, idx.toNat < (s.maps.cnt t).toNat → filled t idx)
    (hlook : ∀ k t idx, e = .copy k → fs.copy_pending k = some (.slot_lookup t idx) →
      filled t idx → ∃ c, ok t c ∧ s.maps.slot t idx = some (pack c))
    (hnext : fs.next cpu s e = some (fs', pub)) : FrameOk arrived filled ok fs' := by
  rcases FrameState.next_cases hnext with ⟨f, rfl, rfl, rfl⟩ | ⟨o, next, rfl, rfl, rfl⟩ |
    ⟨v, f, rfl, rfl, rfl⟩ | ⟨f, n, copies, k, rfl, rfl, hwait, hlo, hhi, rfl⟩ |
    ⟨f, n, copies, k, o, next, rfl, rfl, hrun, rfl⟩
  · exact frameOk_start (harrive f rfl)
  · exact h.kern hcounted
  · exact h.act
  · cases h with
    | @cloning f t n copies ha hp hn hslots hcopies =>
      refine .cloning ha hp hn hslots ?_
      intro k'
      by_cases hk : k' = k
      · subst hk
        right
        have hword : rd32 (le32 k') 0 = k' := by
          rw [rd32_le32]
          exact Nat.mod_eq_of_lt (by omega)
        rw [Function.update_self]
        refine ⟨hlo, hhi, ?_⟩
        show CopyOk (ok t) f t _ (.running (xdp_clone (rd32 (le32 k') 0) f))
        rw [hword, xdp_clone_eq hp (by omega)]
        exact .start
      · rw [Function.update_of_ne hk]
        exact hcopies k'
  · cases h with
    | @cloning f t n copies ha hp hn hslots hcopies =>
      refine .cloning ha hp hn hslots ?_
      intro k'
      by_cases hk : k' = k
      · subst hk
        right
        rw [Function.update_self]
        rcases hcopies k' with hw | ⟨hlo, hhi, hck⟩
        · rw [hw] at hrun
          cases hrun
        rw [hrun] at hck
        refine ⟨hlo, hhi, hck.kern hp ?_⟩
        intro ho
        apply hlook k' t _ rfl
        · unfold FrameState.copy_pending
          dsimp only
          rw [hrun]
          exact congrArg some ho
        · apply hslots
          rw [UInt32.toNat_ofNat', Nat.mod_eq_of_lt (by omega)]
          omega
      · rw [Function.update_of_ne hk]
        exact hcopies k'

end next

/-- A frame that goes out goes to one of the clients of its topic. -/
theorem FrameOk.sent_ok {arrived : Frame → Prop} {filled : TopicKey → UInt32 → Prop}
    {ok : TopicKey → SockAddr → Prop} {fs : FrameState} (h : FrameOk arrived filled ok fs)
    {k : Nat} {g : Frame} (hg : fs.sent k = some g) :
    ∃ f t, arrived f ∧ Publishes f t ∧ ok t (dst g) := by
  cases h with
  | idle => cases hg
  | done => cases hg
  | passed => cases hg
  | no_topic => cases hg
  | start => cases hg
  | count => cases hg
  | verdict =>
    unfold FrameState.sent transmitted at hg
    dsimp only at hg
    rw [if_neg (clone_tx_ne_tx _)] at hg
    cases hg
  | @cloning f t n copies ha hp hn hslots hcopies =>
    refine ⟨f, t, ha, hp, ?_⟩
    unfold FrameState.sent at hg
    dsimp only at hg
    rcases hcopies k with hw | ⟨-, -, hk⟩
    · rw [hw] at hg
      cases hg
    · generalize copies k = cs at hg hk
      cases hk with
      | waiting => cases hg
      | start => cases hg
      | lookup => cases hg
      | dropped => cases hg
      | sent hc =>
        cases hg
        exact hc

/-! ### The whole run -/

/-- Step `n` looks slot `idx` of `t` up for a copy. -/
def LooksUp (w : World) (l : Label) (t : TopicKey) (idx : UInt32) : Prop :=
  ∃ x k, l = .frame x (.copy k) ∧ (w.frames x).copy_pending k = some (.slot_lookup t idx)

/-- What holds at every position of a run. -/
structure Ok {cpu : Nat → Nat} (r : Run (system cpu)) (n : Nat) : Prop where
  working : Working r n
  counted : Counted r n
  frames : ∀ x, FrameOk (Arrived r n x) (Filled r n) (Subscribed r n) ((r.states n).frames x)

theorem Ok.step {cpu : Nat → Nat} {r : Run (system cpu)} {n : Nat} (hn : n < r.len) (h : Ok r n)
    (hr : ∀ t idx, LooksUp (r.states n) (r.labels n) t idx → ¬ Zeroed r n t idx) :
    Ok r (n + 1) := by
  rcases next_cases (r.step n hn) with
    ⟨cmd, p, hserving, hw⟩ | ⟨i, e, fs, pub, hl, hnext, hw⟩
  · obtain ⟨hfilled, hcounted⟩ := control_step (sound_run r n hn.le) h.working hserving
      (by rw [hw])
    refine ⟨h.working.advance hserving (by rw [hw]), hcounted h.counted, ?_⟩
    intro x
    rw [hw]
    exact (h.frames x).mono (fun _ => Arrived.succ) hfilled (fun _ _ => Subscribed.succ)
  · -- the maps and the control process stay as they are
    have hmaps : (r.states (n + 1)).maps = (r.states n).maps := by rw [hw]
    have hnone : ∀ cmd p, (r.states n).serving (r.labels n) ≠ some (cmd, p) := by
      rw [hl]
      exact nofun
    have hfilled : ∀ t idx, Filled r n t idx → Filled r (n + 1) t idx := by
      intro t idx hf
      refine hf.keep hmaps ?_
      rintro cmd ⟨v, next, hs⟩
      exact hnone _ _ hs
    refine ⟨?_, ?_, ?_⟩
    · intro cmd p hb
      rw [hw] at hb
      exact (h.working cmd p hb).succ
    · intro t idx hidx
      rw [hmaps] at hidx
      exact hfilled t idx (h.counted t idx hidx)
    · intro x
      rw [hw]
      by_cases hx : x = i
      · subst hx
        simp only [Function.update_self]
        have hmoved : FrameOk (Arrived r (n + 1) x) (Filled r n) (Subscribed r n) fs := by
          have hold := (h.frames x).mono (fun _ => Arrived.succ) (fun _ _ hf => hf)
            (fun _ _ hs => hs)
          refine hold.next (s := ⟨(r.states n).maps, (r.states n).pub_counter_2⟩)
            ?_ h.counted ?_ hnext
          · rintro f rfl
            exact ⟨n, Nat.lt_succ_self n, hl⟩
          · -- the slot that is looked up is not one that was zeroed
            rintro k t idx rfl hpend ⟨v, hv, hcase⟩
            rcases hcase with hz | ⟨c, hsub, rfl⟩
            · exact absurd hz (hr t idx ⟨x, k, hl, hpend⟩)
            · exact ⟨c, hsub, hv⟩
        exact hmoved.mono (fun _ ha => ha) hfilled (fun _ _ => Subscribed.succ)
      · simp only [Function.update_of_ne hx]
        exact (h.frames x).mono (fun _ => Arrived.succ) hfilled (fun _ _ => Subscribed.succ)

theorem ok_zero {cpu : Nat → Nat} (r : Run (system cpu)) : Ok r 0 := by
  have hw : r.states 0 = .initial := r.init
  refine ⟨?_, ?_, ?_⟩
  · intro cmd p hb
    rw [hw] at hb
    cases hb
  · intro t idx hidx
    rw [hw] at hidx
    exact absurd hidx (Nat.not_lt_zero _)
  · intro x
    rw [hw]
    exact .idle

/-- **Only subscribers get a frame**, in every run in which no copy looks up a
    slot that a FLUSH has zeroed last: each frame that goes out at any moment
    comes from a publication that arrived, and goes to a client that issued a
    SUBSCRIBE of its topic before. -/
theorem sent_to_subscriber {cpu : Nat → Nat} (r : Run (system cpu))
    (hr : ∀ n, n < r.len → ∀ t idx, LooksUp (r.states n) (r.labels n) t idx →
      ¬ Zeroed r n t idx)
    {n x k : Nat} {g : Frame} (hn : n ≤ r.len) (hg : ((r.states n).frames x).sent k = some g) :
    ∃ f t, Arrived r n x f ∧ Publishes f t ∧ Subscribed r n t (dst g) := by
  have hok : Ok r n := by
    refine r.invariant (P := fun n _ => Ok r n) (fun _ _ => ok_zero r) ?_ n hn
    intro n hlt h _
    exact h.step hlt (hr n hlt)
  exact (hok.frames x).sent_ok hg

/-! ### The race -/

/-- A registered topic with one client, and a frame for it up to the verdict. -/
def one_copy : List Label :=
  [.recv (datagram REGISTER [97] ⟨0x0700000a, 0x8813⟩), .ctl, .ctl,
   .recv (datagram SUBSCRIBE [97] ⟨0x0800000a, 0x8813⟩), .ctl, .ctl, .ctl, .ctl,
   .frame 0 (.arrive (sample_frame [97] [104, 105])), .frame 0 .kern, .frame 0 .kern,
   .frame 0 .verdict]

/-- A FLUSH up to its store to the slot. -/
def half_flushed : List Label :=
  [.recv (datagram FLUSH [97] ⟨0x0700000a, 0x8813⟩), .ctl, .ctl, .ctl]

/-- The copy. -/
def copy_one : List Label := [.frame 0 (.start 1), .frame 0 (.copy 1), .frame 0 (.copy 1)]

/-- The FLUSH comes between the verdict and the copy. -/
def flushed_run : Run (system fun _ => 0) :=
  Run.ofLabels _ _ (one_copy ++ half_flushed ++ copy_one) (by decide +kernel)

/-- The same without the FLUSH. -/
def copied_run : Run (system fun _ => 0) :=
  Run.ofLabels _ _ (one_copy ++ copy_one) (by decide +kernel)

/-- The copy of `one_copy` after a store to its slot. -/
def addressed_to (packed : UInt64) : Frame :=
  xdp_rewrite 1024 packed (sample_frame [97] [104, 105])

/-- In the race the copy goes to 0.0.0.0:0, from where nobody subscribed. -/
theorem flushed_copy_sent :
    ¬ ∀ (r : Run (system fun _ => 0)) (n x k : Nat) (g : Frame), n ≤ r.len →
      ((r.states n).frames x).sent k = some g →
        ∃ f t, Arrived r n x f ∧ Publishes f t ∧ Subscribed r n t (dst g) := by
  intro h
  obtain ⟨f, t, -, -, name, ⟨p, hp, q, hlabel, hcmd⟩, -⟩ :=
    h flushed_run 19 0 1 (addressed_to 0) (by decide) (by decide +kernel)
  have hdst : dst (addressed_to 0) = ⟨0, 0⟩ := by decide +kernel
  -- every datagram of the run comes from another address
  have hclient : ∀ p, p < 19 → ∀ q, flushed_run.labels p = .recv q → q.client ≠ ⟨0, 0⟩ := by
    intro p hp q hq
    have hall : ∀ p, p < 19 → (match flushed_run.labels p with
        | .recv q => decide (q.client ≠ ⟨0, 0⟩) | _ => true) = true := by
      decide +kernel
    have := hall p hp
    rw [hq] at this
    exact of_decide_eq_true this
  refine hclient p hp q hlabel ?_
  rw [← hdst]
  exact client_of_subscribe hcmd

/-- Whether the control process is serving a FLUSH. -/
def serves_flush : Option (Cmd × Prog CtlSig Int) → Bool
  | some (.flush _, _) => true
  | _ => false

theorem sent_to_subscriber_sample :
    ((copied_run.states 15).frames 0).sent 1 = some (addressed_to (pack ⟨0x0800000a, 0x8813⟩)) ∧
    ∃ f t, Arrived copied_run 15 0 f ∧ Publishes f t ∧
      Subscribed copied_run 15 t (dst (addressed_to (pack ⟨0x0800000a, 0x8813⟩))) := by
  have hsent : ((copied_run.states 15).frames 0).sent 1 =
      some (addressed_to (pack ⟨0x0800000a, 0x8813⟩)) := by decide +kernel
  refine ⟨hsent, sent_to_subscriber copied_run ?_ (by decide) hsent⟩
  rintro n hn t idx - ⟨p, hp, ⟨cmd, ⟨name, rfl, -⟩, v, next, hs⟩, -⟩
  -- the run has no FLUSH
  have hnone : ∀ p, p < 15 →
      serves_flush ((copied_run.states p).serving (copied_run.labels p)) = false := by
    decide +kernel
  have := hnone p (Nat.lt_trans hp hn)
  rw [hs] at this
  cases this

end BpfBroker.Clone
