import BpfBroker.Hash.DropRace

/-! # No Lost and No Duplicated Delivery

    A frame reads the counter, the cache and the inner map at different
    moments, while the control process is in the middle of other commands.
    A client that was accepted before the frame's first lookup, and whose
    topic is not flushed until the frame is finished, still gets the frame
    exactly once: by `XDP_TX`, or as one clone. -/

namespace BpfBroker.Hash

open Atomic LTS

/-! ### The client stays accepted -/

/-- The topic is not being flushed. -/
def Quiet (w : World) (t : TopicKey) : Prop :=
  ∀ cmd p, w.server.busy = some (cmd, p) → ¬ cmd.Flushes t

section quiet
variable {host : Host} {w w' : World} {l : Label} {t : TopicKey}

/-- A step of another command keeps the topic quiet and its clients
    accepted. -/
theorem quiet_step (hsound : ∃ d, Sound host.ord w d) (hq : Quiet w t)
    (hflush : ∀ cmd p, w.serving l = some (cmd, p) → ¬ cmd.Flushes t)
    (hstep : w.next host l = some w') :
    Quiet w' t ∧ accepted w.served t <+: accepted w'.served t := by
  obtain ⟨d, hd⟩ := hsound
  rcases next_cases hstep with ⟨cmd, p, hserving, rfl⟩ | ⟨i, e, fs, stats, rfl, -, rfl⟩
  · have hne := hflush cmd p hserving
    obtain ⟨hout, -⟩ := hd.serving hserving
    rcases advance_cases cmd hout with ⟨ret, hbusy, hserved, -⟩ | ⟨o, next, hbusy, hserved, -⟩
    · refine ⟨?_, ?_⟩
      · intro cmd' p' hb
        rw [hbusy] at hb
        cases hb
      · rw [hserved, accepted_snoc]
        exact Served.prefix_apply (e := ⟨cmd, ret⟩) hne _
    · refine ⟨?_, ?_⟩
      · intro cmd' p' hb
        rw [hbusy] at hb
        cases hb
        exact hne
      · rw [hserved]
  · exact ⟨hq, List.prefix_rfl⟩

/-- When a SUBSCRIBE has just been carried out, the control process is
    between commands. -/
theorem quiet_of_served (hsound : ∃ d, Sound host.ord w d) (hstep : w.next host l = some w')
    {e : Served} (he : w'.served = w.served ++ [e]) : Quiet w' t := by
  obtain ⟨d, hd⟩ := hsound
  have hgrow : w'.served ≠ w.served := by
    intro heq
    have := congrArg List.length (he.symm.trans heq)
    simp at this
  rcases next_cases hstep with ⟨cmd, p, hserving, rfl⟩ | ⟨i, e, fs, stats, rfl, -, rfl⟩
  · obtain ⟨hout, -⟩ := hd.serving hserving
    rcases advance_cases cmd hout with ⟨ret, hbusy, -⟩ | ⟨o, next, -, hserved, -⟩
    · intro cmd' p' hb
      rw [hbusy] at hb
      cases hb
    · exact absurd hserved hgrow
  · exact absurd rfl hgrow

end quiet

/-! ### From arrival to the first lookup -/

/-- A frame that has arrived does not become idle again, and what is left of
    `xdp_broker` is one of its stages on this frame. -/
structure Arrived (f : Frame) (fs : FrameState) : Prop where
  ne_idle : fs ≠ .idle
  stage : ∀ p, fs = .xdp p → XdpStage f p

theorem ne_idle_of_next {cpu : Nat} {queue_mapping : UInt32} {s : KernState} {fs fs' : FrameState}
    {e : Event} {stats : Stats} (h : fs.next cpu queue_mapping s e = some (fs', stats)) :
    fs' ≠ .idle := by
  rintro rfl
  cases FrameState.step_of_next h

theorem Arrived.next {f : Frame} {fs fs' : FrameState} (h : Arrived f fs) {cpu : Nat}
    {queue_mapping : UInt32} {s : KernState} {e : Event} {stats : Stats}
    (hnext : fs.next cpu queue_mapping s e = some (fs', stats)) : Arrived f fs' := by
  refine ⟨ne_idle_of_next hnext, ?_⟩
  rintro p rfl
  rcases xdp_of_next hnext with ⟨f', hidle, -, -⟩ | ⟨o, next, hfs, -, rfl⟩
  · exact absurd hidle h.ne_idle
  · exact (h.stage _ hfs).next _

theorem Arrived.advance {f : Frame} {host : Host} {w : World} {i : Nat}
    (h : Arrived f (w.frames i)) (cmd : Cmd) (q : Prog CtlSig Int) :
    Arrived f ((w.advance host cmd q).frames i) := by
  refine ⟨?_, fun p hp => h.stage p (advance_xdp hp)⟩
  intro hidle
  unfold World.advance at hidle
  dsimp only at hidle
  split at hidle
  · exact h.ne_idle hidle
  · unfold FrameState.onCtl at hidle
    split at hidle
    · split at hidle <;> cases hidle
    · exact h.ne_idle hidle

theorem Arrived.step {f : Frame} {host : Host} {w w' : World} {l : Label} {i : Nat}
    (h : Arrived f (w.frames i)) (hstep : w.next host l = some w') : Arrived f (w'.frames i) := by
  rcases next_cases hstep with ⟨cmd, p, -, rfl⟩ | ⟨j, e, fs, stats, rfl, hnext, rfl⟩
  · exact h.advance cmd p
  · by_cases hij : i = j
    · subst hij
      simpa using h.next hnext
    · simpa [Function.update_of_ne hij] using h

/-- At its first lookup, the rest of the program is known. -/
theorem XdpStage.eq_of_count {f : Frame} {p : Prog KernSig (XdpAction × Frame)}
    (h : XdpStage f p) {t : TopicKey} (hp : p.pending = some (.cnt_lookup t)) :
    p = .op (.cnt_lookup t) (xdp_counted f t) := by
  cases h with
  | count t' => cases hp; rfl
  | passed => cases hp
  | dropped => cases hp
  | sent => cases hp
  | no_topic => cases hp
  | start => cases hp
  | first => cases hp
  | sending => cases hp

/-! ### From the first lookup to the end -/

/-- Where the frame `f` for topic `t` can be after its first lookup, with `g`
    the frame as it is turned around, while `subs` are the accepted clients:
    on its way to `c`, exactly once. -/
inductive OnWay (f g : Frame) (t : TopicKey) (c : SockAddr) (subs : List SockAddr) :
    FrameState → Prop where
  | passed : OnWay f g t c subs (.xdp (.ret (.pass, f)))
  /-- The counter was 1: `c` is the first client. -/
  | first : subs.head? = some c →
    OnWay f g t c subs (.xdp (.op (.first_lookup t) (xdp_cached f)))
  | sending : OnWay f g t c subs
    (.xdp (.op .clone_count fun _ => .ret (.tx, xdp_rewrite 128 (pack c) f)))
  | sent : OnWay f g t c subs (.xdp (.ret (.tx, xdp_rewrite 128 (pack c) f)))
  | tc_start : OnWay f g t c subs
    (.tc (.op .pub_count fun _ => .op (.outer_lookup t) (tc_found f g t)))
  | tc_lookup : OnWay f g t c subs (.tc (.op (.outer_lookup t) (tc_found f g t)))
  | tc_ready : OnWay f g t c subs (.tc (.ret (.for_each t g)))
  /-- The key of `c` has been there throughout, and there is a clone for `c`
      if and only if it has been visited. -/
  | walking {skb : Frame} {kept seen : List UInt64} {clones : List Frame}
    {saddr daddr source dest ip_check udp_check : Nat} :
    Rewritten f skb saddr daddr source dest ip_check udp_check → pack c ∈ kept →
    (clones.map dst).count c = (if pack c ∈ seen then 1 else 0) →
    OnWay f g t c subs (.walk t skb kept seen clones)
  | done {sent : List Frame} : (sent.map dst).count c = 1 → OnWay f g t c subs (.done sent)

section onway
variable {f g : Frame} {t : TopicKey} {c : SockAddr} {subs subs' : List SockAddr} {fs : FrameState}

/-- More clients do not matter. -/
theorem OnWay.mono (h : OnWay f g t c subs fs) (hpre : subs <+: subs') :
    OnWay f g t c subs' fs := by
  cases h with
  | first hhead =>
    refine .first ?_
    obtain ⟨rest, rfl⟩ := hpre
    cases subs with
    | nil => cases hhead
    | cons a subs => exact hhead
  | passed => exact .passed
  | sending => exact .sending
  | sent => exact .sent
  | tc_start => exact .tc_start
  | tc_lookup => exact .tc_lookup
  | tc_ready => exact .tc_ready
  | walking hrw hkept hcount => exact .walking hrw hkept hcount
  | done hcount => exact .done hcount

/-- An operation of the control process that deletes no key of the topic. -/
theorem OnWay.onCtl (h : OnWay f g t c subs fs) {o : CtlOp}
    (ho : ∀ key, o ≠ .inner_delete t key) : OnWay f g t c subs (fs.onCtl o) := by
  cases h with
  | walking hrw hkept hcount =>
    unfold FrameState.onCtl
    dsimp only
    split
    · next t' key =>
      rw [if_neg (fun heq => ho key (by rw [heq]))]
      exact .walking hrw hkept hcount
    · exact .walking hrw hkept hcount
  | passed => exact .passed
  | first hhead => exact .first hhead
  | sending => exact .sending
  | sent => exact .sent
  | tc_start => exact .tc_start
  | tc_lookup => exact .tc_lookup
  | tc_ready => exact .tc_ready
  | done hcount => exact .done hcount

/-- The walk calls `callback_fn`: the clone is for `c` when the key is that of
    `c`, and for somebody else otherwise. -/
theorem OnWay.visit {skb : Frame} {kept seen : List UInt64} {clones : List Frame}
    {saddr daddr source dest ip_check udp_check : Nat} (hf : refresh_headers f = true)
    (hrw : Rewritten f skb saddr daddr source dest ip_check udp_check) (hkept : pack c ∈ kept)
    (hcount : (clones.map dst).count c = if pack c ∈ seen then 1 else 0) {c' : SockAddr}
    (hnew : ¬ (pack c' ∈ kept ∧ pack c' ∈ seen)) (cpu : Nat) (queue_mapping : UInt32)
    (s : KernState) :
    OnWay f g t c subs (.walk t
      ((callback_fn {} queue_mapping (pack c') skb).run (kern cpu) s).1.1 kept (pack c' :: seen)
      (clones ++ ((callback_fn {} queue_mapping (pack c') skb).run (kern cpu) s).1.2.toList)) := by
  obtain ⟨g', hedit, hg'⟩ := callback_edit_ok hf hrw (pack c')
  have hdst : dst g' = c' := by rw [dst_eq hg'.daddr hg'.dest, unpack_pack]
  rw [callback_fn_run hedit]
  refine .walking hg' hkept ?_
  rw [List.map_append, List.count_append, hcount]
  show _ + List.count c [dst g'] = _
  rw [hdst]
  by_cases hc : c' = c
  · -- the one visit of the key of `c`
    subst hc
    have hseen : pack c' ∉ seen := fun hmem => hnew ⟨hkept, hmem⟩
    simp [hseen]
  · have hkey : pack c ≠ pack c' := fun heq => hc (pack_injective heq).symm
    simp [hkey, hc]

/-- **A step of the frame** keeps it on its way, when `c` is live. -/
theorem OnWay.next (h : OnWay f g t c subs fs) (hf : refresh_headers f = true)
    (hprologue : tc_ingress_prologue {} f =
      .op .pub_count fun _ => .op (.outer_lookup t) (tc_found f g t))
    {saddr daddr source dest ip_check udp_check : Nat}
    (hg : Rewritten f g saddr daddr source dest ip_check udp_check) {s : KernState}
    (hlive : (s.maps.view t).Live subs) (hmem : c ∈ subs) (hlt : subs.length < 4294967296)
    (hpacked : ∀ key ∈ s.maps.subs t, ∃ c', key = pack c') {cpu : Nat} {queue_mapping : UInt32}
    {e : Event} {fs' : FrameState} {stats : Stats}
    (hnext : fs.next cpu queue_mapping s e = some (fs', stats)) : OnWay f g t c subs fs' := by
  have hkey : pack c ∈ s.maps.subs t := hlive.mem_keys c hmem
  have hstep := FrameState.step_of_next hnext
  -- in each stage one thing can happen
  cases h with
  | passed =>
    cases hstep with
    | pass =>
      rw [hprologue]
      exact .tc_start
  | first hhead =>
    cases hstep with
    | xdp =>
      -- the cache still holds the first client
      have hfirst : s.maps.topic_first_sub.lookup t = some (pack c) := by
        have := hlive.first_eq (List.ne_nil_of_mem hmem)
        rw [cached_of_lt hlt, hhead] at this
        exact this
      show OnWay f g t c subs (.xdp (xdp_cached f (s.maps.topic_first_sub.lookup t)))
      rw [hfirst]
      exact .sending
  | sending =>
    cases hstep with
    | xdp => exact .sent
  | sent =>
    cases hstep with
    | tx =>
      refine .done ?_
      show List.count c [dst (xdp_rewrite 128 (pack c) f)] = 1
      rw [dst_xdp_rewrite 128 _ (length_of_refresh hf), unpack_pack, List.count_singleton_self]
  | tc_start =>
    cases hstep with
    | tc => exact .tc_lookup
  | tc_lookup =>
    cases hstep with
    | tc =>
      -- the inner map is there, since `c` is in it
      have hsome : (s.maps.inner t).isSome = true := by
        unfold Maps.subs at hkey
        rcases hi : s.maps.inner t with _ | inner
        · rw [hi] at hkey
          cases hkey
        · rfl
      show OnWay f g t c subs (.tc (tc_found f g t (s.maps.inner t).isSome))
      rw [hsome]
      exact .tc_ready
  | tc_ready =>
    cases hstep with
    | for_each => exact .walking hg hkey (by simp)
  | @walking skb kept seen clones _ _ _ _ _ _ hrw hkept hcount =>
    cases hstep with
    | visit hmap hnew =>
      obtain ⟨c', rfl⟩ := hpacked _ hmap
      exact .visit hf hrw hkept hcount hnew cpu queue_mapping s
    | leave hall =>
      refine .done ?_
      rw [hcount, if_pos (hall hkept)]
  | done => cases hstep

end onway

/-! ### The whole run -/

section run
variable {host : Host} {f g : Frame} {t : TopicKey} {c : SockAddr}

/-- Any step: of the control process, of another frame, or of this one. -/
theorem OnWay.step {w w' : World} {l : Label} {i : Nat}
    (h : OnWay f g t c (accepted w.served t) (w.frames i)) (hf : refresh_headers f = true)
    (hprologue : tc_ingress_prologue {} f =
      .op .pub_count fun _ => .op (.outer_lookup t) (tc_found f g t))
    {saddr daddr source dest ip_check udp_check : Nat}
    (hg : Rewritten f g saddr daddr source dest ip_check udp_check)
    (hsound : ∃ d, Sound host.ord w d) (hq : Quiet w t) (hmem : c ∈ accepted w.served t)
    (hlt : (accepted w.served t).length < 4294967296)
    (hflush : ∀ cmd p, w.serving l = some (cmd, p) → ¬ cmd.Flushes t)
    (hstep : w.next host l = some w') :
    OnWay f g t c (accepted w'.served t) (w'.frames i) := by
  obtain ⟨-, hgrow⟩ := quiet_step hsound hq hflush hstep
  refine OnWay.mono ?_ hgrow
  obtain ⟨d, hd⟩ := hsound
  rcases next_cases hstep with ⟨cmd, p, hserving, rfl⟩ | ⟨j, e, fs, stats, rfl, hnext, rfl⟩
  · -- the control process deletes keys of `t` only in a FLUSH of `t`
    obtain ⟨-, hdel⟩ := hd.serving hserving
    cases p with
    | ret a => exact h
    | op o next =>
      refine h.onCtl ?_
      intro key ho
      exact hflush cmd _ hserving (hdel.1 t key ho)
  · by_cases hij : i = j
    · subst hij
      have hlive := hd.live hq
      have := h.next hf hprologue hg (s := ⟨w.maps, w.stats⟩) hlive hmem hlt (hd.packed t) hnext
      simpa using this
    · simpa [Function.update_of_ne hij] using h

theorem arrived_of_arrive {w w' : World} {i : Nat}
    (hstep : w.next host (.frame i (.arrive f)) = some w') : Arrived f (w'.frames i) := by
  rcases next_cases hstep with ⟨cmd, p, hserving, -⟩ | ⟨j, e, fs, stats, hl, hnext, rfl⟩
  · cases hserving
  · cases hl
    have hfs : fs = .xdp (xdp_broker f) := by
      generalize w.frames i = before at hnext
      cases FrameState.step_of_next hnext with
      | arrive => rfl
    rw [hfs]
    refine ⟨by simp, ?_⟩
    intro p hp
    simp only [Function.update_self, FrameState.xdp.injEq] at hp
    rw [← hp]
    exact xdp_broker_stage f

/-- The first lookup puts the frame on its way. -/
theorem onWay_of_count {w w' : World} {i : Nat} (harr : Arrived f (w.frames i))
    (hpend : (w.frames i).xdp_pending = some (.cnt_lookup t)) (hsound : ∃ d, Sound host.ord w d)
    (hq : Quiet w t) (hmem : c ∈ accepted w.served t)
    (hlt : (accepted w.served t).length < 4294967296)
    (hstep : w.next host (.frame i .kern) = some w') :
    OnWay f g t c (accepted w'.served t) (w'.frames i) := by
  obtain ⟨d, hd⟩ := hsound
  obtain ⟨p, hfs, hp⟩ := FrameState.xdp_of_pending hpend
  rw [(harr.stage p hfs).eq_of_count hp] at hfs
  rcases next_cases hstep with ⟨cmd, q, hserving, -⟩ | ⟨j, e, fs, stats, hl, hnext, rfl⟩
  · cases hserving
  · cases hl
    rw [hfs] at hnext
    cases hnext
    simp only [Function.update_self]
    show OnWay f g t c (accepted w.served t)
      (.xdp (xdp_counted f t (w.maps.topic_sub_cnt.lookup t)))
    unfold xdp_counted
    split
    · next hone =>
      -- a counter of 1: `c` is the only live client
      obtain ⟨c', hsubs, -⟩ := (hd.live hq).eq_of_cnt_one (List.ne_nil_of_mem hmem) hlt hone
      rw [hsubs] at hmem ⊢
      rw [List.mem_singleton.mp hmem]
      exact .first rfl
    · exact .passed

end run

/-- **Delivered exactly once**, whatever the interleaving: step `i` completes an
    accepted SUBSCRIBE of `c`, step `j` is the first lookup of frame `x`, the
    frame is finished at `k`, and no step of a FLUSH of the topic lies between
    `i` and `k`. -/
theorem delivered_once {host : Host} (r : Run (system host)) {token message : List UInt8}
    {f : Frame} (ht : ShortToken token) (hf : PublishFrame f token message) {name : List UInt8}
    {c : SockAddr} (hname : topic_key_of name = some (TopicKey.ofName token)) {x a i j k : Nat}
    (hij : i < j) (haj : a < j) (hjk : j < k) (hk : k ≤ r.len)
    (hsub : (r.states (i + 1)).served = (r.states i).served ++ [⟨.subscribe name c, 0⟩])
    (harrive : r.labels a = .frame x (.arrive f))
    (hlookup : r.labels j = .frame x .kern ∧
      ((r.states j).frames x).xdp_pending = some (.cnt_lookup (TopicKey.ofName token)))
    {sent : List Frame} (hdone : (r.states k).frames x = .done sent)
    (hflush : ∀ n, i < n → n < k → ∀ cmd p,
      (r.states n).serving (r.labels n) = some (cmd, p) → ¬ cmd.Flushes (TopicKey.ofName token))
    (hlt : ∀ n, n ≤ k →
      (accepted (r.states n).served (TopicKey.ofName token)).length < 2 ^ 32) :
    (sent.map dst).count c = 1 := by
  obtain ⟨g, hedit, hg⟩ := tc_edit_ok hf.refresh
  have hprologue := tc_ingress_prologue_eq (hf.publishes ht.toToken) hedit
  rw [ht.pub_key_eq] at hprologue
  -- `c` is accepted and its topic quiet from `i + 1` on
  have hquiet : ∀ n, i + 1 ≤ n → n ≤ k → Quiet (r.states n) (TopicKey.ofName token) ∧
      c ∈ accepted (r.states n).served (TopicKey.ofName token) := by
    refine r.invariant_from (P := fun _ w => Quiet w (TopicKey.ofName token) ∧
      c ∈ accepted w.served (TopicKey.ofName token)) hk ⟨?_, ?_⟩ ?_
    · exact quiet_of_served (sound_run r i (by omega)) (r.step i (by omega)) hsub
    · rw [hsub, accepted_snoc]
      simp [Served.apply, hname]
    · intro n hlo hhi hn hstep
      obtain ⟨hq, hgrow⟩ := quiet_step (sound_run r n (by omega)) hn.1
        (hflush n (by omega) hhi) hstep
      exact ⟨hq, hgrow.subset hn.2⟩
  -- the frame is `f` at its first lookup
  have harrived : Arrived f ((r.states j).frames x) := by
    refine r.invariant_from (P := fun _ w => Arrived f (w.frames x)) (a := a + 1) (b := j)
      (by omega) ?_ ?_ j haj (Nat.le_refl _)
    · have hstep := r.step a (by omega)
      rw [harrive] at hstep
      exact arrived_of_arrive hstep
    · intro n _ _ h hstep
      exact h.step hstep
  -- and on its way to `c` from then on
  have honway : OnWay f g (TopicKey.ofName token) c
      (accepted (r.states k).served (TopicKey.ofName token)) ((r.states k).frames x) := by
    refine r.invariant_from (P := fun _ w => OnWay f g (TopicKey.ofName token) c
      (accepted w.served (TopicKey.ofName token)) (w.frames x)) (a := j + 1) (b := k) hk ?_ ?_ k
      hjk (Nat.le_refl _)
    · have hstep := r.step j (by omega)
      rw [hlookup.1] at hstep
      obtain ⟨hq, hmem⟩ := hquiet j hij (by omega)
      exact onWay_of_count harrived hlookup.2 (sound_run r j (by omega)) hq hmem
        (hlt j (by omega)) hstep
    · intro n hlo hhi h hstep
      obtain ⟨hq, hmem⟩ := hquiet n (by omega) (by omega)
      exact h.step hf.refresh hprologue hg (sound_run r n (by omega)) hq hmem (hlt n (by omega))
        (hflush n (by omega) hhi) hstep
  rw [hdone] at honway
  cases honway with
  | done hcount => exact hcount

/-! ### A run -/

/-- What a finished frame has sent. -/
def FrameState.sent : FrameState → Option (List Frame)
  | .done sent => some sent
  | _ => none

theorem FrameState.eq_done {fs : FrameState} {sent : List Frame} (h : fs.sent = some sent) :
    fs = .done sent := by
  cases fs with
  | done => cases h; rfl
  | idle => cases h
  | xdp => cases h
  | tc => cases h
  | walk => cases h

/-- A client subscribes, then a frame goes through `xdp_broker` to its end. -/
def finished_run : Run (system one_cpu) :=
  Run.ofLabels _ _ (half_subscribed ++ [.ctl] ++ looking ++ [.frame 0 .kern, .frame 0 .verdict])
    (by decide +kernel)

/-- The frame it sends. -/
def finished_sent : List Frame :=
  [xdp_rewrite 128 (pack ⟨0x0800000a, 0x8813⟩) (sample_frame [97] [104, 105])]

theorem delivered_once_sample :
    (finished_run.states 15).frames 0 = .done finished_sent ∧
      (finished_sent.map dst).count ⟨0x0800000a, 0x8813⟩ = 1 := by
  have hdone : (finished_run.states 15).frames 0 = .done finished_sent :=
    FrameState.eq_done (by decide +kernel)
  have hidle : ∀ n, n < 15 → 8 < n →
      ((finished_run.states n).serving (finished_run.labels n)).isNone = true := by
    decide +kernel
  have hlt : ∀ n, n < 16 →
      (accepted (finished_run.states n).served (TopicKey.ofName [97])).length < 2 ^ 32 := by
    decide +kernel
  have hname : topic_key_of (topic_key_buffer [97]) = some (TopicKey.ofName [97]) := by
    decide +kernel
  refine ⟨hdone, delivered_once finished_run (x := 0) (a := 9) (i := 8) (j := 11) (k := 15)
    shortToken_a (sample_frame_publish [97] [104, 105]) hname (by decide) (by decide) (by decide) (by decide) (by decide +kernel) rfl
    ⟨rfl, by decide +kernel⟩ hdone ?_ (fun n hn => hlt n (Nat.lt_succ_of_le hn))⟩
  intro n hlo hhi cmd p hserving
  have hnone := hidle n hhi hlo
  rw [hserving] at hnone
  cases hnone

end BpfBroker.Hash
