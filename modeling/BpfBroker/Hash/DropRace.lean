import BpfBroker.Hash.Concurrent
import BpfBroker.Hash.Delivery

/-! # The `XDP_DROP` Branch

    `xdp_broker` drops a frame when it reads a counter of 1 and then finds no
    cached subscriber. Between commands the two maps agree, but
    `add_subscriber` writes the counter before the cache, and `flush_topic`
    clears the cache after the counter: a frame that looks at the wrong
    moment is dropped. Away from these two moments the branch cannot be
    reached. -/

namespace BpfBroker.Hash

open Atomic LTS

/-! ### Where `xdp_broker` can be -/

/-- The programs that are left of `xdp_broker` on the frame `f`. -/
inductive XdpStage (f : Frame) : Prog KernSig (XdpAction × Frame) → Prop where
  | passed : XdpStage f (.ret (.pass, f))
  | dropped : XdpStage f (.ret (.drop, f))
  | sent (packed : UInt64) : XdpStage f (.ret (.tx, xdp_rewrite 128 packed f))
  /-- The topic could not be extracted. -/
  | no_topic : XdpStage f (.op .pub_count fun _ => .ret (.pass, f))
  | start (t : TopicKey) :
    XdpStage f (.op .pub_count fun _ => .op (.cnt_lookup t) (xdp_counted f t))
  | count (t : TopicKey) : XdpStage f (.op (.cnt_lookup t) (xdp_counted f t))
  | first (t : TopicKey) : XdpStage f (.op (.first_lookup t) (xdp_cached f))
  | sending (packed : UInt64) :
    XdpStage f (.op .clone_count fun _ => .ret (.tx, xdp_rewrite 128 packed f))

/-- How `xdp_broker` starts. -/
theorem xdp_broker_start (f : Frame) :
    xdp_broker f = .ret (.pass, f) ∨ xdp_broker f = .op .pub_count (fun _ => .ret (.pass, f)) ∨
      ∃ t, xdp_broker f =
        .op .pub_count fun _ => .op (.cnt_lookup t) (xdp_counted f t) := by
  rcases hp : is_publish f with _ | _
  · exact Or.inl (xdp_broker_other hp)
  right
  rcases ht : extract_topic_id ((payload f).drop 8) with _ | t
  · exact Or.inl (xdp_broker_no_topic hp ht)
  · exact Or.inr ⟨t, xdp_broker_eq (publishes_iff.mpr ⟨hp, ht⟩)⟩

theorem xdp_broker_stage (f : Frame) : XdpStage f (xdp_broker f) := by
  rcases xdp_broker_start f with h | h | ⟨t, h⟩
  · rw [h]; exact .passed
  · rw [h]; exact .no_topic
  · rw [h]; exact .start t

/-- The next operation leads to a next stage. -/
theorem XdpStage.next {f : Frame} {o : KernOp} {next : KernOp.Res o → Prog KernSig _}
    (h : XdpStage f (.op o next)) (r : KernOp.Res o) : XdpStage f (next r) := by
  cases h with
  | no_topic => exact .passed
  | start t => exact .count t
  | count t =>
    show XdpStage f (xdp_counted f t r)
    unfold xdp_counted
    split
    · exact .first t
    · exact .passed
  | first t =>
    rcases r with _ | packed
    · exact .dropped
    · exact .sending packed
  | sending packed => exact .sent packed

/-- A frame is in `xdp_broker` because it arrived, or made a step there. -/
theorem xdp_of_next {cpu : Nat} {queue_mapping : UInt32} {s : KernState} {fs : FrameState}
    {e : Event} {p' : Prog KernSig (XdpAction × Frame)} {stats : Stats}
    (h : fs.next cpu queue_mapping s e = some (.xdp p', stats)) :
    (∃ f, fs = .idle ∧ e = .arrive f ∧ p' = xdp_broker f) ∨
    (∃ o next, fs = .xdp (.op o next) ∧ e = .kern ∧ p' = next (kern cpu o s).1) := by
  cases FrameState.step_of_next h with
  | arrive f => exact Or.inl ⟨f, rfl, rfl, rfl⟩
  | xdp o next => exact Or.inr ⟨o, next, rfl, rfl, rfl⟩

/-- The control process does not move a frame that is in `xdp_broker`. -/
theorem advance_xdp {host : Host} {w : World} {cmd : Cmd} {q : Prog CtlSig Int} {i : Nat}
    {p : Prog KernSig (XdpAction × Frame)} (h : (w.advance host cmd q).frames i = .xdp p) :
    w.frames i = .xdp p := by
  unfold World.advance at h
  dsimp only at h
  split at h
  · exact h
  · rcases hfs : w.frames i with _ | p' | p' | ⟨t, skb, kept, seen, clones⟩ | sent
    · rw [hfs] at h; cases h
    · rw [hfs] at h; exact h
    · rw [hfs] at h; cases h
    · rw [hfs] at h
      unfold FrameState.onCtl at h
      dsimp only at h
      split at h <;> cases h
    · rw [hfs] at h; cases h

/-! ### The two moments -/

/-- The operation `xdp_broker` is about to perform for a frame. -/
def FrameState.xdp_pending : FrameState → Option KernOp
  | .xdp p => p.pending
  | _ => none

theorem FrameState.xdp_of_pending {fs : FrameState} {o : KernOp} (h : fs.xdp_pending = some o) :
    ∃ p, fs = .xdp p ∧ p.pending = some o := by
  cases fs with
  | xdp p => exact ⟨p, rfl, h⟩
  | idle => cases h
  | tc => cases h
  | walk => cases h
  | done => cases h

/-- The step `l` looks the cached subscriber of `t` up for frame `i`. -/
def LooksUp (w : World) (l : Label) (i : Nat) (t : TopicKey) : Prop :=
  l = .frame i .kern ∧ (w.frames i).xdp_pending = some (.first_lookup t)

/-- The step `l` takes place away from the two moments: no frame looks a
    cached subscriber up while `add_subscriber` is between its writes to
    `topic_sub_cnt` and `topic_first_sub`, and `flush_topic` removes the entry
    only when no frame that has read a counter of 1 is still to look it up. -/
structure Orderly (w : World) (l : Label) : Prop where
  lookup : ∀ i t key, LooksUp w l i t → w.pending ≠ some (.first_update t key)
  delete : ∀ cmd q t, w.serving l = some (cmd, q) → q.pending = some (.first_delete t) →
    ∀ i, (w.frames i).xdp_pending ≠ some (.first_lookup t)

/-- A frame that is to look a cached subscriber up will find one, as soon as
    the control process has stored it. -/
structure Cached (w : World) : Prop where
  stage : ∀ i p, w.frames i = .xdp p → ∃ f, XdpStage f p
  first : ∀ i t, (w.frames i).xdp_pending = some (.first_lookup t) →
    (w.maps.topic_first_sub.lookup t).isSome ∨
      (∃ key, w.pending = some (.first_update t key)) ∧ w.maps.topic_sub_cnt.lookup t = some 1
  no_drop : ∀ i f, w.frames i ≠ .xdp (.ret (.drop, f))

/-- The same for the program of one frame. -/
structure XdpReady (w : World) (p : Prog KernSig (XdpAction × Frame)) : Prop where
  stage : ∃ f, XdpStage f p
  first : ∀ t, p.pending = some (.first_lookup t) →
    (w.maps.topic_first_sub.lookup t).isSome ∨
      (∃ key, w.pending = some (.first_update t key)) ∧ w.maps.topic_sub_cnt.lookup t = some 1
  no_drop : ∀ f, p ≠ .ret (.drop, f)

/-- A stage in which no cached subscriber is looked up. -/
theorem XdpReady.of_quiet {w : World} {f : Frame} {p : Prog KernSig (XdpAction × Frame)}
    (hstage : XdpStage f p) (hpend : ∀ t, p.pending ≠ some (.first_lookup t))
    (hdrop : ∀ f, p ≠ .ret (.drop, f)) : XdpReady w p :=
  ⟨⟨f, hstage⟩, fun t ht => absurd ht (hpend t), hdrop⟩

theorem xdpReady_start (w : World) (f : Frame) : XdpReady w (xdp_broker f) := by
  refine .of_quiet (xdp_broker_stage f) ?_ ?_
  · intro t ht
    rcases xdp_broker_start f with heq | heq | ⟨t', heq⟩
    · rw [heq] at ht; cases ht
    · rw [heq] at ht; cases ht
    · rw [heq] at ht; cases ht
  · intro g hg
    rcases xdp_broker_start f with heq | heq | ⟨t', heq⟩
    · rw [heq] at hg; cases hg
    · rw [heq] at hg; cases hg
    · rw [heq] at hg; cases hg

theorem cached_initial : Cached .initial where
  stage _ _ h := by cases h
  first _ _ h := by cases h
  no_drop _ _ h := by cases h

/-- Only `first_delete` removes a cached subscriber. -/
theorem first_isSome_ctl (ord : HashOrder) {o : CtlOp} {m : Maps} {t : TopicKey}
    (h : (m.topic_first_sub.lookup t).isSome) (ho : o ≠ .first_delete t) :
    ((ctl ord o m).2.topic_first_sub.lookup t).isSome := by
  cases o with
  | outer_lookup => exact h
  | inner_fd => exact h
  | inner_create => exact h
  | outer_update => unfold ctl; dsimp only; split <;> exact h
  | inner_update => unfold ctl; dsimp only; split <;> exact h
  | inner_first => exact h
  | inner_delete => exact h
  | cnt_lookup => exact h
  | cnt_update => unfold ctl; dsimp only; split <;> exact h
  | first_update t' value =>
    unfold ctl
    dsimp only
    split
    · exact h
    · next hu =>
      show (BMap.lookup _ t).isSome
      rw [BMap.lookup_update hu]
      split
      · rfl
      · exact h
  | first_delete t' =>
    show (BMap.lookup (m.topic_first_sub.delete t') t).isSome
    rw [BMap.lookup_delete, if_neg (fun heq => ho (by rw [heq]))]
    exact h

/-- `first_update` succeeds for a topic that has a counter. -/
theorem first_isSome_update (ord : HashOrder) {m : Maps} (hn : Nested m) {t : TopicKey}
    {key : UInt64} {n : UInt32} (hcnt : m.topic_sub_cnt.lookup t = some n) :
    ((ctl ord (.first_update t key) m).2.topic_first_sub.lookup t).isSome := by
  obtain ⟨first, hu⟩ := BMap.update_of_fits key
    (BMap.fits_of_keys_subset (Nat.le_refl _) hn.first_sub (BMap.mem_keys_of_lookup hcnt))
  unfold ctl
  dsimp only
  rw [hu]
  show (BMap.lookup first t).isSome
  rw [BMap.lookup_update hu, if_pos rfl]
  rfl

section step
variable {host : Host} {w : World} {l : Label}

/-- Under the condition, the lookup finds an entry. -/
theorem Cached.finds (h : Cached w) (hl : Orderly w l) {i : Nat} {t : TopicKey}
    (hlook : LooksUp w l i t) : (w.maps.topic_first_sub.lookup t).isSome := by
  rcases h.first i t hlook.2 with hsome | ⟨⟨key, hkey⟩, -⟩
  · exact hsome
  · exact absurd hkey (hl.lookup i t key hlook)

/-- The frame that moved: what is left of `xdp_broker` for it. -/
theorem Cached.moved (h : Cached w) (hsound : ∃ d, Sound host.ord w d) {i : Nat} {e : Event}
    (hl : Orderly w (.frame i e)) {p : Prog KernSig (XdpAction × Frame)} {stats : Stats}
    (hnext : (w.frames i).next (host.cpu i) (host.queue_mapping i) ⟨w.maps, w.stats⟩ e =
      some (.xdp p, stats)) : XdpReady w p := by
  obtain ⟨d, hd⟩ := hsound
  rcases xdp_of_next hnext with ⟨f, -, rfl, rfl⟩ | ⟨o, next, hfs, rfl, rfl⟩
  · exact xdpReady_start w f
  obtain ⟨f, hstage⟩ := h.stage i _ hfs
  cases hstage with
  | no_topic => exact .of_quiet .passed (by intro _ h; cases h) (by intro _ h; cases h)
  | start t => exact .of_quiet (.count t) (by intro _ h; cases h) (by intro _ h; cases h)
  | count t =>
    -- the counter is read here: it is 1, or the frame is passed on
    show XdpReady w (xdp_counted f t (w.maps.topic_sub_cnt.lookup t))
    unfold xdp_counted
    split
    · next hone =>
      refine ⟨⟨f, .first t⟩, ?_, by intro _ h; cases h⟩
      intro t' ht'
      cases ht'
      rcases hd.cached hone with hsome | hkey
      · exact Or.inl hsome
      · exact Or.inr ⟨hkey, hone⟩
    · exact .of_quiet .passed (by intro _ h; cases h) (by intro _ h; cases h)
  | first t =>
    -- the entry is there, so the frame is not dropped
    have hsome := h.finds hl ⟨rfl, by rw [hfs]; rfl⟩
    obtain ⟨packed, hpacked⟩ := Option.isSome_iff_exists.mp hsome
    show XdpReady w (xdp_cached f (w.maps.topic_first_sub.lookup t))
    rw [hpacked]
    exact .of_quiet (.sending packed) (by intro _ h; cases h) (by intro _ h; cases h)
  | sending packed => exact .of_quiet (.sent packed) (by intro _ h; cases h) (by intro _ h; cases h)

/-- A step of a frame. -/
theorem Cached.frame (h : Cached w) (hsound : ∃ d, Sound host.ord w d) {i : Nat} {e : Event}
    (hl : Orderly w (.frame i e)) {fs : FrameState} {stats : Stats}
    (hnext : (w.frames i).next (host.cpu i) (host.queue_mapping i) ⟨w.maps, w.stats⟩ e =
      some (fs, stats)) :
    Cached { w with stats := stats, frames := Function.update w.frames i fs } := by
  have hmoved : ∀ p, fs = .xdp p → XdpReady w p := by
    rintro p rfl
    exact h.moved hsound hl hnext
  refine ⟨?_, ?_, ?_⟩
  · intro j p hp
    by_cases hj : j = i
    · rw [hj] at hp
      exact (hmoved p (by simpa using hp)).stage
    · exact h.stage j p (by simpa [Function.update_of_ne hj] using hp)
  · intro j t hpend
    by_cases hj : j = i
    · rw [hj] at hpend
      obtain ⟨p, hp, hpend⟩ := FrameState.xdp_of_pending hpend
      exact (hmoved p (by simpa using hp)).first t hpend
    · exact h.first j t (by simpa [Function.update_of_ne hj] using hpend)
  · intro j f hp
    by_cases hj : j = i
    · rw [hj] at hp
      exact (hmoved _ (by simpa using hp)).no_drop f rfl
    · exact h.no_drop j f (by simpa [Function.update_of_ne hj] using hp)

/-- A step of the control process. -/
theorem Cached.control (h : Cached w) (hsound : ∃ d, Sound host.ord w d) (hl : Orderly w l)
    {cmd : Cmd} {q : Prog CtlSig Int} (hserving : w.serving l = some (cmd, q)) :
    Cached (w.advance host cmd q) := by
  obtain ⟨d, hd⟩ := hsound
  refine ⟨?_, ?_, ?_⟩
  · intro i p hp
    exact h.stage i p (advance_xdp hp)
  · intro i t hpend
    have hpend' : (w.frames i).xdp_pending = some (.first_lookup t) := by
      obtain ⟨p, hp, hpend⟩ := FrameState.xdp_of_pending hpend
      rw [advance_xdp hp]
      exact hpend
    left
    rcases h.first i t hpend' with hsome | ⟨⟨key, hkey⟩, hone⟩
    · cases q with
      | ret a => exact hsome
      | op o next =>
        show (Maps.topic_first_sub (w.server.advance (ctl host.ord) cmd (.op o next)).state |>.lookup
          t).isSome
        rw [Server.state_advance_op]
        apply first_isSome_ctl host.ord hsome
        rintro rfl
        exact hl.delete cmd _ t hserving rfl i hpend'
    · -- the entry that was about to be stored is stored
      have hq := w.pending_of_serving hserving hkey
      cases q with
      | ret a => cases hq
      | op o next =>
        cases hq
        show (Maps.topic_first_sub (w.server.advance (ctl host.ord) cmd (.op _ next)).state |>.lookup
          t).isSome
        rw [Server.state_advance_op]
        exact first_isSome_update host.ord hd.nested hone
  · intro i f hp
    exact h.no_drop i f (advance_xdp hp)

/-- Every step under the condition. -/
theorem Cached.next (h : Cached w) (hsound : ∃ d, Sound host.ord w d) (hl : Orderly w l)
    {w' : World} (hstep : w.next host l = some w') : Cached w' := by
  rcases next_cases hstep with ⟨cmd, q, hserving, rfl⟩ | ⟨i, e, fs, stats, rfl, hnext, rfl⟩
  · exact h.control hsound hl hserving
  · exact h.frame hsound hl hnext

end step

/-- **No drop away from the two moments**: in a run all of whose steps are
    orderly, every frame that has read a counter of 1 finds a cached
    subscriber, and none is dropped. -/
theorem no_drop_of_orderly {host : Host} (r : Run (system host))
    (hr : ∀ n, n < r.len → Orderly (r.states n) (r.labels n)) :
    (∀ n i t, n < r.len → LooksUp (r.states n) (r.labels n) i t →
      ((r.states n).maps.topic_first_sub.lookup t).isSome) ∧
    ∀ n i f, n ≤ r.len → (r.states n).frames i ≠ .xdp (.ret (.drop, f)) := by
  have hinv : ∀ n, n ≤ r.len → Cached (r.states n) := by
    refine r.invariant (P := fun _ w => Cached w) ?_ ?_
    · rintro w rfl
      exact cached_initial
    · intro n hn h hstep
      exact h.next (sound_run r n hn.le) (hr n hn) hstep
  refine ⟨?_, ?_⟩
  · intro n i t hn hlook
    exact (hinv n hn.le).finds (hr n hn) hlook
  · intro n i f hn
    exact (hinv n hn).no_drop i f

/-! ### The race -/

/-- A step that a test can tell to be orderly: a frame moves while the control
    process is idle, or the control process moves and removes no entry. -/
def orderly_test (w : World) (l : Label) : Bool :=
  match l with
  | .frame _ _ => w.pending = none
  | l => match (w.serving l).bind fun b => b.2.pending with
    | some (.first_delete _) => false
    | _ => true

theorem orderly_of_test {w : World} {l : Label} (h : orderly_test w l = true) : Orderly w l := by
  refine ⟨?_, ?_⟩
  · rintro i t key ⟨rfl, -⟩ hpend
    have hnone : w.pending = none := of_decide_eq_true h
    rw [hnone] at hpend
    cases hpend
  · intro cmd q t hserving hq
    unfold orderly_test at h
    split at h
    · cases hserving
    · rw [hserving] at h
      simp only [Option.bind_some, hq] at h
      cases h

/-- One REGISTER, and a SUBSCRIBE up to its write of the counter. -/
def half_subscribed : List Label :=
  [.recv (datagram REGISTER [97] ⟨0x0700000a, 0x8813⟩), .ctl, .ctl,
   .recv (datagram SUBSCRIBE [97] ⟨0x0800000a, 0x8813⟩), .ctl, .ctl, .ctl, .ctl]

/-- A frame up to its lookup in `topic_first_sub`. -/
def looking : List Label :=
  [.frame 0 (.arrive (sample_frame [97] [104, 105])), .frame 0 .kern, .frame 0 .kern,
   .frame 0 .kern]

/-- A machine with one CPU and one TX queue. -/
def one_cpu : Host := ⟨listed, fun _ => 0, fun _ => 0⟩

/-- The frame comes when the SUBSCRIBE has just written the counter. -/
def racing_run : Run (system one_cpu) :=
  Run.ofLabels _ _ (half_subscribed ++ looking) (by decide +kernel)

/-- The same frame after the SUBSCRIBE has written the cache. -/
def orderly_run : Run (system one_cpu) :=
  Run.ofLabels _ _ (half_subscribed ++ [.ctl] ++ looking) (by decide +kernel)

/-- In the race the frame reads a counter of 1, finds no cached subscriber and
    is dropped. -/
theorem racing_frame_dropped :
    ¬ ∀ (r : Run (system one_cpu)) (n i : Nat) (t : TopicKey),
      n < r.len → LooksUp (r.states n) (r.labels n) i t →
        ((r.states n).maps.topic_first_sub.lookup t).isSome := by
  intro h
  have hfound := h racing_run 11 0 (TopicKey.ofName [97]) (by decide) ⟨rfl, by decide +kernel⟩
  exact absurd hfound (by decide +kernel)

theorem no_drop_of_orderly_sample :
    LooksUp (orderly_run.states 12) (orderly_run.labels 12) 0 (TopicKey.ofName [97]) ∧
      ((orderly_run.states 12).maps.topic_first_sub.lookup (TopicKey.ofName [97])).isSome := by
  have hlook : LooksUp (orderly_run.states 12) (orderly_run.labels 12) 0 (TopicKey.ofName [97]) :=
    ⟨rfl, by decide +kernel⟩
  have horderly : ∀ n, n < 13 → orderly_test (orderly_run.states n) (orderly_run.labels n) = true := by
    decide +kernel
  have hfound := no_drop_of_orderly orderly_run (fun n hn => orderly_of_test (horderly n hn))
  exact ⟨hlook, hfound.1 12 0 (TopicKey.ofName [97]) (by decide) hlook⟩

end BpfBroker.Hash
