import BpfBroker.Lib.Server
import BpfBroker.Lib.System
import BpfBroker.Hash.Datapath

/-! # The Hash Broker under Interleaving

    The control process carries out its commands one map operation at a
    time. Any number of frames are in processing at once, each one map
    lookup at a time, and the steps of all of them interleave freely. -/

namespace BpfBroker.Hash

open Atomic LTS

/-! ### Frames in processing -/

/-- Where a frame is. -/
inductive FrameState where
  /-- Not received yet. -/
  | idle
  /-- In `xdp_broker`. -/
  | xdp (p : Prog KernSig (XdpAction × Frame))
  /-- In `tc_ingress_broker`, before the walk. -/
  | tc (p : Prog KernSig TcPoint)
  /-- In `bpf_for_each_map_elem` over the inner map of `t`: the packet as the
      last call left it, the keys that have been there since the walk
      started, the keys visited, and the clones made. -/
  | walk (t : TopicKey) (skb : Frame) (kept seen : List UInt64) (clones : List Frame)
  /-- Finished, after sending these frames. -/
  | done (sent : List Frame)

/-- What can happen to a frame. -/
inductive Event where
  | arrive (f : Frame)
  /-- The next map operation of the program that has the frame. -/
  | kern
  /-- The program returns, and the kernel acts on its verdict. -/
  | verdict
  /-- The walk calls `callback_fn` for a key. -/
  | visit (key : UInt64)
  /-- The walk ends. -/
  | leave

/-- A step of a frame, with the statistics it leaves. A walk visits keys that
    are in the map, a key that stays there throughout once, and does not end
    before it has visited every such key. The helpers succeed. -/
def FrameState.next (cpu : Nat) (queue_mapping : UInt32) (s : KernState) :
    FrameState → Event → Option (FrameState × Stats)
  | .idle, .arrive f => some (.xdp (xdp_broker f), s.stats)
  | .xdp (.op o next), .kern => some (.xdp (next (kern cpu o s).1), (kern cpu o s).2.stats)
  | .xdp (.ret (.tx, f)), .verdict => some (.done [f], s.stats)
  | .xdp (.ret (.drop, _)), .verdict => some (.done [], s.stats)
  | .xdp (.ret (.pass, f)), .verdict => some (.tc (tc_ingress_prologue {} f), s.stats)
  | .tc (.op o next), .kern => some (.tc (next (kern cpu o s).1), (kern cpu o s).2.stats)
  | .tc (.ret (.act_ok _)), .verdict => some (.done [], s.stats)
  | .tc (.ret (.for_each t skb)), .verdict => some (.walk t skb (s.maps.subs t) [] [], s.stats)
  | .walk t skb kept seen clones, .visit key =>
    if key ∈ s.maps.subs t ∧ ¬ (key ∈ kept ∧ key ∈ seen) then
      let ((skb, clone), s') := (callback_fn {} queue_mapping key skb).run (kern cpu) s
      some (.walk t skb kept (key :: seen) (clones ++ clone.toList), s'.stats)
    else none
  | .walk _ _ kept seen clones, .leave =>
    if kept ⊆ seen then some (.done clones, s.stats) else none
  | _, _ => none

/-- What can happen to a frame, and where it is then. -/
inductive FrameStep (cpu : Nat) (queue_mapping : UInt32) (s : KernState) :
    FrameState → Event → FrameState → Prop where
  | arrive (f : Frame) : FrameStep cpu queue_mapping s .idle (.arrive f) (.xdp (xdp_broker f))
  | xdp (o : KernOp) (next : KernOp.Res o → Prog KernSig (XdpAction × Frame)) :
    FrameStep cpu queue_mapping s (.xdp (.op o next)) .kern (.xdp (next (kern cpu o s).1))
  | tx (f : Frame) : FrameStep cpu queue_mapping s (.xdp (.ret (.tx, f))) .verdict (.done [f])
  | drop (f : Frame) : FrameStep cpu queue_mapping s (.xdp (.ret (.drop, f))) .verdict (.done [])
  | pass (f : Frame) :
    FrameStep cpu queue_mapping s (.xdp (.ret (.pass, f))) .verdict
      (.tc (tc_ingress_prologue {} f))
  | tc (o : KernOp) (next : KernOp.Res o → Prog KernSig TcPoint) :
    FrameStep cpu queue_mapping s (.tc (.op o next)) .kern (.tc (next (kern cpu o s).1))
  | act_ok (skb : Frame) :
    FrameStep cpu queue_mapping s (.tc (.ret (.act_ok skb))) .verdict (.done [])
  | for_each (t : TopicKey) (skb : Frame) :
    FrameStep cpu queue_mapping s (.tc (.ret (.for_each t skb))) .verdict
      (.walk t skb (s.maps.subs t) [] [])
  | visit {t : TopicKey} {skb : Frame} {kept seen : List UInt64} {clones : List Frame}
      {key : UInt64} (hmem : key ∈ s.maps.subs t) (hnew : ¬ (key ∈ kept ∧ key ∈ seen)) :
    FrameStep cpu queue_mapping s (.walk t skb kept seen clones) (.visit key)
      (.walk t ((callback_fn {} queue_mapping key skb).run (kern cpu) s).1.1 kept (key :: seen)
        (clones ++ ((callback_fn {} queue_mapping key skb).run (kern cpu) s).1.2.toList))
  | leave {t : TopicKey} {skb : Frame} {kept seen : List UInt64} {clones : List Frame}
      (hall : kept ⊆ seen) :
    FrameStep cpu queue_mapping s (.walk t skb kept seen clones) .leave (.done clones)

theorem FrameState.step_of_next {cpu : Nat} {queue_mapping : UInt32} {s : KernState}
    {fs fs' : FrameState} {e : Event} {stats : Stats}
    (h : fs.next cpu queue_mapping s e = some (fs', stats)) :
    FrameStep cpu queue_mapping s fs e fs' := by
  unfold FrameState.next at h
  split at h
  · cases h; exact .arrive _
  · cases h; exact .xdp _ _
  · cases h; exact .tx _
  · cases h; exact .drop _
  · cases h; exact .pass _
  · cases h; exact .tc _ _
  · cases h; exact .act_ok _
  · cases h; exact .for_each _ _
  · split at h
    · next hguard =>
      cases h
      exact .visit hguard.1 hguard.2
    · cases h
  · split at h
    · next hall =>
      cases h
      exact .leave hall
    · cases h
  · cases h

/-- A key deleted during a walk has not been there throughout. -/
def FrameState.onCtl (o : CtlOp) : FrameState → FrameState
  | .walk t skb kept seen clones =>
    match o with
    | .inner_delete t' key =>
      .walk t skb (if t' = t then kept.filter (· ≠ key) else kept) seen clones
    | _ => .walk t skb kept seen clones
  | fs => fs

/-! ### The system -/

/-- The machine: the order of the kernel's walks, and the CPU and TX queue of
    each frame. -/
structure Host where
  ord : HashOrder
  cpu : Nat → Nat := fun _ => 0
  queue_mapping : Nat → UInt32 := fun _ => 0

/-- The control process with the maps, the statistics, and the frames. -/
structure World where
  server : Server CtlSig Maps Cmd Int
  stats : Stats
  frames : Nat → FrameState

namespace World

/-- The maps. -/
abbrev maps (w : World) : Maps := w.server.state

/-- The commands the control process has carried out. -/
def served (w : World) : List Served := w.server.log.map fun e => ⟨e.1, e.2⟩

/-- The operation the control process is about to perform. -/
def pending (w : World) : Option CtlOp := w.server.busy.bind fun b => b.2.pending

def initial : World := ⟨⟨.empty, none, []⟩, .empty, fun _ => .idle⟩

/-- The control process performs the next operation of `p` for `cmd`. -/
def advance (host : Host) (w : World) (cmd : Cmd) (p : Prog CtlSig Int) : World where
  server := w.server.advance (ctl host.ord) cmd p
  stats := w.stats
  frames i :=
    match p.pending with
    | none => w.frames i
    | some o => (w.frames i).onCtl o

end World

inductive Label where
  /-- A datagram is received and the first operation for it performed. -/
  | recv (r : Request)
  /-- The control process performs its next operation. -/
  | ctl
  /-- A step of frame `i`. -/
  | frame (i : Nat) (e : Event)

instance : Inhabited Label := ⟨.ctl⟩

/-- The command that a step of the control process belongs to. -/
def World.serving (w : World) : Label → Option (Cmd × Prog CtlSig Int)
  | .recv r =>
    match w.server.busy with
    | none => some (parse_request r, command (parse_request r))
    | some _ => none
  | .ctl => w.server.busy
  | .frame _ _ => none

/-- The operation that is pending is the one performed next. -/
theorem World.pending_of_serving (w : World) {l : Label} {cmd : Cmd} {p : Prog CtlSig Int}
    (hs : w.serving l = some (cmd, p)) {o : CtlOp} (ho : w.pending = some o) :
    p.pending = some o := by
  unfold World.pending at ho
  cases l with
  | recv r =>
    unfold World.serving at hs
    dsimp only at hs
    split at hs
    · next hidle =>
      rw [hidle] at ho
      cases ho
    · cases hs
  | ctl =>
    rw [show w.server.busy = some (cmd, p) from hs] at ho
    exact ho
  | frame i e => cases hs

/-- One step. -/
def World.next (host : Host) (w : World) (l : Label) : Option World :=
  match l with
  | .frame i e =>
    ((w.frames i).next (host.cpu i) (host.queue_mapping i) ⟨w.maps, w.stats⟩ e).map fun r =>
      { w with stats := r.2, frames := Function.update w.frames i r.1 }
  | l => (w.serving l).map fun b => w.advance host b.1 b.2

/-- The hash broker from empty maps. -/
def system (host : Host) : System World Label := ofNext (World.next host) World.initial

/-- **What a step can do**: the control process performs an operation of a
    command, or one frame makes a step and nothing else but statistics
    changes. -/
theorem next_cases {host : Host} {w w' : World} {l : Label} (h : w.next host l = some w') :
    (∃ cmd p, w.serving l = some (cmd, p) ∧ w' = w.advance host cmd p) ∨
    (∃ i e fs stats, l = .frame i e ∧
      (w.frames i).next (host.cpu i) (host.queue_mapping i) ⟨w.maps, w.stats⟩ e =
        some (fs, stats) ∧
      w' = { w with stats := stats, frames := Function.update w.frames i fs }) := by
  unfold World.next at h
  split at h
  · next i e =>
    obtain ⟨⟨fs, stats⟩, hnext, hw⟩ := Option.map_eq_some_iff.mp h
    exact Or.inr ⟨i, e, fs, stats, rfl, hnext, hw.symm⟩
  · obtain ⟨⟨cmd, p⟩, hserving, hw⟩ := Option.map_eq_some_iff.mp h
    exact Or.inl ⟨cmd, p, hserving, hw.symm⟩

/-! ### The control process in any state -/

/-- Inner maps lose keys only in a FLUSH of their topic. -/
def Deletes (cmd : Cmd) (o : CtlOp) : Prop :=
  ∀ t key, o = .inner_delete t key → cmd.Flushes t

theorem keeps {cmd : Cmd} {o : CtlOp} (h : ∀ t key, o ≠ .inner_delete t key) : Deletes cmd o :=
  fun t key heq => absurd heq (h t key)

theorem flush_loop_deletes {cmd : Cmd} {t : TopicKey} (h : cmd.Flushes t) (n : Nat) :
    (flush_loop t n).AllOps (Deletes cmd) := by
  induction n with
  | zero => exact Prog.allOps_ret _ _
  | succ n ih =>
    refine ⟨keeps nofun, ?_⟩
    rintro (_ | key)
    · exact Prog.allOps_ret _ _
    · refine ⟨?_, fun _ => ih⟩
      intro t' key' heq
      cases heq
      exact h

theorem command_deletes (cmd : Cmd) : (command cmd).AllOps (Deletes cmd) := by
  cases cmd with
  | unknown => exact Prog.allOps_ret _ _
  | register topic_name => exact (add_topic_plain topic_name).imp fun _ ho => keeps ho.2
  | subscribe topic_name c => exact (add_subscriber_plain topic_name _ _).imp fun _ ho => keeps ho.2
  | flush topic_name =>
    show (flush_topic topic_name).AllOps _
    unfold flush_topic
    split
    · exact Prog.allOps_ret _ _
    · next t hk =>
      refine ⟨keeps nofun, ?_⟩
      rintro (_ | _)
      · exact Prog.allOps_ret _ _
      refine ⟨keeps nofun, ?_⟩
      rintro (_ | _)
      · exact Prog.allOps_ret _ _
      change Prog.AllOps _ (flush_loop t 257 >>= _)
      refine Prog.AllOps.bind (flush_loop_deletes ⟨topic_name, rfl, hk⟩ 257) fun _ => ?_
      exact ⟨keeps nofun, fun _ => ⟨keeps nofun, fun _ => trivial⟩⟩

/-- The control process is between commands, or inside one of them; `d` is the
    directory of the commands it has finished. -/
structure Sound (ord : HashOrder) (w : World) (d : Directory MAX_TOPIC_ID) : Prop where
  subs_eq : ∀ t, d.subs t = accepted w.served t
  idle : w.server.busy = none → Inv w.maps d
  busy : ∀ cmd p, w.server.busy = some (cmd, p) → ∃ o next, p = .op o next ∧
    p.Outline (ctl ord) (fun o m => Mid o m (d.during cmd)) (Result cmd d) w.maps ∧
    p.AllOps (Deletes cmd)

theorem sound_initial (ord : HashOrder) : Sound ord .initial .empty :=
  ⟨fun _ => rfl, fun _ => inv_empty, fun _ _ h => by cases h⟩

section sound
variable {host : Host} {w : World} {d : Directory MAX_TOPIC_ID}

/-- What is known about a command whose next operation is performed. -/
theorem Sound.serving (h : Sound host.ord w d) {l : Label} {cmd : Cmd} {p : Prog CtlSig Int}
    (hs : w.serving l = some (cmd, p)) :
    p.Outline (ctl host.ord) (fun o m => Mid o m (d.during cmd)) (Result cmd d) w.maps ∧
      p.AllOps (Deletes cmd) := by
  cases l with
  | recv r =>
    unfold World.serving at hs
    dsimp only at hs
    split at hs
    · next hidle =>
      cases hs
      exact ⟨command_outline _ (h.idle hidle) _, command_deletes _⟩
    · cases hs
  | ctl =>
    obtain ⟨-, -, -, hout, hdel⟩ := h.busy cmd p hs
    exact ⟨hout, hdel⟩
  | frame i e => cases hs

/-- What one operation of the control process does: it finishes the command
    and logs its return value, or leaves the rest of its program. -/
theorem advance_cases {I : CtlOp → Maps → Prop} {Q : Int → Maps → Prop} (cmd : Cmd)
    {p : Prog CtlSig Int} (hout : p.Outline (ctl host.ord) I Q w.maps) :
    (∃ ret, (w.advance host cmd p).server.busy = none ∧
      (w.advance host cmd p).served = w.served ++ [⟨cmd, ret⟩] ∧
      Q ret (w.advance host cmd p).maps) ∨
    (∃ o next, (w.advance host cmd p).server.busy = some (cmd, .op o next) ∧
      (w.advance host cmd p).served = w.served ∧
      (Prog.op o next).Outline (ctl host.ord) I Q (w.advance host cmd p).maps) := by
  have hserved : (w.advance host cmd p).served =
      (w.server.advance (ctl host.ord) cmd p).log.map fun e => ⟨e.1, e.2⟩ := rfl
  rcases Server.advance_outline (c := cmd) hout with
    ⟨ret, hbusy, hlog, hret⟩ | ⟨o, next, hbusy, hlog, hout'⟩
  · refine Or.inl ⟨ret, hbusy, ?_, hret⟩
    rw [hserved, hlog, List.map_append]
    rfl
  · refine Or.inr ⟨o, next, hbusy, ?_, hout'⟩
    rw [hserved, hlog]
    rfl

/-- One operation of the control process. -/
theorem Sound.advance (h : Sound host.ord w d) {cmd : Cmd} {p : Prog CtlSig Int}
    (hout : p.Outline (ctl host.ord) (fun o m => Mid o m (d.during cmd)) (Result cmd d) w.maps)
    (hdel : p.AllOps (Deletes cmd)) : ∃ d', Sound host.ord (w.advance host cmd p) d' := by
  rcases advance_cases cmd hout with
    ⟨ret, hbusy, hserved, hret, hinv⟩ | ⟨o, next, hbusy, hserved, hout'⟩
  · -- the command is finished, and logged with the directory's return value
    refine ⟨(d.exec room cmd).2, ?_, fun _ => hinv, fun _ _ hb => ?_⟩
    · intro t
      rw [hserved, accepted_snoc, ← h.subs_eq, hret]
      exact Directory.subs_exec d cmd t
    · rw [hbusy] at hb
      cases hb
  · -- the command goes on
    refine ⟨d, ?_, fun hb => ?_, fun cmd' p' hb => ?_⟩
    · intro t
      rw [hserved]
      exact h.subs_eq t
    · rw [hbusy] at hb
      cases hb
    · have hdel' := Server.advance_allOps hdel hb
      rw [hbusy] at hb
      cases hb
      exact ⟨o, next, rfl, hout', hdel'⟩

/-- Every step. -/
theorem Sound.next (h : ∃ d, Sound host.ord w d) {w' : World} {l : Label}
    (hstep : w.next host l = some w') : ∃ d, Sound host.ord w' d := by
  obtain ⟨d, hd⟩ := h
  rcases next_cases hstep with ⟨cmd, p, hserving, rfl⟩ | ⟨i, e, fs, stats, rfl, -, rfl⟩
  · obtain ⟨hout, hdel⟩ := hd.serving hserving
    exact hd.advance hout hdel
  · exact ⟨d, hd.subs_eq, hd.idle, hd.busy⟩

end sound

/-- **Every reachable state** is sound. -/
theorem sound_run {host : Host} (r : Run (system host)) (n : Nat) (hn : n ≤ r.len) :
    ∃ d, Sound host.ord (r.states n) d := by
  refine r.invariant (P := fun _ w => ∃ d, Sound host.ord w d) ?_ ?_ n hn
  · rintro w rfl
    exact ⟨_, sound_initial host.ord⟩
  · intro n _ h hstep
    exact Sound.next h hstep

/-! ### What the kernel programs can rely on -/

section rely
variable {host : Host} {w : World} {d : Directory MAX_TOPIC_ID}

/-- Every key of an inner map is a packed client. -/
theorem Sound.packed (h : Sound host.ord w d) (t : TopicKey) :
    ∀ key ∈ w.maps.subs t, ∃ c, key = pack c := by
  rcases hb : w.server.busy with _ | ⟨cmd, p⟩
  · exact ((h.idle hb).mid .inner_create).packed t
  · obtain ⟨o, next, rfl, hout, -⟩ := h.busy cmd p hb
    exact hout.1.packed t

/-- The clients of a topic that is not being flushed are live. -/
theorem Sound.live (h : Sound host.ord w d) {t : TopicKey}
    (hflush : ∀ cmd p, w.server.busy = some (cmd, p) → ¬ cmd.Flushes t) :
    (w.maps.view t).Live (accepted w.served t) := by
  rw [← h.subs_eq]
  rcases hb : w.server.busy with _ | ⟨cmd, p⟩
  · exact ((h.idle hb).topic t).live
  · obtain ⟨o, next, rfl, hout, -⟩ := h.busy cmd p hb
    have hlive := hout.1.topic t
    rwa [d.during_eq (hflush cmd _ hb)] at hlive

/-- A counter of 1 comes with a cached subscriber, unless the control process
    is about to store it. -/
theorem Sound.cached (h : Sound host.ord w d) {t : TopicKey}
    (hone : w.maps.topic_sub_cnt.lookup t = some 1) :
    (w.maps.topic_first_sub.lookup t).isSome ∨ ∃ key, w.pending = some (.first_update t key) := by
  rcases hb : w.server.busy with _ | ⟨cmd, p⟩
  · rcases ((h.idle hb).mid .inner_create).cached t hone with hc | ⟨key, hkey⟩
    · exact Or.inl hc
    · cases hkey
  · obtain ⟨o, next, rfl, hout, -⟩ := h.busy cmd p hb
    rcases hout.1.cached t hone with hc | ⟨key, rfl⟩
    · exact Or.inl hc
    · exact Or.inr ⟨key, by unfold World.pending; rw [hb]; rfl⟩

theorem Sound.nested (h : Sound host.ord w d) : Nested w.maps := by
  rcases hb : w.server.busy with _ | ⟨cmd, p⟩
  · exact (h.idle hb).nested
  · obtain ⟨o, next, rfl, hout, -⟩ := h.busy cmd p hb
    exact hout.1.nested

end rely

end BpfBroker.Hash
