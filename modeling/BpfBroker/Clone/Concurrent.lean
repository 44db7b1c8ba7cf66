import BpfBroker.Lib.Server
import BpfBroker.Lib.System
import BpfBroker.Clone.Datapath

/-! # The Clone Broker under Interleaving

    The control process carries out its commands one map operation at a
    time. The invocations of `xdp_broker`, on original frames and later on
    the copies the driver makes of them, go one map lookup at a time too, and
    the steps of all of them interleave freely. -/

namespace BpfBroker.Clone

open Atomic LTS Buffer

/-! ### Frames in processing -/

/-- Where a copy is. -/
inductive CopyState where
  /-- The driver has made it and not run the program on it yet. -/
  | waiting
  | running (p : Prog KernSig (UInt32 × Frame))

/-- Where a frame is. -/
inductive FrameState where
  /-- Not received yet. -/
  | idle
  /-- In `xdp_broker`, without metadata. -/
  | original (p : Prog KernSig (UInt32 × Frame))
  /-- The driver has made the copies `1 .. n` of it. -/
  | cloning (f : Frame) (n : Nat) (copies : Nat → CopyState)
  /-- Finished without copies. -/
  | done

/-- What can happen to a frame. -/
inductive Event where
  | arrive (f : Frame)
  /-- The next map operation for the original frame. -/
  | kern
  /-- The driver acts on the verdict for the original frame. -/
  | verdict
  /-- The driver runs the program on copy `k`. -/
  | start (k : Nat)
  /-- The next map operation for copy `k`. -/
  | copy (k : Nat)

/-- A step of a frame, with the counters it leaves. -/
def FrameState.next (cpu : Nat) (s : KernState) :
    FrameState → Event → Option (FrameState × (Nat → UInt32))
  | .idle, .arrive f => some (.original (xdp_broker [] f), s.pub_counter_2)
  | .original (.op o next), .kern =>
    some (.original (next (kern cpu o s).1), (kern cpu o s).2.pub_counter_2)
  | .original (.ret (verdict, f)), .verdict =>
    if verdict &&& 31 = CLONE_TX then
      some (.cloning f (verdict >>> 5).toNat fun _ => .waiting, s.pub_counter_2)
    else some (.done, s.pub_counter_2)
  | .cloning f n copies, .start k =>
    match copies k with
    | .waiting =>
      if 1 ≤ k ∧ k ≤ n then
        some (.cloning f n (Function.update copies k (.running (xdp_broker (le32 k) f))),
          s.pub_counter_2)
      else none
    | .running _ => none
  | .cloning f n copies, .copy k =>
    match copies k with
    | .running (.op o next) =>
      some (.cloning f n (Function.update copies k (.running (next (kern cpu o s).1))),
        (kern cpu o s).2.pub_counter_2)
    | _ => none
  | _, _ => none

/-- What can happen to a frame, and where it is then. -/
theorem FrameState.next_cases {cpu : Nat} {s : KernState} {fs fs' : FrameState} {e : Event}
    {pub : Nat → UInt32} (h : fs.next cpu s e = some (fs', pub)) :
    (∃ f, fs = .idle ∧ e = .arrive f ∧ fs' = .original (xdp_broker [] f)) ∨
    (∃ o next, fs = .original (.op o next) ∧ e = .kern ∧
      fs' = .original (next (Clone.kern cpu o s).1)) ∨
    (∃ verdict f, fs = .original (.ret (verdict, f)) ∧ e = .verdict ∧
      fs' = if verdict &&& 31 = CLONE_TX
        then .cloning f (verdict >>> 5).toNat fun _ => .waiting else .done) ∨
    (∃ f n copies k, fs = .cloning f n copies ∧ e = .start k ∧ copies k = .waiting ∧ 1 ≤ k ∧
      k ≤ n ∧
      fs' = .cloning f n (Function.update copies k (.running (xdp_broker (le32 k) f)))) ∨
    (∃ f n copies k o next, fs = .cloning f n copies ∧ e = .copy k ∧
      copies k = .running (.op o next) ∧
      fs' = .cloning f n (Function.update copies k (.running (next (Clone.kern cpu o s).1)))) := by
  unfold FrameState.next at h
  split at h
  · cases h
    exact Or.inl ⟨_, rfl, rfl, rfl⟩
  · cases h
    exact Or.inr (Or.inl ⟨_, _, rfl, rfl, rfl⟩)
  · next verdict f =>
    refine Or.inr (Or.inr (Or.inl ⟨verdict, f, rfl, rfl, ?_⟩))
    split at h
    · next hv =>
      cases h
      rw [if_pos hv]
    · next hv =>
      cases h
      rw [if_neg hv]
  · next f n copies k =>
    split at h
    · next hwait =>
      split at h
      · next hk =>
        cases h
        exact Or.inr (Or.inr (Or.inr (Or.inl ⟨f, n, copies, k, rfl, rfl, hwait, hk.1, hk.2, rfl⟩)))
      · cases h
    · cases h
  · next f n copies k =>
    split at h
    · next o next hrun =>
      cases h
      exact Or.inr (Or.inr (Or.inr (Or.inr ⟨f, n, copies, k, o, next, rfl, rfl, hrun, rfl⟩)))
    · cases h
  · cases h

/-- The frame a finished invocation of `xdp_broker` transmits. -/
def transmitted : Prog KernSig (UInt32 × Frame) → Option Frame
  | .ret (verdict, f) => if verdict = XDP_TX then some f else none
  | .op _ _ => none

/-- The frame that goes out as copy `k`, or as the original frame. -/
def FrameState.sent : FrameState → Nat → Option Frame
  | .original p, _ => transmitted p
  | .cloning _ _ copies, k =>
    match copies k with
    | .running p => transmitted p
    | .waiting => none
  | _, _ => none

/-- The operation that copy `k` is about to perform. -/
def FrameState.copy_pending : FrameState → Nat → Option KernOp
  | .cloning _ _ copies, k =>
    match copies k with
    | .running p => p.pending
    | .waiting => none
  | _, _ => none

/-! ### The system -/

/-- The control process with the maps, the counters, and the frames. -/
structure World where
  server : Server CtlSig Maps Cmd Int
  pub_counter_2 : Nat → UInt32
  frames : Nat → FrameState

namespace World

/-- The maps. -/
abbrev maps (w : World) : Maps := w.server.state

def initial : World := ⟨⟨.empty, none, []⟩, fun _ => 0, fun _ => .idle⟩

end World

inductive Label where
  /-- A datagram is received and the first operation for it performed. -/
  | recv (r : Request)
  /-- The control process performs its next operation. -/
  | ctl
  /-- A step of frame `i`. -/
  | frame (i : Nat) (e : Event)

instance : Inhabited Label := ⟨.ctl⟩

/-- The command that a step of the control process belongs to, with what is
    left of its program. -/
def World.serving (w : World) : Label → Option (Cmd × Prog CtlSig Int)
  | .recv r =>
    match w.server.busy with
    | none => some (parse_request r, command (parse_request r))
    | some _ => none
  | .ctl => w.server.busy
  | .frame _ _ => none

/-- One step; `cpu` gives the CPU of each frame. -/
def World.next (cpu : Nat → Nat) (w : World) (l : Label) : Option World :=
  match l with
  | .frame i e =>
    ((w.frames i).next (cpu i) ⟨w.maps, w.pub_counter_2⟩ e).map fun r =>
      { w with pub_counter_2 := r.2, frames := Function.update w.frames i r.1 }
  | l => (w.serving l).map fun b => { w with server := w.server.advance ctl b.1 b.2 }

/-- The clone broker from empty maps. -/
def system (cpu : Nat → Nat) : System World Label := ofNext (World.next cpu) World.initial

/-- **What a step can do**: the control process performs an operation of a
    command, or one frame makes a step and nothing else but the counters
    changes. -/
theorem next_cases {cpu : Nat → Nat} {w w' : World} {l : Label} (h : w.next cpu l = some w') :
    (∃ cmd p, w.serving l = some (cmd, p) ∧
      w' = { w with server := w.server.advance ctl cmd p }) ∨
    (∃ i e fs pub, l = .frame i e ∧
      (w.frames i).next (cpu i) ⟨w.maps, w.pub_counter_2⟩ e = some (fs, pub) ∧
      w' = { w with pub_counter_2 := pub, frames := Function.update w.frames i fs }) := by
  unfold World.next at h
  split at h
  · next i e =>
    obtain ⟨⟨fs, pub⟩, hnext, hw⟩ := Option.map_eq_some_iff.mp h
    exact Or.inr ⟨i, e, fs, pub, rfl, hnext, hw.symm⟩
  · obtain ⟨⟨cmd, p⟩, hserving, hw⟩ := Option.map_eq_some_iff.mp h
    exact Or.inl ⟨cmd, p, hserving, hw.symm⟩

/-! ### The control process in any state -/

/-- What a command stores in a slot: a FLUSH zeroes slots of its topic, and a
    SUBSCRIBE stores its client. -/
def Fills (cmd : Cmd) (o : CtlOp) : Prop :=
  ∀ t idx v, o = .slot_update t idx v →
    cmd.Flushes t ∨ ∃ name c, cmd = .subscribe name c ∧ topic_key_of name = some t ∧ v = pack c

theorem no_store {cmd : Cmd} {o : CtlOp} (h : ∀ t idx v, o ≠ .slot_update t idx v) :
    Fills cmd o :=
  fun t idx v heq => absurd heq (h t idx v)

theorem zero_loop_fills {cmd : Cmd} {t : TopicKey} (h : cmd.Flushes t) (n : Nat) (i : UInt32) :
    (zero_loop t n i).AllOps (Fills cmd) := by
  induction n generalizing i with
  | zero => exact Prog.allOps_ret _ _
  | succ n ih =>
    refine ⟨?_, fun _ => ih (i + 1)⟩
    intro t' idx v heq
    cases heq
    exact Or.inl h

theorem command_fills (cmd : Cmd) : (command cmd).AllOps (Fills cmd) := by
  cases cmd with
  | unknown => exact Prog.allOps_ret _ _
  | register topic_name =>
    show (add_topic topic_name).AllOps _
    unfold add_topic
    split
    · exact Prog.allOps_ret _ _
    · refine ⟨no_store nofun, ?_⟩
      rintro (_ | _)
      · refine ⟨no_store nofun, ?_⟩
        rintro (_ | _)
        · exact Prog.allOps_ret _ _
        · refine ⟨no_store nofun, ?_⟩
          rintro (_ | _)
          · exact Prog.allOps_ret _ _
          · exact Prog.allOps_ret _ _
      · exact Prog.allOps_ret _ _
  | subscribe topic_name c =>
    show (add_subscriber topic_name _ _).AllOps _
    unfold add_subscriber
    split
    · exact Prog.allOps_ret _ _
    · next t hk =>
      refine ⟨no_store nofun, ?_⟩
      rintro (_ | _)
      · exact Prog.allOps_ret _ _
      refine ⟨no_store nofun, ?_⟩
      rintro (_ | _)
      · exact Prog.allOps_ret _ _
      -- the one store of a SUBSCRIBE, after the lookups
      refine ⟨no_store nofun, fun count => ⟨?_, ?_⟩⟩
      · intro t' idx v heq
        cases heq
        exact Or.inr ⟨topic_name, c, rfl, hk, rfl⟩
      rintro (_ | _)
      · exact Prog.allOps_ret _ _
      refine ⟨no_store nofun, ?_⟩
      rintro (_ | _)
      · exact Prog.allOps_ret _ _
      · exact Prog.allOps_ret _ _
  | flush topic_name =>
    show (flush_topic topic_name).AllOps _
    unfold flush_topic
    split
    · exact Prog.allOps_ret _ _
    · next t hk =>
      refine ⟨no_store nofun, fun count => ?_⟩
      show (ite (count.getD 0 = 0) _ _ : Prog CtlSig Int).AllOps _
      split
      · exact Prog.allOps_ret _ _
      refine ⟨no_store nofun, ?_⟩
      rintro (_ | _)
      · exact Prog.allOps_ret _ _
      refine ⟨no_store nofun, ?_⟩
      rintro (_ | _)
      · exact Prog.allOps_ret _ _
      -- the loop zeroes slots of its topic, then the count is reset
      change Prog.AllOps _ (zero_loop t _ 0 >>= _)
      refine Prog.AllOps.bind (zero_loop_fills ⟨topic_name, rfl, hk⟩ _ _) fun _ => ?_
      exact ⟨no_store nofun, fun _ => trivial⟩

/-- The control process is between commands, or inside one of them; `d` is the
    directory of the commands it has finished. -/
structure Sound (w : World) (d : Directory MAX_TOPIC_ID) : Prop where
  idle : w.server.busy = none → Inv w.maps d
  busy : ∀ cmd p, w.server.busy = some (cmd, p) →
    p.Outline ctl (Mid cmd d) (Result cmd d) w.maps ∧ p.AllOps (Fills cmd)

theorem sound_initial : Sound .initial .empty :=
  ⟨fun _ => inv_empty, fun _ _ h => by cases h⟩

section sound
variable {cpu : Nat → Nat} {w : World} {d : Directory MAX_TOPIC_ID}

/-- What is known about a command whose next operation is performed. -/
theorem Sound.serving (h : Sound w d) {l : Label} {cmd : Cmd} {p : Prog CtlSig Int}
    (hs : w.serving l = some (cmd, p)) :
    p.Outline ctl (Mid cmd d) (Result cmd d) w.maps ∧ p.AllOps (Fills cmd) := by
  cases l with
  | recv r =>
    unfold World.serving at hs
    dsimp only at hs
    split at hs
    · -- a new command starts between commands
      next hidle =>
      cases hs
      exact ⟨command_outline (h.idle hidle) _, command_fills _⟩
    · cases hs
  | ctl => exact h.busy cmd p hs
  | frame i e => cases hs

/-- Every step. -/
theorem Sound.next (h : ∃ d, Sound w d) {w' : World} {l : Label}
    (hstep : w.next cpu l = some w') : ∃ d, Sound w' d := by
  obtain ⟨d, hd⟩ := h
  rcases next_cases hstep with ⟨cmd, p, hserving, rfl⟩ | ⟨i, e, fs, pub, rfl, -, rfl⟩
  · obtain ⟨hout, hfills⟩ := hd.serving hserving
    rcases Server.advance_outline (c := cmd) hout with
      ⟨ret, hbusy, -, -, hinv⟩ | ⟨o, next, hbusy, -, hout'⟩
    · -- the command has ended: the directory takes its effect
      refine ⟨(d.exec room cmd).2, fun _ => hinv, ?_⟩
      intro cmd' p' hb
      rw [show _ = none from hbusy] at hb
      cases hb
    · -- the command goes on, with what is left of its outline
      refine ⟨d, ?_, ?_⟩
      · intro hb
        rw [show _ = some _ from hbusy] at hb
        cases hb
      · intro cmd' p' hb
        have hfills' := Server.advance_allOps hfills hb
        rw [show _ = some _ from hbusy] at hb
        cases hb
        exact ⟨hout', hfills'⟩
  · -- a frame does not touch the topic maps
    exact ⟨d, hd.idle, hd.busy⟩

end sound

/-- **Every reachable state** is sound. -/
theorem sound_run {cpu : Nat → Nat} (r : Run (system cpu)) (n : Nat) (hn : n ≤ r.len) :
    ∃ d, Sound (r.states n) d := by
  refine r.invariant (P := fun _ w => ∃ d, Sound w d) ?_ ?_ n hn
  · rintro w rfl
    exact ⟨_, sound_initial⟩
  · intro n _ h hstep
    exact Sound.next h hstep

end BpfBroker.Clone
