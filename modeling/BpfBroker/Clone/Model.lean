import BpfBroker.Lib.BoundedMap
import BpfBroker.Lib.Prog
import BpfBroker.Control

/-! # The Clone Broker (`bpf_broker_xdp`)

    The broker that keeps a topic's subscribers in an array and fans a frame
    out in XDP alone. The verdict `XDP_CLONE_TX(n)` asks the driver for `n`
    copies; it runs the program again on each, with the copy's number in the
    packet metadata, and copy `k` goes to the subscriber in slot `k - 1`. -/

namespace BpfBroker.Clone

open Atomic Buffer

def MAX_TOPIC_ID : Nat := 10
def MAX_SUBSCRIBERS : Nat := 2048

/-! ### Maps -/

/-- The inner array that `add_topic` creates: 2048 packed subscribers, all
    zero at first. -/
abbrev Slots : Type := Fin MAX_SUBSCRIBERS → UInt64

/-- Array lookup; out of range there is no element. -/
def Slots.get (a : Slots) (idx : UInt32) : Option UInt64 :=
  if h : idx.toNat < MAX_SUBSCRIBERS then some (a ⟨idx.toNat, h⟩) else none

/-- Array store; out of range it fails. -/
def Slots.put (a : Slots) (idx : UInt32) (v : UInt64) : Option Slots :=
  if h : idx.toNat < MAX_SUBSCRIBERS then some (Function.update a ⟨idx.toNat, h⟩ v) else none

/-- The two topic maps, with the inner array in the place of its id. -/
structure Maps where
  topic_sub_cnt : BMap MAX_TOPIC_ID TopicKey UInt32
  topic_sub_array : BMap MAX_TOPIC_ID TopicKey Slots

/-- The maps after loading the program. -/
def Maps.empty : Maps := ⟨.empty, .empty⟩

/-! ### Operations of the control process -/

/-- The `bpf()` calls of `bpf_broker_proto.c`. -/
inductive CtlOp where
  | outer_lookup (t : TopicKey)
  | inner_fd (t : TopicKey)
  | inner_create
  /-- Store the new, zeroed array in `topic_sub_array`. -/
  | outer_update (t : TopicKey)
  | slot_update (t : TopicKey) (idx : UInt32) (value : UInt64)
  | cnt_lookup (t : TopicKey)
  | cnt_update (t : TopicKey) (value : UInt32)
  deriving DecidableEq

@[reducible] def CtlOp.Res : CtlOp → Type
  | .outer_lookup _ | .inner_fd _ | .inner_create | .outer_update _ => Bool
  | .slot_update _ _ _ | .cnt_update _ _ => Bool
  | .cnt_lookup _ => Option UInt32

abbrev CtlSig : Sig := ⟨CtlOp, CtlOp.Res⟩

namespace Ctl

abbrev outer_lookup (t : TopicKey) : Prog CtlSig Bool := .op (.outer_lookup t) .ret
abbrev inner_fd (t : TopicKey) : Prog CtlSig Bool := .op (.inner_fd t) .ret
abbrev inner_create : Prog CtlSig Bool := .op .inner_create .ret
abbrev outer_update (t : TopicKey) : Prog CtlSig Bool := .op (.outer_update t) .ret
abbrev slot_update (t : TopicKey) (idx : UInt32) (value : UInt64) : Prog CtlSig Bool :=
  .op (.slot_update t idx value) .ret
abbrev cnt_lookup (t : TopicKey) : Prog CtlSig (Option UInt32) := .op (.cnt_lookup t) .ret
abbrev cnt_update (t : TopicKey) (value : UInt32) : Prog CtlSig Bool :=
  .op (.cnt_update t value) .ret

end Ctl

/-- The effect of the operations. -/
def ctl : Handler CtlSig Maps
  | .outer_lookup t, m => ((m.topic_sub_array.lookup t).isSome, m)
  | .inner_fd _, m => (true, m)
  | .inner_create, m => (true, m)
  | .outer_update t, m =>
    match m.topic_sub_array.update t (fun _ => 0) with
    | none => (false, m)
    | some ts => (true, { m with topic_sub_array := ts })
  | .slot_update t idx value, m =>
    match (m.topic_sub_array.lookup t).bind (fun a => a.put idx value) with
    | none => (false, m)
    | some a => (true, { m with topic_sub_array := m.topic_sub_array.modify t fun _ => a })
  | .cnt_lookup t, m => (m.topic_sub_cnt.lookup t, m)
  | .cnt_update t value, m =>
    match m.topic_sub_cnt.update t value with
    | none => (false, m)
    | some cnt => (true, { m with topic_sub_cnt := cnt })

/-! ### The control process (`bpf_broker_proto.c`) -/

/-- `add_topic`. -/
def add_topic (topic_name : List UInt8) : Prog CtlSig Int :=
  match topic_key_of topic_name with
  | none => return -1
  | some topic_key => do
    let found ← Ctl.outer_lookup topic_key
    if found then return 0
    let created ← Ctl.inner_create
    if !created then return -1
    let inserted ← Ctl.outer_update topic_key
    if !inserted then return -1
    return 0

/-- `add_subscriber`: the count is the next free slot; a missing count reads
    as 0. -/
def add_subscriber (topic_name : List UInt8) (ip port : UInt32) : Prog CtlSig Int :=
  match topic_key_of topic_name with
  | none => return -1
  | some topic_key => do
    let found ← Ctl.outer_lookup topic_key
    if !found then return -1
    let inner_fd ← Ctl.inner_fd topic_key
    if !inner_fd then return -1
    let count ← Ctl.cnt_lookup topic_key
    let idx := count.getD 0
    let packed := packed_key ip port
    let stored ← Ctl.slot_update topic_key idx packed
    if !stored then return -1
    let counted ← Ctl.cnt_update topic_key (idx + 1)
    if !counted then return -1
    return 0

/-- The loop of `flush_topic`: zero `n` slots from slot `i` on. -/
def zero_loop (topic_key : TopicKey) : (n : Nat) → (i : UInt32) → Prog CtlSig Unit
  | 0, _ => return ()
  | n + 1, i => do
    let _ ← Ctl.slot_update topic_key i 0
    zero_loop topic_key n (i + 1)

/-- `flush_topic`. -/
def flush_topic (topic_name : List UInt8) : Prog CtlSig Int :=
  match topic_key_of topic_name with
  | none => return -1
  | some topic_key => do
    let count ← Ctl.cnt_lookup topic_key
    let count := count.getD 0
    if count = 0 then return 0
    let found ← Ctl.outer_lookup topic_key
    if !found then return 0
    let inner_fd ← Ctl.inner_fd topic_key
    if !inner_fd then return -1
    zero_loop topic_key count.toNat 0
    let _ ← Ctl.cnt_update topic_key 0
    return 0

/-- What the main loop runs for a command. -/
def command : Cmd → Prog CtlSig Int
  | .register topic_name => add_topic topic_name
  | .subscribe topic_name client =>
    add_subscriber topic_name (htonl client.sin_addr) (htons client.sin_port).toUInt32
  | .flush topic_name => flush_topic topic_name
  | .unknown => return 0

/-- One round of the main loop. -/
def serve (r : Request) (m : Maps) : Served × Maps :=
  let cmd := parse_request r
  let (ret, m') := (command cmd).run ctl m
  (⟨cmd, ret⟩, m')

/-- The main loop over a sequence of requests, from the given maps. -/
def serve_all : List Request → Maps → List Served × Maps := main_loop serve

/-! ### `xdp_broker` -/

/-- The map accesses of `bpf_broker_kern.c`. -/
inductive KernOp where
  /-- Look `pub_counter_2` up and add one. -/
  | pub_count
  | cnt_lookup (t : TopicKey)
  | outer_lookup (t : TopicKey)
  /-- Look a slot of the topic's array up. -/
  | slot_lookup (t : TopicKey) (idx : UInt32)
  deriving DecidableEq

@[reducible] def KernOp.Res : KernOp → Type
  | .pub_count => Unit
  | .cnt_lookup _ => Option UInt32
  | .outer_lookup _ => Bool
  | .slot_lookup _ _ => Option UInt64

abbrev KernSig : Sig := ⟨KernOp, KernOp.Res⟩

namespace Kern

abbrev pub_count : Prog KernSig Unit := .op .pub_count .ret
abbrev cnt_lookup (t : TopicKey) : Prog KernSig (Option UInt32) := .op (.cnt_lookup t) .ret
abbrev outer_lookup (t : TopicKey) : Prog KernSig Bool := .op (.outer_lookup t) .ret
abbrev slot_lookup (t : TopicKey) (idx : UInt32) : Prog KernSig (Option UInt64) :=
  .op (.slot_lookup t idx) .ret

end Kern

/-- The state the program works on: the maps and the per-CPU counter. -/
structure KernState where
  maps : Maps
  pub_counter_2 : Nat → UInt32

/-- The effect of the operations on a CPU. -/
def kern (cpu : Nat) : Handler KernSig KernState
  | .pub_count, s =>
    ((), { s with pub_counter_2 :=
      fun i => if i = cpu then s.pub_counter_2 i + 1 else s.pub_counter_2 i })
  | .cnt_lookup t, s => (s.maps.topic_sub_cnt.lookup t, s)
  | .outer_lookup t, s => ((s.maps.topic_sub_array.lookup t).isSome, s)
  | .slot_lookup t idx, s => ((s.maps.topic_sub_array.lookup t).bind (fun a => a.get idx), s)

def XDP_DROP : UInt32 := 1
def XDP_PASS : UInt32 := 2
def XDP_TX : UInt32 := 3

/-- The action code of a clone verdict. -/
def CLONE_TX : UInt32 := 6

/-- The macro `XDP_CLONE_TX(num_copy)`. -/
def XDP_CLONE_TX (num_copy : UInt32) : UInt32 := (num_copy <<< 5) ||| CLONE_TX

/-- The branch of `xdp_broker` for a copy, with the metadata word read. -/
def xdp_clone (num_copy : Nat) (f : Frame) : Prog KernSig (UInt32 × Frame) :=
  if num_copy = 0 then return (XDP_DROP, f)
  else if !parse_udp_packet f then return (XDP_DROP, f)
  else if !broker_port f then return (XDP_DROP, f)
  else if !starts_with (payload f) PUBLISH then return (XDP_DROP, f)
  else
    match extract_topic_id ((payload f).drop 8) with
    | none => return (XDP_DROP, f)
    | some topic_id => do
      let inner_map ← Kern.outer_lookup topic_id
      if !inner_map then return (XDP_DROP, f)
      let packed_ptr ← Kern.slot_lookup topic_id (UInt32.ofNat (num_copy - 1))
      match packed_ptr with
      | none => return (XDP_DROP, f)
      | some packed => return (XDP_TX, xdp_rewrite 1024 packed f)

/-- The branch of `xdp_broker` for an original frame. -/
def xdp_original (f : Frame) : Prog KernSig (UInt32 × Frame) :=
  if !parse_udp_packet f then return (XDP_PASS, f)
  else if !broker_port f then return (XDP_PASS, f)
  else if !starts_with (payload f) PUBLISH then return (XDP_PASS, f)
  else do
    Kern.pub_count
    match extract_topic_id ((payload f).drop 8) with
    | none => return (XDP_PASS, f)
    | some topic_id => do
      let sub_count ← Kern.cnt_lookup topic_id
      match sub_count with
      | none => return (XDP_PASS, f)
      | some n => if n = 0 then return (XDP_PASS, f) else return (XDP_CLONE_TX n, f)

/-- `xdp_broker` on a frame with the given metadata (the bytes from
    `data_meta` to `data`): its return value and the frame as it leaves it. -/
def xdp_broker (data_meta : List UInt8) (f : Frame) : Prog KernSig (UInt32 × Frame) :=
  if 4 ≤ data_meta.length then xdp_clone (rd32 data_meta 0) f else xdp_original f

/-- The receive pipeline with a driver that serves `XDP_CLONE_TX(n)` by
    running the program on copies `1 .. n`. Returns the frames sent. -/
def receive (cpu : Nat) (f : Frame) (s : KernState) : List Frame × KernState :=
  let ((verdict, _), s) := (xdp_broker [] f).run (kern cpu) s
  if verdict &&& 31 = CLONE_TX then
    let copies := (List.range (verdict >>> 5).toNat).map fun i =>
      ((xdp_broker (le32 (i + 1)) f).run (kern cpu) s).1
    ((copies.filter fun c => c.1 = XDP_TX).map Prod.snd, s)
  else ([], s)

end BpfBroker.Clone
