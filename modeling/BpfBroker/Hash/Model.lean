import BpfBroker.Lib.BoundedMap
import BpfBroker.Lib.Prog
import BpfBroker.Control

/-! # The Hash Broker (`bpf_broker`)

    The broker that keeps a topic's subscribers in a hash map. The control
    process (`bpf_broker_proto.c`) writes three maps; the XDP and TC programs
    (`bpf_broker_kern.c`) read them for every PUBLISH frame.

    Every access to a map is one operation of a `Prog`, so the functions
    below can be run without interruption or interleaved operation by
    operation. -/

namespace BpfBroker.Hash

open Atomic Buffer

def MAX_TOPIC_ID : Nat := 10

/-! ### Maps -/

/-- The inner map that `add_topic` creates: a hash with 256 entries from a
    packed subscriber to a value that nothing reads. -/
abbrev Inner : Type := BMap 256 UInt64 UInt32

/-- The three topic maps. The value of `topic_subscribe` is the id of an inner
    map; an id belongs to one topic for good, so the inner map is stored in
    its place. -/
structure Maps where
  topic_subscribe : BMap MAX_TOPIC_ID TopicKey Inner
  topic_sub_cnt : BMap MAX_TOPIC_ID TopicKey UInt32
  topic_first_sub : BMap MAX_TOPIC_ID TopicKey UInt64

/-- The maps after loading the programs. -/
def Maps.empty : Maps := ⟨.empty, .empty, .empty⟩

/-- The inner map of a topic. -/
def Maps.inner (m : Maps) (t : TopicKey) : Option Inner := m.topic_subscribe.lookup t

/-- The packed subscribers of a topic. -/
def Maps.subs (m : Maps) (t : TopicKey) : List UInt64 :=
  match m.inner t with
  | none => []
  | some inner => inner.keys

/-- What the code leaves open about a hash map: the order of its keys, and
    three of the four bytes of each value. -/
structure HashOrder where
  /-- The order in which the kernel visits the keys. It is not specified; each
      key comes exactly once. -/
  walk : List UInt64 → List UInt64
  walk_perm : ∀ keys, (walk keys).Perm keys
  /-- What lies behind the variable `dummy` on the stack of the control
      process, in a given state of the maps. -/
  behind : Maps → UInt32

/-- The four bytes that the kernel copies from the address of a variable of one
    byte. -/
def HashOrder.value (ord : HashOrder) (m : Maps) (dummy : UInt8) : UInt32 :=
  dummy.toUInt32 + ord.behind m <<< 8

/-! ### Operations of the control process -/

/-- The `bpf()` calls of `bpf_broker_proto.c`. -/
inductive CtlOp where
  /-- Look the inner map's id up in `topic_subscribe`. -/
  | outer_lookup (t : TopicKey)
  /-- `bpf_map_get_fd_by_id` on the inner map. -/
  | inner_fd (t : TopicKey)
  /-- `BPF_MAP_CREATE` of an inner map. -/
  | inner_create
  /-- Store the new, empty inner map in `topic_subscribe`. -/
  | outer_update (t : TopicKey)
  /-- Store a subscriber with the address of `dummy` for its value. -/
  | inner_update (t : TopicKey) (key : UInt64) (dummy : UInt8)
  /-- `bpf_map_get_next_key(inner_fd, NULL, &key)`. -/
  | inner_first (t : TopicKey)
  | inner_delete (t : TopicKey) (key : UInt64)
  | cnt_lookup (t : TopicKey)
  | cnt_update (t : TopicKey) (value : UInt32)
  | first_update (t : TopicKey) (value : UInt64)
  | first_delete (t : TopicKey)
  deriving DecidableEq

/-- Results: `true` for a return value of 0, or the value looked up. -/
@[reducible] def CtlOp.Res : CtlOp → Type
  | .outer_lookup _ | .inner_fd _ | .inner_create | .outer_update _ | .inner_update _ _ _ => Bool
  | .cnt_update _ _ | .first_update _ _ => Bool
  | .inner_first _ => Option UInt64
  | .cnt_lookup _ => Option UInt32
  | .inner_delete _ _ | .first_delete _ => Unit

abbrev CtlSig : Sig := ⟨CtlOp, CtlOp.Res⟩

namespace Ctl

abbrev outer_lookup (t : TopicKey) : Prog CtlSig Bool := .op (.outer_lookup t) .ret
abbrev inner_fd (t : TopicKey) : Prog CtlSig Bool := .op (.inner_fd t) .ret
abbrev inner_create : Prog CtlSig Bool := .op .inner_create .ret
abbrev outer_update (t : TopicKey) : Prog CtlSig Bool := .op (.outer_update t) .ret
abbrev inner_update (t : TopicKey) (key : UInt64) (dummy : UInt8) : Prog CtlSig Bool :=
  .op (.inner_update t key dummy) .ret
abbrev inner_first (t : TopicKey) : Prog CtlSig (Option UInt64) := .op (.inner_first t) .ret
abbrev inner_delete (t : TopicKey) (key : UInt64) : Prog CtlSig Unit :=
  .op (.inner_delete t key) .ret
abbrev cnt_lookup (t : TopicKey) : Prog CtlSig (Option UInt32) := .op (.cnt_lookup t) .ret
abbrev cnt_update (t : TopicKey) (value : UInt32) : Prog CtlSig Bool :=
  .op (.cnt_update t value) .ret
abbrev first_update (t : TopicKey) (value : UInt64) : Prog CtlSig Bool :=
  .op (.first_update t value) .ret
abbrev first_delete (t : TopicKey) : Prog CtlSig Unit := .op (.first_delete t) .ret

end Ctl

/-- The effect of the operations. A store fails exactly when it would add a
    key to a full map. -/
def ctl (ord : HashOrder) : Handler CtlSig Maps
  | .outer_lookup t, m => ((m.inner t).isSome, m)
  | .inner_fd _, m => (true, m)
  | .inner_create, m => (true, m)
  | .outer_update t, m =>
    match m.topic_subscribe.update t .empty with
    | none => (false, m)
    | some ts => (true, { m with topic_subscribe := ts })
  | .inner_update t key dummy, m =>
    match (m.inner t).bind (fun inner => inner.update key (ord.value m dummy)) with
    | none => (false, m)
    | some inner => (true, { m with topic_subscribe := m.topic_subscribe.modify t fun _ => inner })
  | .inner_first t, m => ((ord.walk (m.subs t)).head?, m)
  | .inner_delete t key, m =>
    ((), { m with topic_subscribe := m.topic_subscribe.modify t fun inner => inner.delete key })
  | .cnt_lookup t, m => (m.topic_sub_cnt.lookup t, m)
  | .cnt_update t value, m =>
    match m.topic_sub_cnt.update t value with
    | none => (false, m)
    | some cnt => (true, { m with topic_sub_cnt := cnt })
  | .first_update t value, m =>
    match m.topic_first_sub.update t value with
    | none => (false, m)
    | some first => (true, { m with topic_first_sub := first })
  | .first_delete t, m => ((), { m with topic_first_sub := m.topic_first_sub.delete t })

/-! ### The control process (`bpf_broker_proto.c`) -/

/-- `add_topic`. -/
def add_topic (topic_name : List UInt8) : Prog CtlSig Int :=
  match topic_key_of topic_name with
  | none => return -1
  | some topic_key => do
    let found ← Ctl.outer_lookup topic_key
    -- early return if the topic already exists
    if found then return 0
    let created ← Ctl.inner_create
    if !created then return -1
    let inserted ← Ctl.outer_update topic_key
    if !inserted then return -1
    return 0

/-- The counter after one more subscriber; a missing counter starts at 1. The
    32-bit addition wraps. -/
def next_count : Option UInt32 → UInt32
  | some current => current + 1
  | none => 1

/-- `add_subscriber`. The value it stores in the inner map is `dummy`, a byte
    1, but the values of the map are four bytes wide; nothing reads them. -/
def add_subscriber (topic_name : List UInt8) (ip port : UInt32) : Prog CtlSig Int :=
  match topic_key_of topic_name with
  | none => return -1
  | some topic_key => do
    let found ← Ctl.outer_lookup topic_key
    if !found then return -1
    let inner_fd ← Ctl.inner_fd topic_key
    if !inner_fd then return -1
    let key := packed_key ip port
    let stored ← Ctl.inner_update topic_key key 1
    if !stored then return -1
    let count ← Ctl.cnt_lookup topic_key
    let current := next_count count
    let counted ← Ctl.cnt_update topic_key current
    if !counted then return -1
    if current = 1 then
      let cached ← Ctl.first_update topic_key key
      if !cached then return -1
      return 0
    else return 0

/-- The loop of `flush_topic`: get the first key and delete it until there is
    none. `n` bounds the number of tests; the inner map holds at most 256
    keys, so 257 are enough. -/
def flush_loop (topic_key : TopicKey) : Nat → Prog CtlSig Unit
  | 0 => return ()
  | n + 1 => do
    let next ← Ctl.inner_first topic_key
    match next with
    | none => return ()
    | some key =>
      Ctl.inner_delete topic_key key
      flush_loop topic_key n

/-- `flush_topic`. -/
def flush_topic (topic_name : List UInt8) : Prog CtlSig Int :=
  match topic_key_of topic_name with
  | none => return -1
  | some topic_key => do
    let found ← Ctl.outer_lookup topic_key
    if !found then return 0
    let inner_fd ← Ctl.inner_fd topic_key
    if !inner_fd then return -1
    flush_loop topic_key 257
    let _ ← Ctl.cnt_update topic_key 0
    Ctl.first_delete topic_key
    return 0

/-- What the main loop runs for a command. -/
def command : Cmd → Prog CtlSig Int
  | .register topic_name => add_topic topic_name
  | .subscribe topic_name client =>
    add_subscriber topic_name (htonl client.sin_addr) (htons client.sin_port).toUInt32
  | .flush topic_name => flush_topic topic_name
  | .unknown => return 0

/-- One round of the main loop: the command carried out with its return
    value, and the maps it leaves. -/
def serve (ord : HashOrder) (r : Request) (m : Maps) : Served × Maps :=
  let cmd := parse_request r
  let (ret, m') := (command cmd).run (ctl ord) m
  (⟨cmd, ret⟩, m')

/-- The main loop over a sequence of requests, from the given maps. -/
def serve_all (ord : HashOrder) : List Request → Maps → List Served × Maps :=
  main_loop (serve ord)

/-! ### Operations of the kernel programs -/

/-- The statistics maps, per CPU. -/
structure Stats where
  pub_counter_2 : Nat → UInt32
  clone_counter_2 : Nat → UInt32
  queue_count_map : BMap 64 UInt32 (Nat → UInt64)

def Stats.empty : Stats := ⟨fun _ => 0, fun _ => 0, .empty⟩

/-- The map accesses of `bpf_broker_kern.c`. -/
inductive KernOp where
  /-- Look `pub_counter_2` up and add one. -/
  | pub_count
  /-- Look `clone_counter_2` up and add one. -/
  | clone_count
  /-- Count a packet of a TX queue, creating the queue's entry if needed. -/
  | queue_count (qid : UInt32)
  | cnt_lookup (t : TopicKey)
  | first_lookup (t : TopicKey)
  | outer_lookup (t : TopicKey)
  deriving DecidableEq

@[reducible] def KernOp.Res : KernOp → Type
  | .pub_count | .clone_count | .queue_count _ => Unit
  | .cnt_lookup _ => Option UInt32
  | .first_lookup _ => Option UInt64
  | .outer_lookup _ => Bool

abbrev KernSig : Sig := ⟨KernOp, KernOp.Res⟩

namespace Kern

abbrev pub_count : Prog KernSig Unit := .op .pub_count .ret
abbrev clone_count : Prog KernSig Unit := .op .clone_count .ret
abbrev queue_count (qid : UInt32) : Prog KernSig Unit := .op (.queue_count qid) .ret
abbrev cnt_lookup (t : TopicKey) : Prog KernSig (Option UInt32) := .op (.cnt_lookup t) .ret
abbrev first_lookup (t : TopicKey) : Prog KernSig (Option UInt64) := .op (.first_lookup t) .ret
abbrev outer_lookup (t : TopicKey) : Prog KernSig Bool := .op (.outer_lookup t) .ret

end Kern

/-- The state the kernel programs work on. -/
structure KernState where
  maps : Maps
  stats : Stats

/-- Add one to the entry of a CPU. -/
def bump {α : Type} [Add α] [OfNat α 1] (cpu : Nat) (counter : Nat → α) : Nat → α :=
  fun i => if i = cpu then counter i + 1 else counter i

def Stats.count_queue (s : Stats) (cpu : Nat) (qid : UInt32) : Stats :=
  match s.queue_count_map.lookup qid with
  | some _ => { s with queue_count_map := s.queue_count_map.modify qid (bump cpu) }
  | none =>
    match s.queue_count_map.update qid (bump cpu fun _ => 0) with
    | some q => { s with queue_count_map := q }
    | none => s

/-- The effect of the operations on a CPU: only statistics change. -/
def kern (cpu : Nat) : Handler KernSig KernState
  | .pub_count, s =>
    ((), { s with stats := { s.stats with pub_counter_2 := bump cpu s.stats.pub_counter_2 } })
  | .clone_count, s =>
    ((), { s with stats := { s.stats with clone_counter_2 := bump cpu s.stats.clone_counter_2 } })
  | .queue_count qid, s => ((), { s with stats := s.stats.count_queue cpu qid })
  | .cnt_lookup t, s => (s.maps.topic_sub_cnt.lookup t, s)
  | .first_lookup t, s => (s.maps.topic_first_sub.lookup t, s)
  | .outer_lookup t, s => ((s.maps.inner t).isSome, s)

/-! ### `xdp_broker` -/

inductive XdpAction where
  | drop
  | pass
  | tx
  deriving DecidableEq, Repr

/-- `xdp_broker`: its verdict and the frame as it leaves it. -/
def xdp_broker (f : Frame) : Prog KernSig (XdpAction × Frame) :=
  if !parse_udp_packet f then return (.pass, f)
  else if !broker_port f then return (.pass, f)
  else if !starts_with (payload f) PUBLISH then return (.pass, f)
  else do
    Kern.pub_count
    match extract_topic_id ((payload f).drop 8) with
    | none => return (.pass, f)
    | some topic_id => do
      let sub_count ← Kern.cnt_lookup topic_id
      if sub_count ≠ some 1 then return (.pass, f)
      let packed_ptr ← Kern.first_lookup topic_id
      match packed_ptr with
      | none => return (.drop, f)
      | some packed => do
        let f := xdp_rewrite 128 packed f
        Kern.clone_count
        return (.tx, f)

/-! ### `tc_ingress_broker` -/

/-- Which helper calls of `callback_fn` fail. -/
structure CallbackFaults where
  l3 : Bool := false
  l4_addr : Bool := false
  l4_port : Bool := false

/-- The header edits of `callback_fn`. `Except.error` is one of its early
    returns, with the packet as it is at that point. -/
def callback_edit (flt : CallbackFaults) (packed : UInt64) (skb : Frame) : Except Frame Frame :=
  if !refresh_headers skb then .error skb else
  let old_daddr := rd32 skb IP_DADDR
  let old_port := rd16 skb UDP_DEST
  let skb := wr32 skb IP_DADDR (dest_ip packed)
  match bpf_l3_csum_replace flt.l3 skb IP_CHECK old_daddr (rd32 skb IP_DADDR) with
  | none => .error skb
  | some skb =>
    if !refresh_headers skb then .error skb else
    match bpf_l4_csum_replace4 flt.l4_addr skb UDP_CHECK old_daddr (rd32 skb IP_DADDR) with
    | none => .error skb
    | some skb =>
      if !refresh_headers skb then .error skb else
      let skb := wr16 skb UDP_DEST (dest_port packed)
      match bpf_l4_csum_replace2 flt.l4_port skb UDP_CHECK old_port (rd16 skb UDP_DEST) with
      | none => .error skb
      | some skb => if !refresh_headers skb then .error skb else .ok skb

/-- `callback_fn` for one key: the packet it leaves for the next call, and
    the clone it passes to `bpf_clone_redirect`, if it gets there. It returns
    0 on every path, so the walk goes on. -/
def callback_fn (flt : CallbackFaults) (queue_mapping : UInt32) (packed : UInt64) (skb : Frame) :
    Prog KernSig (Frame × Option Frame) :=
  match callback_edit flt packed skb with
  | .error skb => return (skb, none)
  | .ok skb => do
    Kern.queue_count queue_mapping
    Kern.clone_count
    return (skb, some skb)

/-- Which helper calls of `tc_ingress_broker` itself fail. -/
structure TcFaults where
  pull : Bool := false
  l3 : Bool := false
  l4_addr : Bool := false
  l4_port : Bool := false

/-- The header edits of `tc_ingress_broker` before the walk. -/
def tc_edit (flt : TcFaults) (skb : Frame) : Except Frame Frame :=
  let skb := swap_macs skb
  let temp_ip := rd32 skb IP_SADDR
  let skb := wr32 skb IP_SADDR (rd32 skb IP_DADDR)
  match bpf_l3_csum_replace flt.l3 skb IP_CHECK temp_ip (rd32 skb IP_SADDR) with
  | none => .error skb
  | some skb =>
    if !refresh_headers skb then .error skb else
    match bpf_l4_csum_replace4 flt.l4_addr skb UDP_CHECK temp_ip (rd32 skb IP_SADDR) with
    | none => .error skb
    | some skb =>
      if !refresh_headers skb then .error skb else
      let temp_port := rd16 skb UDP_SOURCE
      let skb := wr16 skb UDP_SOURCE (rd16 skb UDP_DEST)
      match bpf_l4_csum_replace2 flt.l4_port skb UDP_CHECK temp_port (rd16 skb UDP_SOURCE) with
      | none => .error skb
      | some skb => .ok skb

/-- Where `tc_ingress_broker` gets to before the walk. -/
inductive TcPoint where
  /-- It returned `TC_ACT_OK`. -/
  | act_ok (skb : Frame)
  /-- It is about to walk the inner map of `topic_id`. -/
  | for_each (topic_id : TopicKey) (skb : Frame)

/-- `tc_ingress_broker` up to `bpf_for_each_map_elem`. -/
def tc_ingress_prologue (flt : TcFaults) (skb : Frame) : Prog KernSig TcPoint :=
  if flt.pull then return .act_ok skb
  else if !refresh_headers skb then return .act_ok skb
  else if !broker_port skb then return .act_ok skb
  else if !starts_with (payload skb) PUBLISH then return .act_ok skb
  else do
    Kern.pub_count
    match extract_topic_id ((payload skb).drop 8) with
    | none => return .act_ok skb
    | some topic_id => do
      let inner_map ← Kern.outer_lookup topic_id
      if !inner_map then return .act_ok skb
      match tc_edit flt skb with
      | .error skb => return .act_ok skb
      | .ok skb => return .for_each topic_id skb

/-- `bpf_for_each_map_elem` over the keys in the order given: the packet is
    handed on from call to call. Returns the clones redirected. -/
def for_each_elem (flt : Nat → CallbackFaults) (queue_mapping : UInt32) :
    List UInt64 → Frame → Prog KernSig (List Frame)
  | [], _ => return []
  | key :: keys, skb => do
    let (skb, clone) ← callback_fn (flt 0) queue_mapping key skb
    let clones ← for_each_elem (fun i => flt (i + 1)) queue_mapping keys skb
    return clone.toList ++ clones

/-- The verdict of `tc_ingress_broker`: the packet as it is handed on, or the
    clones made before the packet itself is dropped. -/
inductive TcResult where
  | act_ok (skb : Frame)
  | act_shot (clones : List Frame)
  deriving DecidableEq, Repr

/-- The frames redirected. -/
def TcResult.clones : TcResult → List Frame
  | .act_ok _ => []
  | .act_shot clones => clones

/-- The environment of a received frame: the CPU, the TX queue the driver
    chose, the kernel's walk order and the helper calls that fail. -/
structure Env where
  ord : HashOrder
  cpu : Nat := 0
  queue_mapping : UInt32 := 0
  tc : TcFaults := {}
  callback : Nat → CallbackFaults := fun _ => {}

/-- All helper calls succeed. -/
structure Env.Healthy (env : Env) : Prop where
  tc : env.tc = {}
  callback : env.callback = fun _ => {}

/-- `tc_ingress_broker`, uninterrupted: its verdict and the state after. -/
def tc_ingress_broker (env : Env) (skb : Frame) (s : KernState) : TcResult × KernState :=
  match (tc_ingress_prologue env.tc skb).run (kern env.cpu) s with
  | (.act_ok skb, s) => (.act_ok skb, s)
  | (.for_each topic_id skb, s) =>
    let keys := env.ord.walk (s.maps.subs topic_id)
    let (clones, s) := (for_each_elem env.callback env.queue_mapping keys skb).run (kern env.cpu) s
    (.act_shot clones, s)

/-- The receive pipeline: `xdp_broker`, and on `XDP_PASS`
    `tc_ingress_broker`. Returns the frames sent. -/
def receive (env : Env) (f : Frame) (s : KernState) : List Frame × KernState :=
  match (xdp_broker f).run (kern env.cpu) s with
  | ((.tx, f), s) => ([f], s)
  | ((.drop, _), s) => ([], s)
  | ((.pass, f), s) =>
    let (result, s) := tc_ingress_broker env f s
    (result.clones, s)

end BpfBroker.Hash
