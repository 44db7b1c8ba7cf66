import Mathlib.Logic.Function.Basic
import BpfBroker.Lib.EarlyExit

/-! # The Loaders

    `bpf_broker_user.c` of both brokers: the process that loads the kernel
    programs, attaches them to the interfaces and pins the maps under which
    the control process finds them. It runs as root until a signal comes, and
    takes everything down again but the pins.

    Every call that can fail may fail at any time here, and the process may be
    killed in front of any call. A load makes new maps and programs; they are
    told from older ones by the number of the load. -/

namespace BpfBroker.Loader

open Atomic Prog

/-! ### The kernel -/

/-- A map or a program, by the load that made it. -/
inductive Obj where
  | map (load : Nat) (name : String)
  | prog (load : Nat) (name : String)
  deriving DecidableEq

/-- What the loader changes: the pins under `/sys/fs/bpf`, and for each
    interface its XDP program and its clsact qdisc with the filters for
    ingress. -/
structure Kernel where
  pins : String → Option Obj
  xdp : Nat → Option Obj
  clsact : Nat → Option (List Obj)
  /-- The number of the next load. -/
  loads : Nat

inductive PinResult where
  | pinned
  | eexist
  | failed
  deriving DecidableEq

/-- The calls that leave the state above alone. -/
inductive Check where
  | calloc
  | setrlimit
  | object_open
  | find_program (name : String)
  | find_map (name : String)
  | program_fd (name : String)
  | update_prog_array (index : Nat)
  | sigprocmask

/-- The calls of the loader. -/
inductive SysOp where
  | check (c : Check)
  | object_load
  | program_pin (path : String) (o : Obj)
  | program_unpin (path : String)
  | obj_pin (o : Obj) (path : String)
  | obj_get (path : String)
  | unlink (path : String)
  | xdp_attach (ifindex : Nat) (prog : Option Obj)
  | tc_hook_destroy (ifindex : Nat)
  | tc_hook_create (ifindex : Nat)
  | tc_attach (ifindex : Nat) (prog : Obj)
  /-- A signal of the mask: SIGINT, SIGTERM or SIGUSR1. -/
  | sigwait

abbrev SysSig : Sig where
  Op := SysOp
  Res
    | .object_load => Option Nat
    | .program_pin _ _ => PinResult
    | .obj_pin _ _ => PinResult
    | _ => Bool

/-- Pin an object where nothing is pinned. -/
def Kernel.pin (k : Kernel) (path : String) (o : Obj) : PinResult × Kernel :=
  if (k.pins path).isSome then (.eexist, k)
  else (.pinned, { k with pins := Function.update k.pins path (some o) })

/-- Remove a pin. -/
def Kernel.unpin (k : Kernel) (path : String) : Bool × Kernel :=
  if (k.pins path).isSome then (true, { k with pins := Function.update k.pins path none })
  else (false, k)

/-- The calls when nothing goes wrong. XDP programs and pins are replaced or
    removed whoever made them; a qdisc is created only where there is none. -/
def Kernel.call : (o : SysOp) → Kernel → SysSig.Res o × Kernel
  | .check _, k => (true, k)
  | .object_load, k => (some k.loads, { k with loads := k.loads + 1 })
  | .program_pin path o, k => k.pin path o
  | .program_unpin path, k => k.unpin path
  | .obj_pin o path, k => k.pin path o
  | .obj_get path, k => ((k.pins path).isSome, k)
  | .unlink path, k => k.unpin path
  | .xdp_attach ifindex prog, k => (true, { k with xdp := Function.update k.xdp ifindex prog })
  | .tc_hook_destroy ifindex, k =>
    if (k.clsact ifindex).isSome then
      (true, { k with clsact := Function.update k.clsact ifindex none })
    else (false, k)
  | .tc_hook_create ifindex, k =>
    if (k.clsact ifindex).isSome then (false, k)
    else (true, { k with clsact := Function.update k.clsact ifindex (some []) })
  | .tc_attach ifindex prog, k =>
    match k.clsact ifindex with
    | none => (false, k)
    | some filters =>
      (true, { k with clsact := Function.update k.clsact ifindex (some (filters ++ [prog])) })
  | .sigwait, k => (true, k)

/-- The result of a call that fails. -/
def failure : (o : SysOp) → SysSig.Res o
  | .check _ => false
  | .object_load => none
  | .program_pin _ _ => .failed
  | .program_unpin _ => false
  | .obj_pin _ _ => .failed
  | .obj_get _ => false
  | .unlink _ => false
  | .xdp_attach _ _ => false
  | .tc_hook_destroy _ => false
  | .tc_hook_create _ => false
  | .tc_attach _ _ => false
  | .sigwait => false

/-- The kernel, and which of the calls to come will fail. -/
structure Machine where
  kernel : Kernel
  faults : Nat → Bool

def Machine.tail (m : Machine) : Machine := { m with faults := fun n => m.faults (n + 1) }

def sys : Handler SysSig Machine := fun o m =>
  if m.faults 0 then (failure o, m.tail)
  else ((Kernel.call o m.kernel).1, { m.tail with kernel := (Kernel.call o m.kernel).2 })

/-! ### The tables of the two loaders -/

/-- `struct bpf_progs_desc`; an index of -1 is `none`. -/
structure ProgDesc where
  name : String
  pin : Bool
  map_prog_idx : Option Nat

/-- What differs between the two loaders: the tables `progs` and `maps`, the
    program arrays they look up, and the program for TC ingress if there is
    one. -/
structure Tables where
  progs : List ProgDesc
  maps : List String
  prog_arrays : List String
  tc : Option String

/-- `bpf_broker/bpf_broker_user.c`. -/
def hash_tables : Tables where
  progs := [⟨"xdp_broker", false, none⟩, ⟨"tc_ingress_broker", true, none⟩]
  maps := ["topic_subscribe", "topic_sub_cnt", "topic_first_sub", "pub_counter_2"]
  prog_arrays := ["map_progs_xdp", "map_progs_tc"]
  tc := some "tc_ingress_broker"

/-- `bpf_broker_xdp/bpf_broker_user.c`. -/
def clone_tables : Tables where
  progs := [⟨"xdp_broker", false, none⟩]
  maps := ["topic_sub_array", "topic_sub_cnt", "pub_counter_2"]
  prog_arrays := []
  tc := none

/-- The program for XDP. -/
def xdp_main : String := "xdp_broker"

/-! ### `main` -/

/-- How the process ends. -/
inductive Exit where
  | code (status : Int)
  /-- Out of fuel at `goto retry`. -/
  | fuel
  deriving DecidableEq

/-- A part of `main`, which may leave it. -/
abbrev Phase : Type := Prog SysSig (Option Exit)

def leave (status : Int) : Phase := .ret (some (.code status))

/-- A call whose failure leaves `main`. -/
def check (c : Check) (status : Int) : Phase :=
  .op (.check c) fun ok : Bool => if ok then .ret none else leave status

/-- The branch of `pin_map` for a pin that is in the way. -/
def repin_map (load : Nat) (map_name : String) : Phase :=
  .op (.unlink map_name) fun ok : Bool =>
    if !ok then leave (-1)
    else .op (.obj_pin (.map load map_name) map_name) fun r : PinResult =>
      if r = .pinned then .ret none else leave (-1)

/-- `pin_map`. -/
def pin_map (load : Nat) (map_name : String) : Phase :=
  (check (.find_map map_name) (-1)).andThen <|
    .op (.obj_pin (.map load map_name) map_name) fun r : PinResult =>
      match r with
      | .pinned => .ret none
      | .failed => leave (-1)
      | .eexist => .op (.obj_get map_name) fun _ => repin_map load map_name

/-- The label `retry` and the lines behind it. -/
def pin_program (load : Nat) (name : String) : Nat → Phase
  | 0 => .ret (some .fuel)
  | fuel + 1 =>
    .op (.program_pin name (.prog load name)) fun r : PinResult =>
      match r with
      | .pinned => .ret none
      | .failed => leave (-1)
      | .eexist =>
        .op (.program_unpin name) fun ok : Bool =>
          if !ok then leave (-1) else pin_program load name fuel

/-- Enter a program into its program array; both tables give no index. -/
def index_program (desc : ProgDesc) : Phase :=
  match desc.map_prog_idx with
  | none => .ret none
  | some index => check (.update_prog_array index) 1

/-- The loop over `progs` behind the load. -/
def setup_program (load fuel : Nat) (desc : ProgDesc) : Phase :=
  (check (.program_fd desc.name) 1).andThen <|
  (index_program desc).andThen <|
    if desc.pin then pin_program load desc.name fuel else .ret none

def attach_xdp (load : Nat) (ifindex : Nat) : Phase :=
  .op (.xdp_attach ifindex (some (.prog load xdp_main))) fun ok : Bool =>
    if ok then .ret none else leave 1

/-- A new qdisc, and the program on it. -/
def create_tc (load : Nat) (name : String) (ifindex : Nat) : Phase :=
  .op (.tc_hook_create ifindex) fun ok : Bool =>
    if !ok then leave 1
    else .op (.tc_attach ifindex (.prog load name)) fun ok : Bool =>
      if !ok then leave 1 else .ret none

/-- The loop over the interfaces that attaches the program for TC: a qdisc of
    an earlier run goes first, if there is one. -/
def attach_tc (load : Nat) (name : String) (ifindex : Nat) : Phase :=
  .op (.tc_hook_destroy ifindex) fun _ => create_tc load name ifindex

/-- The part of `main` behind the load. -/
def attach (t : Tables) (load fuel : Nat) (interfaces_idx : List Nat) : Phase :=
  (forEach (fun name => check (.find_map name) 1) t.prog_arrays).andThen <|
  (forEach (setup_program load fuel) t.progs).andThen <|
  (check (.program_fd xdp_main) 1).andThen <|
  (forEach (attach_xdp load) interfaces_idx).andThen <|
  (forEach (pin_map load) t.maps).andThen <|
    match t.tc with
    | none => .ret none
    | some name =>
      (check .calloc 1).andThen <|
      (check (.program_fd name) 1).andThen <|
      forEach (attach_tc load name) interfaces_idx

/-- `main` up to the point where it waits for a signal. -/
def start (t : Tables) (fuel : Nat) (interfaces_idx : List Nat) : Phase :=
  (check .setrlimit 1).andThen <|
  (check .object_open 1).andThen <|
  (forEach (fun desc => check (.find_program desc.name) 1) t.progs).andThen <|
    .op .object_load fun r : Option Nat =>
      match r with
      | none => leave 1
      | some load => attach t load fuel interfaces_idx

/-- Take an interface down; the results are not looked at. -/
def detach (t : Tables) (ifindex : Nat) : Phase :=
  let xdp : Phase := .op (.xdp_attach ifindex none) fun _ => .ret none
  match t.tc with
  | none => xdp
  | some _ => .op (.tc_hook_destroy ifindex) fun _ => xdp

/-- The last loop of `main`. -/
def teardown (t : Tables) (interfaces_idx : List Nat) : Phase := forEach (detach t) interfaces_idx

/-- Wait for a signal: each of the mask ends the loop. -/
def wait (t : Tables) (interfaces_idx : List Nat) : Phase :=
  (check .sigprocmask 1).andThen <|
    .op .sigwait fun ok : Bool =>
      if !ok then leave 1 else (teardown t interfaces_idx).andThen (leave 0)

/-! ### The arguments -/

def LONG_MAX : Int := 9223372036854775807

def LONG_MIN : Int := -9223372036854775808

/-- `strtol(arg, &endptr, 10)` where it uses up the argument: white space, a
    sign, digits; the value is cut to the range of `long`. -/
def strtol_all (arg : List Char) : Option Int :=
  let rest := arg.dropWhile fun c => c = ' ' ∨ ('\t' ≤ c ∧ c ≤ '\r')
  let (negative, digits) :=
    match rest with
    | '-' :: digits => (true, digits)
    | '+' :: digits => (false, digits)
    | digits => (false, digits)
  if digits = [] ∨ ¬ digits.all Char.isDigit then none
  else
    let n : Int := digits.foldl (fun n c => n * 10 + (c.toNat - '0'.toNat : Nat)) 0
    let v := if negative then -n else n
    some (if v > LONG_MAX then LONG_MAX else if v < LONG_MIN then LONG_MIN else v)

/-- The conversion of a `long` to an `int`. -/
def to_int (v : Int) : Int := (BitVec.ofInt 32 v).toInt

/-- `resolve_interface`, with the names that the system knows. -/
def resolve_interface (if_nametoindex : List Char → Nat) (arg : List Char) : Option Nat :=
  let byName := if if_nametoindex arg = 0 then none else some (if_nametoindex arg)
  match strtol_all arg with
  | none => byName
  | some v => if to_int v > 0 then some (to_int v).toNat else byName

/-- `main`, from its arguments. -/
def main (t : Tables) (if_nametoindex : List Char → Nat) (fuel : Nat) (args : List (List Char)) :
    Phase :=
  if args = [] then leave 1
  else
    (check .calloc 1).andThen <|
      match args.mapM (resolve_interface if_nametoindex) with
      | none => leave 1
      | some interfaces_idx =>
        (start t fuel interfaces_idx).andThen (wait t interfaces_idx)

end BpfBroker.Loader
