import BpfBroker.Lib.Buffer
import BpfBroker.Lib.OnesComplement
import BpfBroker.Topic

/-! # Packets

    The packet code that `bpf_broker_kern.c` contains in both brokers: header
    parsing, prefix test, checksums, and the in-place header rewriting of the
    XDP programs. A frame is the bytes from `data` to `data_end`; the
    programs look for the headers at fixed offsets (Ethernet at 0, IPv4
    without options at 14, UDP at 34, payload at 42). The host is
    little-endian, so `bpf_ntohs` swaps bytes. -/

namespace BpfBroker

open Buffer OnesComplement

/-- The bytes of a frame, from `data` to `data_end`. -/
abbrev Frame : Type := List UInt8

/-! ### Layout of `struct ethhdr`, `struct iphdr` and `struct udphdr` -/

@[simp] abbrev ETH_DEST : Nat := 0
@[simp] abbrev ETH_SOURCE : Nat := 6
@[simp] abbrev ETH_PROTO : Nat := 12
@[simp] abbrev IP : Nat := 14
@[simp] abbrev IP_PROTOCOL : Nat := 23
@[simp] abbrev IP_CHECK : Nat := 24
@[simp] abbrev IP_SADDR : Nat := 26
@[simp] abbrev IP_DADDR : Nat := 30
@[simp] abbrev UDP : Nat := 34
@[simp] abbrev UDP_SOURCE : Nat := 34
@[simp] abbrev UDP_DEST : Nat := 36
@[simp] abbrev UDP_LEN : Nat := 38
@[simp] abbrev UDP_CHECK : Nat := 40
@[simp] abbrev PAYLOAD : Nat := 42

def ETH_ALEN : Nat := 6
def ETH_P_IP : Nat := 0x0800
def IPPROTO_UDP : Nat := 17

/-- Byte swap of a 16-bit word: `bpf_ntohs` and `bpf_htons`. -/
def bswap16 (n : Nat) : Nat := n % 256 * 256 + n / 256 % 256

/-! ### Parsing -/

/-- `refresh_headers`: Ethernet, IPv4 and UDP headers are inside the frame
    and the two protocol fields match; `false` is the return value -1. -/
def refresh_headers (f : Frame) : Bool :=
  IP ≤ f.length && rd16 f ETH_PROTO == bswap16 ETH_P_IP &&
  (UDP ≤ f.length && (rd8 f IP_PROTOCOL).toNat == IPPROTO_UDP) &&
  PAYLOAD ≤ f.length

/-- `parse_udp_packet`: the same tests, and at least one byte of payload. -/
def parse_udp_packet (f : Frame) : Bool :=
  refresh_headers f && PAYLOAD + 1 ≤ f.length

/-- The destination port test both programs make: 49152 to 49167. -/
def broker_port (f : Frame) : Bool :=
  let dport := bswap16 (rd16 f UDP_DEST)
  !(dport < 49152 || 49167 < dport)

/-- `starts_with(p, pre, end)` on the bytes from `p` up to `end`. -/
def starts_with : (p pre : List UInt8) → Bool
  | _, [] => true
  | [], _ :: _ => false
  | c :: p, d :: pre => c == d && starts_with p pre

/-- The bytes from the payload up to the end of the frame. -/
def payload (f : Frame) : List UInt8 := f.drop PAYLOAD

/-- The text `"PUBLISH "`. -/
def PUBLISH : List UInt8 := [80, 85, 66, 76, 73, 83, 72, 32]

/-! ### Checksums -/

/-- The loop of `compute_ip_checksum`: `n` words left, at word `i`. -/
def ip_word_loop (f : Frame) : (n i csum : Nat) → Nat
  | 0, _, csum => csum
  | n + 1, i, csum => ip_word_loop f n (i + 1) ((csum + rd16 f (IP + 2 * i)) % 4294967296)

/-- `compute_ip_checksum` over the 20 bytes of the IPv4 header. -/
def compute_ip_checksum (f : Frame) : Nat := finish (ip_word_loop f 10 0 0)

/-- The word loop of `compute_udp_checksum`, with `n` iterations of its
    budget left at word `i`; returns the sum and the word it stopped at. -/
def udp_word_loop (f : Frame) (udp_len : Nat) : (n i csum : Nat) → Nat × Nat
  | 0, i, csum => (csum, i)
  | n + 1, i, csum =>
    if f.length < UDP + 2 * i + 2 || udp_len ≤ 2 * i then (csum, i)
    else udp_word_loop f udp_len n (i + 1) ((csum + rd16 f (UDP + 2 * i)) % 4294967296)

/-- The pseudo-header part of `compute_udp_checksum`. -/
def pseudo_header_sum (f : Frame) : Nat :=
  rd32 f IP_SADDR / 65536 + rd32 f IP_SADDR % 65536 +
  (rd32 f IP_DADDR / 65536 + rd32 f IP_DADDR % 65536) +
  bswap16 IPPROTO_UDP + rd16 f UDP_LEN

/-- `compute_udp_checksum` with a loop of `budget` words: 128 in
    `bpf_broker`, 1024 in `bpf_broker_xdp`. -/
def compute_udp_checksum (budget : Nat) (f : Frame) : Nat :=
  let udp_len := bswap16 (rd16 f UDP_LEN)
  let (csum, i) := udp_word_loop f udp_len budget 0 (pseudo_header_sum f)
  -- an odd length adds the byte at the pointer the loop left behind
  let csum :=
    if udp_len % 2 = 1 ∧ UDP + 2 * i < f.length then
      (csum + (rd8 f (UDP + 2 * i)).toNat * 256) % 4294967296
    else csum
  finish csum

/-! ### Rewriting -/

/-- The destination a packed subscriber key stands for. -/
def dest_ip (packed : UInt64) : Nat := packed.toNat / 4294967296

def dest_port (packed : UInt64) : Nat := packed.toNat / 65536 % 65536

/-- The three `__builtin_memcpy` calls that swap the MAC addresses. -/
def swap_macs (f : Frame) : Frame :=
  let temp_mac := slice f ETH_SOURCE ETH_ALEN
  let f := wr f ETH_SOURCE (slice f ETH_DEST ETH_ALEN)
  wr f ETH_DEST temp_mac

/-- The rewriting of the XDP programs: swap the MAC addresses, turn the
    packet around to the subscriber and recompute both checksums. -/
def xdp_rewrite (budget : Nat) (packed : UInt64) (f : Frame) : Frame :=
  let f := swap_macs f
  let f := wr32 f IP_SADDR (rd32 f IP_DADDR)
  let f := wr32 f IP_DADDR (dest_ip packed)
  let f := wr16 f IP_CHECK 0
  let f := wr16 f IP_CHECK (compute_ip_checksum f)
  let f := wr16 f UDP_SOURCE (rd16 f UDP_DEST)
  let f := wr16 f UDP_DEST (dest_port packed)
  let f := wr16 f UDP_CHECK 0
  wr16 f UDP_CHECK (compute_udp_checksum budget f)

/-! ### The kernel's incremental checksum update

    `bpf_l3_csum_replace` and `bpf_l4_csum_replace` apply `csum_replace4` for
    4-byte and `csum_replace2` for 2-byte values to the checksum field at the
    given offset. Addition is one's-complement addition of 32-bit or 16-bit
    words: the carry comes back in at the low end. -/

/-- `csum_add`: 32-bit addition with end-around carry. -/
def csum_add (a b : Nat) : Nat :=
  let s := (a + b) % 4294967296
  if s < b then s + 1 else s

/-- `csum_sub`: add the complement. -/
def csum_sub (a b : Nat) : Nat := csum_add a (4294967295 - b)

/-- `csum_replace4(&check, from, to)`. -/
def csum_replace4 (check old new : Nat) : Nat :=
  finish (csum_add (csum_sub (4294967295 - check) old) new)

/-- `csum16_add`: 16-bit addition with end-around carry. -/
def csum16_add (a b : Nat) : Nat :=
  let s := (a + b) % 65536
  if s < b then s + 1 else s

/-- `csum_replace2(&check, from, to)`. -/
def csum_replace2 (check old new : Nat) : Nat :=
  65535 - csum16_add (csum16_add (65535 - check) (65535 - old)) new

/-- `bpf_l3_csum_replace` with a 4-byte field; `none` is a negative return
    value, which leaves the packet alone. -/
def bpf_l3_csum_replace (fails : Bool) (f : Frame) (offset old new : Nat) : Option Frame :=
  if fails then none else some (wr16 f offset (csum_replace4 (rd16 f offset) old new))

/-- `bpf_l4_csum_replace` with a 4-byte field of the pseudo-header. -/
def bpf_l4_csum_replace4 (fails : Bool) (f : Frame) (offset old new : Nat) : Option Frame :=
  if fails then none else some (wr16 f offset (csum_replace4 (rd16 f offset) old new))

/-- `bpf_l4_csum_replace` with a 2-byte field. -/
def bpf_l4_csum_replace2 (fails : Bool) (f : Frame) (offset old new : Nat) : Option Frame :=
  if fails then none else some (wr16 f offset (csum_replace2 (rd16 f offset) old new))

end BpfBroker
