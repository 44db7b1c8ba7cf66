import BpfBroker.Publish

/-! # A Reference Parser

    The UDP datagram in a frame as the IPv4 and UDP specifications place it:
    the header length comes from the IHL field, a fragment other than the
    first has no UDP header at all, and the data end where the total length of
    the packet or the length of the datagram ends them, whatever the frame
    holds behind. The kernel programs look at none of this; they find the
    datagram as if its header had no options, and take the rest of the frame
    for its data. -/

namespace BpfBroker.Reference

open Buffer

/-! ### Fields -/

/-- A 16-bit field in network byte order. -/
def be16 (f : Frame) (i : Nat) : Nat := (rd8 f i).toNat * 256 + (rd8 f (i + 1)).toNat

def version (f : Frame) : Nat := (rd8 f IP).toNat / 16

/-- The length of the IPv4 header, in words of four bytes. -/
def ihl (f : Frame) : Nat := (rd8 f IP).toNat % 16

/-- The length of the IPv4 packet. -/
def total_length (f : Frame) : Nat := be16 f 16

/-- The low 13 bits of the field behind the identification. -/
def fragment_offset (f : Frame) : Nat := be16 f 20 % 8192

/-- Where the UDP header begins. -/
def udp_start (f : Frame) : Nat := 14 + 4 * ihl f

/-- The length of the UDP datagram, header included. -/
def udp_length (f : Frame) : Nat := be16 f (udp_start f + 4)

/-- Where the datagram ends, or the part of it that a first fragment carries. -/
def datagram_end (f : Frame) : Nat := min (14 + total_length f) (udp_start f + udp_length f)

/-- The frame up to the end of its datagram. -/
def without_trailer (f : Frame) : Frame := f.take (datagram_end f)

/-! ### Parsing -/

/-- The offset of the UDP header, if the frame has one. -/
def udp_header (f : Frame) : Option Nat :=
  if f.length < 14 then none
  else if be16 f ETH_PROTO ≠ ETH_P_IP then none
  else if f.length < 34 then none
  else if version f ≠ 4 then none
  else if ihl f < 5 then none
  else if f.length < udp_start f then none
  else if fragment_offset f ≠ 0 then none
  else if (rd8 f IP_PROTOCOL).toNat ≠ IPPROTO_UDP then none
  else if total_length f < 4 * ihl f + 8 then none
  else if f.length < udp_start f + 8 then none
  else if udp_length f < 8 then none
  else some (udp_start f)

/-- The payload of a UDP datagram to one of the broker's ports. -/
def broker_payload (f : Frame) : Option (List UInt8) :=
  match udp_header f with
  | none => none
  | some off =>
    let dport := be16 f (off + 2)
    if 49152 ≤ dport ∧ dport ≤ 49167 then some ((without_trailer f).drop (off + 8)) else none

/-- The frame carries a publication. -/
def is_publish (f : Frame) : Bool :=
  match broker_payload f with
  | none => false
  | some p => starts_with p PUBLISH

/-- The frame carries a publication to the topic with the key `t`. -/
structure Genuine (f : Frame) (t : TopicKey) : Prop where
  publish : is_publish f = true
  topic : ∀ p, broker_payload f = some p → extract_topic_id (p.drop 8) = some t

/-! ### The UDP checksum

    By the UDP specification, the complement of the one's-complement sum of
    the pseudo-header and the datagram, taken as 16-bit words in network byte
    order and padded with one zero byte when the length is odd. -/

/-- Bytes as words in network byte order. -/
def be_words : List UInt8 → List Nat
  | [] => []
  | [a] => [a.toNat * 256]
  | a :: b :: bs => (a.toNat * 256 + b.toNat) :: be_words bs

/-- Both addresses, a zero byte, the protocol and the UDP length. -/
def pseudo_header (f : Frame) : List UInt8 :=
  slice f IP_SADDR 4 ++ (slice f IP_DADDR 4 ++ ([0, 17] ++ slice f UDP_LEN 2))

/-- UDP header and data. -/
def datagram (f : Frame) : List UInt8 := slice f UDP (be16 f UDP_LEN)

/-- The checksum of the datagram in a frame, with the checksum field itself
    taken as 0. -/
def udp_checksum (f : Frame) : Nat :=
  let f := wr16 f UDP_CHECK 0
  65535 - OnesComplement.ones_sum (be_words (pseudo_header f ++ datagram f))

/-! ### What the kernel programs would have to see -/

theorem be16_eq (f : Frame) (i : Nat) : be16 f i = bswap16 (rd16 f i) := by
  have h0 := (rd8 f i).toNat_lt
  have h1 := (rd8 f (i + 1)).toNat_lt
  unfold be16 bswap16 rd16
  omega

section bare
variable {f : Frame} (hlen : udp_start f + 8 ≤ f.length) (hend : udp_start f + 8 ≤ datagram_end f)
  (hihl : 5 ≤ ihl f)

end bare

section plain
variable {f : Frame} {t : TopicKey} (ht : Publishes f t) (hihl : ihl f = 5)
include ht hihl

end plain

end BpfBroker.Reference
