import BpfBroker.Benchmark.Publisher
import BpfBroker.Benchmark.Setup
import BpfBroker.Clone.Delivery
import BpfBroker.Hash.Statistics
import BpfBroker.Lib.Broadcast
import BpfBroker.Replacement

/-! # A Trial at the Broker

    The broker under test has been set up for the topic of a trial, whatever
    was done with it before. From then on it broadcasts: each message that
    reaches it goes to every socket of the trial once, with the same bytes.
    This holds of both brokers, up to the number of subscribers that each has
    room for. -/

namespace BpfBroker

open Buffer Broadcast Text

/-! ### The brokers on a sequence of frames -/

/-- The frames that the hash broker sends for those it receives. -/
def Hash.send_all : List (Hash.Env × Frame) → Hash.KernState → List Frame
  | [], _ => []
  | p :: ps, s =>
    let (sent, s) := Hash.receive p.1 p.2 s
    sent ++ Hash.send_all ps s

/-- The frames that the clone broker sends; a frame comes in on some CPU. -/
def Clone.send_all : List (Nat × Frame) → Clone.KernState → List Frame
  | [], _ => []
  | p :: ps, s =>
    let (sent, s) := Clone.receive p.1 p.2 s
    sent ++ Clone.send_all ps s

namespace Benchmark

/-- The frame carries the packet: an IPv4 datagram without options to the
    port of the packet, with its bytes. There may be bytes behind it. -/
structure FrameOf (f : Frame) (p : Packet) : Prop where
  eth_proto : rd16 f ETH_PROTO = bswap16 ETH_P_IP
  ihl : (rd8 f IP).toNat % 16 = 5
  protocol : (rd8 f IP_PROTOCOL).toNat = IPPROTO_UDP
  total : bswap16 (rd16 f (IP + 2)) = 20 + udp_len f
  udp_len : udp_len f = 8 + p.bytes.length
  dest_port : bswap16 (rd16 f UDP_DEST) = p.dest_port
  payload : p.bytes <+: payload f

/-- The message publishes to the topic. -/
def PublishesTo (topic : List UInt8) (p : Packet) : Prop :=
  49152 ≤ p.dest_port ∧ p.dest_port < 49168 ∧ ∃ rest, p.bytes = PUBLISH ++ (topic ++ SP :: rest)

theorem FrameOf.wire {f : Frame} {p : Packet} (h : FrameOf f p) {topic : List UInt8}
    (hp : PublishesTo topic p) : Wire f p.bytes := by
  obtain ⟨hlo, hhi, -⟩ := hp
  refine ⟨h.eth_proto, h.ihl, h.protocol, h.total, ?_, h.udp_len, h.payload⟩
  have hlast : p.dest_port ≤ 49167 := by omega
  unfold broker_port
  rw [h.dest_port]
  simp [Nat.not_lt.mpr hlo, Nat.not_lt.mpr hlast]

/-- A frame with a message of the trial is a publication to its topic. -/
theorem FrameOf.publishes {f : Frame} {p : Packet} (h : FrameOf f p) {topic : List UInt8}
    (htopic : ShortToken topic) (hp : PublishesTo topic p) :
    Publishes f (TopicKey.ofName topic) ∧ udp_payload f = p.bytes := by
  have hwire := h.wire hp
  obtain ⟨-, -, rest, hbytes⟩ := hp
  obtain ⟨message, hframe⟩ := hwire.publishFrame hbytes
  have hpub := hframe.publishes htopic.toToken
  rw [htopic.pub_key_eq] at hpub
  exact ⟨hpub, hwire.udp_payload_eq⟩

/-- What a frame is for whoever receives it: a destination and some bytes. -/
def delivery (g : Frame) : SockAddr × List UInt8 := (dst g, udp_payload g)

/-- Frames with the same data, by their destinations. -/
theorem map_delivery {frames : List Frame} {bytes : List UInt8}
    (h : ∀ g ∈ frames, udp_payload g = bytes) :
    frames.map delivery = (frames.map dst).map fun c => (c, bytes) := by
  rw [List.map_map]
  apply List.map_congr_left
  intro g hg
  show (dst g, udp_payload g) = (dst g, bytes)
  rw [h g hg]

/-- One more message for every member. -/
theorem copies_cons {members : List SockAddr} {m : List UInt8} {msgs : List (List UInt8)} :
    copies members (m :: msgs) = (members.map fun c => (c, m)) ++ copies members msgs := rfl

section brokers
variable {topic : List UInt8} {members : List SockAddr}

/-- **The hash broker broadcasts.** -/
theorem hash_broadcasts (htopic : ShortToken topic) (hnodup : members.Nodup) (hlt : members.length < 2 ^ 32)
    {fs : List (Hash.Env × Frame)} {packets : List Packet}
    (hfs : List.Forall₂ (fun e p => e.1.Healthy ∧ FrameOf e.2 p) fs packets)
    (hpackets : ∀ p ∈ packets, PublishesTo topic p) {s : Hash.KernState}
    {d : Directory Hash.MAX_TOPIC_ID} (hinv : Hash.Inv s.maps d)
    (hsubs : d.subs (TopicKey.ofName topic) = members) :
    ((Hash.send_all fs s).map delivery).Perm (copies members (packets.map Packet.bytes)) := by
  induction hfs generalizing s with
  | nil => exact List.Perm.nil
  | @cons e p fs packets hone _ ih =>
    obtain ⟨hpub, hbytes⟩ := hone.2.publishes htopic (hpackets p List.mem_cons_self)
    have hrest := ih (fun q hq => hpackets q (List.mem_cons_of_mem _ hq))
      (s := (Hash.receive e.1 e.2 s).2) (by rw [Hash.maps_receive]; exact hinv)
    have hdst := Hash.receive_audience hpub hone.1 hinv
    rw [hsubs, Hash.audience_eq_dedup hlt, hnodup.dedup] at hdst
    have hdata : ∀ g ∈ (Hash.receive e.1 e.2 s).1, udp_payload g = p.bytes := by
      intro g hg
      obtain ⟨_, _, _, _, _, _, hrew⟩ :=
        Hash.rewritten_of_sentTo (Hash.receive_sentTo hpub hone.1 s) hg
      rw [← hbytes]
      exact hrew.udp_payload_eq (length_of_refresh hpub.refresh)
    show ((Hash.receive e.1 e.2 s).1 ++ Hash.send_all fs _).map delivery |>.Perm _
    rw [List.map_append, map_delivery hdata, List.map_cons, copies_cons]
    exact (hdst.map _).append hrest

/-- **The clone broker broadcasts.** -/
theorem clone_broadcasts (htopic : ShortToken topic) {fs : List (Nat × Frame)}
    {packets : List Packet}
    (hfs : List.Forall₂ (fun e p => FrameOf e.2 p) fs packets)
    (hpackets : ∀ p ∈ packets, PublishesTo topic p) {s : Clone.KernState}
    {d : Directory Clone.MAX_TOPIC_ID} (hinv : Clone.Inv s.maps d)
    (hsubs : d.subs (TopicKey.ofName topic) = members) :
    ((Clone.send_all fs s).map delivery).Perm (copies members (packets.map Packet.bytes)) := by
  induction hfs generalizing s with
  | nil => exact List.Perm.nil
  | @cons e p fs packets hone _ ih =>
    obtain ⟨hpub, hbytes⟩ := hone.publishes htopic (hpackets p List.mem_cons_self)
    have hmaps : (Clone.receive e.1 e.2 s).2.maps = s.maps := Clone.maps_receive e.1 e.2 s
    have hrest := ih (fun q hq => hpackets q (List.mem_cons_of_mem _ hq))
      (s := (Clone.receive e.1 e.2 s).2) (by rw [hmaps]; exact hinv)
    have hdst : (Clone.receive e.1 e.2 s).1.map dst = members :=
      (Clone.receive_dst hinv hpub e.1 s.pub_counter_2).trans hsubs
    have hdata : ∀ g ∈ (Clone.receive e.1 e.2 s).1, udp_payload g = p.bytes := by
      intro g hg
      have hframes : (Clone.receive e.1 e.2 s).1 = _ :=
        Clone.receive_frames hinv hpub e.1 s.pub_counter_2
      rw [hframes] at hg
      obtain ⟨c, -, rfl⟩ := List.mem_map.mp hg
      have hlen := length_of_refresh hpub.refresh
      rw [← hbytes]
      exact (xdp_rewrite_rewritten (pack c) hlen 1024).udp_payload_eq hlen
    show ((Clone.receive e.1 e.2 s).1 ++ Clone.send_all fs _).map delivery |>.Perm _
    rw [List.map_append, map_delivery hdata, hdst, List.map_cons, copies_cons]
    exact hrest.append_left _

end brokers

/-! ### The brokers in a trial -/

/-- What the broker has served up to a trial: anything at all, then the FLUSH
    and the REGISTER, then the SUBSCRIBEs of the sockets in some order, with
    requests about other topics in between. -/
structure Setup (topic : List UInt8) (host : UInt32) (subs : Nat) where
  earlier : List Request
  flusher : SockAddr
  registrar : SockAddr
  joining : List Request
  kept : ∀ q ∈ joining, ¬ (parse_request q).Flushes (TopicKey.ofName topic)
  joined : (joins (TopicKey.ofName topic) joining).Perm (sockets host subs)

section setup
variable {topic : List UInt8} {host : UInt32} {subs : Nat}

def Setup.requests (x : Setup topic host subs) : List Request :=
  x.earlier ++ clear topic x.flusher x.registrar ++ x.joining

/-- What a broker sends when these packets reach it, each in a frame of its own.
    The conditions are those of its tables: the topic is known from before or
    one more fits in; there are at most 256 sockets with the hash broker and
    2048 with the clone broker. For the hash broker, no helper that the kernel
    programs call fails. -/
inductive Sends (x : Setup topic host subs) (packets : List Packet) : List Frame → Prop where
  | hash (ord : Hash.HashOrder) (stats : Hash.Stats) (fs : List (Hash.Env × Frame))
      (hfs : List.Forall₂ (fun e p => e.1.Healthy ∧ FrameOf e.2 p) fs packets) (hsubs : subs ≤ 256)
      (hfits : (Directory.after Hash.room x.earlier : Directory Hash.MAX_TOPIC_ID).fits
        (TopicKey.ofName topic)) :
    Sends x packets (Hash.send_all fs ⟨(Hash.serve_all ord x.requests .empty).2, stats⟩)
  | clone (pub : Nat → UInt32) (fs : List (Nat × Frame))
      (hfs : List.Forall₂ (fun e p => FrameOf e.2 p) fs packets) (hsubs : subs ≤ 2048)
      (hfits : (Directory.after Clone.room x.earlier : Directory Clone.MAX_TOPIC_ID).fits
        (TopicKey.ofName topic)) :
    Sends x packets (Clone.send_all fs ⟨(Clone.serve_all x.requests .empty).2, pub⟩)

/-- There are no more sockets than ports. -/
theorem Sends.subs_le {x : Setup topic host subs} {packets : List Packet} {sent : List Frame}
    (h : Sends x packets sent) : subs ≤ 50536 := by
  cases h with
  | hash _ _ _ _ hsubs _ => exact hsubs.trans (by decide)
  | clone _ _ _ hsubs _ => exact hsubs.trans (by decide)

/-- The clients of the topic when the trial starts. -/
theorem Setup.subs_eq (x : Setup topic host subs) (htopic : ShortToken topic) {cap : Nat}
    {room : List SockAddr → SockAddr → Bool}
    (hfits : (Directory.after room x.earlier : Directory cap).fits (TopicKey.ofName topic))
    (hroom : ∀ pre c, (pre ++ [c]).length ≤ subs → room pre c = true) :
    (Directory.after room x.requests : Directory cap).subs (TopicKey.ofName topic) =
      joins (TopicKey.ofName topic) x.joining := by
  obtain ⟨hmem, hnone⟩ := after_clear htopic hfits x.flusher x.registrar
  refine (subs_joins hmem hnone x.kept ?_).2
  intro pre c hpre
  apply hroom
  calc (pre ++ [c]).length ≤ (joins (TopicKey.ofName topic) x.joining).length := hpre.length_le
    _ = subs := by rw [x.joined.length_eq, length_sockets]

/-- **Either broker broadcasts** to the sockets of the trial. -/
theorem Sends.broadcast {x : Setup topic host subs} {packets : List Packet} {sent : List Frame}
    (h : Sends x packets sent) (htopic : ShortToken topic)
    (hpackets : ∀ p ∈ packets, PublishesTo topic p) :
    (sent.map delivery).Perm (copies (sockets host subs) (packets.map Packet.bytes)) := by
  have hjoined := copies_perm x.joined (List.Perm.refl (packets.map Packet.bytes))
  have hlength : (joins (TopicKey.ofName topic) x.joining).length = subs := by
    rw [x.joined.length_eq, length_sockets]
  have hnodup := x.joined.nodup_iff.mpr (nodup_sockets host h.subs_le)
  cases h with
  | hash ord stats fs hfs hsubs hfits =>
    have hclients := x.subs_eq htopic hfits fun pre c hle =>
      Hash.room_of_dedup (((List.dedup_sublist _).length_le.trans hle).trans hsubs)
    have hlt : (joins (TopicKey.ofName topic) x.joining).length < 2 ^ 32 := by omega
    exact (hash_broadcasts htopic hnodup hlt hfs hpackets
      (Hash.serve_all_refines ord x.requests).2 hclients).trans hjoined
  | clone pub fs hfs hsubs hfits =>
    have hclients := x.subs_eq htopic hfits fun pre c hle => by
      rw [List.length_append, List.length_singleton] at hle
      exact decide_eq_true (show pre.length < 2048 by omega)
    exact (clone_broadcasts htopic hfs hpackets (Clone.serve_all_refines x.requests).2
      hclients).trans hjoined

end setup

end Benchmark

end BpfBroker
