import BpfBroker.Control

/-! # PUBLISH Frames

    The frames the kernel programs act on, the key each programme looks up for
    them, and what the rewriting leaves in the header fields. -/

namespace BpfBroker

open Buffer CString

/-! ### Topic tokens -/

/-- A token as the kernel reads it: no space, NUL or LF. -/
structure Token (t : List UInt8) : Prop where
  ne_nil : t ≠ []
  no_delim : ∀ c ∈ t, isDelim c = false

/-- A token both sides read alike: at most 19 bytes and no CR either. -/
structure ShortToken (t : List UInt8) : Prop extends Token t where
  length_lt : t.length < MAX_TOPIC_ID_CHARS
  no_cr : CR ∉ t

theorem Token.no_nul {t : List UInt8} (h : Token t) : NUL ∉ t := by
  intro hmem
  have := h.no_delim NUL hmem
  exact absurd this (by decide)

theorem Token.pubName_eq {t : List UInt8} (h : Token t) (message : List UInt8) :
    pubName (t ++ SP :: message) = t := by
  unfold pubName
  rw [List.takeWhile_append_of_pos (fun c hc => by simp [h.no_delim c hc])]
  simp [isDelim]

theorem ShortToken.ctlName_eq {t : List UInt8} (h : ShortToken t) : ctlName t = t := by
  unfold ctlName
  rw [List.takeWhile_eq_self_iff]
  intro b hb
  have hd := h.no_delim b hb
  have hcr : b ≠ CR := fun heq => h.no_cr (heq ▸ hb)
  simp only [isDelim, decide_eq_false_iff_not, not_or] at hd
  simp [isNewline, hd.2.1, hd.2.2, hcr]

/-- The key under which the kernel looks a token up: its first 19 bytes. -/
def pub_key (token : List UInt8) : TopicKey :=
  TopicKey.ofName (token.take (MAX_TOPIC_ID_CHARS - 1))

theorem ShortToken.pub_key_eq {t : List UInt8} (h : ShortToken t) :
    pub_key t = TopicKey.ofName t := by
  unfold pub_key
  rw [List.take_of_length_le (Nat.le_sub_one_of_lt h.length_lt)]

/-- The key under which the control process stores it. -/
theorem ShortToken.topic_key_eq {t : List UInt8} (h : ShortToken t) {n : Nat}
    (hn : MAX_TOPIC_ID_CHARS ≤ n) (stack : List UInt8) :
    topic_key_of (topic_key_buffer (t.take n) ++ stack) = some (TopicKey.ofName t) := by
  have hlt := h.length_lt
  rw [List.take_of_length_le (by omega), topic_key_of_buffer, h.ctlName_eq, if_pos hlt]

/-! ### Frames -/

/-- A UDP frame to one of the broker's ports whose payload publishes `message`
    to `token`. Nothing is asked of the other header fields. -/
structure PublishFrame (f : Frame) (token message : List UInt8) : Prop where
  eth_proto : rd16 f ETH_PROTO = bswap16 ETH_P_IP
  protocol : (rd8 f IP_PROTOCOL).toNat = IPPROTO_UDP
  port : 49152 ≤ bswap16 (rd16 f UDP_DEST) ∧ bswap16 (rd16 f UDP_DEST) ≤ 49167
  payload_eq : payload f = PUBLISH ++ (token ++ SP :: message)

/-- `starts_with` is a prefix test. -/
theorem starts_with_iff {p pre : List UInt8} : starts_with p pre = true ↔ pre <+: p := by
  induction pre generalizing p with
  | nil => cases p <;> simp [starts_with]
  | cons d pre ih =>
    cases p with
    | nil => simp [starts_with]
    | cons c p =>
      rw [starts_with, Bool.and_eq_true, ih, beq_iff_eq, List.cons_prefix_cons, eq_comm]

section frame
variable {f : Frame} {token message : List UInt8}

theorem PublishFrame.length_lt (h : PublishFrame f token message) : PAYLOAD < f.length := by
  have hlen := congrArg List.length h.payload_eq
  unfold payload at hlen
  simp only [List.length_drop, List.length_append, List.length_cons] at hlen
  omega

theorem PublishFrame.refresh (h : PublishFrame f token message) : refresh_headers f = true := by
  have hlen := h.length_lt
  unfold refresh_headers
  rw [h.eth_proto, h.protocol]
  simp only [IP, UDP, PAYLOAD] at hlen ⊢
  simp only [beq_self_eq_true, Bool.and_true, Bool.and_eq_true, decide_eq_true_eq]
  omega

theorem PublishFrame.parse (h : PublishFrame f token message) : parse_udp_packet f = true := by
  unfold parse_udp_packet
  rw [h.refresh, Bool.true_and]
  exact decide_eq_true h.length_lt

theorem PublishFrame.broker_port (h : PublishFrame f token message) : broker_port f = true := by
  obtain ⟨hlo, hhi⟩ := h.port
  unfold BpfBroker.broker_port
  simp [Nat.not_lt.mpr hlo, Nat.not_lt.mpr hhi]

theorem PublishFrame.starts_with (h : PublishFrame f token message) :
    starts_with (payload f) PUBLISH = true := by
  rw [h.payload_eq]
  exact starts_with_iff.mpr (List.prefix_append _ _)

/-- **The key of a frame** is that of its token. -/
theorem PublishFrame.topic_id (h : PublishFrame f token message) (ht : Token token) :
    extract_topic_id ((payload f).drop 8) = some (pub_key token) := by
  have hdrop : (payload f).drop 8 = token ++ SP :: message := by
    rw [h.payload_eq]
    rfl
  rw [hdrop, extract_topic_id_eq, ht.pubName_eq, if_pos]
  · rfl
  · left
    simp

end frame

/-- The kernel programs take `f` for a publication under the key `t`. -/
structure Publishes (f : Frame) (t : TopicKey) : Prop where
  parse : parse_udp_packet f = true
  broker_port : broker_port f = true
  starts_with : starts_with (payload f) PUBLISH = true
  topic_id : extract_topic_id ((payload f).drop 8) = some t

/-- The tests that both kernel programs make before they look at the topic. -/
def is_publish (f : Frame) : Bool :=
  parse_udp_packet f && broker_port f && starts_with (payload f) PUBLISH

theorem publishes_iff {f : Frame} {t : TopicKey} :
    Publishes f t ↔ is_publish f = true ∧ extract_topic_id ((payload f).drop 8) = some t := by
  unfold is_publish
  simp only [Bool.and_eq_true]
  refine ⟨?_, ?_⟩
  · intro h
    exact ⟨⟨⟨h.parse, h.broker_port⟩, h.starts_with⟩, h.topic_id⟩
  · intro h
    exact ⟨h.1.1.1, h.1.1.2, h.1.2, h.2⟩

/-- The TC program does not ask for a byte of payload, but the prefix does. -/
theorem is_publish_eq (f : Frame) :
    is_publish f = (refresh_headers f && broker_port f && starts_with (payload f) PUBLISH) := by
  unfold is_publish parse_udp_packet
  rcases hs : starts_with (payload f) PUBLISH with _ | _
  · rw [Bool.and_false, Bool.and_false]
  · have hlen := (starts_with_iff.mp hs).length_le
    have h8 : PUBLISH.length = 8 := rfl
    unfold payload at hlen
    rw [List.length_drop, h8] at hlen
    have hlong : PAYLOAD + 1 ≤ f.length := by omega
    rw [decide_eq_true hlong, Bool.and_true, Bool.and_true, Bool.and_true]

theorem PublishFrame.publishes {f : Frame} {token message : List UInt8}
    (h : PublishFrame f token message) (ht : Token token) : Publishes f (pub_key token) :=
  ⟨h.parse, h.broker_port, h.starts_with, h.topic_id ht⟩

/-- The headers of a datagram from 10.0.0.7:5000 to 10.0.0.1:49152. The
    lengths and checksums are those of the payload `PUBLISH a hi`. -/
def sample_header : List UInt8 :=
  [2, 0, 0, 0, 0, 1, 2, 0, 0, 0, 0, 2, 8, 0,
   69, 0, 0, 40, 0, 1, 0, 0, 64, 17, 102, 189, 10, 0, 0, 7, 10, 0, 0, 1,
   19, 136, 192, 0, 0, 20, 42, 151]

def sample_frame (token message : List UInt8) : Frame :=
  sample_header ++ (PUBLISH ++ (token ++ SP :: message))

/-- There is a PUBLISH frame for every token. -/
theorem sample_frame_publish (token message : List UInt8) :
    PublishFrame (sample_frame token message) token message := by
  have hport : rd16 (sample_frame token message) UDP_DEST = 192 := rfl
  exact ⟨rfl, rfl, by rw [hport]; decide, rfl⟩

/-- The token `a`. -/
theorem shortToken_a : ShortToken [97] :=
  ⟨⟨by decide, List.forall_mem_singleton.mpr (by decide)⟩, by decide, by decide⟩

/-- A client that subscribed twice and one that subscribed once, on a topic
    that was flushed in between. -/
def sample_requests : List Request :=
  [datagram REGISTER [97] ⟨0x0700000a, 0x8813⟩,
   datagram SUBSCRIBE [97] ⟨0x0300000a, 0x0a00⟩,
   datagram FLUSH [97] ⟨0x0700000a, 0x8813⟩,
   datagram SUBSCRIBE [97] ⟨0x0700000a, 0x8813⟩,
   datagram SUBSCRIBE [97] ⟨0x0800000a, 0x8813⟩,
   datagram SUBSCRIBE [97] ⟨0x0700000a, 0x8813⟩]

/-- One client on the topic of the sample frame. -/
def one_client : List Request :=
  [datagram REGISTER [97] ⟨0x0700000a, 0x8813⟩, datagram SUBSCRIBE [97] ⟨0x0800000a, 0x8813⟩]

/-- A second one, at 10.0.0.8:15902. -/
def two_clients : List Request :=
  one_client ++ [datagram SUBSCRIBE [97] ⟨0x0800000a, 0x1e3e⟩]

/-! ### Addresses -/

/-- The destination of a frame. -/
def dst (f : Frame) : SockAddr :=
  ⟨UInt32.ofNat (rd32 f IP_DADDR), UInt16.ofNat (rd16 f UDP_DEST)⟩

/-- The source of a frame. -/
def src (f : Frame) : SockAddr :=
  ⟨UInt32.ofNat (rd32 f IP_SADDR), UInt16.ofNat (rd16 f UDP_SOURCE)⟩

theorem dest_ip_pack (c : SockAddr) : dest_ip (pack c) = c.sin_addr.toNat := by
  have hp := c.sin_port.toNat_lt
  unfold dest_ip
  rw [pack_toNat]
  omega

theorem dest_port_pack (c : SockAddr) : dest_port (pack c) = c.sin_port.toNat := by
  have hp := c.sin_port.toNat_lt
  unfold dest_port
  rw [pack_toNat]
  omega

/-- The client a packed subscriber stands for. -/
def unpack (packed : UInt64) : SockAddr :=
  ⟨UInt32.ofNat (dest_ip packed), UInt16.ofNat (dest_port packed)⟩

@[simp] theorem unpack_pack (c : SockAddr) : unpack (pack c) = c := by
  unfold unpack
  rw [dest_ip_pack, dest_port_pack, UInt32.ofNat_toNat, UInt16.ofNat_toNat]

theorem map_unpack_pack (cs : List SockAddr) : (cs.map pack).map unpack = cs := by
  simp [Function.comp_def]

/-- A frame with a packed subscriber in its destination fields goes to that
    subscriber. -/
theorem dst_eq {f : Frame} {packed : UInt64} (haddr : rd32 f IP_DADDR = dest_ip packed)
    (hport : rd16 f UDP_DEST = dest_port packed) : dst f = unpack packed := by
  unfold dst unpack
  rw [haddr, hport]

/-! ### Rewriting -/

/-- `g` is `f` with the MAC addresses swapped and new values in the address,
    port and checksum fields, and nothing else changed. -/
structure Rewritten (f g : Frame) (saddr daddr source dest ip_check udp_check : Nat) : Prop where
  length_eq : g.length = f.length
  other : ∀ i, i < IP_CHECK ∨ UDP_LEN ≤ i ∧ i < UDP_CHECK ∨ PAYLOAD ≤ i →
    rd8 g i = rd8 (swap_macs f) i
  ip_check : rd16 g IP_CHECK = ip_check
  saddr : rd32 g IP_SADDR = saddr
  daddr : rd32 g IP_DADDR = daddr
  source : rd16 g UDP_SOURCE = source
  dest : rd16 g UDP_DEST = dest
  udp_check : rd16 g UDP_CHECK = udp_check

theorem length_swap_macs (f : Frame) : (swap_macs f).length = f.length := by
  unfold swap_macs
  simp only [length_wr]

theorem rd8_swap_macs {f : Frame} (hlen : PAYLOAD ≤ f.length) {i : Nat} (hi : 12 ≤ i) :
    rd8 (swap_macs f) i = rd8 f i := by
  simp only [PAYLOAD] at hlen
  have h1 : (slice f ETH_SOURCE ETH_ALEN).length = 6 := length_slice (by simp [ETH_ALEN]; omega)
  have h2 : (slice f ETH_DEST ETH_ALEN).length = 6 := length_slice (by simp [ETH_ALEN]; omega)
  unfold swap_macs
  rw [rd8_wr_out (by rw [h1]; simp only [ETH_DEST]; omega),
    rd8_wr_out (by rw [h2]; simp only [ETH_SOURCE]; omega)]

theorem rd16_swap_macs {f : Frame} (hlen : PAYLOAD ≤ f.length) {i : Nat} (hi : 12 ≤ i) :
    rd16 (swap_macs f) i = rd16 f i := by
  unfold rd16
  rw [rd8_swap_macs hlen hi, rd8_swap_macs hlen (by omega)]

theorem rd32_swap_macs {f : Frame} (hlen : PAYLOAD ≤ f.length) {i : Nat} (hi : 12 ≤ i) :
    rd32 (swap_macs f) i = rd32 f i := by
  unfold rd32
  rw [rd16_swap_macs hlen hi, rd16_swap_macs hlen (by omega)]

/-- Only the MAC addresses swapped. -/
theorem rewritten_swap_macs {f : Frame} (hlen : PAYLOAD ≤ f.length) :
    Rewritten f (swap_macs f) (rd32 f IP_SADDR) (rd32 f IP_DADDR) (rd16 f UDP_SOURCE)
      (rd16 f UDP_DEST) (rd16 f IP_CHECK) (rd16 f UDP_CHECK) where
  length_eq := length_swap_macs f
  other _ _ := rfl
  ip_check := rd16_swap_macs hlen (by simp)
  saddr := rd32_swap_macs hlen (by simp)
  daddr := rd32_swap_macs hlen (by simp)
  source := rd16_swap_macs hlen (by simp)
  dest := rd16_swap_macs hlen (by simp)
  udp_check := rd16_swap_macs hlen (by simp)

section set
variable {f g : Frame} {saddr daddr source dest ip_check udp_check : Nat}
  (h : Rewritten f g saddr daddr source dest ip_check udp_check) (hlen : PAYLOAD ≤ f.length)
include h hlen

theorem Rewritten.room {off n : Nat} (hoff : off + n ≤ PAYLOAD) : off + n ≤ g.length := by
  rw [h.length_eq]
  exact Nat.le_trans hoff hlen

theorem Rewritten.set_ip_check {v : Nat} (hv : v < 65536) :
    Rewritten f (wr16 g IP_CHECK v) saddr daddr source dest v udp_check where
  length_eq := (length_wr16 _ _ _).trans h.length_eq
  other i hi := by
    rw [← h.other i hi]
    simp only [IP_CHECK, UDP_LEN, UDP_CHECK, PAYLOAD] at hi ⊢
    exact rd8_wr16_out (by omega)
  ip_check := by rw [rd16_wr16_in (h.room hlen (by simp)), Nat.mod_eq_of_lt hv]
  saddr := by rw [rd32_wr16_out (by simp), h.saddr]
  daddr := by rw [rd32_wr16_out (by simp), h.daddr]
  source := by rw [rd16_wr16_out (by simp), h.source]
  dest := by rw [rd16_wr16_out (by simp), h.dest]
  udp_check := by rw [rd16_wr16_out (by simp), h.udp_check]

theorem Rewritten.set_saddr {v : Nat} (hv : v < 4294967296) :
    Rewritten f (wr32 g IP_SADDR v) v daddr source dest ip_check udp_check where
  length_eq := (length_wr32 _ _ _).trans h.length_eq
  other i hi := by
    rw [← h.other i hi]
    simp only [IP_CHECK, IP_SADDR, UDP_LEN, UDP_CHECK, PAYLOAD] at hi ⊢
    exact rd8_wr32_out (by omega)
  ip_check := by rw [rd16_wr32_out (by simp), h.ip_check]
  saddr := by rw [rd32_wr32_in (h.room hlen (by simp)), Nat.mod_eq_of_lt hv]
  daddr := by rw [rd32_wr32_out (by simp), h.daddr]
  source := by rw [rd16_wr32_out (by simp), h.source]
  dest := by rw [rd16_wr32_out (by simp), h.dest]
  udp_check := by rw [rd16_wr32_out (by simp), h.udp_check]

theorem Rewritten.set_daddr {v : Nat} (hv : v < 4294967296) :
    Rewritten f (wr32 g IP_DADDR v) saddr v source dest ip_check udp_check where
  length_eq := (length_wr32 _ _ _).trans h.length_eq
  other i hi := by
    rw [← h.other i hi]
    simp only [IP_CHECK, IP_DADDR, UDP_LEN, UDP_CHECK, PAYLOAD] at hi ⊢
    exact rd8_wr32_out (by omega)
  ip_check := by rw [rd16_wr32_out (by simp), h.ip_check]
  saddr := by rw [rd32_wr32_out (by simp), h.saddr]
  daddr := by rw [rd32_wr32_in (h.room hlen (by simp)), Nat.mod_eq_of_lt hv]
  source := by rw [rd16_wr32_out (by simp), h.source]
  dest := by rw [rd16_wr32_out (by simp), h.dest]
  udp_check := by rw [rd16_wr32_out (by simp), h.udp_check]

theorem Rewritten.set_source {v : Nat} (hv : v < 65536) :
    Rewritten f (wr16 g UDP_SOURCE v) saddr daddr v dest ip_check udp_check where
  length_eq := (length_wr16 _ _ _).trans h.length_eq
  other i hi := by
    rw [← h.other i hi]
    simp only [IP_CHECK, UDP_SOURCE, UDP_LEN, UDP_CHECK, PAYLOAD] at hi ⊢
    exact rd8_wr16_out (by omega)
  ip_check := by rw [rd16_wr16_out (by simp), h.ip_check]
  saddr := by rw [rd32_wr16_out (by simp), h.saddr]
  daddr := by rw [rd32_wr16_out (by simp), h.daddr]
  source := by rw [rd16_wr16_in (h.room hlen (by simp)), Nat.mod_eq_of_lt hv]
  dest := by rw [rd16_wr16_out (by simp), h.dest]
  udp_check := by rw [rd16_wr16_out (by simp), h.udp_check]

theorem Rewritten.set_dest {v : Nat} (hv : v < 65536) :
    Rewritten f (wr16 g UDP_DEST v) saddr daddr source v ip_check udp_check where
  length_eq := (length_wr16 _ _ _).trans h.length_eq
  other i hi := by
    rw [← h.other i hi]
    simp only [IP_CHECK, UDP_DEST, UDP_LEN, UDP_CHECK, PAYLOAD] at hi ⊢
    exact rd8_wr16_out (by omega)
  ip_check := by rw [rd16_wr16_out (by simp), h.ip_check]
  saddr := by rw [rd32_wr16_out (by simp), h.saddr]
  daddr := by rw [rd32_wr16_out (by simp), h.daddr]
  source := by rw [rd16_wr16_out (by simp), h.source]
  dest := by rw [rd16_wr16_in (h.room hlen (by simp)), Nat.mod_eq_of_lt hv]
  udp_check := by rw [rd16_wr16_out (by simp), h.udp_check]

theorem Rewritten.set_udp_check {v : Nat} (hv : v < 65536) :
    Rewritten f (wr16 g UDP_CHECK v) saddr daddr source dest ip_check v where
  length_eq := (length_wr16 _ _ _).trans h.length_eq
  other i hi := by
    rw [← h.other i hi]
    simp only [IP_CHECK, UDP_LEN, UDP_CHECK, PAYLOAD] at hi ⊢
    exact rd8_wr16_out (by omega)
  ip_check := by rw [rd16_wr16_out (by simp), h.ip_check]
  saddr := by rw [rd32_wr16_out (by simp), h.saddr]
  daddr := by rw [rd32_wr16_out (by simp), h.daddr]
  source := by rw [rd16_wr16_out (by simp), h.source]
  dest := by rw [rd16_wr16_out (by simp), h.dest]
  udp_check := by rw [rd16_wr16_in (h.room hlen (by simp)), Nat.mod_eq_of_lt hv]

end set

/-- The new field values determine the frame. -/
theorem Rewritten.unique {f g g' : Frame} {saddr daddr source dest ip_check udp_check : Nat}
    (h : Rewritten f g saddr daddr source dest ip_check udp_check)
    (h' : Rewritten f g' saddr daddr source dest ip_check udp_check) : g = g' := by
  have hic := rd8_of_rd16 (h.ip_check.trans h'.ip_check.symm)
  have hs := rd16_of_rd32 (h.saddr.trans h'.saddr.symm)
  have hd := rd16_of_rd32 (h.daddr.trans h'.daddr.symm)
  have hsp := rd8_of_rd16 (h.source.trans h'.source.symm)
  have hdp := rd8_of_rd16 (h.dest.trans h'.dest.symm)
  have huc := rd8_of_rd16 (h.udp_check.trans h'.udp_check.symm)
  have hs0 := rd8_of_rd16 hs.1
  have hs2 := rd8_of_rd16 hs.2
  have hd0 := rd8_of_rd16 hd.1
  have hd2 := rd8_of_rd16 hd.2
  apply ext_rd8 (h.length_eq.trans h'.length_eq.symm)
  intro i _
  -- byte by byte through the rewritten fields
  by_cases hout : i < IP_CHECK ∨ UDP_LEN ≤ i ∧ i < UDP_CHECK ∨ PAYLOAD ≤ i
  · rw [h.other i hout, h'.other i hout]
  · have hin : i = 24 ∨ i = 25 ∨ i = 26 ∨ i = 27 ∨ i = 28 ∨ i = 29 ∨ i = 30 ∨ i = 31 ∨
        i = 32 ∨ i = 33 ∨ i = 34 ∨ i = 35 ∨ i = 36 ∨ i = 37 ∨ i = 40 ∨ i = 41 := by
      simp only [IP_CHECK, UDP_LEN, UDP_CHECK, PAYLOAD] at hout
      omega
    rcases hin with rfl | rfl | rfl | rfl | rfl | rfl | rfl | rfl | rfl | rfl | rfl | rfl | rfl |
      rfl | rfl | rfl
    · exact hic.1
    · exact hic.2
    · exact hs0.1
    · exact hs0.2
    · exact hs2.1
    · exact hs2.2
    · exact hd0.1
    · exact hd0.2
    · exact hd2.1
    · exact hd2.2
    · exact hsp.1
    · exact hsp.2
    · exact hdp.1
    · exact hdp.2
    · exact huc.1
    · exact huc.2

section rewritten
variable {f g : Frame} {saddr daddr source dest ip_check udp_check : Nat}

/-- The payload is unchanged. -/
theorem Rewritten.payload_eq (h : Rewritten f g saddr daddr source dest ip_check udp_check)
    (hlen : PAYLOAD ≤ f.length) : payload g = payload f := by
  unfold payload
  apply ext_rd8
  · rw [List.length_drop, List.length_drop, h.length_eq]
  · intro i _
    rw [rd8_drop, rd8_drop, h.other _ (Or.inr (Or.inr (by omega))),
      rd8_swap_macs hlen (by simp only [PAYLOAD]; omega)]

/-- The bytes before the header checksum, but for the MAC addresses. -/
theorem Rewritten.rd8_eq (h : Rewritten f g saddr daddr source dest ip_check udp_check)
    (hlen : PAYLOAD ≤ f.length) {i : Nat} (hlo : 12 ≤ i) (hhi : i < 24) : rd8 g i = rd8 f i := by
  rw [h.other i (Or.inl hhi), rd8_swap_macs hlen hlo]

theorem slice_swap_macs {f : Frame} (hlen : PAYLOAD ≤ f.length) :
    slice (swap_macs f) ETH_DEST ETH_ALEN = slice f ETH_SOURCE ETH_ALEN ∧
      slice (swap_macs f) ETH_SOURCE ETH_ALEN = slice f ETH_DEST ETH_ALEN := by
  simp only [PAYLOAD] at hlen
  have hs : (slice f ETH_SOURCE ETH_ALEN).length = 6 := length_slice (by simp [ETH_ALEN]; omega)
  have hd : (slice f ETH_DEST ETH_ALEN).length = 6 := length_slice (by simp [ETH_ALEN]; omega)
  have hlen' : ∀ off, off + 6 ≤ 42 → (slice (swap_macs f) off ETH_ALEN).length = 6 := by
    intro off hoff
    exact length_slice (by rw [length_swap_macs]; simp only [ETH_ALEN]; omega)
  refine ⟨ext_rd8 ?_ ?_, ext_rd8 ?_ ?_⟩
  · rw [hlen' _ (by simp), hs]
  · intro i hi
    rw [hlen' _ (by simp)] at hi
    rw [rd8_slice (by simp only [ETH_ALEN]; omega)]
    unfold swap_macs
    rw [rd8_wr_in (by omega) (by rw [hs]; omega)
      (by rw [length_wr]; simp only [ETH_DEST]; omega), Nat.add_sub_cancel_left]
  · rw [hlen' _ (by simp), hd]
  · intro i hi
    rw [hlen' _ (by simp)] at hi
    rw [rd8_slice (by simp only [ETH_ALEN]; omega)]
    unfold swap_macs
    rw [rd8_wr_out (by rw [hs]; simp only [ETH_DEST, ETH_SOURCE]; omega),
      rd8_wr_in (by omega) (by rw [hd]; omega)
        (by simp only [ETH_SOURCE]; omega), Nat.add_sub_cancel_left]

/-- The MAC addresses are swapped. -/
theorem Rewritten.slice_eq (h : Rewritten f g saddr daddr source dest ip_check udp_check)
    {off : Nat} (hoff : off + ETH_ALEN ≤ IP_CHECK) :
    slice g off ETH_ALEN = slice (swap_macs f) off ETH_ALEN := by
  apply ext_rd8
  · unfold slice
    simp only [List.length_take, List.length_drop, h.length_eq, length_swap_macs]
  · intro i hi
    have hi' : i < ETH_ALEN := by
      unfold slice at hi
      rw [List.length_take] at hi
      omega
    rw [rd8_slice hi', rd8_slice hi', h.other _ (Or.inl (by omega))]

/-- `refresh_headers` looks at the length and at three bytes. -/
theorem refresh_headers_congr {f g : Frame} (hlen : g.length = f.length)
    (h : ∀ i, 12 ≤ i → i < 24 → rd8 g i = rd8 f i) : refresh_headers g = refresh_headers f := by
  have hproto : rd16 g ETH_PROTO = rd16 f ETH_PROTO := by
    unfold rd16
    rw [h _ (by simp) (by simp), h _ (by simp) (by simp)]
  unfold refresh_headers
  rw [hproto, h IP_PROTOCOL (by simp) (by simp), hlen]

theorem length_of_refresh {f : Frame} (h : refresh_headers f = true) : PAYLOAD ≤ f.length := by
  unfold refresh_headers at h
  simp only [Bool.and_eq_true, decide_eq_true_eq] at h
  exact h.2

theorem protocol_of_refresh {f : Frame} (h : refresh_headers f = true) :
    (rd8 f IP_PROTOCOL).toNat = IPPROTO_UDP := by
  unfold refresh_headers at h
  simp only [Bool.and_eq_true, beq_iff_eq] at h
  exact h.1.2.2

theorem Rewritten.refresh (h : Rewritten f g saddr daddr source dest ip_check udp_check)
    (hf : refresh_headers f = true) : refresh_headers g = true := by
  rw [refresh_headers_congr h.length_eq fun i hlo hhi => h.rd8_eq (length_of_refresh hf) hlo hhi]
  exact hf

end rewritten

theorem Publishes.refresh {f : Frame} {t : TopicKey} (h : Publishes f t) :
    refresh_headers f = true := by
  have hparse := h.parse
  unfold parse_udp_packet at hparse
  exact (Bool.and_eq_true_iff.mp hparse).1

theorem Publishes.length_le {f : Frame} {t : TopicKey} (h : Publishes f t) :
    PAYLOAD ≤ f.length :=
  length_of_refresh h.refresh

/-! ### The rewriting of the XDP programs -/

/-- The frame over which `xdp_rewrite` computes the header checksum. -/
def ip_turned (packed : UInt64) (f : Frame) : Frame :=
  let f := swap_macs f
  let f := wr32 f IP_SADDR (rd32 f IP_DADDR)
  let f := wr32 f IP_DADDR (dest_ip packed)
  wr16 f IP_CHECK 0

/-- The frame over which `xdp_rewrite` computes the UDP checksum. -/
def udp_turned (packed : UInt64) (f : Frame) : Frame :=
  let f := ip_turned packed f
  let f := wr16 f IP_CHECK (compute_ip_checksum f)
  let f := wr16 f UDP_SOURCE (rd16 f UDP_DEST)
  let f := wr16 f UDP_DEST (dest_port packed)
  wr16 f UDP_CHECK 0

theorem xdp_rewrite_eq (budget : Nat) (packed : UInt64) (f : Frame) :
    xdp_rewrite budget packed f =
      wr16 (udp_turned packed f) UDP_CHECK (compute_udp_checksum budget (udp_turned packed f)) :=
  rfl

theorem compute_ip_checksum_lt (f : Frame) : compute_ip_checksum f < 65536 :=
  OnesComplement.finish_le _

theorem compute_udp_checksum_lt (budget : Nat) (f : Frame) :
    compute_udp_checksum budget f < 65536 :=
  OnesComplement.finish_le _

theorem dest_ip_lt (packed : UInt64) : dest_ip packed < 4294967296 := by
  have := packed.toNat_lt
  unfold dest_ip
  omega

theorem dest_port_lt (packed : UInt64) : dest_port packed < 65536 := by
  unfold dest_port
  omega

section turned
variable (packed : UInt64) {f : Frame} (hlen : PAYLOAD ≤ f.length)
include hlen

theorem ip_turned_rewritten :
    Rewritten f (ip_turned packed f) (rd32 f IP_DADDR) (dest_ip packed) (rd16 f UDP_SOURCE)
      (rd16 f UDP_DEST) 0 (rd16 f UDP_CHECK) := by
  have h := rewritten_swap_macs hlen
  simp only [ip_turned, h.daddr]
  exact ((h.set_saddr hlen (rd32_lt _ _)).set_daddr hlen (dest_ip_lt packed)).set_ip_check hlen
    (by decide)

theorem udp_turned_rewritten :
    Rewritten f (udp_turned packed f) (rd32 f IP_DADDR) (dest_ip packed) (rd16 f UDP_DEST)
      (dest_port packed) (compute_ip_checksum (ip_turned packed f)) 0 := by
  have h := (ip_turned_rewritten packed hlen).set_ip_check hlen
    (compute_ip_checksum_lt (ip_turned packed f))
  simp only [udp_turned, h.dest]
  exact ((h.set_source hlen (rd16_lt _ _)).set_dest hlen (dest_port_lt packed)).set_udp_check hlen
    (by decide)

/-- **The frame `xdp_rewrite` leaves.** -/
theorem xdp_rewrite_rewritten (budget : Nat) :
    Rewritten f (xdp_rewrite budget packed f) (rd32 f IP_DADDR) (dest_ip packed)
      (rd16 f UDP_DEST) (dest_port packed) (compute_ip_checksum (ip_turned packed f))
      (compute_udp_checksum budget (udp_turned packed f)) := by
  rw [xdp_rewrite_eq]
  exact (udp_turned_rewritten packed hlen).set_udp_check hlen (compute_udp_checksum_lt _ _)

end turned

/-- The rewritten frame goes to the subscriber. -/
theorem dst_xdp_rewrite (budget : Nat) (packed : UInt64) {f : Frame} (hlen : PAYLOAD ≤ f.length) :
    dst (xdp_rewrite budget packed f) = unpack packed :=
  have h := xdp_rewrite_rewritten packed hlen budget
  dst_eq h.daddr h.dest

end BpfBroker
