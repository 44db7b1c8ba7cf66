import BpfBroker.Clone.Datapath
import BpfBroker.Hash.Datapath
import BpfBroker.OddLength

/-! # Bytes Behind the Datagram

    A frame may go on after the IPv4 datagram it carries; short frames always
    do. The programs make their bounds checks against the end of the frame,
    so such a trailer can complete a command or a topic that the datagram
    leaves open, and it gets into the checksum of an odd datagram. Otherwise
    nothing depends on it: every read and write of a header field commutes
    with appending bytes. -/

namespace BpfBroker

open Atomic Buffer CString OnesComplement

/-! ### Parsing -/

section parse
variable {d : Frame} (hlen : PAYLOAD ≤ d.length) (x : List UInt8)
include hlen

theorem refresh_headers_append : refresh_headers (d ++ x) = refresh_headers d := by
  simp only [PAYLOAD] at hlen
  have hproto : rd16 (d ++ x) ETH_PROTO = rd16 d ETH_PROTO := rd16_append x (by simp; omega)
  have hprotocol : rd8 (d ++ x) IP_PROTOCOL = rd8 d IP_PROTOCOL := rd8_append x (by simp; omega)
  have hle : ∀ n, n ≤ 42 → (decide (n ≤ (d ++ x).length) = decide (n ≤ d.length)) := by
    intro n hn
    rw [decide_eq_true (by rw [List.length_append]; omega), decide_eq_true (by omega)]
  unfold refresh_headers
  rw [hproto, hprotocol, hle IP (by simp), hle UDP (by simp), hle PAYLOAD (by simp)]

theorem broker_port_append : broker_port (d ++ x) = broker_port d := by
  have hport : rd16 (d ++ x) UDP_DEST = rd16 d UDP_DEST :=
    rd16_append x (Nat.le_trans (by simp) hlen)
  unfold broker_port
  rw [hport]

theorem payload_append : payload (d ++ x) = payload d ++ x := by
  unfold payload
  rw [List.drop_append_of_le_length hlen]

theorem udp_len_append : udp_len (d ++ x) = udp_len d := by
  have hfield : rd16 (d ++ x) UDP_LEN = rd16 d UDP_LEN :=
    rd16_append x (Nat.le_trans (by simp) hlen)
  unfold udp_len
  rw [hfield]

end parse

/-! ### Rewriting -/

theorem length_ip_turned (packed : UInt64) (d : Frame) : (ip_turned packed d).length = d.length := by
  simp only [ip_turned, length_wr16, length_wr32, length_swap_macs]

theorem length_udp_turned (packed : UInt64) (d : Frame) :
    (udp_turned packed d).length = d.length := by
  simp only [udp_turned, length_wr16, length_ip_turned]

theorem word_sum_append {d : Frame} (x : List UInt8) {off n : Nat} (h : off + 2 * n ≤ d.length) :
    word_sum (d ++ x) off n = word_sum d off n := by
  induction n generalizing off with
  | zero => rfl
  | succ n ih =>
    unfold word_sum
    rw [ih (by omega), rd16_append x (by omega)]

section rewrite
variable {d : Frame} (hlen : PAYLOAD ≤ d.length) (x : List UInt8)
include hlen

theorem swap_macs_append : swap_macs (d ++ x) = swap_macs d ++ x := by
  simp only [PAYLOAD] at hlen
  have hs : (slice d ETH_SOURCE ETH_ALEN).length = 6 := length_slice (by simp [ETH_ALEN]; omega)
  have hd : (slice d ETH_DEST ETH_ALEN).length = 6 := length_slice (by simp [ETH_ALEN]; omega)
  unfold swap_macs
  rw [slice_append x (by simp [ETH_ALEN]; omega), slice_append x (by simp [ETH_ALEN]; omega)]
  dsimp only
  rw [wr_append x (by rw [hd]; simp; omega), wr_append x (by rw [hs, length_wr]; simp; omega)]

theorem compute_ip_checksum_append : compute_ip_checksum (d ++ x) = compute_ip_checksum d := by
  rw [compute_ip_checksum_eq, compute_ip_checksum_eq,
    word_sum_append x (Nat.le_trans (by simp) hlen)]

theorem ip_turned_append (packed : UInt64) : ip_turned packed (d ++ x) = ip_turned packed d ++ x := by
  simp only [PAYLOAD] at hlen
  have hswap := length_swap_macs d
  unfold ip_turned
  dsimp only
  rw [swap_macs_append hlen, rd32_append x (by simp; omega), wr32_append x (by simp; omega),
    wr32_append x (by simp; omega), wr16_append x (by simp; omega)]

theorem udp_turned_append (packed : UInt64) :
    udp_turned packed (d ++ x) = udp_turned packed d ++ x := by
  have hturned := length_ip_turned packed d
  unfold udp_turned
  dsimp only
  rw [ip_turned_append hlen, compute_ip_checksum_append (by rw [hturned]; exact hlen)]
  simp only [PAYLOAD] at hlen
  rw [wr16_append x (by simp; omega), rd16_append x (by simp; omega),
    wr16_append x (by simp; omega), wr16_append x (by simp; omega), wr16_append x (by simp; omega)]

/-- The part of a rewritten frame that is the datagram. -/
theorem take_xdp_rewrite (budget : Nat) (packed : UInt64) :
    (xdp_rewrite budget packed (d ++ x)).take d.length =
      wr16 (udp_turned packed d) UDP_CHECK
        (compute_udp_checksum budget (udp_turned packed d ++ x)) := by
  have hturned := length_udp_turned packed d
  simp only [PAYLOAD] at hlen
  rw [xdp_rewrite_eq, udp_turned_append hlen, wr16_append x (by simp; omega),
    List.take_left' (by rw [length_wr16, hturned])]

end rewrite

/-! ### The UDP checksum -/

section udp
variable {g : Frame} (hlen : PAYLOAD ≤ g.length) (x : List UInt8)
include hlen

theorem pseudo_header_sum_append : pseudo_header_sum (g ++ x) = pseudo_header_sum g := by
  simp only [PAYLOAD] at hlen
  unfold pseudo_header_sum
  rw [rd32_append x (by simp; omega), rd32_append x (by simp; omega),
    rd16_append x (by simp; omega)]

/-- The checksum of an even datagram does not see the trailer, and neither
    does that of a datagram beyond the budget of the loop. -/
theorem compute_udp_checksum_append {budget : Nat} (hbudget : budget ≤ 1024)
    (hfits : UDP + udp_len g ≤ g.length) (hsafe : udp_len g % 2 = 0 ∨ 2 * budget < udp_len g) :
    compute_udp_checksum budget (g ++ x) = compute_udp_checksum budget g := by
  have hsame := udp_len_append hlen x
  -- in both cases the loop stops inside the datagram
  have htaken : ∀ h : Frame, UDP + udp_len g ≤ h.length →
      words_taken h (udp_len g) budget 0 = min budget (udp_len g / 2) := by
    intro h hh
    unfold words_taken
    omega
  have hlong : UDP + udp_len g ≤ (g ++ x).length := by
    rw [List.length_append]
    omega
  have hword : word_sum (g ++ x) UDP (min budget (udp_len g / 2)) =
      word_sum g UDP (min budget (udp_len g / 2)) := word_sum_append x (by omega)
  have hodd : odd_part (g ++ x) (min budget (udp_len g / 2)) =
      odd_part g (min budget (udp_len g / 2)) := by
    unfold odd_part
    rw [hsame]
    by_cases hpar : udp_len g % 2 = 1
    · -- an odd datagram beyond the budget: the odd byte is read inside it
      have hin : UDP + 2 * min budget (udp_len g / 2) < g.length := by omega
      rw [if_pos ⟨hpar, by rw [List.length_append]; omega⟩, if_pos ⟨hpar, hin⟩, rd8_append x hin]
    · rw [if_neg (fun h => hpar h.1), if_neg (fun h => hpar h.1)]
  have htaken' : words_taken (g ++ x) (udp_len (g ++ x)) budget 0 = min budget (udp_len g / 2) := by
    rw [hsame]
    exact htaken _ hlong
  rw [compute_udp_checksum_eq hbudget htaken', compute_udp_checksum_eq hbudget (htaken g hfits),
    pseudo_header_sum_append hlen, hword, hodd]

end udp

/-! ### The TC program -/

namespace Hash

/-- An edit of a frame of `n` bytes with `x` behind it, and the same edit
    without `x`. -/
inductive Extends (n : Nat) (x : List UInt8) : Except Frame Frame → Except Frame Frame → Prop
  | error (g : Frame) (h : g.length = n) : Extends n x (.error (g ++ x)) (.error g)
  | ok (g : Frame) (h : g.length = n) : Extends n x (.ok (g ++ x)) (.ok g)

section steps
variable {n : Nat} {x : List UInt8} {g : Frame} (hg : g.length = n) (hn : PAYLOAD ≤ n)
include hg

/-- A call of a checksum helper, which replaces one field by a function of
    itself, and what follows it. -/
theorem extends_csum {fails : Bool} {offset : Nat} (update : Nat → Nat) (h : offset + 2 ≤ n)
    {next next' : Frame → Except Frame Frame}
    (hnext : ∀ g', g'.length = n → Extends n x (next' (g' ++ x)) (next g')) :
    Extends n x
      (match (if fails then none
          else some (wr16 (g ++ x) offset (update (rd16 (g ++ x) offset))) : Option Frame) with
        | none => .error (g ++ x)
        | some g' => next' g')
      (match (if fails then none
          else some (wr16 g offset (update (rd16 g offset))) : Option Frame) with
        | none => .error g
        | some g' => next g') := by
  rw [← hg] at h
  cases fails with
  | false =>
    show Extends n x (next' (wr16 (g ++ x) offset (update (rd16 (g ++ x) offset)))) (next _)
    rw [rd16_append x h, wr16_append x h]
    exact hnext _ ((length_wr16 _ _ _).trans hg)
  | true => exact .error g hg

include hn

/-- A check of the headers, and what follows it. -/
theorem extends_refresh {next next' : Except Frame Frame} (hnext : Extends n x next' next) :
    Extends n x (if !refresh_headers (g ++ x) then .error (g ++ x) else next')
      (if !refresh_headers g then .error g else next) := by
  rw [refresh_headers_append (by rw [hg]; exact hn)]
  rcases refresh_headers g with _ | _
  · exact .error g hg
  · exact hnext

end steps

section edit
variable {d : Frame} (hlen : PAYLOAD ≤ d.length) (x : List UInt8)
include hlen

theorem tc_edit_append (flt : TcFaults) :
    Extends d.length x (tc_edit flt (d ++ x)) (tc_edit flt d) := by
  unfold tc_edit
  dsimp only
  rw [swap_macs_append hlen]
  -- from here on the frame is some `g` of the same length
  have hg := length_swap_macs d
  generalize swap_macs d = g at hg ⊢
  have h42 : 42 ≤ d.length := hlen
  rw [rd32_append x (by simp; omega), rd32_append x (by simp; omega),
    wr32_append x (by simp; omega), rd32_append x (by simp; omega)]
  -- the header checksum, the address part of the UDP checksum, the port part
  refine extends_csum ((length_wr32 _ _ _).trans hg) (csum_replace4 · _ _) (by simp; omega) ?_
  intro g2 h2
  refine extends_refresh h2 hlen ?_
  rw [rd32_append x (by simp; omega)]
  refine extends_csum h2 (csum_replace4 · _ _) (by simp; omega) ?_
  intro g3 h3
  refine extends_refresh h3 hlen ?_
  rw [rd16_append x (by simp; omega), rd16_append x (by simp; omega),
    wr16_append x (by simp; omega), rd16_append x (by simp; omega)]
  refine extends_csum ((length_wr16 _ _ _).trans h3) (csum_replace2 · _ _) (by simp; omega) ?_
  intro g4 h4
  exact .ok g4 h4

theorem callback_edit_append (flt : CallbackFaults) (packed : UInt64) :
    Extends d.length x (callback_edit flt packed (d ++ x)) (callback_edit flt packed d) := by
  unfold callback_edit
  refine extends_refresh rfl hlen ?_
  have h42 : 42 ≤ d.length := hlen
  dsimp only
  -- the old address and port are read before the first edit
  rw [rd32_append x (by simp; omega), rd16_append x (by simp; omega),
    wr32_append x (by simp; omega), rd32_append x (by simp; omega)]
  refine extends_csum (length_wr32 _ _ _) (csum_replace4 · _ _) (by simp; omega) ?_
  intro g2 h2
  refine extends_refresh h2 hlen ?_
  rw [rd32_append x (by simp; omega)]
  refine extends_csum h2 (csum_replace4 · _ _) (by simp; omega) ?_
  intro g3 h3
  refine extends_refresh h3 hlen ?_
  rw [wr16_append x (by simp; omega), rd16_append x (by simp; omega)]
  refine extends_csum ((length_wr16 _ _ _).trans h3) (csum_replace2 · _ _) (by simp; omega) ?_
  intro g4 h4
  exact extends_refresh h4 hlen (.ok g4 h4)

/-- The walk makes the same clones, with `x` behind each. -/
theorem for_each_elem_append (flt : Nat → CallbackFaults) (queue_mapping : UInt32) (cpu : Nat)
    (keys : List UInt64) (s : KernState) :
    ((for_each_elem flt queue_mapping keys (d ++ x)).run (kern cpu) s).1 =
      ((for_each_elem flt queue_mapping keys d).run (kern cpu) s).1.map (· ++ x) ∧
    ∀ clone ∈ ((for_each_elem flt queue_mapping keys d).run (kern cpu) s).1,
      clone.length = d.length := by
  induction keys generalizing d s flt with
  | nil => exact ⟨rfl, nofun⟩
  | cons key keys ih =>
    have hedit := callback_edit_append hlen x (flt 0) key
    unfold for_each_elem callback_fn
    generalize callback_edit (flt 0) key (d ++ x) = r' at hedit
    generalize callback_edit (flt 0) key d = r at hedit
    cases hedit with
    | error g hg =>
      -- an early return: the packet goes on, and there is no clone
      obtain ⟨hmap, hall⟩ := ih (d := g) (by rw [hg]; exact hlen) (fun i => flt (i + 1)) s
      rw [hg] at hall
      simp only [Prog.ret_bind, Prog.pure_eq_ret, Prog.run_bind, Prog.run_ret,
        Option.toList_none, List.nil_append]
      exact ⟨hmap, hall⟩
    | ok g hg =>
      simp only [Prog.op_bind, Prog.ret_bind, Prog.pure_eq_ret, Prog.run_op, Prog.run_bind,
        Prog.run_ret, Option.toList_some, List.singleton_append, List.map_cons]
      generalize (kern cpu KernOp.clone_count _).2 = s'
      obtain ⟨hmap, hall⟩ := ih (d := g) (by rw [hg]; exact hlen) (fun i => flt (i + 1)) s'
      rw [hg] at hall
      refine ⟨by rw [hmap], ?_⟩
      intro clone hclone
      rcases List.mem_cons.mp hclone with rfl | hclone
      · exact hg
      · exact hall clone hclone

end edit

end Hash

/-! ### Topics -/

theorem extract_topic_loop_append {s : List UInt8} (x : List UInt8) {n i : Nat}
    {out_id t : TopicKey} (h : extract_topic_loop s n i out_id = some t) :
    extract_topic_loop (s ++ x) n i out_id = some t := by
  induction n generalizing i out_id with
  | zero => exact h
  | succ n ih =>
    unfold extract_topic_loop at h ⊢
    rcases hc : s[i]? with _ | c
    · -- past the end of the datagram nothing was found
      rw [hc] at h
      cases h
    · have hin : (s ++ x)[i]? = some c := by
        rw [List.getElem?_append_left (List.getElem?_eq_some_iff.mp hc).1]
        exact hc
      rw [hc] at h
      rw [hin]
      dsimp only at h ⊢
      split at h
      · next hd => rw [if_pos hd]; exact h
      · next hd => rw [if_neg hd]; exact ih h

/-- A topic that the datagram ends is the topic of every frame around it. -/
theorem extract_topic_id_append {s : List UInt8} {t : TopicKey}
    (h : extract_topic_id s = some t) (x : List UInt8) : extract_topic_id (s ++ x) = some t :=
  extract_topic_loop_append x h

/-- A topic that the datagram leaves open is ended by a zero byte. -/
theorem extract_topic_id_zero {s : List UInt8} (h : extract_topic_id s = none) :
    (extract_topic_id (s ++ [NUL])).isSome = true := by
  rw [extract_topic_id_eq] at h ⊢
  have hall : pubName s = s := by
    have hle : (pubName s).length ≤ s.length := (List.takeWhile_sublist _).length_le
    -- a delimiter inside would have ended the topic
    by_contra hne
    have hlt : (pubName s).length < s.length := by
      rcases Nat.lt_or_eq_of_le hle with hlt | heq
      · exact hlt
      · exact absurd ((List.takeWhile_prefix _).eq_of_length heq) hne
    rw [if_pos (Or.inl hlt)] at h
    cases h
  have hname : pubName (s ++ [NUL]) = s := by
    unfold pubName at hall ⊢
    rw [List.takeWhile_append_of_pos (List.takeWhile_eq_self_iff.mp hall)]
    simp [isDelim]
  rw [if_pos]
  · rfl
  · left
    rw [hname, List.length_append]
    exact Nat.lt_succ_self _

/-- The topic key that all three programs use for a frame, if any. -/
def topic_of (f : Frame) : Option TopicKey :=
  if is_publish f then extract_topic_id ((payload f).drop 8) else none

theorem topic_of_eq_some {f : Frame} {t : TopicKey} : topic_of f = some t ↔ Publishes f t := by
  rw [publishes_iff]
  unfold topic_of
  rcases is_publish f with _ | _
  · simp
  · simp

/-! ### Self-contained datagrams -/

/-- The bytes of a frame up to the end of the IPv4 datagram it carries: a
    header without options and a UDP datagram whose length agrees with the
    total length. -/
structure Carries (d : Frame) : Prop where
  eth_proto : rd16 d ETH_PROTO = bswap16 ETH_P_IP
  ihl : (rd8 d IP).toNat % 16 = 5
  protocol : (rd8 d IP_PROTOCOL).toNat = IPPROTO_UDP
  total : d.length = IP + bswap16 (rd16 d (IP + 2))
  consistent : bswap16 (rd16 d (IP + 2)) = 20 + udp_len d
  header : 8 ≤ udp_len d

theorem Carries.length_eq {d : Frame} (h : Carries d) : d.length = UDP + udp_len d := by
  have h1 := h.total
  have h2 := h.consistent
  simp only [IP, UDP] at *
  omega

theorem Carries.length_le {d : Frame} (h : Carries d) : PAYLOAD ≤ d.length := by
  have h1 := h.length_eq
  have h2 := h.header
  simp only [UDP, PAYLOAD] at *
  omega

theorem Carries.refresh {d : Frame} (h : Carries d) : refresh_headers d = true := by
  have hlen := h.length_le
  unfold refresh_headers
  rw [h.eth_proto, h.protocol]
  simp only [IP, UDP, PAYLOAD] at hlen ⊢
  simp only [beq_self_eq_true, Bool.and_true, Bool.and_eq_true, decide_eq_true_eq]
  omega

/-- Nothing about the datagram is decided by the bytes behind it: it is not
    the beginning of a command to a broker port, and if it is a PUBLISH, then
    it ends its topic and its length is even (or beyond both checksum loops). -/
def SelfContained (d : Frame) : Prop :=
  broker_port d = true →
    ¬ payload d <+: PUBLISH ∧
      (PUBLISH <+: payload d →
        (extract_topic_id ((payload d).drop 8)).isSome = true ∧
          (udp_len d % 2 = 0 ∨ 2048 < udp_len d))

section carries
variable {d : Frame} (hd : Carries d)
include hd

theorem starts_with_append (x : List UInt8) :
    starts_with (payload (d ++ x)) PUBLISH = true ↔ PUBLISH <+: payload d ++ x := by
  rw [starts_with_iff, payload_append hd.length_le]

/-- The topic of a frame whose payload, with the trailer, is a PUBLISH. -/
theorem topic_of_completed (hport : broker_port d = true) {x : List UInt8}
    (hp : PUBLISH <+: payload d ++ x) :
    topic_of (d ++ x) = extract_topic_id ((payload d ++ x).drop 8) := by
  have hlen := hd.length_le
  -- the tests of the headers do not reach into the trailer
  have hpub : is_publish (d ++ x) = true := by
    rw [is_publish_eq, refresh_headers_append hlen, broker_port_append hlen, hd.refresh, hport,
      (starts_with_append hd x).mpr hp]
    rfl
  unfold topic_of
  rw [if_pos hpub, payload_append hlen]

/-- The topic of a frame around a PUBLISH. -/
theorem topic_of_append (hport : broker_port d = true) (hp : PUBLISH <+: payload d)
    (x : List UInt8) : topic_of (d ++ x) = extract_topic_id ((payload d).drop 8 ++ x) := by
  have h8 : 8 ≤ (payload d).length := hp.length_le
  rw [topic_of_completed hd hport (hp.trans (List.prefix_append _ _)),
    List.drop_append_of_le_length h8]

/-- Other frames have no topic. -/
theorem topic_of_append_none (h : broker_port d = false ∨
    ¬ PUBLISH <+: payload d ∧ ¬ payload d <+: PUBLISH) (x : List UInt8) :
    is_publish (d ++ x) = false := by
  rw [is_publish_eq, broker_port_append hd.length_le]
  rcases h with hport | hpre
  · rw [hport, Bool.and_false, Bool.false_and]
  · have hno : starts_with (payload (d ++ x)) PUBLISH = false := by
      rw [Bool.eq_false_iff]
      intro hs
      -- of two prefixes of one list, one is a prefix of the other
      rcases List.prefix_or_prefix_of_prefix ((starts_with_append hd x).mp hs)
        (List.prefix_append (payload d) x) with h | h
      · exact hpre.1 h
      · exact hpre.2 h
    rw [hno, Bool.and_false]

/-- A self-contained datagram has one topic, or none, whatever follows it. -/
theorem SelfContained.topic (h : SelfContained d) :
    (∀ x, is_publish (d ++ x) = false) ∨
      ∃ t, (∀ x, Publishes (d ++ x) t) ∧ (udp_len d % 2 = 0 ∨ 2048 < udp_len d) := by
  rcases hport : broker_port d with _ | _
  · exact Or.inl fun x => topic_of_append_none hd (Or.inl hport) x
  obtain ⟨hopen, hpublish⟩ := h hport
  -- at a broker port: a PUBLISH, or nothing the trailer could complete
  by_cases hp : PUBLISH <+: payload d
  · obtain ⟨hsome, hsafe⟩ := hpublish hp
    obtain ⟨t, ht⟩ := Option.isSome_iff_exists.mp hsome
    refine Or.inr ⟨t, ?_, hsafe⟩
    intro x
    rw [← topic_of_eq_some, topic_of_append hd hport hp]
    exact extract_topic_id_append ht x
  · exact Or.inl fun x => topic_of_append_none hd (Or.inr ⟨hp, hopen⟩) x

end carries

/-! ### What each program does with a publication -/

/-- The frame an XDP program leaves: as it is, or rewritten for a
    subscriber. -/
def sent (budget : Nat) : Option UInt64 → Frame → Frame
  | none, f => f
  | some packed, f => xdp_rewrite budget packed f

/-- The datagram of a sent frame does not depend on the trailer. -/
theorem take_sent {d : Frame} (hd : Carries d) {budget : Nat} (hbudget : budget ≤ 1024)
    (hsafe : udp_len d % 2 = 0 ∨ 2 * budget < udp_len d) (dest : Option UInt64) (x : List UInt8) :
    (sent budget dest (d ++ x)).take d.length = sent budget dest d := by
  have hlen := hd.length_le
  rcases dest with _ | packed
  · exact List.take_left' rfl
  · -- only the UDP checksum is computed from bytes up to the end of the frame
    have hturned := length_udp_turned packed d
    have hsame := (udp_turned_rewritten packed hlen).udp_len_eq hlen
    have hcsum := compute_udp_checksum_append (g := udp_turned packed d) (by rw [hturned]; exact hlen)
      x hbudget (by rw [hturned, hsame]; exact Nat.le_of_eq hd.length_eq.symm)
      (by rw [hsame]; exact hsafe)
    show (xdp_rewrite budget packed (d ++ x)).take d.length = xdp_rewrite budget packed d
    rw [take_xdp_rewrite hlen, hcsum, xdp_rewrite_eq]

/-- `xdp_broker` of the hash broker decides by the state and the topic. -/
theorem Hash.xdp_broker_decides (t : TopicKey) (cpu : Nat) (s : Hash.KernState) :
    ∃ verdict dest, ∀ f, Publishes f t →
      ((Hash.xdp_broker f).run (Hash.kern cpu) s).1 = (verdict, sent 128 dest f) := by
  -- the counter and the cache are read from the state alone
  by_cases hone : (s.maps.view t).cnt = some 1
  · rcases hfirst : (s.maps.view t).first with _ | packed
    · refine ⟨.drop, none, ?_⟩
      intro f hf
      rw [Hash.xdp_broker_run hf, if_pos hone, hfirst]
      rfl
    · refine ⟨.tx, some packed, ?_⟩
      intro f hf
      rw [Hash.xdp_broker_run hf, if_pos hone, hfirst]
      rfl
  · refine ⟨.pass, none, ?_⟩
    intro f hf
    rw [Hash.xdp_broker_run hf, if_neg hone]
    rfl

/-- So does `xdp_broker` of the clone broker. -/
theorem Clone.xdp_broker_decides (t : TopicKey) (data_meta : List UInt8) (cpu : Nat)
    (s : Clone.KernState) :
    ∃ verdict dest, ∀ f, Publishes f t →
      ((Clone.xdp_broker data_meta f).run (Clone.kern cpu) s).1 = (verdict, sent 1024 dest f) := by
  unfold Clone.xdp_broker
  -- a copy carries its number as metadata, an original nothing
  by_cases hmeta : 4 ≤ data_meta.length
  · simp only [if_pos hmeta]
    by_cases hcopy : rd32 data_meta 0 = 0
    · refine ⟨Clone.XDP_DROP, none, ?_⟩
      intro f _
      rw [Clone.xdp_clone_other (Or.inl hcopy)]
      rfl
    · -- the lookups of a copy: the array, then the slot
      rcases hfound : (s.maps.topic_sub_array.lookup t).isSome with _ | _
      · refine ⟨Clone.XDP_DROP, none, ?_⟩
        intro f hf
        rw [Clone.xdp_clone_eq hf hcopy]
        show ((Clone.xdp_array f t _ (s.maps.topic_sub_array.lookup t).isSome).run _ _).1 = _
        rw [hfound]
        rfl
      rcases hslot : s.maps.slot t (UInt32.ofNat (rd32 data_meta 0 - 1)) with _ | packed
      · refine ⟨Clone.XDP_DROP, none, ?_⟩
        intro f hf
        rw [Clone.xdp_clone_eq hf hcopy]
        show ((Clone.xdp_array f t _ (s.maps.topic_sub_array.lookup t).isSome).run _ _).1 = _
        rw [hfound]
        show ((Clone.xdp_addressed f (s.maps.slot t _)).run _ _).1 = _
        rw [hslot]
        rfl
      · refine ⟨Clone.XDP_TX, some packed, ?_⟩
        intro f hf
        exact Clone.xdp_clone_run_slot hf hcopy cpu hslot
  · -- an original reads the counter of the topic
    simp only [if_neg hmeta]
    rcases hcnt : s.maps.topic_sub_cnt.lookup t with _ | n
    · refine ⟨Clone.XDP_PASS, none, ?_⟩
      intro f hf
      rw [Clone.xdp_original_eq hf]
      show ((Clone.xdp_counted f (s.maps.topic_sub_cnt.lookup t)).run (Clone.kern cpu) _).1 = _
      rw [hcnt]
      rfl
    · refine ⟨if n = 0 then Clone.XDP_PASS else Clone.XDP_CLONE_TX n, none, ?_⟩
      intro f hf
      rw [Clone.xdp_original_eq hf]
      show ((Clone.xdp_counted f (s.maps.topic_sub_cnt.lookup t)).run (Clone.kern cpu) _).1 = _
      rw [hcnt]
      unfold Clone.xdp_counted
      dsimp only
      split <;> rfl

/-- The verdict of `tc_ingress_broker` with every frame cut to `n` bytes. -/
def Hash.TcResult.cut (n : Nat) : Hash.TcResult → Hash.TcResult
  | .act_ok skb => .act_ok (skb.take n)
  | .act_shot clones => .act_shot (clones.map (List.take n))

/-- `tc_ingress_broker` on a publication. -/
theorem Hash.tc_ingress_broker_publish {f : Frame} {t : TopicKey} (hf : Publishes f t)
    (env : Hash.Env) (s : Hash.KernState) :
    (Hash.tc_ingress_broker env f s).1 =
      if env.tc.pull = false ∧ (s.maps.inner t).isSome = true then
        match Hash.tc_edit env.tc f with
        | .error g => .act_ok g
        | .ok g =>
          .act_shot ((Hash.for_each_elem env.callback env.queue_mapping
            (env.ord.walk (s.maps.subs t)) g).run (Hash.kern env.cpu)
              (Hash.kern env.cpu .pub_count s).2).1
      else .act_ok f := by
  unfold Hash.tc_ingress_broker
  rcases hpull : env.tc.pull with _ | _
  · -- the prologue up to its lookup, with the edits that may fail behind it
    have hprologue : Hash.tc_ingress_prologue env.tc f =
        .op .pub_count fun _ => .op (.outer_lookup t) fun found =>
          if found then
            match Hash.tc_edit env.tc f with
            | .error g => .ret (.act_ok g)
            | .ok g => .ret (.for_each t g)
          else .ret (.act_ok f) := by
      unfold Hash.tc_ingress_prologue
      simp only [hpull, hf.refresh, hf.broker_port, hf.starts_with, hf.topic_id, Bool.not_true,
        Bool.false_eq_true, if_false, Prog.op_bind, Prog.ret_bind, Prog.pure_eq_ret]
      congr 1
      funext _
      congr 1
      funext found
      cases found <;> rfl
    have hfound : (Hash.kern env.cpu (.outer_lookup t) (Hash.kern env.cpu .pub_count s).2).1 =
        (s.maps.inner t).isSome := rfl
    rw [hprologue, Prog.run_op, Prog.run_op, hfound]
    rcases (s.maps.inner t).isSome with _ | _
    · rfl
    · simp only [and_self, if_true]
      rcases Hash.tc_edit env.tc f with g | g
      · rfl
      · rfl
  · rw [Hash.tc_ingress_prologue_other env.tc (Or.inl hpull)]
    rfl

/-! ### Frames with the same datagram -/

/-- On both frames the three programs use the same topic key, return the same
    verdict and leave and emit the same first `n` bytes, in every state. -/
structure SameOutcome (n : Nat) (f f' : Frame) : Prop where
  topic : topic_of f = topic_of f'
  xdp : ∀ cpu s, Prod.map id (List.take n) ((Hash.xdp_broker f).run (Hash.kern cpu) s).1 =
    Prod.map id (List.take n) ((Hash.xdp_broker f').run (Hash.kern cpu) s).1
  tc : ∀ env s, (Hash.tc_ingress_broker env f s).1.cut n =
    (Hash.tc_ingress_broker env f' s).1.cut n
  clone : ∀ data_meta cpu s,
    Prod.map id (List.take n) ((Clone.xdp_broker data_meta f).run (Clone.kern cpu) s).1 =
      Prod.map id (List.take n) ((Clone.xdp_broker data_meta f').run (Clone.kern cpu) s).1

/-- Frames that are no publications are left as they are. -/
theorem same_outcome_other {d : Frame} (h : ∀ x, is_publish (d ++ x) = false) (x y : List UInt8) :
    SameOutcome d.length (d ++ x) (d ++ y) := by
  have hnone : ∀ x t, ¬ Publishes (d ++ x) t := by
    intro x t hpub
    have := (publishes_iff.mp hpub).1
    rw [h x] at this
    cases this
  have htake : ∀ x : List UInt8, (d ++ x).take d.length = d := fun x => List.take_left' rfl
  -- without a topic each program returns the frame itself
  constructor
  · unfold topic_of
    rw [h x, h y, if_neg Bool.false_ne_true, if_neg Bool.false_ne_true]
  · intro cpu s
    rw [Hash.xdp_broker_other (h x), Hash.xdp_broker_other (h y), Prog.run_ret, Prog.run_ret,
      Prod.map_apply, Prod.map_apply, htake, htake]
  · intro env s
    have hok : ∀ x, (Hash.tc_ingress_broker env (d ++ x) s).1 = .act_ok (d ++ x) := by
      intro x
      by_contra hne
      obtain ⟨t, ht⟩ := Hash.publishes_of_tc hne
      exact hnone x t ht
    rw [hok, hok, Hash.TcResult.cut, Hash.TcResult.cut, htake, htake]
  · intro data_meta cpu s
    unfold Clone.xdp_broker
    by_cases hmeta : 4 ≤ data_meta.length
    · rw [if_pos hmeta, if_pos hmeta, Clone.xdp_clone_other (Or.inr (hnone x)),
        Clone.xdp_clone_other (Or.inr (hnone y)), Prog.run_ret, Prog.run_ret, Prod.map_apply,
        Prod.map_apply, htake, htake]
    · have hpass : ∀ x, ((Clone.xdp_original (d ++ x)).run (Clone.kern cpu) s).1 =
          (Clone.XDP_PASS, d ++ x) := by
        intro x
        by_contra hne
        obtain ⟨t, ht⟩ := Clone.publishes_of_original hne
        exact hnone x t ht
      rw [if_neg hmeta, if_neg hmeta, hpass, hpass, Prod.map_apply, Prod.map_apply, htake, htake]

section blind
variable {d : Frame} (hd : Carries d)
include hd

/-- What `tc_ingress_broker` does with a publication, cut to the datagram. -/
theorem tc_ingress_broker_cut {t : TopicKey} {x : List UInt8} (hx : Publishes (d ++ x) t)
    (hnil : Publishes d t) (env : Hash.Env) (s : Hash.KernState) :
    (Hash.tc_ingress_broker env (d ++ x) s).1.cut d.length =
      (Hash.tc_ingress_broker env d s).1.cut d.length := by
  have hlen := hd.length_le
  rw [Hash.tc_ingress_broker_publish hx, Hash.tc_ingress_broker_publish hnil]
  split
  · have hedit := Hash.tc_edit_append hlen x env.tc
    generalize Hash.tc_edit env.tc (d ++ x) = r' at hedit
    generalize Hash.tc_edit env.tc d = r at hedit
    cases hedit with
    | error g hg =>
      show Hash.TcResult.act_ok ((g ++ x).take d.length) = .act_ok (g.take d.length)
      rw [← hg, List.take_left' rfl, List.take_length]
    | ok g hg =>
      have hwalk := Hash.for_each_elem_append (d := g) (by rw [hg]; exact hlen) x env.callback
        env.queue_mapping env.cpu (env.ord.walk (s.maps.subs t)) (Hash.kern env.cpu .pub_count s).2
      -- every clone has the length of the datagram: the cut removes the trailer only
      obtain ⟨hmap, hall⟩ := hwalk
      show Hash.TcResult.act_shot (List.map _ _) = .act_shot (List.map _ _)
      rw [hmap, List.map_map]
      congr 1
      apply List.map_congr_left
      intro clone hclone
      show (clone ++ x).take d.length = clone.take d.length
      rw [List.take_append_of_le_length (by rw [hall clone hclone, hg])]
  · show Hash.TcResult.act_ok ((d ++ x).take d.length) = .act_ok (d.take d.length)
    rw [List.take_left' rfl, List.take_length]

/-- A publication with a safe checksum is treated alike with every trailer. -/
theorem same_outcome_publish {t : TopicKey} (h : ∀ x, Publishes (d ++ x) t)
    (hsafe : udp_len d % 2 = 0 ∨ 2048 < udp_len d) (x y : List UInt8) :
    SameOutcome d.length (d ++ x) (d ++ y) := by
  have hnil : Publishes d t := List.append_nil d ▸ h []
  constructor
  · rw [topic_of_eq_some.mpr (h x), topic_of_eq_some.mpr (h y)]
  · intro cpu s
    -- verdict and destination are those of the topic, whatever the frame
    obtain ⟨verdict, dest, hrun⟩ := Hash.xdp_broker_decides t cpu s
    have hcut := take_sent hd (by decide : 128 ≤ 1024) (by omega) dest
    rw [hrun _ (h x), hrun _ (h y)]
    show (verdict, List.take _ _) = (verdict, List.take _ _)
    rw [hcut x, hcut y]
  · intro env s
    rw [tc_ingress_broker_cut hd (h x) hnil, tc_ingress_broker_cut hd (h y) hnil]
  · intro data_meta cpu s
    obtain ⟨verdict, dest, hrun⟩ := Clone.xdp_broker_decides t data_meta cpu s
    have hcut := take_sent hd (Nat.le_refl 1024) hsafe dest
    rw [hrun _ (h x), hrun _ (h y)]
    show (verdict, List.take _ _) = (verdict, List.take _ _)
    rw [hcut x, hcut y]

end blind

/-! ### Trailers that matter -/

theorem octet_sum_append {g : Frame} (x : List UInt8) {off n : Nat} (h : off + n ≤ g.length) :
    octet_sum (g ++ x) off n = octet_sum g off n := by
  rcases Nat.even_or_odd' n with ⟨k, rfl | rfl⟩
  · rw [octet_sum_even, octet_sum_even, word_sum_append x h]
  · rw [octet_sum_odd, octet_sum_odd, word_sum_append x (by omega), rd8_append x (by omega)]

/-- A trailer of one byte counts 256 times in the checksum of an odd
    datagram. -/
theorem compute_udp_checksum_trailer {g : Frame} (hlen : g.length = UDP + udp_len g)
    (hheader : 8 ≤ udp_len g) (hodd : udp_len g % 2 = 1) {budget : Nat} (hbudget : budget ≤ 1024)
    (hbound : udp_len g ≤ 2 * budget) (c : UInt8) :
    compute_udp_checksum budget (g ++ [c]) = finish (datagram_sum g + c.toNat * 256) := by
  have hpayload : PAYLOAD ≤ g.length := by
    rw [hlen]
    simp only [PAYLOAD, UDP]
    omega
  have hsame := udp_len_append hpayload [c]
  -- the loop takes the last byte together with `c`, and the odd branch reads past the frame
  obtain ⟨k, hk⟩ : ∃ k, udp_len g = 2 * k + 1 := ⟨udp_len g / 2, by omega⟩
  have hfirst : rd8 (g ++ [c]) (UDP + udp_len g) = c := by
    unfold rd8
    rw [← hlen, List.getD_eq_getElem?_getD, List.getElem?_concat_length]
    rfl
  have hsecond : rd8 (g ++ [c]) (UDP + udp_len g + 1) = 0 :=
    rd8_of_length_le (by rw [List.length_append, hlen]; exact Nat.le_refl _)
  have hsum : datagram_sum (g ++ [c]) = datagram_sum g := by
    unfold datagram_sum
    rw [pseudo_header_sum_append hpayload, hsame, octet_sum_append [c] (Nat.le_of_eq hlen.symm)]
  rw [compute_udp_checksum_odd_trailer (hsame.trans hk) (by omega) hbudget
    (by rw [hsame, List.length_append, hlen]; exact Nat.lt_succ_self _), hsum, hsame, hfirst,
    hsecond]
  rfl

theorem SameOutcome.topic_eq {d : Frame} (h : ∀ x y, SameOutcome d.length (d ++ x) (d ++ y))
    (x : List UInt8) : topic_of (d ++ x) = topic_of d := by
  have := (h x []).topic
  rwa [List.append_nil] at this

section open_ended
variable {d : Frame} (hd : Carries d) (h : ∀ x y, SameOutcome d.length (d ++ x) (d ++ y))
include hd h

/-- The rest of the command in the trailer. -/
theorem not_prefix_of_same_outcome (hport : broker_port d = true) : ¬ payload d <+: PUBLISH := by
  intro hpre
  obtain ⟨rest, hrest⟩ := hpre
  -- complete the command in the trailer
  have hpub : topic_of (d ++ (rest ++ [97, SP])) = some (pub_key [97]) := by
    have hcompleted : payload d ++ (rest ++ [97, SP]) = PUBLISH ++ [97, SP] := by
      rw [← List.append_assoc, hrest]
    rw [topic_of_completed hd hport (by rw [hcompleted]; exact List.prefix_append _ _), hcompleted]
    decide
  rw [SameOutcome.topic_eq h, topic_of_eq_some] at hpub
  -- then the datagram alone has a topic, but nothing is left for it
  have hfull : PUBLISH <+: payload d := starts_with_iff.mp hpub.starts_with
  have heq : payload d = PUBLISH := List.IsPrefix.eq_of_length ⟨rest, hrest⟩
    (Nat.le_antisymm (List.IsPrefix.length_le ⟨rest, hrest⟩) hfull.length_le)
  have htopic := hpub.topic_id
  rw [heq] at htopic
  exact absurd htopic (by decide)

/-- A zero byte behind an open topic. -/
theorem topic_of_same_outcome (hport : broker_port d = true) (hp : PUBLISH <+: payload d) :
    (extract_topic_id ((payload d).drop 8)).isSome = true := by
  by_contra hno
  have hnone : extract_topic_id ((payload d).drop 8) = none := by
    rw [← Option.isNone_iff_eq_none]
    simpa using hno
  -- with a zero byte there is a topic, without one there is none
  have hzero := extract_topic_id_zero hnone
  rw [← topic_of_append hd hport hp, SameOutcome.topic_eq h] at hzero
  have hnil := topic_of_append hd hport hp []
  rw [List.append_nil, List.append_nil, hnone] at hnil
  rw [hnil] at hzero
  cases hzero

/-- The trailers `0` and `1` behind an odd datagram, on a copy for the only
    subscriber of its topic. -/
theorem udp_len_of_same_outcome {t : TopicKey} (ht : ∀ x, Publishes (d ++ x) t) :
    udp_len d % 2 = 0 ∨ 2048 < udp_len d := by
  by_contra hno
  have hlen := hd.length_le
  have hturned := udp_turned_rewritten 5 hlen
  have hsame := hturned.udp_len_eq hlen
  have hlength := length_udp_turned 5 d
  have hcsum := compute_udp_checksum_trailer (g := udp_turned 5 d)
    (by rw [hlength, hsame]; exact hd.length_eq) (by rw [hsame]; exact hd.header)
    (by rw [hsame]; omega) (Nat.le_refl 1024) (by rw [hsame]; omega)
  have hcopy : ∀ x, ((Clone.xdp_broker [1, 0, 0, 0] (d ++ x)).run (Clone.kern 0)
      ⟨Clone.Maps.one t 5, fun _ => 0⟩).1 = (Clone.XDP_TX, xdp_rewrite 1024 5 (d ++ x)) := by
    intro x
    exact Clone.xdp_clone_run_slot (ht x) (Nat.succ_ne_zero 0) 0 (Clone.slot_one t 5)
  have hout := (h [0] [1]).clone [1, 0, 0, 0] 0 ⟨Clone.Maps.one t 5, fun _ => 0⟩
  rw [hcopy, hcopy, Prod.map_apply, Prod.map_apply, take_xdp_rewrite hlen, take_xdp_rewrite hlen,
    hcsum, hcsum] at hout
  -- the two checksum fields are equal, but their sums differ by 256
  have hfield := congrArg (fun r => rd16 r.2 UDP_CHECK) hout
  dsimp only at hfield
  rw [rd16_wr16_in (by rw [hlength]; exact hlen), rd16_wr16_in (by rw [hlength]; exact hlen),
    Nat.mod_eq_of_lt (finish_le _), Nat.mod_eq_of_lt (finish_le _)] at hfield
  have hcast := congrArg (fun n : Nat => (n : ZMod 65535)) hfield
  have hle := octet_sum_le (udp_turned 5 d) UDP (udp_len (udp_turned 5 d))
  have hpseudo := pseudo_header_sum_bounds (udp_turned 5 d)
  have hsum : datagram_sum (udp_turned 5 d) < 100000000 := by
    unfold datagram_sum
    omega
  have h0 : (0 : UInt8).toNat = 0 := rfl
  have h1 : (1 : UInt8).toNat = 1 := rfl
  rw [h0, h1] at hcast
  rw [cast_finish (by omega), cast_finish (by omega), neg_inj, cast_eq_iff] at hcast
  omega

end open_ended

/-- **When the trailer does not matter**: the programs treat all frames that
    carry a datagram alike, in every state and whatever the bytes behind it,
    exactly when the datagram is self-contained. -/
theorem same_outcome_iff {d : Frame} (hd : Carries d) :
    (∀ x y, SameOutcome d.length (d ++ x) (d ++ y)) ↔ SelfContained d := by
  refine ⟨?_, ?_⟩
  · -- each condition has a trailer that reveals it
    intro h hport
    have hopen := not_prefix_of_same_outcome hd h hport
    refine ⟨hopen, ?_⟩
    intro hp
    have hsome := topic_of_same_outcome hd h hport hp
    refine ⟨hsome, ?_⟩
    obtain ⟨t, ht⟩ := Option.isSome_iff_exists.mp hsome
    apply udp_len_of_same_outcome hd h (t := t)
    intro x
    rw [← topic_of_eq_some, topic_of_append hd hport hp]
    exact extract_topic_id_append ht x
  · intro h x y
    rcases h.topic hd with hother | ⟨t, hpub, hsafe⟩
    · exact same_outcome_other hother x y
    · exact same_outcome_publish hd hpub hsafe x y

theorem sample_frame_carries : Carries (sample_frame [97] [104, 105]) where
  eth_proto := by decide
  ihl := by decide
  protocol := by decide
  total := by decide
  consistent := by decide
  header := by decide

/-- The publication of `hi` to `a` is carried alike with and without padding. -/
theorem same_outcome_iff_sample :
    SameOutcome (sample_frame [97] [104, 105]).length (sample_frame [97] [104, 105] ++ [])
      (sample_frame [97] [104, 105] ++ List.replicate 6 0) := by
  have hself : SelfContained (sample_frame [97] [104, 105]) :=
    fun _ => ⟨by decide, fun _ => ⟨by decide +kernel, Or.inl (by decide)⟩⟩
  exact (same_outcome_iff sample_frame_carries).mpr hself [] (List.replicate 6 0)

/-- The datagram `PUBLISH a`, with nothing after the topic. -/
def bare_frame : Frame :=
  [2, 0, 0, 0, 0, 1, 2, 0, 0, 0, 0, 2, 8, 0,
   69, 0, 0, 37, 0, 1, 0, 0, 64, 17, 102, 192, 10, 0, 0, 7, 10, 0, 0, 1,
   19, 136, 192, 0, 0, 17, 0, 0] ++ (PUBLISH ++ [97])

/-- Alone it is passed on; padded to the minimum of 60 bytes it is sent to the
    subscriber. -/
theorem padding_decides :
    Carries bare_frame ∧
      ((Hash.xdp_broker (bare_frame ++ [])).run (Hash.kern 0)
        ⟨Hash.Maps.one (pub_key [97]) 5, .empty⟩).1.1 = .pass ∧
      ((Hash.xdp_broker (bare_frame ++ List.replicate 9 0)).run (Hash.kern 0)
        ⟨Hash.Maps.one (pub_key [97]) 5, .empty⟩).1.1 = .tx ∧
      ¬ SameOutcome bare_frame.length (bare_frame ++ []) (bare_frame ++ List.replicate 9 0) := by
  have hcarries : Carries bare_frame :=
    ⟨by decide, by decide, by decide, by decide, by decide, by decide⟩
  have halone : ((Hash.xdp_broker (bare_frame ++ [])).run (Hash.kern 0)
      ⟨Hash.Maps.one (pub_key [97]) 5, .empty⟩).1.1 = .pass := by decide +kernel
  have hpadded : ((Hash.xdp_broker (bare_frame ++ List.replicate 9 0)).run (Hash.kern 0)
      ⟨Hash.Maps.one (pub_key [97]) 5, .empty⟩).1.1 = .tx := by decide +kernel
  refine ⟨hcarries, halone, hpadded, ?_⟩
  intro h
  have hsame := congrArg Prod.fst (h.xdp 0 ⟨Hash.Maps.one (pub_key [97]) 5, .empty⟩)
  rw [Prod.map_fst, Prod.map_fst, halone, hpadded] at hsame
  cases hsame

end BpfBroker
