import BpfBroker.Publish
import BpfBroker.Clone.Invariant

/-! # What the Clone Broker Does with a Frame

    The two branches of `xdp_broker` as equations, and what they return and
    leave of the frame when the maps hold a directory: an original frame gets
    the verdict `XDP_CLONE_TX(n)` for `n` accepted clients, and copy `k` goes
    to the `k`-th of them. -/

namespace BpfBroker.Clone

open Atomic Buffer

/-! ### The two branches -/

/-- The original branch after its lookup in `topic_sub_cnt`. -/
def xdp_counted (f : Frame) (sub_count : Option UInt32) : Prog KernSig (UInt32 × Frame) :=
  match sub_count with
  | none => .ret (XDP_PASS, f)
  | some n => if n = 0 then .ret (XDP_PASS, f) else .ret (XDP_CLONE_TX n, f)

/-- The clone branch after its lookup of the slot. -/
def xdp_addressed (f : Frame) (packed_ptr : Option UInt64) : Prog KernSig (UInt32 × Frame) :=
  match packed_ptr with
  | none => .ret (XDP_DROP, f)
  | some packed => .ret (XDP_TX, xdp_rewrite 1024 packed f)

/-- The clone branch after its lookup in `topic_sub_array`. -/
def xdp_array (f : Frame) (t : TopicKey) (idx : UInt32) (found : Bool) :
    Prog KernSig (UInt32 × Frame) :=
  if found then .op (.slot_lookup t idx) (xdp_addressed f) else .ret (XDP_DROP, f)

section branches
variable {f : Frame} {t : TopicKey}

theorem xdp_original_eq (h : Publishes f t) :
    xdp_original f = .op .pub_count fun _ => .op (.cnt_lookup t) (xdp_counted f) := by
  unfold xdp_original
  rw [h.parse, h.broker_port, h.starts_with, h.topic_id]
  rfl

theorem xdp_clone_eq (h : Publishes f t) {num_copy : Nat} (hk : num_copy ≠ 0) :
    xdp_clone num_copy f =
      .op (.outer_lookup t) (xdp_array f t (UInt32.ofNat (num_copy - 1))) := by
  unfold xdp_clone
  rw [if_neg hk, h.parse, h.broker_port, h.starts_with, h.topic_id]
  simp only [Bool.not_true, Bool.false_eq_true, if_false, Prog.op_bind, Prog.ret_bind]
  congr 1
  funext found
  cases found with
  | false => rfl
  | true => rfl

/-- A frame that is no publication is passed on. -/
theorem xdp_original_other (h : ∀ t, ¬ Publishes f t) :
    xdp_original f = .ret (XDP_PASS, f) ∨
      xdp_original f = .op .pub_count fun _ => .ret (XDP_PASS, f) := by
  unfold xdp_original
  rcases hp : parse_udp_packet f with _ | _
  · exact Or.inl rfl
  rcases hb : broker_port f with _ | _
  · exact Or.inl rfl
  rcases hs : starts_with (payload f) PUBLISH with _ | _
  · exact Or.inl rfl
  rcases ht : extract_topic_id ((payload f).drop 8) with _ | t
  · exact Or.inr rfl
  · exact absurd ⟨hp, hb, hs, ht⟩ (h t)

theorem publishes_of_original {cpu : Nat} {s : KernState}
    (h : ((xdp_original f).run (kern cpu) s).1 ≠ (XDP_PASS, f)) : ∃ t, Publishes f t := by
  by_contra hno
  rcases xdp_original_other (not_exists.mp hno) with heq | heq
  · rw [heq] at h
    exact absurd rfl h
  · rw [heq] at h
    exact absurd rfl h

/-- So is no copy of one: it is dropped, as is a copy with the number 0. -/
theorem xdp_clone_other {num_copy : Nat} (h : num_copy = 0 ∨ ∀ t, ¬ Publishes f t) :
    xdp_clone num_copy f = .ret (XDP_DROP, f) := by
  unfold xdp_clone
  by_cases hk : num_copy = 0
  · rw [if_pos hk]
    rfl
  rw [if_neg hk]
  rcases hp : parse_udp_packet f with _ | _
  · rfl
  rcases hb : broker_port f with _ | _
  · rfl
  rcases hs : starts_with (payload f) PUBLISH with _ | _
  · rfl
  rcases ht : extract_topic_id ((payload f).drop 8) with _ | t
  · rfl
  · rcases h with h | h
    · exact absurd h hk
    · exact absurd ⟨hp, hb, hs, ht⟩ (h t)

end branches

/-! ### The verdict -/

/-- The verdict of an original frame for `n` clients. -/
def verdict (n : Nat) : UInt32 := if n = 0 then XDP_PASS else XDP_CLONE_TX (UInt32.ofNat n)

/-- **No overflow**: for a number of copies below `2^26` the macro computes
    `32 * n + 6`, as an `int` does. -/
theorem toNat_clone_tx {n : Nat} (h : n < 67108864) :
    (XDP_CLONE_TX (UInt32.ofNat n)).toNat = n * 32 + 6 := by
  unfold XDP_CLONE_TX CLONE_TX
  have hshift : (UInt32.ofNat n <<< 5).toNat = n <<< 5 := by
    rw [UInt32.toNat_shiftLeft, UInt32.toNat_ofNat', Nat.shiftLeft_eq, Nat.shiftLeft_eq]
    show n % 4294967296 * 32 % 4294967296 = n * 32
    omega
  rw [UInt32.toNat_or, hshift]
  show n <<< 5 ||| 6 = _
  rw [← Nat.shiftLeft_add_eq_or_of_lt (by decide), Nat.shiftLeft_eq]

/-- The driver gets the number of copies and the action back. -/
theorem clone_tx_fields {n : Nat} (h : n < 67108864) :
    XDP_CLONE_TX (UInt32.ofNat n) >>> 5 = UInt32.ofNat n ∧
      XDP_CLONE_TX (UInt32.ofNat n) &&& 31 = CLONE_TX := by
  have hn := toNat_clone_tx h
  refine ⟨?_, ?_⟩
  · apply UInt32.toNat_inj.mp
    rw [UInt32.toNat_shiftRight, hn, UInt32.toNat_ofNat', Nat.shiftRight_eq_div_pow]
    show (n * 32 + 6) / 32 = n % 4294967296
    omega
  · apply UInt32.toNat_inj.mp
    rw [UInt32.toNat_and, hn]
    show (n * 32 + 6) &&& (2 ^ 5 - 1) = 6
    rw [Nat.and_two_pow_sub_one_eq_mod]
    omega

/-- Whatever the count is, the verdict is no `XDP_TX`. -/
theorem clone_tx_ne_tx (n : UInt32) : XDP_CLONE_TX n ≠ XDP_TX := by
  intro h
  have hand := congrArg (fun v => v.toNat % 8) h
  unfold XDP_CLONE_TX CLONE_TX XDP_TX at hand
  simp only [UInt32.toNat_or, UInt32.toNat_shiftLeft] at hand
  rw [show (6 : UInt32).toNat = 6 from rfl, show (3 : UInt32).toNat = 3 from rfl,
    show (5 : UInt32).toNat % 32 = 5 from rfl, Nat.or_mod_two_pow (n := 3)] at hand
  have hshift : n.toNat <<< 5 % 2 ^ 32 % 2 ^ 3 = 0 := by
    rw [Nat.shiftLeft_eq]
    omega
  rw [hshift] at hand
  exact absurd hand (by decide)

/-- The clone branch on a slot that holds a subscriber. -/
theorem xdp_clone_run_slot {f : Frame} {t : TopicKey} (hf : Publishes f t) {num_copy : Nat}
    (hk : num_copy ≠ 0) (cpu : Nat) {s : KernState} {packed : UInt64}
    (hslot : s.maps.slot t (UInt32.ofNat (num_copy - 1)) = some packed) :
    ((xdp_clone num_copy f).run (kern cpu) s).1 = (XDP_TX, xdp_rewrite 1024 packed f) := by
  have hfound : (s.maps.topic_sub_array.lookup t).isSome = true :=
    BMap.lookup_isSome.mpr (slot_isSome_found hslot)
  rw [xdp_clone_eq hf hk]
  show ((xdp_array f t _ (s.maps.topic_sub_array.lookup t).isSome).run _ _).1 = _
  rw [hfound]
  show ((xdp_addressed f (s.maps.slot t _)).run _ _).1 = _
  rw [hslot]
  rfl

/-- Maps in which the topic has `packed` as its only subscriber. -/
def Maps.one (t : TopicKey) (packed : UInt64) : Maps :=
  ⟨.single (by decide) t 1, .single (by decide) t fun i => if i.val = 0 then packed else 0⟩

theorem slot_one (t : TopicKey) (packed : UInt64) : (Maps.one t packed).slot t 0 = some packed := by
  unfold Maps.slot Maps.one
  rw [BMap.lookup_single]
  rfl

/-! ### Frames in a quiet state -/

section quiet
variable {m : Maps} {d : Directory MAX_TOPIC_ID} {f : Frame} {t : TopicKey}

/-- The maps are only read. -/
theorem maps_run {α : Type} (cpu : Nat) (p : Prog KernSig α) (s : KernState) :
    (p.run (kern cpu) s).2.maps = s.maps := by
  have hview : ∀ o s, KernState.maps (kern cpu o s).2 = KernState.maps s := by
    intro o s
    cases o with
    | pub_count => rfl
    | cnt_lookup => rfl
    | outer_lookup => rfl
    | slot_lookup => rfl
  exact Prog.run_preserves hview p s

/-- **The original frame** is left as it is, and the verdict is for as many
    copies as there are accepted clients. -/
theorem xdp_original_run (h : Inv m d) (hf : Publishes f t) (cpu : Nat) (pub : Nat → UInt32) :
    ((xdp_original f).run (kern cpu) ⟨m, pub⟩).1 = (verdict (d.subs t).length, f) := by
  rw [xdp_original_eq hf]
  show ((xdp_counted f (m.topic_sub_cnt.lookup t)).run (kern cpu) _).1 = _
  have hcnt := h.topic t
  have hlen := hcnt.toNat_cnt
  unfold verdict
  rcases hl : m.topic_sub_cnt.lookup t with _ | n
  · have hzero : m.cnt t = 0 := by
      unfold Maps.cnt
      rw [hl]
      rfl
    rw [hzero, UInt32.toNat_zero] at hlen
    rw [if_pos hlen.symm]
    rfl
  · have hn : m.cnt t = n := by
      unfold Maps.cnt
      rw [hl]
      rfl
    rw [hn] at hlen
    unfold xdp_counted
    dsimp only
    by_cases hzero : n = 0
    · rw [if_pos hzero, if_pos (by rw [← hlen, hzero]; rfl)]
      rfl
    · have hne : (d.subs t).length ≠ 0 := by
        rw [← hlen]
        exact fun h0 => hzero (UInt32.toNat_inj.mp h0)
      rw [if_neg hzero, if_neg hne, ← hcnt.cnt_eq, hn]
      rfl

/-- **Copy `i + 1`** goes to the client in slot `i`. -/
theorem xdp_clone_run (h : Inv m d) (hf : Publishes f t) {i : Nat} {c : SockAddr}
    (hc : (d.subs t)[i]? = some c) (cpu : Nat) (pub : Nat → UInt32) :
    ((xdp_clone (i + 1) f).run (kern cpu) ⟨m, pub⟩).1 =
      (XDP_TX, xdp_rewrite 1024 (pack c) f) :=
  xdp_clone_run_slot hf (Nat.succ_ne_zero i) cpu ((h.topic t).slot_eq i c hc)

end quiet

end BpfBroker.Clone
