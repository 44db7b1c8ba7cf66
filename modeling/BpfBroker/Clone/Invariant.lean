import BpfBroker.Directory
import BpfBroker.Clone.Model

/-! # The Clone Broker Keeps a Directory

    What the two maps hold, relative to the directory of accepted clients:

    * between commands, `Inv`: the count is the number of accepted clients,
      and they are in the slots below it, in order; nothing is said about the
      other slots, which may hold zeros or clients of an earlier time;
    * inside a command, `Mid`: the counts have not changed yet, and what the
      operation about to be performed stores can be relied on.

    `command_outline` proves both for every command, and that its return
    value is the directory's. -/

namespace BpfBroker.Clone

open Atomic

/-! ### One topic -/

/-- The clone broker has room for 2048 clients, and takes every one of them as
    often as it subscribes. -/
def room (subs : List SockAddr) (_ : SockAddr) : Bool := subs.length < MAX_SUBSCRIBERS

/-- The slot of a topic, as the kernel looks it up. -/
def Maps.slot (m : Maps) (t : TopicKey) (idx : UInt32) : Option UInt64 :=
  (m.topic_sub_array.lookup t).bind fun a => a.get idx

/-- The count of a topic; a missing one reads as 0. -/
def Maps.cnt (m : Maps) (t : TopicKey) : UInt32 := (m.topic_sub_cnt.lookup t).getD 0

/-- The topic is registered. -/
def Maps.found (m : Maps) (t : TopicKey) : Prop := t ∈ m.topic_sub_array.keys

/-- Between commands, for one topic. -/
structure Matches (m : Maps) (t : TopicKey) (subs : List SockAddr) : Prop where
  length_le : subs.length ≤ MAX_SUBSCRIBERS
  cnt_eq : m.cnt t = UInt32.ofNat subs.length
  slot_eq : ∀ i c, subs[i]? = some c → m.slot t (UInt32.ofNat i) = some (pack c)

theorem Matches.toNat_cnt {m : Maps} {t : TopicKey} {subs : List SockAddr}
    (h : Matches m t subs) : (m.cnt t).toNat = subs.length := by
  have hle := h.length_le
  simp only [MAX_SUBSCRIBERS] at hle
  rw [h.cnt_eq, UInt32.toNat_ofNat']
  exact Nat.mod_eq_of_lt (by omega)

/-- Nobody is accepted: the slots do not matter. -/
theorem matches_nil {m : Maps} {t : TopicKey} (h : m.cnt t = 0) : Matches m t [] where
  length_le := Nat.zero_le _
  cnt_eq := h
  slot_eq _ _ hc := by cases hc

/-- Only the slots of the topic and its count matter. -/
theorem Matches.congr {m m' : Maps} {t : TopicKey} {subs : List SockAddr} (h : Matches m t subs)
    (hcnt : m'.cnt t = m.cnt t) (hslot : ∀ idx, m'.slot t idx = m.slot t idx) :
    Matches m' t subs where
  length_le := h.length_le
  cnt_eq := hcnt.trans h.cnt_eq
  slot_eq i c hc := (hslot _).trans (h.slot_eq i c hc)

/-! ### All topics -/

/-- A count comes with a registered topic. -/
def Nested (m : Maps) : Prop := ∀ t ∈ m.topic_sub_cnt.keys, m.found t

/-- Between commands: the maps hold the directory. -/
structure Inv (m : Maps) (d : Directory MAX_TOPIC_ID) : Prop where
  nested : Nested m
  registered : ∀ t, m.found t ↔ t ∈ d.keys
  topic : ∀ t, Matches m t (d.subs t)

/-- Before the operation `o` of the command `cmd`. -/
structure Mid (cmd : Cmd) (d : Directory MAX_TOPIC_ID) (o : CtlOp) (m : Maps) : Prop where
  cnt_eq : ∀ t, (m.cnt t).toNat = (d.subs t).length
  /-- A count is only raised when the slot has been stored. -/
  count : ∀ t n, o = .cnt_update t n → n ≠ 0 → ∃ name c, cmd = .subscribe name c ∧
    topic_key_of name = some t ∧ n.toNat = (d.subs t).length + 1 ∧
      m.slot t (n - 1) = some (pack c)
  /-- A new array takes the place of none. -/
  fresh : ∀ t, o = .outer_update t → ¬ m.found t

theorem Inv.mid {m : Maps} {d : Directory MAX_TOPIC_ID} (h : Inv m d) {cmd : Cmd} {o : CtlOp}
    (hcount : ∀ t n, o ≠ .cnt_update t n) (hfresh : ∀ t, o = .outer_update t → ¬ m.found t) :
    Mid cmd d o m where
  cnt_eq t := (h.topic t).toNat_cnt
  count t n ho := absurd ho (hcount t n)
  fresh := hfresh

theorem inv_empty : Inv Maps.empty .empty where
  nested _ h := absurd h (by simp [Maps.empty])
  registered _ := Iff.rfl
  topic _ := matches_nil rfl

/-! ### What the operations change -/

theorem Slots.get_eq_none {a : Slots} {idx : UInt32} :
    a.get idx = none ↔ ¬ idx.toNat < MAX_SUBSCRIBERS := by
  unfold Slots.get
  split
  · next h => simp [h]
  · next h => simp [h]

theorem Slots.put_isSome {a : Slots} {idx : UInt32} {v : UInt64} :
    (a.put idx v).isSome ↔ idx.toNat < MAX_SUBSCRIBERS := by
  unfold Slots.put
  split
  · next h => simp [h]
  · next h => simp [h]

theorem Slots.get_put {a a' : Slots} {idx : UInt32} {v : UInt64} (h : a.put idx v = some a')
    (idx' : UInt32) : a'.get idx' = if idx' = idx then some v else a.get idx' := by
  unfold Slots.put at h
  split at h
  · next hlt =>
    cases h
    unfold Slots.get
    by_cases heq : idx' = idx
    · subst heq
      simp [hlt]
    · have hne : idx'.toNat ≠ idx.toNat := fun hn => heq (UInt32.toNat_inj.mp hn)
      simp [heq, hne]
  · cases h

section slots
variable {m : Maps} {t : TopicKey}

theorem slot_isSome_found {idx : UInt32} {v : UInt64} (h : m.slot t idx = some v) : m.found t := by
  unfold Maps.slot at h
  rcases hl : m.topic_sub_array.lookup t with _ | a
  · rw [hl] at h
    cases h
  · exact BMap.mem_keys_of_lookup hl

/-- A store to a slot. -/
theorem slot_modify {a a' : Slots} {idx : UInt32} {v : UInt64}
    (hl : m.topic_sub_array.lookup t = some a) (hp : a.put idx v = some a') (t' : TopicKey)
    (idx' : UInt32) :
    Maps.slot { m with topic_sub_array := m.topic_sub_array.modify t fun _ => a' } t' idx' =
      if t' = t ∧ idx' = idx then some v else m.slot t' idx' := by
  unfold Maps.slot
  dsimp only
  rw [BMap.lookup_modify]
  by_cases ht : t' = t
  · subst ht
    rw [if_pos rfl, hl]
    simp [Slots.get_put hp]
  · simp [ht]

/-- A store to a count. -/
theorem cnt_update {cnt : BMap MAX_TOPIC_ID TopicKey UInt32} {n : UInt32}
    (h : m.topic_sub_cnt.update t n = some cnt) (t' : TopicKey) :
    Maps.cnt { m with topic_sub_cnt := cnt } t' = if t' = t then n else m.cnt t' := by
  unfold Maps.cnt
  dsimp only
  rw [BMap.lookup_update h]
  split <;> rfl

/-- A new array. -/
theorem slot_outer_update {ts : BMap MAX_TOPIC_ID TopicKey Slots} {a : Slots}
    (h : m.topic_sub_array.update t a = some ts) {t' : TopicKey} (hne : t' ≠ t) (idx : UInt32) :
    Maps.slot { m with topic_sub_array := ts } t' idx = m.slot t' idx := by
  unfold Maps.slot
  dsimp only
  rw [BMap.lookup_update h, if_neg hne]

end slots

/-- The result of a command is what the directory makes of it. -/
def Result (cmd : Cmd) (d : Directory MAX_TOPIC_ID) (ret : Int) (m' : Maps) : Prop :=
  ret = (d.exec room cmd).1 ∧ Inv m' (d.exec room cmd).2

theorem Result.of_exec {cmd : Cmd} {m' : Maps} {d d' : Directory MAX_TOPIC_ID} {ret : Int}
    (hexec : d.exec room cmd = (ret, d')) (h : Inv m' d') : Result cmd d ret m' := by
  unfold Result
  rw [hexec]
  exact ⟨rfl, h⟩

/-! ### SUBSCRIBE -/

section subscribe
variable {m : Maps} {d : Directory MAX_TOPIC_ID}

/-- The slot behind the last client. -/
theorem Inv.idx_toNat (h : Inv m d) (t : TopicKey) :
    ((m.topic_sub_cnt.lookup t).getD 0).toNat = (d.subs t).length :=
  (h.topic t).toNat_cnt

/-- The array takes a client exactly when the directory has room. -/
theorem Inv.put_iff (h : Inv m d) {t : TopicKey} {a : Slots} {v : UInt64} (c : SockAddr) :
    (a.put ((m.topic_sub_cnt.lookup t).getD 0) v).isSome ↔ room (d.subs t) c := by
  unfold room
  rw [Slots.put_isSome, h.idx_toNat, decide_eq_true_iff]

/-- One more client in the slot behind the last one. -/
theorem Matches.add {m' : Maps} {t : TopicKey} {subs : List SockAddr} (h : Matches m t subs)
    {c : SockAddr} (hroom : room subs c) (hcnt : m'.cnt t = m.cnt t + 1)
    (hslot : ∀ idx, m'.slot t idx = if idx = m.cnt t then some (pack c) else m.slot t idx) :
    Matches m' t (subs ++ [c]) := by
  have hlt : subs.length < MAX_SUBSCRIBERS := of_decide_eq_true hroom
  refine ⟨?_, ?_, ?_⟩
  · rw [List.length_append]
    exact hlt
  · rw [hcnt, h.cnt_eq, List.length_append, List.length_singleton, UInt32.ofNat_add]
    rfl
  · intro i c' hc'
    rw [hslot, h.cnt_eq]
    rcases Nat.lt_or_ge i subs.length with hi | hi
    · -- the slots below stay
      have hne : UInt32.ofNat i ≠ UInt32.ofNat subs.length := by
        intro heq
        have hn := congrArg UInt32.toNat heq
        simp only [MAX_SUBSCRIBERS] at hlt
        rw [UInt32.toNat_ofNat', UInt32.toNat_ofNat'] at hn
        omega
      rw [if_neg hne]
      rw [List.getElem?_append_left hi] at hc'
      exact h.slot_eq i c' hc'
    · have hi' : i = subs.length := by
        have := (List.getElem?_eq_some_iff.mp hc').1
        rw [List.length_append, List.length_singleton] at this
        omega
      subst hi'
      rw [List.getElem?_concat_length] at hc'
      cases hc'
      rw [if_pos rfl]

/-- The maps after a whole `add_subscriber`. -/
theorem Inv.subscribed (h : Inv m d) {t : TopicKey} {c : SockAddr} {a a' : Slots}
    {cnt : BMap MAX_TOPIC_ID TopicKey UInt32} (hl : m.topic_sub_array.lookup t = some a)
    (hp : a.put ((m.topic_sub_cnt.lookup t).getD 0) (pack c) = some a')
    (hc : m.topic_sub_cnt.update t ((m.topic_sub_cnt.lookup t).getD 0 + 1) = some cnt) :
    Inv ⟨cnt, m.topic_sub_array.modify t fun _ => a'⟩ (d.modify t (· ++ [c])) := by
  have hfound : m.found t := BMap.mem_keys_of_lookup hl
  have hmem : t ∈ d.keys := (h.registered t).mp hfound
  have hroom : room (d.subs t) c := (h.put_iff c).mp (by rw [hp]; rfl)
  have hcnt := cnt_update (m := ⟨m.topic_sub_cnt, m.topic_sub_array.modify t fun _ => a'⟩) hc
  have hslot := slot_modify hl hp
  refine ⟨?_, ?_, ?_⟩
  · intro t' ht'
    apply BMap.mem_keys_modify.mpr
    rcases (BMap.mem_keys_update hc).mp ht' with rfl | ht'
    · exact hfound
    · exact h.nested t' ht'
  · intro t'
    rw [BMap.mem_keys_modify, ← h.registered]
    exact BMap.mem_keys_modify
  · intro t'
    rw [Directory.subs_modify]
    -- one more slot and a count one higher, for `t` alone
    by_cases heq : t' = t
    · rw [if_pos ⟨heq, hmem⟩, heq]
      refine (h.topic t).add hroom ?_ ?_
      · rw [hcnt, if_pos rfl]
        rfl
      · intro idx
        refine (hslot t idx).trans ?_
        simp only [true_and]
        rfl
    · rw [if_neg (fun hand => heq hand.1)]
      refine (h.topic t').congr ?_ ?_
      · rw [hcnt, if_neg heq]
        rfl
      · intro idx
        refine (hslot t' idx).trans ?_
        rw [if_neg (fun hand => heq hand.1)]

/-- The slot is stored, the count not yet raised. -/
theorem Inv.mid_stored (h : Inv m d) {name : List UInt8} {t : TopicKey} {c : SockAddr}
    {a a' : Slots} (hk : topic_key_of name = some t) (hl : m.topic_sub_array.lookup t = some a)
    (hp : a.put ((m.topic_sub_cnt.lookup t).getD 0) (pack c) = some a') :
    Mid (.subscribe name c) d (.cnt_update t ((m.topic_sub_cnt.lookup t).getD 0 + 1))
      { m with topic_sub_array := m.topic_sub_array.modify t fun _ => a' } := by
  have hroom : room (d.subs t) c := (h.put_iff c).mp (by rw [hp]; rfl)
  have hlt : (d.subs t).length < MAX_SUBSCRIBERS := of_decide_eq_true hroom
  refine ⟨fun t' => (h.topic t').toNat_cnt, ?_, nofun⟩
  intro t' n ho _
  cases ho
  refine ⟨name, c, rfl, hk, ?_, ?_⟩
  · -- 2048 slots: the count is far from wrapping
    have hidx := h.idx_toNat t
    simp only [MAX_SUBSCRIBERS] at hlt
    rw [UInt32.toNat_add, hidx, UInt32.toNat_one]
    exact Nat.mod_eq_of_lt (by omega)
  · rw [slot_modify hl hp, UInt32.add_sub_cancel, if_pos ⟨rfl, rfl⟩]

/-- **SUBSCRIBE**: the client is accepted exactly when there is a slot for it.
    The store to the count cannot fail, since `topic_sub_cnt` has no more keys
    than `topic_sub_array`. -/
theorem add_subscriber_outline (h : Inv m d) (topic_name : List UInt8) (c : SockAddr) :
    (command (.subscribe topic_name c)).Outline ctl (Mid (.subscribe topic_name c) d)
      (Result (.subscribe topic_name c) d) m := by
  show (add_subscriber topic_name (htonl c.sin_addr) (htons c.sin_port).toUInt32).Outline _ _ _ m
  have hrefused (hno : ∀ t, topic_key_of topic_name = some t → t ∈ d.keys →
      ¬ room (d.subs t) c) : Result (.subscribe topic_name c) d (-1) m :=
    .of_exec (Directory.exec_subscribe_no d hno) h
  unfold add_subscriber
  rcases hk : topic_key_of topic_name with _ | t
  · apply hrefused
    intro t ht
    rw [hk] at ht
    cases ht
  simp only [Prog.op_bind, Prog.ret_bind, Prog.outline_op, Prog.pure_eq_ret, ctl]
  refine ⟨h.mid nofun nofun, ?_⟩
  rcases Option.eq_none_or_eq_some (m.topic_sub_array.lookup t) with hl | ⟨a, hl⟩
  · -- the topic is not registered
    simp only [hl]
    apply hrefused
    intro t' ht' hmem
    rw [hk] at ht'
    cases ht'
    exact absurd ((h.registered t).mpr hmem) (BMap.lookup_eq_none.mp hl)
  have hpacked : packed_key (htonl c.sin_addr) (htons c.sin_port).toUInt32 = pack c := rfl
  simp only [hl, hpacked, Option.isSome_some, Bool.not_true, Bool.false_eq_true, if_false,
    Prog.outline_op, ctl, Option.bind_some]
  refine ⟨h.mid nofun nofun, h.mid nofun nofun, h.mid nofun nofun, ?_⟩
  -- the array takes the client, or the index is out of range
  rcases Option.eq_none_or_eq_some (a.put ((m.topic_sub_cnt.lookup t).getD 0) (pack c)) with
    hp | ⟨a', hp⟩
  · simp only [hp]
    apply hrefused
    intro t' ht' _ hroom
    rw [hk] at ht'
    cases ht'
    rw [← h.put_iff (a := a) (v := pack c) c, hp] at hroom
    cases hroom
  have hmem : t ∈ d.keys := (h.registered t).mp (BMap.mem_keys_of_lookup hl)
  have hroom : room (d.subs t) c := (h.put_iff c).mp (by rw [hp]; rfl)
  -- the store to the count cannot fail
  obtain ⟨cnt, hc⟩ := BMap.update_of_fits ((m.topic_sub_cnt.lookup t).getD 0 + 1)
    (BMap.fits_of_keys_subset (Nat.le_refl _) h.nested (BMap.mem_keys_of_lookup hl))
  simp only [hp, hc, Bool.not_true, Bool.false_eq_true, if_false, Prog.outline_op, ctl]
  exact ⟨h.mid_stored hk hl hp,
    .of_exec (Directory.exec_subscribe_yes d hk hmem hroom) (h.subscribed hl hp hc)⟩

end subscribe

/-! ### REGISTER -/

section register
variable {m : Maps} {d : Directory MAX_TOPIC_ID}

/-- A new topic has a zeroed array and no count. -/
theorem Inv.registered_new (h : Inv m d) {t : TopicKey} (hnew : ¬ m.found t)
    {ts : BMap MAX_TOPIC_ID TopicKey Slots} {a : Slots} {d' : Directory MAX_TOPIC_ID}
    (hts : m.topic_sub_array.update t a = some ts) (hd : d.update t [] = some d') :
    Inv { m with topic_sub_array := ts } d' := by
  have hnot : t ∉ d.keys := fun hmem => hnew ((h.registered t).mpr hmem)
  refine ⟨?_, ?_, ?_⟩
  · intro t' ht'
    exact (BMap.mem_keys_update hts).mpr (Or.inr (h.nested t' ht'))
  · intro t'
    rw [BMap.mem_keys_update hd, ← h.registered]
    exact BMap.mem_keys_update hts
  · intro t'
    rw [Directory.subs_update_new hnot hd]
    -- the new topic has no count yet, the others keep their slots
    by_cases heq : t' = t
    · rw [heq, Directory.subs_of_not_mem hnot]
      apply matches_nil
      have hcnt := (h.topic t).cnt_eq
      rwa [Directory.subs_of_not_mem hnot] at hcnt
    · exact (h.topic t').congr rfl (slot_outer_update hts heq)

/-- **REGISTER** changes nothing but the set of topics. -/
theorem add_topic_outline (h : Inv m d) (topic_name : List UInt8) :
    (command (.register topic_name)).Outline ctl (Mid (.register topic_name) d)
      (Result (.register topic_name) d) m := by
  show (add_topic topic_name).Outline _ _ _ m
  unfold add_topic
  rcases hk : topic_key_of topic_name with _ | t
  · exact .of_exec (Directory.exec_register_none d hk) h
  simp only [Prog.op_bind, Prog.ret_bind, Prog.outline_op, Prog.pure_eq_ret, ctl]
  refine ⟨h.mid nofun nofun, ?_⟩
  rcases Option.eq_none_or_eq_some (m.topic_sub_array.lookup t) with hl | ⟨a, hl⟩
  · have hnew : ¬ m.found t := BMap.lookup_eq_none.mp hl
    have hnot : t ∉ d.keys := fun hmem => hnew ((h.registered t).mpr hmem)
    simp only [hl, Option.isSome_none, Bool.false_eq_true, if_false, Prog.outline_op, ctl,
      Bool.not_true]
    refine ⟨h.mid nofun nofun, h.mid nofun ?_, ?_⟩
    · intro t' ho
      cases ho
      exact hnew
    have hfits := BMap.fits_congr h.registered t
    -- the outer map takes the topic, or is full
    rcases Option.eq_none_or_eq_some (m.topic_sub_array.update t fun _ => 0) with hu | ⟨ts, hu⟩
    · have hd : d.update t [] = none := by
        rw [BMap.update_eq_none, ← hfits, ← BMap.update_eq_none, hu]
      simp only [hu]
      exact .of_exec (Directory.exec_register_full d hk hnot hd) h
    · obtain ⟨d', hd⟩ := BMap.update_of_fits ([] : List SockAddr)
        (hfits.mp (BMap.update_isSome.mp (by rw [hu]; rfl)))
      simp only [hu]
      exact .of_exec (Directory.exec_register_new d hk hnot hd) (h.registered_new hnew hu hd)
  · have hmem : t ∈ d.keys := (h.registered t).mp (BMap.mem_keys_of_lookup hl)
    simp only [hl]
    exact .of_exec (Directory.exec_register_mem d hk hmem) h

end register

/-! ### FLUSH -/

/-- `m'` is `m` with stores to the slots of `t`. -/
structure Zeroing (t : TopicKey) (m m' : Maps) : Prop where
  cnt_eq : m'.topic_sub_cnt = m.topic_sub_cnt
  other : ∀ t', t' ≠ t → ∀ idx, m'.slot t' idx = m.slot t' idx
  keys : ∀ t', m'.found t' ↔ m.found t'

namespace Zeroing

theorem refl (t : TopicKey) (m : Maps) : Zeroing t m m :=
  ⟨rfl, fun _ _ _ => rfl, fun _ => Iff.rfl⟩

theorem store {t : TopicKey} {m m' : Maps} (h : Zeroing t m m') (idx : UInt32) (v : UInt64) :
    Zeroing t m (ctl (.slot_update t idx v) m').2 := by
  unfold ctl
  dsimp only
  split
  · exact h
  · -- the store reaches the slot of `t` alone
    next a' hput =>
    obtain ⟨a, hl, hp⟩ := Option.bind_eq_some_iff.mp hput
    refine ⟨h.cnt_eq, ?_, ?_⟩
    · intro t' hne idx'
      rw [← h.other t' hne]
      refine (slot_modify hl hp t' idx').trans ?_
      rw [if_neg (fun hand => hne hand.1)]
    · intro t'
      exact BMap.mem_keys_modify.trans (h.keys t')

theorem mid {t : TopicKey} {m m' : Maps} (h : Zeroing t m m') {d : Directory MAX_TOPIC_ID}
    (hinv : Inv m d) {cmd : Cmd} {o : CtlOp} (hcount : ∀ t n, o = .cnt_update t n → n = 0)
    (hfresh : ∀ t, o ≠ .outer_update t) : Mid cmd d o m' where
  cnt_eq t' := by
    unfold Maps.cnt
    rw [h.cnt_eq]
    exact (hinv.topic t').toNat_cnt
  count t' n ho hn := absurd (hcount t' n ho) hn
  fresh t' ho := absurd ho (hfresh t')

end Zeroing

section flush
variable {m : Maps} {d : Directory MAX_TOPIC_ID}

/-- The loop of `flush_topic` stores to the slots of its topic only. -/
theorem zero_loop_outline {t : TopicKey} {I : CtlOp → Maps → Prop}
    (hI : ∀ i m', Zeroing t m m' → I (.slot_update t i 0) m') (n : Nat) (i : UInt32) {m' : Maps}
    (h : Zeroing t m m') :
    (zero_loop t n i).Outline ctl I (fun _ m'' => Zeroing t m m'') m' := by
  induction n generalizing i m' with
  | zero => exact h
  | succ n ih => exact ⟨hI i m' h, ih (i + 1) (h.store i 0)⟩

/-- Nobody is accepted any more: the count is zero. -/
theorem Inv.flushed (h : Inv m d) {t : TopicKey} {m' : Maps} (hz : Zeroing t m m')
    {cnt : BMap MAX_TOPIC_ID TopicKey UInt32} (hc : m'.topic_sub_cnt.update t 0 = some cnt)
    (hfound : m.found t) : Inv { m' with topic_sub_cnt := cnt } (d.modify t fun _ => []) := by
  have hmem : t ∈ d.keys := (h.registered t).mp hfound
  refine ⟨?_, ?_, ?_⟩
  · intro t' ht'
    apply (hz.keys t').mpr
    rcases (BMap.mem_keys_update hc).mp ht' with rfl | ht'
    · exact hfound
    · rw [hz.cnt_eq] at ht'
      exact h.nested t' ht'
  · intro t'
    rw [BMap.mem_keys_modify, ← h.registered]
    exact hz.keys t'
  · intro t'
    have hcnt := cnt_update hc t'
    rw [Directory.subs_modify]
    -- with a count of 0 the slots of `t` do not matter
    by_cases heq : t' = t
    · rw [if_pos ⟨heq, hmem⟩]
      exact matches_nil (by rw [hcnt, if_pos heq])
    · rw [if_neg (fun hand => heq hand.1)]
      refine (h.topic t').congr ?_ (hz.other t' heq)
      rw [hcnt, if_neg heq]
      unfold Maps.cnt
      rw [hz.cnt_eq]

/-- A topic without clients is not changed by a FLUSH. -/
theorem Inv.flushed_none (h : Inv m d) {t : TopicKey} (hcnt : m.cnt t = 0) :
    Inv m (d.modify t fun _ => []) := by
  have hnil : d.subs t = [] := by
    have hlen := (h.topic t).toNat_cnt
    rw [hcnt] at hlen
    exact List.length_eq_zero_iff.mp hlen.symm
  refine ⟨h.nested, ?_, ?_⟩
  · intro t'
    rw [BMap.mem_keys_modify, h.registered]
  · intro t'
    rw [Directory.subs_modify]
    split
    · next hand =>
      rw [hand.1, ← hnil]
      exact h.topic t
    · exact h.topic t'

/-- **FLUSH**: in the end the topic has no clients, whatever its slots hold. -/
theorem flush_topic_outline (h : Inv m d) (topic_name : List UInt8) :
    (command (.flush topic_name)).Outline ctl (Mid (.flush topic_name) d)
      (Result (.flush topic_name) d) m := by
  show (flush_topic topic_name).Outline _ _ _ m
  unfold flush_topic
  rcases hk : topic_key_of topic_name with _ | t
  · exact .of_exec (Directory.exec_flush_none d hk) h
  have hexec : d.exec room (.flush topic_name) = _ := Directory.exec_flush d hk
  simp only [Prog.op_bind, Prog.ret_bind, Prog.outline_op, Prog.pure_eq_ret, ctl]
  refine ⟨h.mid nofun nofun, ?_⟩
  change Prog.Outline _ _ _ (if m.cnt t = 0 then _ else _) _
  by_cases hcnt : m.cnt t = 0
  · -- nothing to flush: `flush_topic` returns at once
    rw [if_pos hcnt]
    exact .of_exec hexec (h.flushed_none hcnt)
  -- a count comes with an array
  rw [if_neg hcnt]
  have hkey : t ∈ m.topic_sub_cnt.keys := by
    by_contra hnot
    apply hcnt
    unfold Maps.cnt
    rw [BMap.lookup_eq_none.mpr hnot]
    rfl
  have hfound : m.found t := h.nested t hkey
  have hsome : (m.topic_sub_array.lookup t).isSome = true := BMap.lookup_isSome.mpr hfound
  simp only [hsome, Bool.not_true, Bool.false_eq_true, if_false, Prog.outline_op, ctl]
  refine ⟨h.mid nofun nofun, h.mid nofun nofun, ?_⟩
  rw [Prog.outline_bind]
  refine (zero_loop_outline (fun i m' hz => hz.mid h nofun nofun) _ 0 (Zeroing.refl t m)).mono
    (fun _ _ h => h) ?_
  -- the loop has stored to slots of `t`; the count is reset last
  rintro - m' hz
  obtain ⟨cnt, hc⟩ := BMap.update_of_fits (m := m'.topic_sub_cnt) (0 : UInt32)
    (Or.inl (by rw [hz.cnt_eq]; exact hkey))
  simp only [Prog.outline_op, ctl, hc]
  refine ⟨hz.mid h ?_ nofun, .of_exec hexec (h.flushed hz hc hfound)⟩
  intro t' n ho
  cases ho
  rfl

end flush

/-! ### The control process refines the directory -/

/-- **Every command**, operation by operation. -/
theorem command_outline {m : Maps} {d : Directory MAX_TOPIC_ID} (h : Inv m d) (cmd : Cmd) :
    (command cmd).Outline ctl (Mid cmd d) (Result cmd d) m := by
  cases cmd with
  | register topic_name => exact add_topic_outline h topic_name
  | subscribe topic_name c => exact add_subscriber_outline h topic_name c
  | flush topic_name => exact flush_topic_outline h topic_name
  | unknown => exact .of_exec rfl h

/-- One round of the main loop. -/
theorem serve_refines (r : Request) {m : Maps} {d : Directory MAX_TOPIC_ID} (h : Inv m d) :
    (serve r m).1 = (d.serve room r).1 ∧ Inv (serve r m).2 (d.serve room r).2 := by
  obtain ⟨hret, hinv⟩ := (command_outline h (parse_request r)).result
  exact ⟨congrArg (Served.mk (parse_request r)) hret, hinv⟩

/-- **Refinement**: after any sequence of requests the maps hold the
    directory of these requests, and the commands returned what it says. -/
theorem serve_all_refines (rs : List Request) :
    (serve_all rs .empty).1 = Directory.history MAX_TOPIC_ID room rs ∧
      Inv (serve_all rs .empty).2 (Directory.after room rs) :=
  main_loop_simulates (fun r _ _ h => serve_refines r h) rs inv_empty

/-- The clients a topic has are those its SUBSCRIBEs accepted. -/
theorem subs_after_eq (rs : List Request) (t : TopicKey) :
    (Directory.after room rs : Directory MAX_TOPIC_ID).subs t =
      accepted (serve_all rs .empty).1 t := by
  rw [Directory.subs_after, (serve_all_refines rs).1]

end BpfBroker.Clone
