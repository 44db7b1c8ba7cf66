import BpfBroker.Hash.Delivery

/-! # Failing Stores in SUBSCRIBE

    `add_subscriber` stores into three maps in sequence and returns -1 from
    the first store that fails, without undoing the ones before it. -/

namespace BpfBroker.Hash

open Atomic

/-! ### Stores that fail -/

/-- Which stores of `add_subscriber` fail, for whatever reason. It makes each
    of them once. -/
structure StoreFaults where
  inner : Bool := false
  cnt : Bool := false
  first : Bool := false

/-- The operations with failing stores: a failed store leaves its map alone. -/
def ctl_faulty (ord : HashOrder) (flt : StoreFaults) : Handler CtlSig Maps
  | .inner_update t key dummy, m =>
    if flt.inner then (false, m) else ctl ord (.inner_update t key dummy) m
  | .cnt_update t value, m => if flt.cnt then (false, m) else ctl ord (.cnt_update t value) m
  | .first_update t value, m => if flt.first then (false, m) else ctl ord (.first_update t value) m
  | o, m => ctl ord o m

/-- `add_subscriber` for a client, as the main loop calls it. -/
def subscribe (ord : HashOrder) (flt : StoreFaults) (topic_name : List UInt8) (c : SockAddr)
    (m : Maps) : Int × Maps :=
  (command (.subscribe topic_name c)).run (ctl_faulty ord flt) m

/-! ### Maps that hold the same -/

/-- The same entries in all three maps and in all inner maps. -/
structure Same (m m' : Maps) : Prop where
  registered : ∀ t, (m'.inner t).isSome = (m.inner t).isSome
  inner : ∀ t key, (m'.inner t).bind (·.lookup key) = (m.inner t).bind (·.lookup key)
  cnt : ∀ t, m'.topic_sub_cnt.lookup t = m.topic_sub_cnt.lookup t
  first : ∀ t, m'.topic_first_sub.lookup t = m.topic_first_sub.lookup t

theorem Same.refl (m : Maps) : Same m m := ⟨fun _ => rfl, fun _ _ => rfl, fun _ => rfl, fun _ => rfl⟩

/-- What the programs can tell of the maps: the values in an inner map and the
    order of its keys are not among it. -/
structure Alike (m m' : Maps) : Prop where
  registered : ∀ t, (m'.inner t).isSome = (m.inner t).isSome
  mem_subs : ∀ t key, key ∈ m'.subs t ↔ key ∈ m.subs t
  cnt : ∀ t, m'.topic_sub_cnt.lookup t = m.topic_sub_cnt.lookup t
  first : ∀ t, m'.topic_first_sub.lookup t = m.topic_first_sub.lookup t

theorem mem_subs_iff {m : Maps} {t : TopicKey} {key : UInt64} :
    key ∈ m.subs t ↔ ((m.inner t).bind (·.lookup key)).isSome := by
  unfold Maps.subs
  rcases m.inner t with _ | inner
  · simp
  · exact BMap.lookup_isSome.symm

theorem Same.alike {m m' : Maps} (h : Same m m') : Alike m m' where
  registered := h.registered
  mem_subs t key := by rw [mem_subs_iff, mem_subs_iff, h.inner]
  cnt := h.cnt
  first := h.first

/-- `flush_topic` after its loop. -/
def flush_rest (t : TopicKey) : Prog CtlSig Int := do
  let _ ← Ctl.cnt_update t 0
  Ctl.first_delete t
  return 0

theorem flush_topic_run (ord : HashOrder) {topic_name : List UInt8} {t : TopicKey}
    (hk : topic_key_of topic_name = some t) (m : Maps) :
    (flush_topic topic_name).run (ctl ord) m =
      if (m.inner t).isSome then
        (flush_rest t).run (ctl ord) ((flush_loop t 257).run (ctl ord) m).2
      else (0, m) := by
  unfold flush_topic
  rw [hk]
  simp only [Prog.op_bind, Prog.ret_bind, Prog.run_op]
  show Prog.run _ (if (!(m.inner t).isSome) = true then _ else _) m = _
  rcases (m.inner t).isSome with _ | _
  · rfl
  · exact Prog.run_bind (ctl ord) (flush_loop t 257) (fun _ => flush_rest t) m

section alike
variable {m m' : Maps} (h : Alike m m')
include h

theorem Alike.mem_outer (t : TopicKey) :
    t ∈ m'.topic_subscribe.keys ↔ t ∈ m.topic_subscribe.keys := by
  rw [mem_outer_keys, mem_outer_keys, h.registered]

/-- The inner maps of a topic are both there, with the same keys, or both
    missing. -/
theorem Alike.inner_cases (t : TopicKey) :
    (m.inner t = none ∧ m'.inner t = none) ∨
      ∃ inner inner', m.inner t = some inner ∧ m'.inner t = some inner' ∧
        ∀ key, key ∈ inner'.keys ↔ key ∈ inner.keys := by
  have hreg := h.registered t
  have hmem := h.mem_subs t
  unfold Maps.subs at hmem
  rcases hi : m.inner t with _ | inner
  · rw [hi] at hreg
    exact Or.inl ⟨rfl, by simpa using hreg⟩
  · rw [hi] at hreg hmem
    obtain ⟨inner', hi'⟩ := Option.isSome_iff_exists.mp hreg
    rw [hi'] at hmem
    exact Or.inr ⟨inner, inner', rfl, hi', hmem⟩

/-- The same change to the inner maps of a topic. -/
theorem Alike.modify {t : TopicKey} {f f' : Inner → Inner}
    (hf : ∀ inner inner', m.inner t = some inner → m'.inner t = some inner' →
      ∀ key, key ∈ (f' inner').keys ↔ key ∈ (f inner).keys) :
    Alike { m with topic_subscribe := m.topic_subscribe.modify t f }
      { m' with topic_subscribe := m'.topic_subscribe.modify t f' } where
  registered t' := by
    have hreg := h.registered t'
    unfold Maps.inner at hreg ⊢
    simp only [BMap.lookup_modify]
    split
    · simpa only [Option.isSome_map] using ‹t' = t› ▸ hreg
    · exact hreg
  mem_subs t' key := by
    by_cases heq : t' = t
    · rw [heq]
      unfold Maps.subs Maps.inner
      simp only [BMap.lookup_modify, if_true]
      rcases h.inner_cases t with ⟨hi, hi'⟩ | ⟨inner, inner', hi, hi', -⟩
      · unfold Maps.inner at hi hi'
        rw [hi, hi']
        exact Iff.rfl
      · have hkeys := hf inner inner' hi hi' key
        unfold Maps.inner at hi hi'
        rw [hi, hi']
        exact hkeys
    · have hmem := h.mem_subs t' key
      unfold Maps.subs Maps.inner at hmem ⊢
      simp only [BMap.lookup_modify, if_neg heq]
      exact hmem
  cnt := h.cnt
  first := h.first

/-- **The operations cannot tell them apart**, but for the first key that
    `bpf_map_get_next_key` finds. -/
theorem Alike.ctl (ord : HashOrder) {o : CtlOp} (ho : ∀ t, o ≠ .inner_first t) :
    (Hash.ctl ord o m').1 = (Hash.ctl ord o m).1 ∧
      Alike (Hash.ctl ord o m).2 (Hash.ctl ord o m').2 := by
  cases o with
  | outer_lookup t => exact ⟨h.registered t, h⟩
  | inner_fd => exact ⟨rfl, h⟩
  | inner_create => exact ⟨rfl, h⟩
  | inner_first t => exact absurd rfl (ho t)
  | cnt_lookup t => exact ⟨h.cnt t, h⟩
  | outer_update t =>
    unfold Hash.ctl
    dsimp only
    rcases BMap.update_congr (fun t => (h.mem_outer t).symm) t (BMap.empty : Inner)
      (BMap.empty : Inner) with ⟨hn, hn'⟩ | ⟨ts, ts', hs, hs'⟩
    · rw [hn, hn']
      exact ⟨rfl, h⟩
    · rw [hs, hs']
      refine ⟨rfl, ?_, ?_, h.cnt, h.first⟩
      · intro t'
        have hreg := h.registered t'
        unfold Maps.inner at hreg ⊢
        rw [BMap.lookup_update hs, BMap.lookup_update hs']
        split
        · rfl
        · exact hreg
      · intro t' key
        have hmem := h.mem_subs t' key
        unfold Maps.subs Maps.inner at hmem ⊢
        rw [BMap.lookup_update hs, BMap.lookup_update hs']
        by_cases heq : t' = t
        · rw [if_pos heq, if_pos heq]
        · rw [if_neg heq, if_neg heq]
          exact hmem
  | inner_update t key dummy =>
    unfold Hash.ctl
    dsimp only
    rcases h.inner_cases t with ⟨hi, hi'⟩ | ⟨inner, inner', hi, hi', hkeys⟩
    · rw [hi, hi', Option.bind_none]
      exact ⟨rfl, h⟩
    · rw [hi, hi']
      simp only [Option.bind_some]
      rcases BMap.update_congr (fun k => (hkeys k).symm) key (ord.value m dummy) (ord.value m' dummy) with
        ⟨hn, hn'⟩ | ⟨i, i', hs, hs'⟩
      · rw [hn, hn']
        exact ⟨rfl, h⟩
      · rw [hs, hs']
        refine ⟨rfl, h.modify ?_⟩
        intro _ _ _ _ key'
        rw [BMap.mem_keys_update hs, BMap.mem_keys_update hs', hkeys]
  | inner_delete t key =>
    refine ⟨rfl, h.modify ?_⟩
    intro inner inner' hi hi' key'
    have hmem := h.mem_subs t key'
    rw [subs_of_inner m t hi, subs_of_inner m' t hi'] at hmem
    rw [BMap.mem_keys_delete, BMap.mem_keys_delete, hmem]
  | cnt_update t value =>
    unfold Hash.ctl
    dsimp only
    rcases BMap.update_congr_lookup h.cnt t value with ⟨hn', hn⟩ | ⟨cnt', cnt, hs', hs, hcnt⟩
    · rw [hn, hn']
      exact ⟨rfl, h⟩
    · rw [hs, hs']
      exact ⟨rfl, h.registered, h.mem_subs, hcnt, h.first⟩
  | first_update t value =>
    unfold Hash.ctl
    dsimp only
    rcases BMap.update_congr_lookup h.first t value with
      ⟨hn', hn⟩ | ⟨first', first, hs', hs, hfirst⟩
    · rw [hn, hn']
      exact ⟨rfl, h⟩
    · rw [hs, hs']
      exact ⟨rfl, h.registered, h.mem_subs, h.cnt, hfirst⟩
  | first_delete t =>
    refine ⟨rfl, h.registered, h.mem_subs, h.cnt, ?_⟩
    intro t'
    show (m'.topic_first_sub.delete t).lookup t' = (m.topic_first_sub.delete t).lookup t'
    rw [BMap.lookup_delete, BMap.lookup_delete, h.first]

/-- The loop of `flush_topic` leaves nobody in the inner map on either
    side. -/
theorem Alike.flush_loop (ord : HashOrder) (t : TopicKey) :
    Alike ((Hash.flush_loop t 257).run (Hash.ctl ord) m).2
      ((Hash.flush_loop t 257).run (Hash.ctl ord) m').2 := by
  have hrun : ∀ m : Maps, Emptying t m ((Hash.flush_loop t 257).run (Hash.ctl ord) m).2 ∧
      ((Hash.flush_loop t 257).run (Hash.ctl ord) m).2.subs t = [] := by
    intro m
    exact (flush_loop_outline (I := fun _ _ => True) (fun _ _ _ => trivial) 257
      (Emptying.refl t m) (Nat.lt_succ_of_le (length_subs_le m t))).result
  obtain ⟨he, hnil⟩ := hrun m
  obtain ⟨he', hnil'⟩ := hrun m'
  refine ⟨?_, ?_, ?_, ?_⟩
  · intro t'
    rw [Bool.eq_iff_iff, ← mem_outer_keys, ← mem_outer_keys, he.keys, he'.keys, h.mem_outer]
  · intro t' key
    by_cases heq : t' = t
    · rw [heq, hnil, hnil']
    · rw [he.other t' heq, he'.other t' heq, h.mem_subs]
  · intro t'
    rw [he.cnt_eq, he'.cnt_eq, h.cnt]
  · intro t'
    rw [he.first_eq, he'.first_eq, h.first]

/-- A program that does not ask for a first key. -/
theorem Alike.run (ord : HashOrder) {α : Type} {p : Prog CtlSig α} (hp : p.AllOps Plain) :
    (p.run (Hash.ctl ord) m').1 = (p.run (Hash.ctl ord) m).1 ∧
      Alike (p.run (Hash.ctl ord) m).2 (p.run (Hash.ctl ord) m').2 :=
  hp.run_simulates (fun _ ho _ _ hm => hm.ctl ord ho.1) h

/-- `flush_topic` returns the same, and leaves the same. -/
theorem Alike.flush_topic (ord : HashOrder) (topic_name : List UInt8) :
    ((Hash.flush_topic topic_name).run (Hash.ctl ord) m').1 =
        ((Hash.flush_topic topic_name).run (Hash.ctl ord) m).1 ∧
      Alike ((Hash.flush_topic topic_name).run (Hash.ctl ord) m).2
        ((Hash.flush_topic topic_name).run (Hash.ctl ord) m').2 := by
  rcases hk : topic_key_of topic_name with _ | t
  · unfold Hash.flush_topic
    rw [hk]
    exact ⟨rfl, h⟩
  rw [flush_topic_run ord hk, flush_topic_run ord hk, h.registered]
  split
  · have hrest : (flush_rest t).AllOps Plain :=
      ⟨by simp [Plain], fun _ => ⟨by simp [Plain], fun _ => trivial⟩⟩
    exact (h.flush_loop ord t).run ord hrest
  · exact ⟨rfl, h⟩

/-- **No command can tell them apart.** -/
theorem Alike.serve (ord : HashOrder) (r : Request) :
    (Hash.serve ord r m').1 = (Hash.serve ord r m).1 ∧
      Alike (Hash.serve ord r m).2 (Hash.serve ord r m').2 := by
  have hcmd : ((command (parse_request r)).run (Hash.ctl ord) m').1 =
        ((command (parse_request r)).run (Hash.ctl ord) m).1 ∧
      Alike ((command (parse_request r)).run (Hash.ctl ord) m).2
        ((command (parse_request r)).run (Hash.ctl ord) m').2 := by
    cases parse_request r with
    | register topic_name => exact h.run ord (add_topic_plain topic_name)
    | subscribe topic_name c => exact h.run ord (add_subscriber_plain topic_name _ _)
    | flush topic_name => exact h.flush_topic ord topic_name
    | unknown => exact ⟨rfl, h⟩
  unfold Hash.serve
  dsimp only
  rw [hcmd.1]
  exact ⟨rfl, hcmd.2⟩

/-- Nor can any sequence of them, -/
theorem Alike.serve_all (ord : HashOrder) (rs : List Request) :
    Alike (Hash.serve_all ord rs m).2 (Hash.serve_all ord rs m').2 := by
  have hsim := main_loop_simulates (R := fun m' m => Alike m m')
    (fun r m' m hm => ⟨(hm.serve ord r).1, (hm.serve ord r).2⟩) rs h
  exact hsim.2

/-- and a publication goes to the same clients. -/
theorem Alike.receive {f : Frame} {t : TopicKey} (hf : Publishes f t) {env : Env}
    (henv : env.Healthy) (stats : Stats) :
    ((Hash.receive env f ⟨m', stats⟩).1.map dst).Perm
      ((Hash.receive env f ⟨m, stats⟩).1.map dst) := by
  have hperm : (m'.subs t).Perm (m.subs t) :=
    (List.perm_ext_iff_of_nodup (nodup_subs m' t) (nodup_subs m t)).mpr (h.mem_subs t)
  refine (receive_dst hf henv ⟨m', stats⟩).trans (List.Perm.trans ?_
    (receive_dst hf henv ⟨m, stats⟩).symm)
  show List.Perm (if m'.topic_sub_cnt.lookup t = some 1 then
      ((m'.topic_first_sub.lookup t).map unpack).toList else (m'.subs t).map unpack)
    (if m.topic_sub_cnt.lookup t = some 1 then
      ((m.topic_first_sub.lookup t).map unpack).toList else (m.subs t).map unpack)
  rw [h.cnt, h.first]
  split
  · exact List.Perm.refl _
  · exact hperm.map unpack

end alike

/-! ### A SUBSCRIBE with failing stores -/

/-- The maps after the store into the inner map. -/
def Maps.joined (m : Maps) (t : TopicKey) (inner : Inner) : Maps :=
  { m with topic_subscribe := m.topic_subscribe.modify t fun _ => inner }

/-- **What `add_subscriber` can do** when its stores may fail: return before
    anything is stored; stop after the inner map; stop after the counter; or
    succeed. -/
inductive Subscribed (ord : HashOrder) (flt : StoreFaults) (topic_name : List UInt8) (c : SockAddr) (m : Maps) :
    Int × Maps → Prop
  | refused
      (h : ∀ t inner, topic_key_of topic_name = some t → m.inner t = some inner →
        flt.inner = false → ¬ inner.fits (pack c)) :
      Subscribed ord flt topic_name c m (-1, m)
  | not_counted {t : TopicKey} {inner inner' : Inner} (hk : topic_key_of topic_name = some t)
      (hi : m.inner t = some inner) (hf : flt.inner = false)
      (hs : inner.update (pack c) (ord.value m 1) = some inner')
      (h : flt.cnt = true ∨ ¬ m.topic_sub_cnt.fits t) :
      Subscribed ord flt topic_name c m (-1, m.joined t inner')
  | not_cached {t : TopicKey} {inner inner' : Inner} {cnt : BMap MAX_TOPIC_ID TopicKey UInt32}
      (hk : topic_key_of topic_name = some t)
      (hi : m.inner t = some inner) (hf : flt.inner = false)
      (hs : inner.update (pack c) (ord.value m 1) = some inner') (hc : flt.cnt = false)
      (hu : m.topic_sub_cnt.update t (next_count (m.topic_sub_cnt.lookup t)) = some cnt)
      (hone : next_count (m.topic_sub_cnt.lookup t) = 1)
      (h : flt.first = true ∨ ¬ m.topic_first_sub.fits t) :
      Subscribed ord flt topic_name c m (-1, { m.joined t inner' with topic_sub_cnt := cnt })
  | done {t : TopicKey} {inner inner' : Inner} {m' : Maps} (hk : topic_key_of topic_name = some t)
      (hi : m.inner t = some inner) (hs : inner.update (pack c) (ord.value m 1) = some inner')
      (hc : flt.cnt = false) (hu : m.topic_sub_cnt.fits t)
      (h : next_count (m.topic_sub_cnt.lookup t) = 1 →
        flt.first = false ∧ m.topic_first_sub.fits t) :
      Subscribed ord flt topic_name c m (0, m')

theorem subscribed (ord : HashOrder) (flt : StoreFaults) (topic_name : List UInt8) (c : SockAddr)
    (m : Maps) : Subscribed ord flt topic_name c m (subscribe ord flt topic_name c m) := by
  show Subscribed ord flt topic_name c m ((add_subscriber topic_name (htonl c.sin_addr)
    (htons c.sin_port).toUInt32).run (ctl_faulty ord flt) m)
  have hpacked : packed_key (htonl c.sin_addr) (htons c.sin_port).toUInt32 = pack c := rfl
  unfold add_subscriber
  rcases hk : topic_key_of topic_name with _ | t
  · refine .refused ?_
    intro t inner hk'
    rw [hk] at hk'
    cases hk'
  have hrefused (hno : ∀ inner, m.inner t = some inner → flt.inner = false →
      ¬ inner.fits (pack c)) : Subscribed ord flt topic_name c m (-1, m) := by
    refine .refused ?_
    intro t' inner hk'
    rw [hk] at hk'
    cases hk'
    exact hno inner
  simp only [Prog.op_bind, Prog.ret_bind, Prog.run_op, Prog.pure_eq_ret, ctl_faulty, ctl]
  rcases Option.eq_none_or_eq_some (m.inner t) with hi | ⟨inner, hi⟩
  · -- the topic is not registered
    simp only [hi]
    apply hrefused
    intro inner hi'
    rw [hi] at hi'
    cases hi'
  simp only [hi, hpacked, Option.isSome_some, Bool.not_true, Bool.false_eq_true, if_false,
    Prog.run_op, ctl_faulty, ctl, Option.bind_some]
  -- the store into the inner map
  rcases Bool.eq_false_or_eq_true flt.inner with hf | hf
  · simp only [hf]
    apply hrefused
    intro _ _ hno
    rw [hf] at hno
    cases hno
  rcases Option.eq_none_or_eq_some (inner.update (pack c) (ord.value m 1)) with hs | ⟨inner', hs⟩
  · simp only [hf, hs]
    apply hrefused
    intro inner' hi' _
    rw [hi] at hi'
    cases hi'
    exact BMap.update_eq_none.mp hs
  simp only [hf, hs, Bool.not_true, Bool.false_eq_true, if_false, Prog.run_op, ctl_faulty, ctl]
  -- the store of the counter
  rcases Bool.eq_false_or_eq_true flt.cnt with hc | hc
  · simp only [hc]
    exact .not_counted hk hi hf hs (Or.inl hc)
  rcases Option.eq_none_or_eq_some
    (m.topic_sub_cnt.update t (next_count (m.topic_sub_cnt.lookup t))) with hu | ⟨cnt, hu⟩
  · simp only [hc, hu]
    exact .not_counted hk hi hf hs (Or.inr (BMap.update_eq_none.mp hu))
  have hfits := BMap.update_isSome.mp (show (m.topic_sub_cnt.update t _).isSome by rw [hu]; rfl)
  simp only [hc, hu, Bool.not_true, Bool.false_eq_true, if_false]
  change Subscribed _ _ _ _ _
    (Prog.run _ (if next_count (m.topic_sub_cnt.lookup t) = 1 then _ else _) _)
  by_cases hone : next_count (m.topic_sub_cnt.lookup t) = 1
  · -- the store of the first subscriber
    rw [if_pos hone, hpacked]
    simp only [Prog.run_op, ctl_faulty, ctl]
    rcases Bool.eq_false_or_eq_true flt.first with hfirst | hfirst
    · simp only [hfirst]
      exact .not_cached hk hi hf hs hc hu hone (Or.inl hfirst)
    rcases Option.eq_none_or_eq_some (m.topic_first_sub.update t (pack c)) with hw | ⟨first, hw⟩
    · simp only [hfirst, hw]
      exact .not_cached hk hi hf hs hc hu hone (Or.inr (BMap.update_eq_none.mp hw))
    · simp only [hfirst, hw]
      refine .done hk hi hs hc hfits fun _ => ⟨hfirst, ?_⟩
      exact BMap.update_isSome.mp (by rw [hw]; rfl)
  · rw [if_neg hone]
    exact .done hk hi hs hc hfits fun h => absurd h hone

/-- Nothing is left half done: a failing store of the counter finds the
    client's entry with the four bytes that have been stored again, and a
    failing store of the first subscriber is not reached. -/
def NothingToUndo (ord : HashOrder) (flt : StoreFaults) (t : TopicKey) (inner : Inner) (c : SockAddr) (m : Maps) :
    Prop :=
  ((flt.cnt = true ∨ ¬ m.topic_sub_cnt.fits t) → inner.lookup (pack c) = some (ord.value m 1)) ∧
  (flt.cnt = false → m.topic_sub_cnt.fits t → next_count (m.topic_sub_cnt.lookup t) = 1 →
    flt.first = false ∧ m.topic_first_sub.fits t)

/-- Storing what is there already changes nothing. -/
theorem same_joined {m : Maps} {t : TopicKey} {inner inner' : Inner} {key : UInt64}
    {value : UInt32} (hi : m.inner t = some inner) (hs : inner.update key value = some inner')
    (h : inner.lookup key = some value) : Same m (m.joined t inner') := by
  have hlook : ∀ t', (m.joined t inner').inner t' = if t' = t then some inner' else m.inner t' := by
    intro t'
    unfold Maps.joined Maps.inner at *
    rw [BMap.lookup_modify, hi]
    rfl
  refine ⟨?_, ?_, fun _ => rfl, fun _ => rfl⟩
  · intro t'
    rw [hlook]
    split
    · rw [‹t' = t›, hi]
      rfl
    · rfl
  · intro t' key'
    rw [hlook]
    split
    · rw [‹t' = t›, hi]
      show inner'.lookup key' = inner.lookup key'
      rw [BMap.lookup_update hs]
      split
      · rw [‹key' = key›, h]
      · rfl
    · rfl

/-- The entry of the client after the store into the inner map. -/
theorem lookup_joined {m : Maps} {t : TopicKey} {inner inner' : Inner} {key : UInt64}
    {value : UInt32} (hi : m.inner t = some inner) (hs : inner.update key value = some inner') :
    ((m.joined t inner').inner t).bind (·.lookup key) = some value := by
  unfold Maps.joined Maps.inner at *
  rw [BMap.lookup_modify, if_pos rfl, hi]
  show inner'.lookup key = some value
  rw [BMap.lookup_update hs, if_pos rfl]

section outcome
variable {ord : HashOrder} {flt : StoreFaults} {topic_name : List UInt8} {c : SockAddr} {m : Maps} {r : Int × Maps}

theorem Subscribed.same (h : Subscribed ord flt topic_name c m r) (hret : r.1 = -1)
    (hcond : ∀ t inner, topic_key_of topic_name = some t → m.inner t = some inner →
      flt.inner = false → inner.fits (pack c) → NothingToUndo ord flt t inner c m) :
    Same m r.2 := by
  cases h with
  | refused => exact Same.refl m
  | not_counted hk hi hf hs h =>
    have hfits := BMap.update_isSome.mp (by rw [hs]; rfl)
    exact same_joined hi hs ((hcond _ _ hk hi hf hfits).1 h)
  | not_cached hk hi hf hs hc hu hone h =>
    have hfits := BMap.update_isSome.mp (by rw [hs]; rfl)
    have hcnt := BMap.update_isSome.mp (by rw [hu]; rfl)
    obtain ⟨hno, hroom⟩ := (hcond _ _ hk hi hf hfits).2 hc hcnt hone
    rcases h with h | h
    · rw [hno] at h
      cases h
    · exact absurd hroom h
  | done => exact absurd (show (0 : Int) = -1 from hret) (by decide)

theorem Subscribed.nothingToUndo (h : Subscribed ord flt topic_name c m r)
    (hsame : r.1 = -1 → Same m r.2) {t : TopicKey} {inner : Inner}
    (hk : topic_key_of topic_name = some t) (hi : m.inner t = some inner)
    (hf : flt.inner = false) (hfits : inner.fits (pack c)) : NothingToUndo ord flt t inner c m := by
  cases h with
  | refused h => exact absurd hfits (h t inner hk hi hf)
  | not_counted hk' hi' _ hs h =>
    rw [hk] at hk'
    cases hk'
    rw [hi] at hi'
    cases hi'
    refine ⟨?_, ?_⟩
    · -- the entry that is there now was there before
      intro _
      have hentry := (hsame rfl).inner t (pack c)
      rw [lookup_joined hi hs, hi] at hentry
      exact hentry.symm
    · intro hc hroom
      rcases h with h | h
      · rw [hc] at h
        cases h
      · exact absurd hroom h
  | not_cached hk' hi' _ hs hc hu hone h =>
    rw [hk] at hk'
    cases hk'
    -- the counter cannot have been 1 before and become 1
    have hcnt := (hsame rfl).cnt t
    rw [BMap.lookup_update hu, if_pos rfl, hone] at hcnt
    rw [← hcnt] at hone
    exact absurd hone (by decide)
  | done hk' hi' hs hc hu h =>
    rw [hk] at hk'
    cases hk'
    refine ⟨?_, fun _ _ => h⟩
    intro hbad
    rcases hbad with hbad | hbad
    · rw [hc] at hbad
      cases hbad
    · exact absurd hu hbad

end outcome

/-- **When a failed SUBSCRIBE leaves everything as it was**: the maps, and with
    them the destinations of every later publication. -/
theorem failed_subscribe_iff (ord : HashOrder) (flt : StoreFaults) (topic_name : List UInt8)
    (c : SockAddr) (m : Maps) :
    ((subscribe ord flt topic_name c m).1 = -1 →
      Same m (subscribe ord flt topic_name c m).2 ∧
      ∀ (rs : List Request) (env : Env) (stats : Stats) (t : TopicKey) (f : Frame),
        env.Healthy → Publishes f t →
        ((receive env f ⟨(serve_all ord rs (subscribe ord flt topic_name c m).2).2, stats⟩).1.map
            dst).Perm
          ((receive env f ⟨(serve_all ord rs m).2, stats⟩).1.map dst)) ↔
    ∀ t inner, topic_key_of topic_name = some t → m.inner t = some inner → flt.inner = false →
      inner.fits (pack c) → NothingToUndo ord flt t inner c m := by
  have hsub := subscribed ord flt topic_name c m
  constructor
  · intro hprop t inner hk hi hf hfits
    exact hsub.nothingToUndo (fun hret => (hprop hret).1) hk hi hf hfits
  · intro hcond hret
    have hsame := hsub.same hret hcond
    refine ⟨hsame, ?_⟩
    intro rs env stats t f henv hf
    exact (hsame.alike.serve_all ord rs).receive hf henv stats

/-- The counter of a registered topic is not stored: the client is told that
    it failed, and gets the next publication. -/
theorem failed_subscriber_served :
    let m := (serve_all listed [datagram REGISTER [97] ⟨0x0700000a, 0x8813⟩] .empty).2
    let m' := (subscribe listed { cnt := true } [97] ⟨0x0800000a, 0x8813⟩ m).2
    (subscribe listed { cnt := true } [97] ⟨0x0800000a, 0x8813⟩ m).1 = -1 ∧ ¬ Same m m' ∧
      Publishes (sample_frame [97] [104, 105]) (pub_key [97]) ∧
      (receive ⟨listed, 0, 0, {}, fun _ => {}⟩ (sample_frame [97] [104, 105])
        ⟨m', .empty⟩).1.map dst = [⟨0x0800000a, 0x8813⟩] ∧
      (receive ⟨listed, 0, 0, {}, fun _ => {}⟩ (sample_frame [97] [104, 105])
        ⟨m, .empty⟩).1.map dst = [] := by
  intro m m'
  refine ⟨by decide +kernel, ?_, (sample_frame_publish [97] [104, 105]).publishes
    shortToken_a.toToken, by decide +kernel, by decide +kernel⟩
  intro hsame
  have hentry := hsame.inner (pub_key [97]) (pack ⟨0x0800000a, 0x8813⟩)
  exact absurd hentry (by decide +kernel)

end BpfBroker.Hash
