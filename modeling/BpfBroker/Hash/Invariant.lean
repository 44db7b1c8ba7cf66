import Mathlib.Data.List.Dedup
import BpfBroker.Directory
import BpfBroker.Hash.Model

/-! # The Hash Broker Keeps a Directory

    What the three maps hold, relative to the directory of accepted clients:

    * between commands, `Inv`: the inner map holds exactly the accepted
      clients, the counter is their number modulo `2^32`, and the cache holds
      the one accepted last when the counter went from 0 to 1;
    * inside a command, `Mid`: a weaker assertion that every single map
      operation of every command preserves, and that is enough for the
      kernel programs, which may look at any such moment.

    `command_outline` proves both for every command, and that its return
    value is the directory's. -/

namespace BpfBroker.Hash

open Atomic

/-! ### One topic -/

/-- The hash broker has room for a client that is there already, and for 256
    different ones. -/
def room (subs : List SockAddr) (c : SockAddr) : Bool := c ∈ subs ∨ subs.dedup.length < 256

/-- A client that makes no more than 256 different ones has room. -/
theorem room_of_dedup {subs : List SockAddr} {c : SockAddr}
    (h : (subs ++ [c]).dedup.length ≤ 256) : room subs c = true := by
  unfold room
  rw [decide_eq_true_iff]
  by_cases hc : c ∈ subs
  · exact Or.inl hc
  · right
    have hnodup : (c :: subs.dedup).Nodup :=
      List.nodup_cons.mpr ⟨fun hmem => hc (List.mem_dedup.mp hmem), List.nodup_dedup subs⟩
    -- a new client makes one more
    have hsub : (c :: subs.dedup).Subperm (subs ++ [c]).dedup := by
      refine List.subperm_of_subset hnodup ?_
      intro x hx
      rw [List.mem_dedup, List.mem_append, List.mem_singleton]
      rcases List.mem_cons.mp hx with rfl | hx
      · exact Or.inr rfl
      · exact Or.inl (List.mem_dedup.mp hx)
    have hlen := hsub.length_le
    rw [List.length_cons] at hlen
    omega

/-- The client in the cache: the one whose SUBSCRIBE took the 32-bit counter
    from 0 to 1, which is the first until the counter wraps. -/
def cached (subs : List SockAddr) : Option SockAddr :=
  subs[(subs.length - 1) / 4294967296 * 4294967296]?

theorem cached_isSome {subs : List SockAddr} (h : subs ≠ []) : (cached subs).isSome := by
  have hpos := List.length_pos_iff.mpr h
  unfold cached
  rw [List.getElem?_eq_getElem (by omega)]
  rfl

/-- Before the counter wraps. -/
theorem cached_of_lt {subs : List SockAddr} (h : subs.length < 4294967296) :
    cached subs = subs.head? := by
  unfold cached
  rw [Nat.div_eq_of_lt (by omega), Nat.zero_mul, List.head?_eq_getElem?]

/-- When the counter is 1. -/
theorem cached_of_one {subs : List SockAddr} (h : subs.length % 4294967296 = 1) :
    cached subs = subs.getLast? := by
  unfold cached
  rw [List.getLast?_eq_getElem?]
  congr 1
  omega

theorem cached_snoc (subs : List SockAddr) (c : SockAddr) :
    cached (subs ++ [c]) = if subs.length % 4294967296 = 0 then some c else cached subs := by
  unfold cached
  rw [List.length_append, List.length_singleton, Nat.add_sub_cancel]
  split
  · -- the counter is about to become 1
    next h =>
    rw [Nat.div_mul_cancel (Nat.dvd_of_mod_eq_zero h), List.getElem?_concat_length]
  · next h =>
    have hdiv : subs.length / 4294967296 = (subs.length - 1) / 4294967296 := by omega
    rw [hdiv, List.getElem?_append_left (by omega)]

/-- What the maps hold about one topic. -/
structure View where
  keys : List UInt64
  cnt : Option UInt32
  first : Option UInt64

def Maps.view (m : Maps) (t : TopicKey) : View :=
  ⟨m.subs t, m.topic_sub_cnt.lookup t, m.topic_first_sub.lookup t⟩

/-- Between commands. -/
structure View.Matches (v : View) (subs : List SockAddr) : Prop where
  mem_keys : ∀ key, key ∈ v.keys ↔ key ∈ subs.map pack
  cnt_eq : v.cnt.getD 0 = UInt32.ofNat subs.length
  first_eq : v.first = (cached subs).map pack

/-- Inside a command: the accepted clients are in the inner map, and the
    counter may already count the one being added. -/
structure View.Live (v : View) (subs : List SockAddr) : Prop where
  mem_keys : ∀ c ∈ subs, pack c ∈ v.keys
  cnt_eq : subs ≠ [] →
    v.cnt.getD 0 = UInt32.ofNat subs.length ∨ v.cnt.getD 0 = UInt32.ofNat (subs.length + 1)
  first_eq : subs ≠ [] → v.first = (cached subs).map pack

theorem View.Matches.live {v : View} {subs : List SockAddr} (h : v.Matches subs) :
    v.Live subs where
  mem_keys _ hc := (h.mem_keys _).mpr (List.mem_map_of_mem hc)
  cnt_eq _ := Or.inl h.cnt_eq
  first_eq _ := h.first_eq

theorem View.live_nil (v : View) : v.Live [] :=
  ⟨fun _ h => absurd h List.not_mem_nil, fun h => absurd rfl h, fun h => absurd rfl h⟩

/-- The counter is 1 exactly when the number of clients is, modulo `2^32`. -/
theorem View.Matches.cnt_one {v : View} {subs : List SockAddr} (h : v.Matches subs) :
    v.cnt = some 1 ↔ subs.length % 4294967296 = 1 := by
  have hcnt : v.cnt.getD 0 = 1 ↔ subs.length % 4294967296 = 1 := by
    rw [h.cnt_eq, ← UInt32.toNat_inj, UInt32.toNat_ofNat', UInt32.toNat_one]
  rw [← hcnt]
  -- an absent counter reads as 0
  cases v.cnt with
  | none => exact ⟨fun h => absurd h (by simp), fun h => absurd h (by decide)⟩
  | some n => simp

/-- A counter of 1 has a cached subscriber with it, the latest one. -/
theorem View.Matches.first_of_cnt_one {v : View} {subs : List SockAddr} (h : v.Matches subs)
    (hone : v.cnt = some 1) : ∃ c, subs.getLast? = some c ∧ v.first = some (pack c) := by
  have hlen := h.cnt_one.mp hone
  have hne : subs ≠ [] := by
    rintro rfl
    exact absurd hlen (by decide)
  obtain ⟨c, hc⟩ := Option.isSome_iff_exists.mp (cached_isSome hne)
  refine ⟨c, ?_, ?_⟩
  · rw [← cached_of_one hlen, hc]
  · rw [h.first_eq, hc]
    rfl

/-- The keys of the inner map are the different clients. -/
theorem View.Matches.keys_perm {v : View} {subs : List SockAddr} (h : v.Matches subs)
    (hnodup : v.keys.Nodup) : v.keys.Perm (subs.dedup.map pack) := by
  have hdedup : (subs.dedup.map pack).Nodup :=
    (List.nodup_dedup subs).map (fun _ _ hab => pack_injective hab)
  apply (List.perm_ext_iff_of_nodup hnodup hdedup).mpr
  intro key
  rw [h.mem_keys]
  simp only [List.mem_map, List.mem_dedup]

theorem View.matches_nil : View.Matches ⟨[], none, none⟩ [] :=
  ⟨by simp, rfl, rfl⟩

/-- While clients are live, a counter of 1 means there is exactly one, and the
    cache holds it. -/
theorem View.Live.eq_of_cnt_one {v : View} {subs : List SockAddr} (h : v.Live subs)
    (hne : subs ≠ []) (hlt : subs.length < 4294967296) (hone : v.cnt = some 1) :
    ∃ c, subs = [c] ∧ v.first = some (pack c) := by
  have hpos : 0 < subs.length := List.length_pos_iff.mpr hne
  have hone' : ∀ n, v.cnt.getD 0 = UInt32.ofNat n → n % 4294967296 = 1 := by
    intro n hn
    rw [hone] at hn
    have := congrArg UInt32.toNat hn
    rw [UInt32.toNat_ofNat'] at this
    exact this.symm
  -- the counter may be one ahead, but then it would be at least 2
  have hlen : subs.length = 1 := by
    rcases h.cnt_eq hne with hc | hc
    · have := hone' _ hc
      omega
    · have := hone' _ hc
      omega
  obtain ⟨c, rfl⟩ := List.length_eq_one_iff.mp hlen
  refine ⟨c, rfl, ?_⟩
  rw [h.first_eq hne, cached_of_lt hlt]
  rfl

/-! ### All topics -/

/-- A cached subscriber comes with a counter, and a counter with a topic. -/
structure Nested (m : Maps) : Prop where
  first_sub : ∀ t ∈ m.topic_first_sub.keys, t ∈ m.topic_sub_cnt.keys
  cnt_sub : ∀ t ∈ m.topic_sub_cnt.keys, t ∈ m.topic_subscribe.keys

/-- Between commands: the maps hold the directory. -/
structure Inv (m : Maps) (d : Directory MAX_TOPIC_ID) : Prop where
  nested : Nested m
  registered : ∀ t, t ∈ m.topic_subscribe.keys ↔ t ∈ d.keys
  topic : ∀ t, (m.view t).Matches (d.subs t)

/-- Before the operation `o` of a command, while the clients `subs` are live. -/
structure Mid (o : CtlOp) (m : Maps) (subs : TopicKey → List SockAddr) : Prop where
  nested : Nested m
  packed : ∀ t, ∀ key ∈ m.subs t, ∃ c, key = pack c
  topic : ∀ t, (m.view t).Live (subs t)
  cached : ∀ t, (m.view t).cnt = some 1 →
    (m.view t).first.isSome ∨ ∃ key, o = .first_update t key

theorem Inv.mid {m : Maps} {d : Directory MAX_TOPIC_ID} (h : Inv m d) (o : CtlOp) :
    Mid o m d.subs where
  nested := h.nested
  packed t key hkey := by
    obtain ⟨c, -, hc⟩ := List.mem_map.mp (((h.topic t).mem_keys key).mp hkey)
    exact ⟨c, hc.symm⟩
  topic t := (h.topic t).live
  cached t hone := by
    obtain ⟨c, -, hc⟩ := (h.topic t).first_of_cnt_one hone
    exact Or.inl (by rw [hc]; rfl)

theorem inv_empty : Inv Maps.empty .empty where
  nested := ⟨fun _ h => absurd h (by simp [Maps.empty]), fun _ h => absurd h (by simp [Maps.empty])⟩
  registered _ := Iff.rfl
  topic _ := View.matches_nil

/-! ### What the operations change -/

section views
variable (m : Maps) (t t' : TopicKey)

theorem subs_of_inner {inner : Inner} (h : m.inner t = some inner) : m.subs t = inner.keys := by
  unfold Maps.subs
  rw [h]

theorem nodup_subs : (m.subs t).Nodup := by
  unfold Maps.subs
  rcases m.inner t with _ | inner
  · exact List.nodup_nil
  · exact inner.keys_nodup

theorem mem_outer_keys : t ∈ m.topic_subscribe.keys ↔ (m.inner t).isSome :=
  BMap.lookup_isSome.symm

/-- A change to one inner map. -/
theorem view_modify (f : Inner → Inner) :
    ({ m with topic_subscribe := m.topic_subscribe.modify t f } : Maps).view t' =
      if t' = t then { m.view t with keys := ((m.inner t).map fun i => (f i).keys).getD [] }
      else m.view t' := by
  by_cases h : t' = t
  · subst h
    rw [if_pos rfl]
    unfold Maps.view Maps.subs Maps.inner
    simp only [BMap.lookup_modify, if_true]
    cases m.topic_subscribe.lookup t' with
    | none => rfl
    | some i => rfl
  · rw [if_neg h]
    unfold Maps.view Maps.subs Maps.inner
    simp only [BMap.lookup_modify, if_neg h]

/-- A store to the counter. -/
theorem view_cnt_update {cnt : BMap MAX_TOPIC_ID TopicKey UInt32} {n : UInt32}
    (h : m.topic_sub_cnt.update t n = some cnt) :
    ({ m with topic_sub_cnt := cnt } : Maps).view t' =
      if t' = t then { m.view t with cnt := some n } else m.view t' := by
  by_cases ht : t' = t
  · subst ht
    simp [Maps.view, Maps.subs, Maps.inner, BMap.lookup_update h]
  · simp [Maps.view, Maps.subs, Maps.inner, BMap.lookup_update h, ht]

/-- Clearing the cache. -/
theorem view_first_delete :
    ({ m with topic_first_sub := m.topic_first_sub.delete t } : Maps).view t' =
      if t' = t then { m.view t with first := none } else m.view t' := by
  by_cases ht : t' = t
  · subst ht
    simp [Maps.view, Maps.subs, Maps.inner, BMap.lookup_delete]
  · simp [Maps.view, Maps.subs, Maps.inner, BMap.lookup_delete, ht]

/-- A new topic has an empty inner map. -/
theorem view_outer_update {ts : BMap MAX_TOPIC_ID TopicKey Inner} (hnew : m.inner t = none)
    (h : m.topic_subscribe.update t .empty = some ts) :
    ({ m with topic_subscribe := ts } : Maps).view t' = m.view t' := by
  unfold Maps.inner at hnew
  by_cases ht : t' = t
  · subst ht
    simp [Maps.view, Maps.subs, Maps.inner, BMap.lookup_update h, hnew]
  · simp [Maps.view, Maps.subs, Maps.inner, BMap.lookup_update h, ht]

end views

/-! ### SUBSCRIBE -/

theorem next_count_eq (n : Option UInt32) : next_count n = n.getD 0 + 1 := by
  cases n <;> rfl

/-- One more accepted client, seen on the view of its topic. -/
theorem View.Matches.add {v : View} {subs : List SockAddr} (h : v.Matches subs) (c : SockAddr)
    (keys' : List UInt64) (hkeys : ∀ key, key ∈ keys' ↔ key = pack c ∨ key ∈ v.keys) :
    View.Matches ⟨keys', some (next_count v.cnt),
      if next_count v.cnt = 1 then some (pack c) else v.first⟩ (subs ++ [c]) := by
  have hcnt : next_count v.cnt = UInt32.ofNat subs.length + 1 := by
    rw [next_count_eq, h.cnt_eq]
  have hone : next_count v.cnt = 1 ↔ subs.length % 4294967296 = 0 := by
    rw [hcnt, ← UInt32.toNat_inj, UInt32.toNat_add, UInt32.toNat_ofNat', UInt32.toNat_one]
    omega
  refine ⟨?_, ?_, ?_⟩
  · intro key
    rw [hkeys, h.mem_keys, List.map_append, List.mem_append]
    simp [or_comm]
  · show next_count v.cnt = _
    rw [hcnt, List.length_append, List.length_singleton, UInt32.ofNat_add]
    rfl
  · simp only [cached_snoc, hone]
    split
    · rfl
    · exact h.first_eq

section subscribe
variable {ord : HashOrder} {m : Maps} {d : Directory MAX_TOPIC_ID}

theorem Inv.inner_isSome (h : Inv m d) (t : TopicKey) : (m.inner t).isSome ↔ t ∈ d.keys := by
  rw [← mem_outer_keys, h.registered]

/-- The inner map takes a client exactly when the directory has room. -/
theorem Inv.fits_iff (h : Inv m d) {t : TopicKey} {inner : Inner} (hi : m.inner t = some inner)
    (c : SockAddr) : inner.fits (pack c) ↔ room (d.subs t) c := by
  have hkeys : (m.view t).keys = inner.keys := subs_of_inner m t hi
  have hperm := (h.topic t).keys_perm (by rw [hkeys]; exact inner.keys_nodup)
  have hmem := (h.topic t).mem_keys (pack c)
  rw [hkeys] at hperm hmem
  have hsize : inner.size = (d.subs t).dedup.length := by
    rw [← List.length_map (f := pack)]
    exact hperm.length_eq
  have hpack : pack c ∈ (d.subs t).map pack ↔ c ∈ d.subs t :=
    List.mem_map_of_injective (fun _ _ hab => pack_injective hab)
  unfold BMap.fits room
  rw [hmem, hpack, hsize, decide_eq_true_iff]

/-- Storing a client keeps every key a packed client. -/
theorem Mid.packed_stored {o : CtlOp} {subs : TopicKey → List SockAddr} (h : Mid o m subs)
    {t : TopicKey} {inner inner' : Inner} {c : SockAddr} {value : UInt32}
    (hi : m.inner t = some inner) (hu : inner.update (pack c) value = some inner') (t' : TopicKey) :
    ∀ key ∈ Maps.subs { m with topic_subscribe := m.topic_subscribe.modify t fun _ => inner' } t',
      ∃ c', key = pack c' := by
  intro key hkey
  have hview := congrArg View.keys (view_modify m t t' (fun _ => inner'))
  rw [show Maps.subs _ t' = _ from hview] at hkey
  split at hkey
  · simp only [hi, Option.map_some, Option.getD_some] at hkey
    -- the new key, or one that was there
    rcases (BMap.mem_keys_update hu).mp hkey with rfl | hold
    · exact ⟨c, rfl⟩
    · exact h.packed t key (by rw [subs_of_inner m t hi]; exact hold)
  · exact h.packed t' key hkey

/-- The client is stored, the counter does not count it yet. -/
theorem Inv.mid_stored (h : Inv m d) {t : TopicKey} {inner inner' : Inner} {c : SockAddr}
    {value : UInt32} (hi : m.inner t = some inner)
    (hu : inner.update (pack c) value = some inner') (o : CtlOp) :
    Mid o { m with topic_subscribe := m.topic_subscribe.modify t fun _ => inner' } d.subs := by
  have hview := view_modify m t (f := fun _ => inner')
  have hmid := h.mid o
  refine ⟨⟨h.nested.first_sub, ?_⟩, ?_, ?_, ?_⟩
  · intro t' ht'
    exact BMap.mem_keys_modify.mpr (h.nested.cnt_sub t' ht')
  · exact hmid.packed_stored hi hu
  · intro t'
    rw [hview]
    split
    · -- the topic itself: a superset of its keys, its counter and its cache as before
      next heq =>
      subst heq
      have hl := hmid.topic t'
      refine ⟨?_, hl.cnt_eq, hl.first_eq⟩
      intro c hc
      have hmem := hl.mem_keys c hc
      rw [show (m.view t').keys = inner.keys from subs_of_inner m t' hi] at hmem
      rw [hi]
      exact (BMap.mem_keys_update hu).mpr (Or.inr hmem)
    · exact hmid.topic t'
  · intro t' hone
    rw [hview] at hone ⊢
    split at hone
    · next heq =>
      subst heq
      rw [if_pos rfl]
      exact hmid.cached t' hone
    · next hne =>
      rw [if_neg hne]
      exact hmid.cached t' hone

/-- The maps with the client stored and counted: the view of every topic. -/
theorem view_counted {t : TopicKey} {inner : Inner} (inner' : Inner) {n : UInt32}
    {cnt : BMap MAX_TOPIC_ID TopicKey UInt32} (hi : m.inner t = some inner)
    (hc : m.topic_sub_cnt.update t n = some cnt) (t' : TopicKey) :
    Maps.view ⟨m.topic_subscribe.modify t fun _ => inner', cnt, m.topic_first_sub⟩ t' =
      if t' = t then ⟨inner'.keys, some n, (m.view t).first⟩ else m.view t' := by
  rw [view_cnt_update ⟨m.topic_subscribe.modify t fun _ => inner', m.topic_sub_cnt,
    m.topic_first_sub⟩ t t' hc]
  have hview := view_modify m t (f := fun _ => inner')
  split
  · rw [hview, if_pos rfl, hi]
    rfl
  · next hne => rw [hview, if_neg hne]

theorem Inv.nested_counted (h : Inv m d) {t : TopicKey} {inner : Inner} (inner' : Inner) {n : UInt32}
    {cnt : BMap MAX_TOPIC_ID TopicKey UInt32} (hi : m.inner t = some inner)
    (hc : m.topic_sub_cnt.update t n = some cnt) :
    Nested ⟨m.topic_subscribe.modify t fun _ => inner', cnt, m.topic_first_sub⟩ := by
  refine ⟨?_, ?_⟩
  · intro t' ht'
    exact (BMap.mem_keys_update hc).mpr (Or.inr (h.nested.first_sub t' ht'))
  · intro t' ht'
    apply BMap.mem_keys_modify.mpr
    rcases (BMap.mem_keys_update hc).mp ht' with rfl | ht'
    · exact BMap.mem_keys_of_lookup hi
    · exact h.nested.cnt_sub t' ht'

/-- The counter counts the client; the cache is still to be written. -/
theorem Inv.mid_counted (h : Inv m d) {t : TopicKey} {inner inner' : Inner} {c : SockAddr}
    {value : UInt32} {cnt : BMap MAX_TOPIC_ID TopicKey UInt32} (hi : m.inner t = some inner)
    (hu : inner.update (pack c) value = some inner')
    (hc : m.topic_sub_cnt.update t (next_count (m.topic_sub_cnt.lookup t)) = some cnt) :
    Mid (.first_update t (pack c))
      ⟨m.topic_subscribe.modify t fun _ => inner', cnt, m.topic_first_sub⟩ d.subs := by
  have hview := view_counted inner' hi hc
  have hmid := h.mid (.first_update t (pack c))
  refine ⟨h.nested_counted inner' hi hc, hmid.packed_stored hi hu, ?_, ?_⟩
  · intro t'
    rw [hview]
    split
    · next heq =>
      subst heq
      have hl := (h.topic t').live
      refine ⟨?_, ?_, hl.first_eq⟩
      · intro c hc
        have hmem := hl.mem_keys c hc
        rw [show (m.view t').keys = inner.keys from subs_of_inner m t' hi] at hmem
        exact (BMap.mem_keys_update hu).mpr (Or.inr hmem)
      · intro _
        -- the counter is one ahead of the accepted clients
        right
        show next_count (m.view t').cnt = _
        rw [next_count_eq, (h.topic t').cnt_eq, UInt32.ofNat_add]
        rfl
    · exact (h.topic t').live
  · intro t' hone
    -- a counter that has just become 1 has its `first_update` still to come
    by_cases heq : t' = t
    · exact Or.inr ⟨pack c, by rw [heq]⟩
    · rw [hview, if_neg heq] at hone ⊢
      rcases hmid.cached t' hone with hc | ⟨key', hkey⟩
      · exact Or.inl hc
      · cases hkey
        exact absurd rfl heq

/-- A change of the view of `t` alone, to one that matches its clients. -/
theorem Inv.of_view {m' : Maps} {d' : Directory MAX_TOPIC_ID} (h : Inv m d) (hn : Nested m')
    (hreg : ∀ t', t' ∈ m'.topic_subscribe.keys ↔ t' ∈ d'.keys) {t : TopicKey}
    (hother : ∀ t', t' ≠ t → m'.view t' = m.view t')
    (hsubs : ∀ t', t' ≠ t → d'.subs t' = d.subs t') (ht : (m'.view t).Matches (d'.subs t)) :
    Inv m' d' where
  nested := hn
  registered := hreg
  topic t' := by
    by_cases heq : t' = t
    · rw [heq]; exact ht
    · rw [hother t' heq, hsubs t' heq]; exact h.topic t'

/-- The maps after a whole `add_subscriber`. -/
theorem Inv.subscribed (h : Inv m d) {t : TopicKey} {c : SockAddr} {inner inner' : Inner}
    {value : UInt32} {cnt : BMap MAX_TOPIC_ID TopicKey UInt32}
    {first : BMap MAX_TOPIC_ID TopicKey UInt64} (hi : m.inner t = some inner)
    (hu : inner.update (pack c) value = some inner')
    (hc : m.topic_sub_cnt.update t (next_count (m.topic_sub_cnt.lookup t)) = some cnt)
    (hfirst : ∀ t', first.lookup t' =
      if t' = t ∧ next_count (m.topic_sub_cnt.lookup t) = 1 then some (pack c)
      else m.topic_first_sub.lookup t') :
    Inv ⟨m.topic_subscribe.modify t fun _ => inner', cnt, first⟩ (d.modify t (· ++ [c])) := by
  have hview : ∀ t', Maps.view ⟨m.topic_subscribe.modify t fun _ => inner', cnt, first⟩ t' =
      { Maps.view ⟨m.topic_subscribe.modify t fun _ => inner', cnt, m.topic_first_sub⟩ t' with
        first := first.lookup t' } := fun _ => rfl
  have hcounted := view_counted inner' hi hc
  have hnested := h.nested_counted inner' hi hc
  have hmem : t ∈ d.keys := (h.inner_isSome t).mp (by rw [hi]; rfl)
  refine h.of_view (t := t) (Nested.mk (m := ⟨_, _, first⟩) ?_ hnested.cnt_sub) ?_ ?_ ?_ ?_
  · -- a cached subscriber has a counter: the topic has just been counted
    intro t' ht'
    by_cases heq : t' = t
    · rw [heq]
      exact (BMap.mem_keys_update hc).mpr (Or.inl rfl)
    · rw [← BMap.lookup_isSome, hfirst, if_neg (fun hand => heq hand.1), BMap.lookup_isSome] at ht'
      exact hnested.first_sub t' ht'
  · intro t'
    rw [BMap.mem_keys_modify, BMap.mem_keys_modify, h.registered]
  · intro t' hne
    rw [hview, hcounted, if_neg hne, hfirst, if_neg (fun hand => hne hand.1)]
    rfl
  · intro t' hne
    rw [Directory.subs_modify, if_neg (fun hand => hne hand.1)]
  · rw [Directory.subs_modify, if_pos ⟨rfl, hmem⟩, hview, hcounted, if_pos rfl, hfirst]
    have hadd := (h.topic t).add c inner'.keys (by
      intro key
      rw [show (m.view t).keys = inner.keys from subs_of_inner m t hi]
      exact BMap.mem_keys_update hu)
    -- the cache is written exactly when the counter has become 1
    by_cases hone : next_count (m.topic_sub_cnt.lookup t) = 1
    · rw [if_pos ⟨rfl, hone⟩]
      rwa [if_pos (show next_count (m.view t).cnt = 1 from hone)] at hadd
    · rw [if_neg (fun hand => hone hand.2)]
      rwa [if_neg (show ¬ next_count (m.view t).cnt = 1 from hone)] at hadd

/-- The result of a command is what the directory makes of it. -/
def Result (cmd : Cmd) (d : Directory MAX_TOPIC_ID) (ret : Int) (m' : Maps) : Prop :=
  ret = (d.exec room cmd).1 ∧ Inv m' (d.exec room cmd).2

theorem Result.of_exec {cmd : Cmd} {m' : Maps} {d' : Directory MAX_TOPIC_ID} {ret : Int}
    (hexec : d.exec room cmd = (ret, d')) (h : Inv m' d') : Result cmd d ret m' := by
  unfold Result
  rw [hexec]
  exact ⟨rfl, h⟩

/-- **SUBSCRIBE**: every operation keeps the accepted clients live, and the
    client is accepted exactly when there is a place for it. The stores to
    the counter and the cache cannot fail, since these maps have no more keys
    than `topic_subscribe`. -/
theorem add_subscriber_outline (h : Inv m d) (topic_name : List UInt8) (c : SockAddr) :
    (command (.subscribe topic_name c)).Outline (ctl ord) (fun o m => Mid o m d.subs)
      (Result (.subscribe topic_name c) d) m := by
  show (add_subscriber topic_name (htonl c.sin_addr) (htons c.sin_port).toUInt32).Outline _ _ _ m
  have hrefused (hno : ∀ t, topic_key_of topic_name = some t → t ∈ d.keys →
      ¬ room (d.subs t) c) : Result (.subscribe topic_name c) d (-1) m :=
    .of_exec (Directory.exec_subscribe_no d hno) h
  unfold add_subscriber
  rcases hk : topic_key_of topic_name with _ | t
  · apply hrefused
    intro t ht
    rw [hk] at ht
    cases ht
  simp only [Prog.op_bind, Prog.ret_bind, Prog.outline_op, Prog.pure_eq_ret, ctl]
  refine ⟨h.mid _, ?_⟩
  rcases Option.eq_none_or_eq_some (m.inner t) with hi | ⟨inner, hi⟩
  · -- the topic is not registered
    simp only [hi]
    apply hrefused
    intro t' ht' hmem
    rw [hk] at ht'
    cases ht'
    rw [← h.inner_isSome, hi] at hmem
    cases hmem
  have hpacked : packed_key (htonl c.sin_addr) (htons c.sin_port).toUInt32 = pack c := rfl
  simp only [hi, hpacked, Option.isSome_some, Bool.not_true, Bool.false_eq_true, if_false,
    Prog.outline_op, ctl, Option.bind_some]
  refine ⟨h.mid _, h.mid _, ?_⟩
  -- the inner map takes the client, or is full
  rcases Option.eq_none_or_eq_some (inner.update (pack c) (ord.value m 1)) with hu | ⟨inner', hu⟩
  · simp only [hu]
    apply hrefused
    intro t' ht' _
    rw [hk] at ht'
    cases ht'
    rw [← h.fits_iff hi]
    exact BMap.update_eq_none.mp hu
  have hyes : d.exec room (.subscribe topic_name c) = (0, d.modify t (· ++ [c])) :=
    Directory.exec_subscribe_yes d hk ((h.inner_isSome t).mp (by rw [hi]; rfl))
      ((h.fits_iff hi c).mp (BMap.update_isSome.mp (by rw [hu]; rfl)))
  -- the counter and the cache have room for the topic
  obtain ⟨cnt, hc⟩ := BMap.update_of_fits (next_count (m.topic_sub_cnt.lookup t))
    (BMap.fits_of_keys_subset (Nat.le_refl _) h.nested.cnt_sub (BMap.mem_keys_of_lookup hi))
  obtain ⟨first, hf⟩ := BMap.update_of_fits (pack c)
    (BMap.fits_of_keys_subset (Nat.le_refl _)
      (fun t ht => h.nested.cnt_sub t (h.nested.first_sub t ht)) (BMap.mem_keys_of_lookup hi))
  simp only [hu, hc, Bool.not_true, Bool.false_eq_true, if_false, Prog.outline_op, ctl]
  refine ⟨h.mid_stored hi hu _, h.mid_stored hi hu _, ?_⟩
  change Prog.Outline _ _ _ (if next_count (m.topic_sub_cnt.lookup t) = 1 then _ else _) _
  by_cases hone : next_count (m.topic_sub_cnt.lookup t) = 1
  · rw [if_pos hone, hpacked]
    simp only [Prog.outline_op, ctl, hf, Bool.not_true, Bool.false_eq_true, if_false]
    refine ⟨h.mid_counted hi hu hc, .of_exec hyes (h.subscribed hi hu hc ?_)⟩
    intro t'
    rw [BMap.lookup_update hf]
    simp only [hone, and_true]
  · rw [if_neg hone]
    refine .of_exec hyes (h.subscribed hi hu hc ?_)
    intro t'
    rw [if_neg (fun hand => hone hand.2)]

end subscribe

/-! ### REGISTER -/

section register
variable {ord : HashOrder} {m : Maps} {d : Directory MAX_TOPIC_ID}

/-- A new topic with an empty inner map. -/
theorem Inv.registered_new (h : Inv m d) {t : TopicKey} (hnew : m.inner t = none)
    {ts : BMap MAX_TOPIC_ID TopicKey Inner} {d' : Directory MAX_TOPIC_ID}
    (hts : m.topic_subscribe.update t .empty = some ts) (hd : d.update t [] = some d') :
    Inv { m with topic_subscribe := ts } d' := by
  have hnot : t ∉ d.keys := by
    rw [← h.inner_isSome, hnew]
    exact Bool.false_ne_true
  refine ⟨⟨h.nested.first_sub, ?_⟩, ?_, ?_⟩
  · intro t' ht'
    exact (BMap.mem_keys_update hts).mpr (Or.inr (h.nested.cnt_sub t' ht'))
  · intro t'
    rw [BMap.mem_keys_update hts, BMap.mem_keys_update hd, h.registered]
  · intro t'
    rw [view_outer_update m t t' hnew hts, Directory.subs_update_new hnot hd]
    exact h.topic t'

/-- **REGISTER** changes nothing but the set of topics. -/
theorem add_topic_outline (h : Inv m d) (topic_name : List UInt8) :
    (command (.register topic_name)).Outline (ctl ord) (fun o m => Mid o m d.subs)
      (Result (.register topic_name) d) m := by
  show (add_topic topic_name).Outline _ _ _ m
  unfold add_topic
  rcases hk : topic_key_of topic_name with _ | t
  · exact .of_exec (Directory.exec_register_none d hk) h
  simp only [Prog.op_bind, Prog.ret_bind, Prog.outline_op, Prog.pure_eq_ret, ctl]
  refine ⟨h.mid _, ?_⟩
  rcases Option.eq_none_or_eq_some (m.inner t) with hi | ⟨inner, hi⟩
  · have hnot : t ∉ d.keys := by
      rw [← h.inner_isSome, hi]
      exact Bool.false_ne_true
    simp only [hi, Option.isSome_none, Bool.false_eq_true, if_false, Prog.outline_op, ctl,
      Bool.not_true]
    refine ⟨h.mid _, h.mid _, ?_⟩
    have hfits := BMap.fits_congr h.registered t
    -- the outer map takes the topic, or is full
    rcases Option.eq_none_or_eq_some (m.topic_subscribe.update t .empty) with hu | ⟨ts, hu⟩
    · have hd : d.update t [] = none := by
        rw [BMap.update_eq_none, ← hfits, ← BMap.update_eq_none, hu]
      simp only [hu]
      exact .of_exec (Directory.exec_register_full d hk hnot hd) h
    · obtain ⟨d', hd⟩ := BMap.update_of_fits ([] : List SockAddr)
        (hfits.mp (BMap.update_isSome.mp (by rw [hu]; rfl)))
      simp only [hu]
      exact .of_exec (Directory.exec_register_new d hk hnot hd) (h.registered_new hi hu hd)
  · -- registered before: nothing is stored
    have hmem : t ∈ d.keys := by
      rw [← h.inner_isSome, hi]
      rfl
    simp only [hi]
    exact .of_exec (Directory.exec_register_mem d hk hmem) h

end register

/-! ### FLUSH -/

/-- `m'` is `m` with some of the clients of `t` removed from the inner map. -/
structure Emptying (t : TopicKey) (m m' : Maps) : Prop where
  cnt_eq : m'.topic_sub_cnt = m.topic_sub_cnt
  first_eq : m'.topic_first_sub = m.topic_first_sub
  other : ∀ t', t' ≠ t → m'.subs t' = m.subs t'
  subset : ∀ key ∈ m'.subs t, key ∈ m.subs t
  keys : ∀ t', t' ∈ m'.topic_subscribe.keys ↔ t' ∈ m.topic_subscribe.keys

namespace Emptying

theorem refl (t : TopicKey) (m : Maps) : Emptying t m m :=
  ⟨rfl, rfl, fun _ _ => rfl, fun _ h => h, fun _ => Iff.rfl⟩

theorem delete {t : TopicKey} {m m' : Maps} (h : Emptying t m m') (key : UInt64) :
    Emptying t m
      { m' with topic_subscribe := m'.topic_subscribe.modify t fun inner => inner.delete key } where
  cnt_eq := h.cnt_eq
  first_eq := h.first_eq
  other t' hne := by
    rw [← h.other t' hne]
    unfold Maps.subs Maps.inner
    simp only [BMap.lookup_modify, if_neg hne]
  subset key' hkey := by
    apply h.subset key'
    unfold Maps.subs Maps.inner at hkey ⊢
    simp only [BMap.lookup_modify, if_true] at hkey
    -- the deletion reaches an inner map only if there is one
    rcases hl : m'.topic_subscribe.lookup t with _ | inner
    · rw [hl] at hkey
      exact hkey
    · rw [hl] at hkey
      exact (BMap.mem_keys_delete.mp hkey).2
  keys t' := BMap.mem_keys_modify.trans (h.keys t')

theorem view_other {t : TopicKey} {m m' : Maps} (h : Emptying t m m') {t' : TopicKey}
    (hne : t' ≠ t) : m'.view t' = m.view t' := by
  unfold Maps.view
  rw [h.cnt_eq, h.first_eq, h.other t' hne]

theorem nested {t : TopicKey} {m m' : Maps} (h : Emptying t m m') (hn : Nested m) :
    Nested m' where
  first_sub t' := by
    rw [h.cnt_eq, h.first_eq]
    exact hn.first_sub t'
  cnt_sub t' := by
    rw [h.cnt_eq, h.keys]
    exact hn.cnt_sub t'

/-- The clients of the other topics are live all the time. -/
theorem mid {t : TopicKey} {m m' : Maps} (h : Emptying t m m') {d : Directory MAX_TOPIC_ID}
    (hinv : Inv m d) {subs : TopicKey → List SockAddr} (ht : subs t = [])
    (hother : ∀ t', t' ≠ t → subs t' = d.subs t') (o : CtlOp) : Mid o m' subs where
  nested := h.nested hinv.nested
  packed t' key hkey := by
    apply (hinv.mid o).packed t' key
    by_cases heq : t' = t
    · rw [heq] at hkey ⊢; exact h.subset key hkey
    · rw [← h.other t' heq]; exact hkey
  topic t' := by
    by_cases heq : t' = t
    · rw [heq, ht]; exact View.live_nil _
    · rw [h.view_other heq, hother t' heq]; exact (hinv.topic t').live
  cached t' hone := by
    have hcnt : (m'.view t').cnt = (m.view t').cnt := by unfold Maps.view; rw [h.cnt_eq]
    have hfirst : (m'.view t').first = (m.view t').first := by unfold Maps.view; rw [h.first_eq]
    rw [hfirst]
    exact (hinv.mid o).cached t' (hcnt ▸ hone)

end Emptying

section flush
variable {ord : HashOrder} {m : Maps} {d : Directory MAX_TOPIC_ID}

theorem length_subs_delete {m : Maps} {t : TopicKey} {key : UInt64} (h : key ∈ m.subs t) :
    (Maps.subs { m with topic_subscribe :=
      m.topic_subscribe.modify t fun inner => inner.delete key } t).length <
        (m.subs t).length := by
  unfold Maps.subs Maps.inner at h ⊢
  simp only [BMap.lookup_modify, if_true]
  rcases hl : m.topic_subscribe.lookup t with _ | inner
  · rw [hl] at h
    cases h
  · rw [hl] at h
    exact BMap.size_delete_lt h

/-- The loop of `flush_topic` empties the inner map, in as many rounds as it
    has keys. -/
theorem flush_loop_outline {t : TopicKey} {I : CtlOp → Maps → Prop}
    (hI : ∀ o m', Emptying t m m' → I o m') (n : Nat) {m' : Maps} (h : Emptying t m m')
    (hlen : (m'.subs t).length < n) :
    (flush_loop t n).Outline (ctl ord) I
      (fun _ m'' => Emptying t m m'' ∧ m''.subs t = []) m' := by
  induction n generalizing m' with
  | zero => exact absurd hlen (Nat.not_lt_zero _)
  | succ n ih =>
    have hperm := ord.walk_perm (m'.subs t)
    unfold flush_loop
    simp only [Prog.op_bind, Prog.ret_bind, Prog.outline_op, Prog.pure_eq_ret, ctl]
    refine ⟨hI _ _ h, ?_⟩
    -- `bpf_map_get_next_key` finds a key, or the map is empty
    rcases hw : ord.walk (m'.subs t) with _ | ⟨key, rest⟩
    · rw [hw] at hperm
      exact ⟨h, List.nil_perm.mp hperm⟩
    · rw [hw] at hperm
      have hmem : key ∈ m'.subs t := hperm.subset (List.mem_cons_self ..)
      exact ⟨hI _ _ h, ih (h.delete key)
        (Nat.lt_of_lt_of_le (length_subs_delete hmem) (Nat.lt_succ_iff.mp hlen))⟩

theorem length_subs_le (m : Maps) (t : TopicKey) : (m.subs t).length ≤ 256 := by
  unfold Maps.subs
  rcases m.inner t with _ | inner
  · exact Nat.zero_le _
  · exact inner.size_le_cap

/-- The topic is empty again: nobody in the inner map, a counter of zero and
    nobody in the cache. -/
theorem Inv.flushed (h : Inv m d) {t : TopicKey} {m' : Maps} (he : Emptying t m m')
    (hnil : m'.subs t = []) {cnt : BMap MAX_TOPIC_ID TopicKey UInt32}
    (hc : m'.topic_sub_cnt.update t 0 = some cnt) (hmem : t ∈ d.keys) :
    Inv { m' with topic_sub_cnt := cnt, topic_first_sub := m'.topic_first_sub.delete t }
      (d.modify t fun _ => []) := by
  have hview : ∀ t', Maps.view { m' with
      topic_sub_cnt := cnt, topic_first_sub := m'.topic_first_sub.delete t } t' =
      if t' = t then ⟨m'.subs t, some 0, none⟩ else m'.view t' := by
    intro t'
    rw [view_first_delete ⟨m'.topic_subscribe, cnt, m'.topic_first_sub⟩ t t']
    have := view_cnt_update m' t (h := hc)
    split
    · rw [this, if_pos rfl]
      rfl
    · next hne => rw [this, if_neg hne]
  -- only the view of `t` has changed
  refine h.of_view (t := t) ⟨?_, ?_⟩ ?_ ?_ ?_ ?_
  · intro t' ht'
    apply (BMap.mem_keys_update hc).mpr
    exact Or.inr ((he.nested h.nested).first_sub t' (BMap.mem_keys_delete.mp ht').2)
  · intro t' ht'
    rcases (BMap.mem_keys_update hc).mp ht' with rfl | ht'
    · exact (he.keys t').mpr ((h.registered t').mpr hmem)
    · exact (he.nested h.nested).cnt_sub t' ht'
  · intro t'
    rw [BMap.mem_keys_modify, ← h.registered]
    exact he.keys t'
  · intro t' hne
    rw [hview, if_neg hne]
    exact he.view_other hne
  · intro t' hne
    rw [Directory.subs_modify, if_neg (fun hand => hne hand.1)]
  · rw [hview, if_pos rfl, hnil, Directory.subs_modify, if_pos ⟨rfl, hmem⟩]
    exact ⟨by simp, rfl, rfl⟩

/-- The counter is reset, the cache not yet. -/
theorem Inv.mid_reset (h : Inv m d) {t : TopicKey} {m' : Maps} (he : Emptying t m m')
    {cnt : BMap MAX_TOPIC_ID TopicKey UInt32} (hc : m'.topic_sub_cnt.update t 0 = some cnt)
    (hmem : t ∈ d.keys) {subs : TopicKey → List SockAddr} (ht : subs t = [])
    (hother : ∀ t', t' ≠ t → subs t' = d.subs t') (o : CtlOp) :
    Mid o { m' with topic_sub_cnt := cnt } subs := by
  have hmid := he.mid h ht hother o
  have hview := view_cnt_update m' t (h := hc)
  refine ⟨⟨?_, ?_⟩, hmid.packed, ?_, ?_⟩
  · intro t' ht'
    exact (BMap.mem_keys_update hc).mpr (Or.inr (hmid.nested.first_sub t' ht'))
  · intro t' ht'
    rcases (BMap.mem_keys_update hc).mp ht' with rfl | ht'
    · exact (he.keys t').mpr ((h.registered t').mpr hmem)
    · exact hmid.nested.cnt_sub t' ht'
  · intro t'
    rw [hview]
    by_cases heq : t' = t
    · rw [if_pos heq, heq, ht]; exact View.live_nil _
    · rw [if_neg heq]; exact hmid.topic t'
  · intro t' hone
    rw [hview] at hone ⊢
    by_cases heq : t' = t
    · -- a counter of 0 asks for no cached subscriber
      rw [if_pos heq] at hone
      exact absurd hone (by simp)
    · rw [if_neg heq] at hone ⊢
      exact hmid.cached t' hone

/-- **FLUSH**: the clients of the other topics stay live, and in the end the
    topic has none. -/
theorem flush_topic_outline (h : Inv m d) (topic_name : List UInt8) :
    (command (.flush topic_name)).Outline (ctl ord)
      (fun o m => Mid o m (d.during (.flush topic_name)))
      (Result (.flush topic_name) d) m := by
  show (flush_topic topic_name).Outline _ _ _ m
  unfold flush_topic
  rcases hk : topic_key_of topic_name with _ | t
  · exact .of_exec (Directory.exec_flush_none d hk) h
  have ht : d.during (.flush topic_name) t = [] := by simp [Directory.during, hk]
  have hother : ∀ t', t' ≠ t → d.during (.flush topic_name) t' = d.subs t' := by
    intro t' hne
    simp [Directory.during, hk, Ne.symm hne]
  have hmid : ∀ o m', Emptying t m m' → Mid o m' (d.during (.flush topic_name)) :=
    fun o m' he => he.mid h ht hother o
  have hrefl := Emptying.refl t m
  simp only [Prog.op_bind, Prog.ret_bind, Prog.outline_op, Prog.pure_eq_ret, ctl]
  refine ⟨hmid _ _ hrefl, ?_⟩
  by_cases hmem : t ∈ d.keys
  · have hsome : (m.inner t).isSome = true := (h.inner_isSome t).mpr hmem
    simp only [hsome, Bool.not_true, Bool.false_eq_true, if_false, Prog.outline_op, ctl]
    refine ⟨hmid _ _ hrefl, ?_⟩
    -- the loop, the reset of the counter, the end of the cache entry
    rw [Prog.outline_bind]
    refine (flush_loop_outline hmid 257 hrefl (Nat.lt_succ_of_le (length_subs_le m t))).mono
      (fun _ _ h => h) ?_
    rintro - m' ⟨he, hnil⟩
    obtain ⟨cnt, hc⟩ := BMap.update_of_fits (0 : UInt32)
      (BMap.fits_of_keys_subset (Nat.le_refl _) (he.nested h.nested).cnt_sub
        ((he.keys t).mpr ((h.registered t).mpr hmem)))
    simp only [Prog.outline_op, ctl, hc]
    exact ⟨hmid _ _ he, h.mid_reset he hc hmem ht hother _,
      .of_exec (Directory.exec_flush d hk) (h.flushed he hnil hc hmem)⟩
  · -- an unknown topic: `flush_topic` returns at once
    have hnone : (m.inner t).isSome = false := by
      rw [← h.inner_isSome] at hmem
      exact Bool.eq_false_iff.mpr hmem
    simp only [hnone]
    refine .of_exec (Directory.exec_flush d hk) ⟨h.nested, ?_, ?_⟩
    · intro t'
      rw [BMap.mem_keys_modify, h.registered]
    · intro t'
      rw [Directory.subs_modify, if_neg (fun hand => hmem hand.2)]
      exact h.topic t'

end flush

/-! ### The operations of a command -/

/-- Operations that neither ask for a key of an inner map nor remove one. -/
def Plain (o : CtlOp) : Prop :=
  (∀ t, o ≠ .inner_first t) ∧ ∀ t key, o ≠ .inner_delete t key

theorem add_topic_plain (topic_name : List UInt8) : (add_topic topic_name).AllOps Plain := by
  unfold add_topic
  split
  · exact Prog.allOps_ret _ _
  · refine ⟨by simp [Plain], ?_⟩
    rintro (_ | _)
    · refine ⟨by simp [Plain], ?_⟩
      rintro (_ | _)
      · exact Prog.allOps_ret _ _
      · refine ⟨by simp [Plain], ?_⟩
        rintro (_ | _)
        · exact Prog.allOps_ret _ _
        · exact Prog.allOps_ret _ _
    · exact Prog.allOps_ret _ _

theorem add_subscriber_plain (topic_name : List UInt8) (ip port : UInt32) :
    (add_subscriber topic_name ip port).AllOps Plain := by
  unfold add_subscriber
  split
  · exact Prog.allOps_ret _ _
  · refine ⟨by simp [Plain], ?_⟩
    rintro (_ | _)
    · exact Prog.allOps_ret _ _
    refine ⟨by simp [Plain], ?_⟩
    rintro (_ | _)
    · exact Prog.allOps_ret _ _
    refine ⟨by simp [Plain], ?_⟩
    rintro (_ | _)
    · exact Prog.allOps_ret _ _
    refine ⟨by simp [Plain], fun count => ⟨by simp [Plain], ?_⟩⟩
    rintro (_ | _)
    · exact Prog.allOps_ret _ _
    show (ite (next_count count = 1) _ _ : Prog CtlSig Int).AllOps _
    split
    · refine ⟨by simp [Plain], ?_⟩
      rintro (_ | _)
      · exact Prog.allOps_ret _ _
      · exact Prog.allOps_ret _ _
    · exact Prog.allOps_ret _ _

/-! ### The control process refines the directory -/

section refinement
variable (ord : HashOrder)

/-- **Every command**, operation by operation. -/
theorem command_outline {m : Maps} {d : Directory MAX_TOPIC_ID} (h : Inv m d) (cmd : Cmd) :
    (command cmd).Outline (ctl ord) (fun o m => Mid o m (d.during cmd)) (Result cmd d) m := by
  cases cmd with
  | register topic_name => exact add_topic_outline h topic_name
  | subscribe topic_name c => exact add_subscriber_outline h topic_name c
  | flush topic_name => exact flush_topic_outline h topic_name
  | unknown => exact .of_exec rfl h

/-- One round of the main loop. -/
theorem serve_refines (r : Request) {m : Maps} {d : Directory MAX_TOPIC_ID} (h : Inv m d) :
    (serve ord r m).1 = (d.serve room r).1 ∧ Inv (serve ord r m).2 (d.serve room r).2 := by
  obtain ⟨hret, hinv⟩ := (command_outline ord h (parse_request r)).result
  exact ⟨congrArg (Served.mk (parse_request r)) hret, hinv⟩

/-- **Refinement**: after any sequence of requests the maps hold the
    directory of these requests, and the commands returned what it says. -/
theorem serve_all_refines (rs : List Request) :
    (serve_all ord rs .empty).1 = Directory.history MAX_TOPIC_ID room rs ∧
      Inv (serve_all ord rs .empty).2 (Directory.after room rs) :=
  main_loop_simulates (fun r _ _ h => serve_refines ord r h) rs inv_empty

/-- The clients a topic has are those its SUBSCRIBEs accepted. -/
theorem subs_after_eq (rs : List Request) (t : TopicKey) :
    (Directory.after room rs : Directory MAX_TOPIC_ID).subs t =
      accepted (serve_all ord rs .empty).1 t := by
  rw [Directory.subs_after, (serve_all_refines ord rs).1]

end refinement

end BpfBroker.Hash
