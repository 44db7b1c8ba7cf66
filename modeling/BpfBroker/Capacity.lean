import BpfBroker.Hash.Delivery
import BpfBroker.Clone.Datapath

/-! # The Late Failure Branches of SUBSCRIBE

    `add_subscriber` stores the client first and then writes the maps that
    describe the topic, and it has an error exit behind each store. All topic
    maps hold the same number of keys, and a topic gets into the later maps
    only when it is in the first: when the client has been stored, the stores
    that follow find room. -/

namespace BpfBroker

open Atomic

/-! ### The hash broker -/

namespace Hash

/-- Stores to the counter and to the cache are for the topic `t`. -/
def About (t : TopicKey) : CtlOp → Prop
  | .cnt_update t' _ => t' = t
  | .first_update t' _ => t' = t
  | _ => True

/-- The stores to the counter and to the cache do not fail. -/
def Stored (ord : HashOrder) : CtlOp → Maps → Prop
  | .cnt_update t value, m => (ctl ord (.cnt_update t value) m).1 = true
  | .first_update t value, m => (ctl ord (.first_update t value) m).1 = true
  | _, _ => True

/-- There is room for a registered topic in every map. -/
theorem Nested.stored {ord : HashOrder} {m : Maps} (h : Nested m) {t : TopicKey}
    (hreg : t ∈ m.topic_subscribe.keys) {o : CtlOp} (ho : About t o) : Stored ord o m := by
  unfold About at ho
  split at ho
  · next t' value =>
    subst ho
    obtain ⟨cnt, hc⟩ := BMap.update_of_fits value
      (BMap.fits_of_keys_subset (Nat.le_refl _) h.cnt_sub hreg)
    show (ctl ord (.cnt_update t' value) m).1 = true
    simp only [ctl, hc]
  · next t' value =>
    subst ho
    have hsub : ∀ t ∈ m.topic_first_sub.keys, t ∈ m.topic_subscribe.keys :=
      fun t ht => h.cnt_sub t (h.first_sub t ht)
    obtain ⟨first, hf⟩ := BMap.update_of_fits value
      (BMap.fits_of_keys_subset (Nat.le_refl _) hsub hreg)
    show (ctl ord (.first_update t' value) m).1 = true
    simp only [ctl, hf]
  · next hcnt hfirst =>
    unfold Stored
    split
    · exact absurd rfl (hcnt _ _)
    · exact absurd rfl (hfirst _ _)
    · trivial

/-- Topics stay registered. -/
theorem mem_outer_ctl {ord : HashOrder} {t : TopicKey} (o : CtlOp) (m : Maps)
    (h : t ∈ m.topic_subscribe.keys) : t ∈ (ctl ord o m).2.topic_subscribe.keys := by
  unfold ctl
  split
  all_goals try exact h
  · -- the store of a topic, of a client, and the deletion of one
    split
    · exact h
    · next hu => exact (BMap.mem_keys_update hu).mpr (Or.inr h)
  · split
    · exact h
    · exact BMap.mem_keys_modify.mpr h
  · exact BMap.mem_keys_modify.mpr h
  · split <;> exact h
  · split <;> exact h

/-- `add_subscriber` writes the counter and the cache of its own topic. -/
theorem add_subscriber_about {topic_name : List UInt8} {t : TopicKey}
    (hk : topic_key_of topic_name = some t) (ip port : UInt32) :
    (add_subscriber topic_name ip port).AllOps (About t) := by
  unfold add_subscriber
  rw [hk]
  -- the registration, the file descriptor and the client, each with its error exit
  refine ⟨trivial, ?_⟩
  rintro (_ | _)
  · trivial
  refine ⟨trivial, ?_⟩
  rintro (_ | _)
  · trivial
  refine ⟨trivial, ?_⟩
  rintro (_ | _)
  · trivial
  -- the counter, and the cache when it has become 1
  refine ⟨trivial, fun count => ⟨rfl, ?_⟩⟩
  rintro (_ | _)
  · trivial
  show (ite (next_count count = 1) _ _ : Prog CtlSig Int).AllOps _
  split
  · refine ⟨rfl, ?_⟩
    rintro (_ | _)
    · trivial
    · trivial
  · trivial

/-- **No late failure**: along `add_subscriber` the topic maps stay nested and
    the stores behind that of the client succeed. -/
theorem Inv.add_subscriber_stored {ord : HashOrder} {m : Maps} {d : Directory MAX_TOPIC_ID}
    (h : Inv m d) (topic_name : List UInt8) (c : SockAddr) :
    (command (.subscribe topic_name c)).Outline (ctl ord) (fun o m => Nested m ∧ Stored ord o m)
      (fun _ m => Nested m) m := by
  have hmid : (command (.subscribe topic_name c)).Outline (ctl ord) _ _ m :=
    add_subscriber_outline h topic_name c
  rcases hk : topic_key_of topic_name with _ | t
  · show (add_subscriber topic_name _ _).Outline _ _ _ m
    unfold add_subscriber
    rw [hk]
    exact h.nested
  by_cases hreg : t ∈ m.topic_subscribe.keys
  · -- the topic stays registered, so there is room for it all along
    have habout : (command (.subscribe topic_name c)).Outline (ctl ord)
        (fun o m => About t o ∧ t ∈ m.topic_subscribe.keys)
        (fun _ m => t ∈ m.topic_subscribe.keys) m :=
      (add_subscriber_about hk _ _).outline (fun o _ => mem_outer_ctl o) hreg
    refine (hmid.and habout).mono ?_ ?_
    · intro o m' hboth
      exact ⟨hboth.1.nested, hboth.1.nested.stored hboth.2.2 hboth.2.1⟩
    · intro ret m' hboth
      exact hboth.1.2.nested
  · -- the lookup fails and nothing is stored
    have hnone : (m.inner t).isSome = false :=
      Bool.eq_false_iff.mpr (fun hsome => hreg (BMap.lookup_isSome.mp hsome))
    show (add_subscriber topic_name _ _).Outline _ _ _ m
    unfold add_subscriber
    rw [hk]
    simp only [Prog.op_bind, Prog.ret_bind, Prog.outline_op, ctl, hnone]
    exact ⟨⟨h.nested, trivial⟩, h.nested⟩

/-- `add_subscriber` fails only where it stores the client, or before. -/
theorem Inv.add_subscriber_ret {ord : HashOrder} {m : Maps} {d : Directory MAX_TOPIC_ID}
    (h : Inv m d) (topic_name : List UInt8) (c : SockAddr) :
    ((command (.subscribe topic_name c)).run (ctl ord) m).1 = 0 ↔
      ∃ t inner, topic_key_of topic_name = some t ∧ m.inner t = some inner ∧
        (inner.update (pack c) 1).isSome := by
  have hret : ((command (.subscribe topic_name c)).run (ctl ord) m).1 = _ :=
    (add_subscriber_outline h topic_name c).result.1
  rw [hret, Directory.exec_subscribe_ret]
  refine ⟨?_, ?_⟩
  · intro hex
    obtain ⟨t, hk, hmem, hroom⟩ := hex
    obtain ⟨inner, hi⟩ := Option.isSome_iff_exists.mp ((h.inner_isSome t).mpr hmem)
    exact ⟨t, inner, hk, hi, BMap.update_isSome.mpr ((h.fits_iff hi c).mpr hroom)⟩
  · intro hex
    obtain ⟨t, inner, hk, hi, hu⟩ := hex
    exact ⟨t, hk, (h.inner_isSome t).mp (by rw [hi]; rfl),
      (h.fits_iff hi c).mp (BMap.update_isSome.mp hu)⟩

end Hash

/-! ### The clone broker -/

namespace Clone

def About (t : TopicKey) : CtlOp → Prop
  | .cnt_update t' _ => t' = t
  | _ => True

/-- The stores to the count do not fail. -/
def Stored : CtlOp → Maps → Prop
  | .cnt_update t value, m => (ctl (.cnt_update t value) m).1 = true
  | _, _ => True

/-- What holds before every operation: a count comes with a topic and is at
    most 2048. -/
structure Bounded (m : Maps) : Prop where
  nested : Nested m
  count_le : ∀ t, (m.cnt t).toNat ≤ MAX_SUBSCRIBERS

theorem Inv.bounded {m : Maps} {d : Directory MAX_TOPIC_ID} (h : Inv m d) : Bounded m where
  nested := h.nested
  count_le t := by
    rw [(h.topic t).toNat_cnt]
    exact (h.topic t).length_le

theorem Nested.stored {m : Maps} (h : Nested m) {t : TopicKey} (hreg : m.found t) {o : CtlOp}
    (ho : About t o) : Stored o m := by
  unfold About at ho
  split at ho
  · next t' value =>
    subst ho
    obtain ⟨cnt, hc⟩ := BMap.update_of_fits value
      (BMap.fits_of_keys_subset (Nat.le_refl _) h hreg)
    show (ctl (.cnt_update t' value) m).1 = true
    simp only [ctl, hc]
  · next hcnt =>
    unfold Stored
    split
    · exact absurd rfl (hcnt _ _)
    · trivial

/-- Stores for a registered topic keep a count with a topic. -/
theorem nested_ctl {t : TopicKey} (o : CtlOp) (ho : About t o) (m : Maps)
    (h : m.found t ∧ Nested m) : (ctl o m).2.found t ∧ Nested (ctl o m).2 := by
  obtain ⟨hfound, hnested⟩ := h
  unfold ctl
  split
  all_goals try exact ⟨hfound, hnested⟩
  · -- a new topic
    split
    · exact ⟨hfound, hnested⟩
    · next hu =>
      have hgrow : ∀ t', m.found t' → _ := fun t' h => (BMap.mem_keys_update hu).mpr (Or.inr h)
      exact ⟨hgrow t hfound, fun t' ht' => hgrow t' (hnested t' ht')⟩
  · -- a slot
    split
    · exact ⟨hfound, hnested⟩
    · exact ⟨BMap.mem_keys_modify.mpr hfound,
        fun t' ht' => BMap.mem_keys_modify.mpr (hnested t' ht')⟩
  · -- the count, which can only be that of `t`
    split
    · exact ⟨hfound, hnested⟩
    · next hu =>
      refine ⟨hfound, ?_⟩
      intro t' ht'
      rcases (BMap.mem_keys_update hu).mp ht' with heq | hold
      · rw [heq, show _ = t from ho]
        exact hfound
      · exact hnested t' hold

/-- `add_subscriber` writes the count of its own topic. -/
theorem add_subscriber_about {topic_name : List UInt8} {t : TopicKey}
    (hk : topic_key_of topic_name = some t) (ip port : UInt32) :
    (add_subscriber topic_name ip port).AllOps (About t) := by
  unfold add_subscriber
  rw [hk]
  refine ⟨trivial, ?_⟩
  rintro (_ | _)
  · trivial
  refine ⟨trivial, ?_⟩
  rintro (_ | _)
  · trivial
  refine ⟨trivial, fun count => ⟨trivial, ?_⟩⟩
  rintro (_ | _)
  · trivial
  refine ⟨rfl, ?_⟩
  rintro (_ | _)
  · trivial
  · trivial

/-- **No late failure**: along `add_subscriber` the counts are those of
    registered topics and in range, and the store of the new count
    succeeds. -/
theorem Inv.add_subscriber_stored {m : Maps} {d : Directory MAX_TOPIC_ID} (h : Inv m d)
    (topic_name : List UInt8) (c : SockAddr) :
    (command (.subscribe topic_name c)).Outline ctl (fun o m => Bounded m ∧ Stored o m)
      (fun _ m => Bounded m) m := by
  have hmid := add_subscriber_outline h topic_name c
  rcases hk : topic_key_of topic_name with _ | t
  · show (add_subscriber topic_name _ _).Outline _ _ _ m
    unfold add_subscriber
    rw [hk]
    exact h.bounded
  by_cases hreg : m.found t
  · have habout : (command (.subscribe topic_name c)).Outline ctl
        (fun o m => About t o ∧ m.found t ∧ Nested m) (fun _ m => m.found t ∧ Nested m) m :=
      (add_subscriber_about hk _ _).outline nested_ctl ⟨hreg, h.nested⟩
    refine (hmid.and habout).mono ?_ ?_
    · intro o m' hboth
      obtain ⟨hcount, ho, hfound, hnested⟩ := hboth
      refine ⟨⟨hnested, ?_⟩, hnested.stored hfound ho⟩
      intro t'
      rw [hcount.cnt_eq]
      exact (h.topic t').length_le
    · intro ret m' hboth
      exact hboth.1.2.bounded
  · -- the lookup fails and nothing is stored
    have hnone : (m.topic_sub_array.lookup t).isSome = false :=
      Bool.eq_false_iff.mpr (fun hsome => hreg (BMap.lookup_isSome.mp hsome))
    show (add_subscriber topic_name _ _).Outline _ _ _ m
    unfold add_subscriber
    rw [hk]
    simp only [Prog.op_bind, Prog.ret_bind, Prog.outline_op, ctl, hnone]
    exact ⟨⟨h.bounded, trivial⟩, h.bounded⟩

/-- `add_subscriber` fails only where it stores the client, or before. -/
theorem Inv.add_subscriber_ret {m : Maps} {d : Directory MAX_TOPIC_ID} (h : Inv m d)
    (topic_name : List UInt8) (c : SockAddr) :
    ((command (.subscribe topic_name c)).run ctl m).1 = 0 ↔
      ∃ t a, topic_key_of topic_name = some t ∧ m.topic_sub_array.lookup t = some a ∧
        (a.put (m.cnt t) (pack c)).isSome := by
  have hret : ((command (.subscribe topic_name c)).run ctl m).1 = _ :=
    (add_subscriber_outline h topic_name c).result.1
  rw [hret, Directory.exec_subscribe_ret]
  refine ⟨?_, ?_⟩
  · intro hex
    obtain ⟨t, hk, hmem, hroom⟩ := hex
    obtain ⟨a, ha⟩ := Option.isSome_iff_exists.mp
      (BMap.lookup_isSome.mpr ((h.registered t).mpr hmem))
    exact ⟨t, a, hk, ha, (h.put_iff c).mpr hroom⟩
  · intro hex
    obtain ⟨t, a, hk, ha, hput⟩ := hex
    exact ⟨t, hk, (h.registered t).mp (BMap.mem_keys_of_lookup ha), (h.put_iff c).mp hput⟩

end Clone

/-! ### Both brokers -/

/-- **The late error exits are never taken**: after any requests the topic maps
    are nested, and so they stay throughout the next SUBSCRIBE; each of its
    stores to `topic_sub_cnt` and `topic_first_sub` succeeds, and it returns
    an error only when the topic is not there or the inner map refuses the
    client. -/
theorem late_stores_succeed (ord : Hash.HashOrder) (rs : List Request) (name : List UInt8)
    (c : SockAddr) :
    (Hash.Nested (Hash.serve_all ord rs .empty).2 ∧
      (Hash.command (.subscribe name c)).Outline (Hash.ctl ord)
        (fun o m => Hash.Nested m ∧ Hash.Stored ord o m) (fun _ m => Hash.Nested m)
        (Hash.serve_all ord rs .empty).2 ∧
      (((Hash.command (.subscribe name c)).run (Hash.ctl ord)
          (Hash.serve_all ord rs .empty).2).1 = 0 ↔
        ∃ t inner, topic_key_of name = some t ∧
          (Hash.serve_all ord rs .empty).2.inner t = some inner ∧
          (inner.update (pack c) 1).isSome)) ∧
    (Clone.Bounded (Clone.serve_all rs .empty).2 ∧
      (Clone.command (.subscribe name c)).Outline Clone.ctl
        (fun o m => Clone.Bounded m ∧ Clone.Stored o m) (fun _ m => Clone.Bounded m)
        (Clone.serve_all rs .empty).2 ∧
      (((Clone.command (.subscribe name c)).run Clone.ctl (Clone.serve_all rs .empty).2).1 = 0 ↔
        ∃ t a, topic_key_of name = some t ∧
          (Clone.serve_all rs .empty).2.topic_sub_array.lookup t = some a ∧
          (a.put ((Clone.serve_all rs .empty).2.cnt t) (pack c)).isSome)) := by
  have hhash := (Hash.serve_all_refines ord rs).2
  have hclone := (Clone.serve_all_refines rs).2
  exact ⟨⟨hhash.nested, hhash.add_subscriber_stored name c, hhash.add_subscriber_ret name c⟩,
    hclone.bounded, hclone.add_subscriber_stored name c, hclone.add_subscriber_ret name c⟩

end BpfBroker
