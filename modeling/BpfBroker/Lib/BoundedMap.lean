import Mathlib.Data.List.AList

/-! # Bounded Finite Maps

    A finite map that holds at most `cap` keys. Storing under a key that is
    already present always succeeds; storing under a new key fails when the
    map is full, and a failed store returns no map at all, so the caller
    keeps the old one.

    The map is an association list, and `AList` supplies the theory of
    lookup, insertion and removal. This file adds the capacity. -/

/-- A finite map from `K` to `V` with at most `cap` keys. -/
structure BMap (cap : Nat) (K V : Type) where
  /-- The entries, each key once. -/
  map : AList (fun _ : K => V)
  /-- The capacity is respected. -/
  size_le : map.keys.length ≤ cap

namespace BMap

variable {cap : Nat} {K V : Type}

/-! ### Operations -/

/-- The map with no keys. -/
def empty : BMap cap K V := ⟨∅, by simp⟩

/-- The keys, in no particular order. -/
def keys (m : BMap cap K V) : List K := m.map.keys

/-- The number of keys. -/
def size (m : BMap cap K V) : Nat := m.keys.length

theorem keys_nodup (m : BMap cap K V) : m.keys.Nodup := m.map.keys_nodup

theorem size_le_cap (m : BMap cap K V) : m.size ≤ cap := m.size_le

@[simp] theorem keys_empty : (empty : BMap cap K V).keys = [] := rfl

variable [DecidableEq K]

/-- The value stored under `k`, if any. -/
def lookup (m : BMap cap K V) (k : K) : Option V := m.map.lookup k

@[simp] theorem lookup_empty (k : K) : (empty : BMap cap K V).lookup k = none := rfl

theorem lookup_isSome {m : BMap cap K V} {k : K} : (m.lookup k).isSome ↔ k ∈ m.keys :=
  AList.lookup_isSome

theorem lookup_eq_none {m : BMap cap K V} {k : K} : m.lookup k = none ↔ k ∉ m.keys :=
  AList.lookup_eq_none

theorem mem_keys_of_lookup {m : BMap cap K V} {k : K} {v : V} (h : m.lookup k = some v) :
    k ∈ m.keys :=
  lookup_isSome.mp (by rw [h]; rfl)

/-- A key can be stored if it is there already or there is room for it. -/
def fits (m : BMap cap K V) (k : K) : Prop := k ∈ m.keys ∨ m.size < cap

instance (m : BMap cap K V) (k : K) : Decidable (m.fits k) :=
  inferInstanceAs (Decidable (k ∈ m.keys ∨ m.size < cap))

theorem size_insert_le (m : BMap cap K V) {k : K} (v : V) (h : m.fits k) :
    (m.map.insert k v).keys.length ≤ cap := by
  have hle := m.size_le
  rw [AList.keys_insert, List.length_cons]
  rcases h with hmem | hlt
  · have hpos : 0 < m.map.keys.length := List.length_pos_of_mem hmem
    have hlen : (m.map.keys.erase k).length = m.map.keys.length - 1 :=
      List.length_erase_of_mem hmem
    omega
  · have hlt' : m.map.keys.length < cap := hlt
    have hlen : (m.map.keys.erase k).length ≤ m.map.keys.length := List.length_erase_le
    omega

/-- Store `v` under `k`, replacing what was there; `none` when `k` is new
    and the map is full. -/
def update (m : BMap cap K V) (k : K) (v : V) : Option (BMap cap K V) :=
  if h : m.fits k then some ⟨m.map.insert k v, m.size_insert_le v h⟩ else none

/-- The map with one key. -/
def single (hcap : 0 < cap) (k : K) (v : V) : BMap cap K V :=
  ⟨AList.singleton k v, by rw [AList.keys_singleton]; exact hcap⟩

/-- Change the value stored under `k`; nothing happens when there is none. -/
def modify (m : BMap cap K V) (k : K) (f : V → V) : BMap cap K V :=
  match h : m.lookup k with
  | none => m
  | some v => ⟨m.map.insert k (f v), m.size_insert_le (f v) (Or.inl (mem_keys_of_lookup h))⟩

/-- Remove `k`; nothing happens when it is not there. -/
def delete (m : BMap cap K V) (k : K) : BMap cap K V :=
  ⟨m.map.erase k, by
    rw [AList.keys_erase]
    exact Nat.le_trans List.length_erase_le m.size_le⟩

@[simp] theorem lookup_single {hcap : 0 < cap} {k : K} {v : V} :
    (single hcap k v).lookup k = some v := by
  unfold lookup single
  exact AList.mem_lookup_iff.mpr (List.mem_singleton.mpr rfl)

/-! ### Storing -/

theorem update_isSome {m : BMap cap K V} {k : K} {v : V} :
    (m.update k v).isSome ↔ m.fits k := by
  unfold update
  split <;> simp_all

theorem update_eq_none {m : BMap cap K V} {k : K} {v : V} :
    m.update k v = none ↔ ¬ m.fits k := by
  unfold update
  split <;> simp_all

/-- A store succeeds when the key is present or there is room. -/
theorem update_of_fits {m : BMap cap K V} {k : K} (v : V) (h : m.fits k) :
    ∃ m', m.update k v = some m' :=
  Option.isSome_iff_exists.mp (update_isSome.mpr h)

theorem lookup_update {m m' : BMap cap K V} {k : K} {v : V} (h : m.update k v = some m')
    (k' : K) : m'.lookup k' = if k' = k then some v else m.lookup k' := by
  unfold update at h
  split at h
  · cases h
    split
    · next heq => subst heq; exact AList.lookup_insert _
    · next hne => exact AList.lookup_insert_ne hne
  · cases h

theorem mem_keys_update {m m' : BMap cap K V} {k : K} {v : V} (h : m.update k v = some m')
    {k' : K} : k' ∈ m'.keys ↔ k' = k ∨ k' ∈ m.keys := by
  unfold update at h
  split at h
  · cases h
    exact AList.mem_insert m.map
  · cases h

/-! ### Changing in place -/

theorem lookup_modify (m : BMap cap K V) (k : K) (f : V → V) (k' : K) :
    (m.modify k f).lookup k' = if k' = k then (m.lookup k).map f else m.lookup k' := by
  unfold modify
  split
  · next hnone =>
    split
    · next heq => rw [heq, hnone]; rfl
    · rfl
  · next v hsome =>
    split
    · next heq =>
      have hmap : (m.lookup k).map f = some (f v) := by rw [hsome]; rfl
      rw [heq, hmap]
      exact AList.lookup_insert _
    · next hne => exact AList.lookup_insert_ne hne

theorem mem_keys_modify {m : BMap cap K V} {k k' : K} {f : V → V} :
    k' ∈ (m.modify k f).keys ↔ k' ∈ m.keys := by
  rw [← lookup_isSome, ← lookup_isSome, lookup_modify]
  split
  · next heq => rw [heq, Option.isSome_map]
  · rfl

/-! ### Removing -/

theorem lookup_delete (m : BMap cap K V) (k k' : K) :
    (m.delete k).lookup k' = if k' = k then none else m.lookup k' := by
  split
  · next heq => subst heq; exact AList.lookup_erase _ _
  · next hne => exact AList.lookup_erase_ne hne

theorem keys_delete (m : BMap cap K V) (k : K) : (m.delete k).keys = m.keys.erase k :=
  AList.keys_erase k m.map

theorem mem_keys_delete {m : BMap cap K V} {k k' : K} :
    k' ∈ (m.delete k).keys ↔ k' ≠ k ∧ k' ∈ m.keys :=
  AList.mem_erase

/-- Removing a present key makes the map smaller. -/
theorem size_delete_lt {m : BMap cap K V} {k : K} (h : k ∈ m.keys) :
    (m.delete k).size < m.size := by
  have hpos : 0 < m.keys.length := List.length_pos_of_mem h
  have hlen : (m.keys.erase k).length = m.keys.length - 1 := List.length_erase_of_mem h
  unfold size
  rw [keys_delete, hlen]
  omega

/-- If every key of `a` is in a list no longer than its capacity, then a key
    of the list can always be stored in `a`: a full `a` has all of them
    already. -/
theorem fits_of_subset {a : BMap cap K V} {ks : List K} (hlen : ks.length ≤ cap)
    (hsub : ∀ k ∈ a.keys, k ∈ ks) {k : K} (hk : k ∈ ks) : a.fits k := by
  by_cases hmem : k ∈ a.keys
  · exact Or.inl hmem
  · right
    have hsub' : (k :: a.keys).Subperm ks := by
      refine List.subperm_of_subset (List.nodup_cons.mpr ⟨hmem, a.keys_nodup⟩) ?_
      intro x hx
      rcases List.mem_cons.mp hx with rfl | hx
      · exact hk
      · exact hsub x hx
    have hle := hsub'.length_le
    unfold size
    rw [List.length_cons] at hle
    omega

/-- A key of a map with the smaller capacity, whose keys include those of
    `a`. -/
theorem fits_of_keys_subset {cap' : Nat} {W : Type} {a : BMap cap K V} {b : BMap cap' K W}
    (hcap : cap' ≤ cap) (hsub : ∀ k ∈ a.keys, k ∈ b.keys) {k : K} (hk : k ∈ b.keys) :
    a.fits k :=
  fits_of_subset (Nat.le_trans b.size_le_cap hcap) hsub hk

omit [DecidableEq K] in
/-- Maps with the same keys have the same size. -/
theorem size_eq_of_keys {cap' : Nat} {W : Type} {a : BMap cap K V} {b : BMap cap' K W}
    (h : ∀ k, k ∈ a.keys ↔ k ∈ b.keys) : a.size = b.size :=
  ((List.perm_ext_iff_of_nodup a.keys_nodup b.keys_nodup).mpr h).length_eq

omit [DecidableEq K] in
/-- Maps with the same keys and capacity have room for the same keys. -/
theorem fits_congr {W : Type} {a : BMap cap K V} {b : BMap cap K W}
    (h : ∀ k, k ∈ a.keys ↔ k ∈ b.keys) (k : K) : a.fits k ↔ b.fits k := by
  unfold fits
  rw [h k, size_eq_of_keys h]

/-- Storing into maps with the same keys and capacity succeeds or fails
    alike. -/
theorem update_congr {W : Type} {a : BMap cap K V} {b : BMap cap K W}
    (h : ∀ k, k ∈ a.keys ↔ k ∈ b.keys) (k : K) (v : V) (w : W) :
    (a.update k v = none ∧ b.update k w = none) ∨
      ∃ a' b', a.update k v = some a' ∧ b.update k w = some b' := by
  by_cases hfits : a.fits k
  · obtain ⟨a', ha⟩ := update_of_fits v hfits
    obtain ⟨b', hb⟩ := update_of_fits w ((fits_congr h k).mp hfits)
    exact Or.inr ⟨a', b', ha, hb⟩
  · have hb : ¬ b.fits k := fun hb => hfits ((fits_congr h k).mpr hb)
    exact Or.inl ⟨update_eq_none.mpr hfits, update_eq_none.mpr hb⟩

/-- Maps with the same entries have the same keys. -/
theorem mem_keys_congr {a b : BMap cap K V} (h : ∀ k, a.lookup k = b.lookup k) (k : K) :
    k ∈ a.keys ↔ k ∈ b.keys := by
  rw [← lookup_isSome, ← lookup_isSome, h k]

/-- Storing into maps with the same entries leaves the same entries. -/
theorem update_congr_lookup {a b : BMap cap K V} (h : ∀ k, a.lookup k = b.lookup k) (k : K)
    (v : V) :
    (a.update k v = none ∧ b.update k v = none) ∨
      ∃ a' b', a.update k v = some a' ∧ b.update k v = some b' ∧
        ∀ k', a'.lookup k' = b'.lookup k' := by
  rcases update_congr (mem_keys_congr h) k v v with hfull | ⟨a', b', ha, hb⟩
  · exact Or.inl hfull
  · refine Or.inr ⟨a', b', ha, hb, ?_⟩
    intro k'
    rw [lookup_update ha, lookup_update hb, h]

end BMap
