import Mathlib.Data.Finset.Dedup
import Mathlib.Data.List.AList

/-! # Tallies

    A finite map that collects something under each key. Recording an element
    changes the value at its own key only, so the values can be followed key
    by key; recording all entries of another map merges the two, in whatever
    order the entries come. -/

namespace Tally

variable {K V E : Type} [DecidableEq K]

/-- Record an element under its key: `slot` makes the new value from the one
    that is there, if any. -/
def record (key : E → K) (slot : Option V → E → V) (m : AList fun _ : K => V) (e : E) :
    AList fun _ : K => V :=
  m.insert (key e) (slot (m.lookup (key e)) e)

section record
variable (key : E → K) (slot : Option V → E → V) (m : AList fun _ : K => V)

theorem lookup_record (e : E) (k : K) :
    (record key slot m e).lookup k =
      if k = key e then some (slot (m.lookup k) e) else m.lookup k := by
  unfold record
  split
  · next heq => rw [heq, AList.lookup_insert]
  · next hne => rw [AList.lookup_insert_ne hne]

end record

/-- Different keys can have values of their own. -/
theorem exists_value {key : E → K} {value : E → V} [Inhabited V] {l : List E}
    (h : (l.map key).Nodup) : ∃ f : K → V, ∀ e ∈ l, f (key e) = value e := by
  induction l with
  | nil => exact ⟨fun _ => default, fun e he => absurd he List.not_mem_nil⟩
  | cons e l ih =>
    rw [List.map_cons, List.nodup_cons] at h
    obtain ⟨f, hf⟩ := ih h.2
    refine ⟨Function.update f (key e) (value e), ?_⟩
    intro e' he'
    rcases List.mem_cons.mp he' with rfl | he'
    · exact Function.update_self _ _ _
    · have hne : key e' ≠ key e := fun heq => h.1 (heq ▸ List.mem_map_of_mem he')
      rw [Function.update_of_ne hne, hf e' he']

/-! ### Merging -/

/-- Recording entries with different keys, one after the other. -/
theorem lookup_foldl_record (slot : Option V → (Σ _ : K, V) → V) {l : List (Σ _ : K, V)}
    (hl : l.NodupKeys) (m : AList fun _ : K => V) (k : K) :
    (l.foldl (record Sigma.fst slot) m).lookup k =
      (l.dlookup k).elim (m.lookup k) fun v => some (slot (m.lookup k) ⟨k, v⟩) := by
  induction l generalizing m with
  | nil => rfl
  | cons e l ih =>
    obtain ⟨a, b⟩ := e
    obtain ⟨hnot, hrest⟩ := List.nodupKeys_cons.mp hl
    rw [List.foldl_cons, ih hrest, lookup_record]
    by_cases hk : k = a
    · -- the key does not come again
      subst hk
      rw [List.dlookup_eq_none.mpr hnot, List.dlookup_cons_eq, if_pos rfl]
      rfl
    · rw [List.dlookup_cons_ne l ⟨a, b⟩ hk, if_neg hk]

/-- **Merging**: every entry of one map recorded in another, in any order. -/
theorem lookup_merge (slot : Option V → (Σ _ : K, V) → V) {m' : AList fun _ : K => V}
    {l : List (Σ _ : K, V)} (hl : l.Perm m'.entries) (m : AList fun _ : K => V) (k : K) :
    (l.foldl (record Sigma.fst slot) m).lookup k =
      (m'.lookup k).elim (m.lookup k) fun v => some (slot (m.lookup k) ⟨k, v⟩) := by
  have hnodup : l.NodupKeys := (List.perm_nodupKeys hl).mpr m'.nodupKeys
  rw [lookup_foldl_record slot hnodup, List.perm_dlookup k hnodup hl]
  rfl

/-- The entries of a map whose values are known. -/
theorem entries_eq {m : AList fun _ : K => V} {s : Finset K} {v : K → V}
    (h : ∀ k, m.lookup k = if k ∈ s then some (v k) else none) :
    (m.entries : Multiset (Σ _ : K, V)) = s.val.map fun k => ⟨k, v k⟩ := by
  have hkeys : (m.keys : Multiset K) = s.val := by
    refine (Multiset.Nodup.ext (Multiset.coe_nodup.mpr m.keys_nodup) s.nodup).mpr ?_
    intro k
    have hmem : k ∈ m.keys ↔ (m.lookup k).isSome := AList.lookup_isSome.symm
    rw [Multiset.mem_coe, hmem, h, Finset.mem_val]
    split
    · simp [*]
    · simp [*]
  have hvalue : ∀ e ∈ m.entries, e = ⟨e.1, v e.1⟩ := by
    intro e he
    have hlook : m.lookup e.1 = some e.2 := List.mem_dlookup m.nodupKeys he
    rw [h] at hlook
    split at hlook
    · rw [Option.some.inj hlook]
    · cases hlook
  calc (m.entries : Multiset (Σ _ : K, V))
      = (m.entries : Multiset (Σ _ : K, V)).map fun e => ⟨e.1, v e.1⟩ := by
        rw [Multiset.map_congr rfl fun e he => (hvalue e he).symm, Multiset.map_id']
    _ = ((m.keys : Multiset K)).map fun k => ⟨k, v k⟩ := by
        unfold AList.keys List.keys
        rw [← Multiset.map_coe, Multiset.map_map]
        rfl
    _ = s.val.map fun k => ⟨k, v k⟩ := by rw [hkeys]

end Tally
