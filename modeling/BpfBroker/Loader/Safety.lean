import BpfBroker.Loader.Start

/-! # What Holds While a Loader Starts

    A maintainer relies on the order of the steps of `main`. A map is pinned
    only when the new XDP program runs on every interface, so whoever opens
    the new pin serves the frames that come in; the maps are pinned in the
    order of their table; the program for TC, which forwards, runs only when
    all pins are new. This holds at every call, so also of what a process
    leaves behind that is killed, or that gives up because a call has failed.
    There is no such leftover that the next start does not replace. -/

namespace BpfBroker.Loader

open Atomic Prog

/-! ### Order -/

def Obj.load : Obj → Nat
  | .map load _ => load
  | .prog load _ => load

/-- Every object in use comes from an earlier load. -/
structure Kernel.Past (k : Kernel) : Prop where
  pins : ∀ path o, k.pins path = some o → o.load < k.loads
  xdp : ∀ i o, k.xdp i = some o → o.load < k.loads
  clsact : ∀ i q, k.clsact i = some q → ∀ o ∈ q, o.load < k.loads

/-- No path comes twice in the tables. -/
structure Tables.Distinct (t : Tables) : Prop where
  nodup : t.maps.Nodup
  disjoint : ∀ path ∈ t.maps, path ∉ pinned t

theorem hash_tables_distinct : hash_tables.Distinct := ⟨by decide, by decide⟩

theorem clone_tables_distinct : clone_tables.Distinct := ⟨by decide, by decide⟩

/-- What is in front of a pinned map is pinned. -/
theorem subset_of_mem_prefix {α : Type} {l done xs zs : List α} {y : α} (hl : l.Nodup)
    (hdone : done <+: l) (hsplit : l = xs ++ y :: zs) (hy : y ∈ done) : xs ⊆ done := by
  have hxs : xs <+: l := ⟨y :: zs, hsplit.symm⟩
  rcases List.prefix_or_prefix_of_prefix hxs hdone with h | h
  · exact h.subset
  · rw [hsplit] at hl
    exact absurd rfl ((List.nodup_append.1 hl).2.2 y (h.subset hy) y List.mem_cons_self)

theorem not_mem_of_prefix {α : Type} {l done : List α} {a : α} (hl : l.Nodup) (h : done ++ [a] <+: l) :
    a ∉ done := by
  intro ha
  exact (List.nodup_append.1 (hl.sublist h.sublist)).2.2 a ha a List.mem_cons_self rfl

/-- The new map is pinned. -/
def MapPinned (k₀ k : Kernel) (name : String) : Prop := k.pins name = some (.map k₀.loads name)

/-- The new XDP program runs on all interfaces. -/
def AllAttached (idxs : List Nat) (k₀ k : Kernel) : Prop :=
  ∀ i ∈ idxs, k.xdp i = some (.prog k₀.loads xdp_main)

/-- The kernel `k` while a load is under way that began in `k₀`. -/
structure Orderly (t : Tables) (idxs : List Nat) (k₀ k : Kernel) : Prop where
  other_pins : ∀ path, path ∉ t.maps → path ∉ pinned t → k.pins path = k₀.pins path
  other_interfaces : ∀ i, i ∉ idxs → k.xdp i = k₀.xdp i ∧ k.clsact i = k₀.clsact i
  maps : ∀ path ∈ t.maps,
    k.pins path = k₀.pins path ∨ k.pins path = none ∨ MapPinned k₀ k path
  xdp : ∀ i, k.xdp i = k₀.xdp i ∨ k.xdp i = some (.prog k₀.loads xdp_main)
  map_order : ∀ done name rest, t.maps = done ++ name :: rest → MapPinned k₀ k name →
    AllAttached idxs k₀ k ∧ ∀ path ∈ done, MapPinned k₀ k path
  tc_order : ∀ i q o, k.clsact i = some q → o ∈ q → o.load = k₀.loads →
    AllAttached idxs k₀ k ∧ (∀ path ∈ t.maps, MapPinned k₀ k path) ∧ q = filters t k₀.loads

section orderly
variable {t : Tables} {idxs : List Nat} {k₀ : Kernel} (hpast : k₀.Past)
include hpast

theorem not_mapPinned_before (name : String) : ¬ MapPinned k₀ k₀ name := by
  intro h
  exact Nat.lt_irrefl _ (hpast.pins name _ h)

theorem no_filter_before {i : Nat} {q : List Obj} {o : Obj} (hq : k₀.clsact i = some q) (ho : o ∈ q) :
    o.load ≠ k₀.loads := Nat.ne_of_lt (hpast.clsact i q hq o ho)

/-- Before the load. -/
theorem Orderly.before : Orderly t idxs k₀ k₀ where
  other_pins _ _ _ := rfl
  other_interfaces _ _ := ⟨rfl, rfl⟩
  maps _ _ := Or.inl rfl
  xdp _ := Or.inl rfl
  map_order _ name _ _ h := absurd h (not_mapPinned_before hpast name)
  tc_order _ _ _ hq ho hload := absurd hload (no_filter_before hpast hq ho)

/-- The maps that are pinned are those that a stage counts. -/
theorem Progress.mapPinned_iff {p : Progress} {path : String}
    (hgap : p.gap = some path → path ∉ p.maps) :
    MapPinned k₀ (p.kernel t k₀) path ↔ path ∈ p.maps := by
  have hpins : (p.kernel t k₀).pins path =
      if p.gap = some path then none
      else if path ∈ p.maps then some (.map k₀.loads path)
      else if path ∈ p.programs then some (.prog k₀.loads path)
      else k₀.pins path := rfl
  unfold MapPinned
  rw [hpins]
  by_cases hdone : path ∈ p.maps
  · rw [if_neg fun h => hgap h hdone, if_pos hdone]
    exact iff_of_true rfl hdone
  · rw [if_neg hdone]
    refine iff_of_false ?_ hdone
    intro h
    split at h
    · cases h
    · split at h
      · cases h
      · exact not_mapPinned_before hpast path h

/-- The pins while the programs are pinned, or the XDP programs attached. -/
theorem Orderly.early {p : Progress} (hmaps : p.maps = []) (hfiltered : p.filtered = [])
    (hrebuilt : p.rebuilt = none) (hprograms : ∀ path ∈ p.programs, path ∈ pinned t)
    (hgap : ∀ path, p.gap = some path → path ∈ pinned t) (hattached : ∀ i ∈ p.attached, i ∈ idxs)
    (ht : t.Distinct) : Orderly t idxs k₀ (p.kernel t k₀) := by
  have hpins : ∀ path, path ∉ pinned t → (p.kernel t k₀).pins path = k₀.pins path := by
    intro path hpath
    have hno : p.gap ≠ some path := fun h => hpath (hgap path h)
    have hno' : path ∉ p.programs := fun h => hpath (hprograms path h)
    unfold Progress.kernel
    simp [hmaps, hno, hno']
  have hclsact : ∀ i, (p.kernel t k₀).clsact i = k₀.clsact i := by
    intro i
    unfold Progress.kernel
    simp [hfiltered, hrebuilt]
  have hxdp : ∀ i, (p.kernel t k₀).xdp i =
      if i ∈ p.attached then some (.prog k₀.loads xdp_main) else k₀.xdp i := fun _ => rfl
  constructor
  · intro path _ hpath
    exact hpins path hpath
  · intro i hi
    rw [hxdp, if_neg fun h => hi (hattached i h)]
    exact ⟨rfl, hclsact i⟩
  · intro path hpath
    exact Or.inl (hpins path (ht.disjoint path hpath))
  · intro i
    rw [hxdp]
    split
    · exact Or.inr rfl
    · exact Or.inl rfl
  · intro done name rest hsplit hname
    have hmem : name ∈ t.maps := by
      rw [hsplit]
      exact List.mem_append_right _ List.mem_cons_self
    unfold MapPinned at hname
    rw [hpins name (ht.disjoint name hmem)] at hname
    exact absurd hname (not_mapPinned_before hpast name)
  · intro i q o hq ho hload
    rw [hclsact] at hq
    exact absurd hload (no_filter_before hpast hq ho)

/-- While the maps are pinned, and behind that. -/
theorem Orderly.late {p : Progress} (hprograms : p.programs = pinned t) (hattached : p.attached = idxs)
    (hmaps : p.maps <+: t.maps)
    (hgap : ∀ path, p.gap = some path → path ∈ t.maps ∧ path ∉ p.maps)
    (hfiltered : ∀ i ∈ p.filtered, i ∈ idxs)
    (hrebuilt : ∀ i q, p.rebuilt = some (i, q) → i ∈ idxs ∧ (q = none ∨ q = some []))
    (hlast : p.filtered = [] ∨ p.maps = t.maps ∧ p.gap = none) (ht : t.Distinct) :
    Orderly t idxs k₀ (p.kernel t k₀) := by
  have hattachedAll : AllAttached idxs k₀ (p.kernel t k₀) := by
    intro i hi
    exact if_pos (hattached ▸ hi)
  have hpins : ∀ path, (p.kernel t k₀).pins path =
      if p.gap = some path then none
      else if path ∈ p.maps then some (.map k₀.loads path)
      else if path ∈ p.programs then some (.prog k₀.loads path)
      else k₀.pins path := fun _ => rfl
  have hname : ∀ path ∈ t.maps, path ∉ p.programs := by
    rw [hprograms]
    exact ht.disjoint
  have hpinned : ∀ path, MapPinned k₀ (p.kernel t k₀) path ↔ path ∈ p.maps :=
    fun path => Progress.mapPinned_iff hpast fun h => (hgap path h).2
  constructor
  · intro path hpath hpath'
    have hno : p.gap ≠ some path := fun h => hpath (hgap path h).1
    have hno' : path ∉ p.maps := fun h => hpath (hmaps.subset h)
    rw [hpins, if_neg hno, if_neg hno', if_neg (by rw [hprograms]; exact hpath')]
  · intro i hi
    have hno : p.rebuilt.map Prod.fst ≠ some i := by
      intro h
      obtain ⟨⟨j, q⟩, hq, rfl⟩ := Option.map_eq_some_iff.1 h
      exact hi (hrebuilt j q hq).1
    exact ⟨if_neg (hattached ▸ hi), (if_neg hno).trans (if_neg fun h => hi (hfiltered i h))⟩
  · intro path hpath
    by_cases hdone : path ∈ p.maps
    · exact Or.inr (Or.inr ((hpinned path).2 hdone))
    · rw [hpins, if_neg hdone, if_neg (hname path hpath)]
      split
      · exact Or.inr (Or.inl rfl)
      · exact Or.inl rfl
  · intro i
    show (if i ∈ p.attached then _ else _) = _ ∨ (if i ∈ p.attached then _ else _) = _
    split
    · exact Or.inr rfl
    · exact Or.inl rfl
  · intro done name rest hsplit hmapped
    have hfront : done ⊆ p.maps := subset_of_mem_prefix ht.nodup hmaps hsplit ((hpinned name).1 hmapped)
    exact ⟨hattachedAll, fun path hpath => (hpinned path).2 (hfront hpath)⟩
  · intro i q o hq ho hload
    have hclsact : (p.kernel t k₀).clsact i =
        if p.rebuilt.map Prod.fst = some i then p.rebuilt.bind Prod.snd
        else if i ∈ p.filtered then some (filters t k₀.loads)
        else k₀.clsact i := rfl
    rw [hclsact] at hq
    split at hq
    · -- a qdisc that is being set up has no filter yet
      obtain ⟨⟨j, q'⟩, hj, hq'⟩ := Option.bind_eq_some_iff.1 hq
      rcases (hrebuilt j q' hj).2 with rfl | rfl
      · cases hq'
      · cases hq'
        cases ho
    · split at hq
      next hi =>
        cases hq
        rcases hlast with hnone | ⟨hall, -⟩
        · rw [hnone] at hi
          cases hi
        · exact ⟨hattachedAll, fun path hpath => (hpinned path).2 (hall ▸ hpath), rfl⟩
      next => exact absurd hload (no_filter_before hpast hq ho)

/-- **Every stage is orderly.** -/
theorem Stage.orderly (ht : t.Distinct) {p : Progress} (h : Stage t idxs p) :
    Orderly t idxs k₀ (p.kernel t k₀) := by
  cases h with
  | programs hdone hgap =>
    exact Orderly.early hpast rfl rfl rfl (fun path h => hdone.subset h) hgap nofun ht
  | xdp hdone =>
    exact Orderly.early hpast rfl rfl rfl (fun path h => h) nofun (fun i h => hdone.subset h) ht
  | @maps done gap hdone hgap =>
    refine Orderly.late hpast rfl rfl hdone ?_ nofun nofun (Or.inl rfl) ht
    intro path hpath
    have hnext : done ++ [path] <+: t.maps := hgap path hpath
    exact ⟨hnext.subset (List.mem_append_right _ List.mem_cons_self), not_mem_of_prefix ht.nodup hnext⟩
  | @tc done rebuilt htc hdone hrebuilt =>
    refine Orderly.late hpast rfl rfl List.prefix_rfl nofun (fun i h => hdone.subset h) ?_
      (Or.inr ⟨rfl, rfl⟩) ht
    intro i q hq
    obtain ⟨hnext, hq'⟩ := hrebuilt i q hq
    exact ⟨hnext.subset (List.mem_append_right _ List.mem_cons_self), hq'⟩

/-- At every stage, what is in use comes from this load or an earlier one. -/
theorem Stage.past {p : Progress} (h : Stage t idxs p) : (p.kernel t k₀).Past := by
  have hloads : (p.kernel t k₀).loads = k₀.loads + 1 := rfl
  constructor
  · intro path o ho
    rw [hloads]
    unfold Progress.kernel at ho
    dsimp only at ho
    split at ho
    · cases ho
    · split at ho
      · cases ho
        exact Nat.lt_succ_self _
      · split at ho
        · cases ho
          exact Nat.lt_succ_self _
        · exact Nat.lt_succ_of_lt (hpast.pins path o ho)
  · intro i o ho
    rw [hloads]
    unfold Progress.kernel at ho
    dsimp only at ho
    split at ho
    · cases ho
      exact Nat.lt_succ_self _
    · exact Nat.lt_succ_of_lt (hpast.xdp i o ho)
  · intro i q hq o ho
    rw [hloads]
    unfold Progress.kernel at hq
    dsimp only at hq
    split at hq
    · -- a qdisc that is being set up is empty
      have hempty : ∀ j q', p.rebuilt = some (j, some q') → q' = [] := by
        intro j q' hj
        cases h with
        | programs => cases hj
        | xdp => cases hj
        | maps => cases hj
        | tc htc hdone hrebuilt =>
          rcases (hrebuilt j _ hj).2 with h | h
          · cases h
          · exact Option.some.inj h
      obtain ⟨⟨j, q'⟩, hj, rfl⟩ := Option.bind_eq_some_iff.1 hq
      rw [hempty j q hj] at ho
      cases ho
    · split at hq
      · cases hq
        unfold filters at ho
        obtain ⟨name, -, rfl⟩ := Option.map_eq_some_iff.1 (Option.mem_toList.1 ho)
        exact Nat.lt_succ_self _
      · exact Nat.lt_succ_of_lt (hpast.clsact i q hq o ho)

/-- Both ends of a call are orderly. -/
theorem Moves.orderly (ht : t.Distinct) {k k' : Kernel} (h : Moves t idxs k₀ k k') :
    Orderly t idxs k₀ k ∧ Orderly t idxs k₀ k' := by
  cases h with
  | before => exact ⟨.before hpast, .before hpast⟩
  | load hp => exact ⟨.before hpast, hp.orderly hpast ht⟩
  | stage hp hp' => exact ⟨hp.orderly hpast ht, hp'.orderly hpast ht⟩

end orderly

/-! ### The start -/

/-- What a load leaves when it is done. -/
structure Ready (t : Tables) (idxs : List Nat) (k₀ k : Kernel) : Prop where
  xdp : ∀ i, k.xdp i = if i ∈ idxs then some (.prog k₀.loads xdp_main) else k₀.xdp i
  pins : ∀ path, k.pins path =
    if path ∈ t.maps then some (.map k₀.loads path)
    else if path ∈ pinned t then some (.prog k₀.loads path)
    else k₀.pins path
  clsact : ∀ i, k.clsact i =
    if t.tc.isSome ∧ i ∈ idxs then some (filters t k₀.loads) else k₀.clsact i
  loads : k.loads = k₀.loads + 1

theorem lastStage_ready (t : Tables) (idxs : List Nat) (k₀ : Kernel) :
    Ready t idxs k₀ ((lastStage t idxs).kernel t k₀) := by
  unfold lastStage
  split
  next htc =>
    refine ⟨fun _ => rfl, fun _ => rfl, fun i => ?_, rfl⟩
    simp only [htc, true_and]
    rfl
  next htc =>
    refine ⟨fun _ => rfl, fun _ => rfl, fun i => ?_, rfl⟩
    rw [if_neg fun h => htc h.1]
    rfl

/-- **Starting works from every state of the kernel.** `main` never hangs at
    `goto retry`; it gives up only when a call fails; and when it does not
    give up, the XDP programs on its interfaces and its pins are new, so are
    the filters if there is a program for TC, and nothing else is touched:
    without such a program, filters of others stay. -/
theorem start_ready {fuel : Nat} (hfuel : 2 ≤ fuel) (t : Tables) (idxs : List Nat) (m : Machine) :
    ((start t fuel idxs).run sys m).1 ≠ some .fuel ∧
    (m.Faultless → ((start t fuel idxs).run sys m).1 = none) ∧
    (((start t fuel idxs).run sys m).1 = none →
      Ready t idxs m.kernel ((start t fuel idxs).run sys m).2.kernel) := by
  have hleads : Leads (Moves t idxs m.kernel) m.Faultless _ _ (start t fuel idxs) := leads_start hfuel
  have hexit := Outline.result (hleads m ⟨rfl, id⟩)
  cases hr : ((start t fuel idxs).run sys m).1 with
  | none =>
    rw [hr] at hexit
    refine ⟨nofun, fun _ => rfl, fun _ => ?_⟩
    rw [hexit.1]
    exact lastStage_ready t idxs m.kernel
  | some e =>
    rw [hr] at hexit
    refine ⟨fun h => hexit.2.2 (Option.some.inj h), fun h => absurd h hexit.2.1, ?_⟩
    intro h
    cases h

/-- A kernel without pins and programs. -/
def boot : Kernel where
  pins := fun _ => none
  xdp := fun _ => none
  clsact := fun _ => none
  loads := 0

theorem boot_past : boot.Past := ⟨nofun, nofun, nofun⟩

theorem start_ready_sample :
    Ready hash_tables [3] boot ((start hash_tables 2 [3]).run sys ⟨boot, fun _ => false⟩).2.kernel := by
  obtain ⟨-, hend, hready⟩ :=
    start_ready (Nat.le_refl 2) hash_tables [3] ⟨boot, fun _ => false⟩
  exact hready (hend fun _ => rfl)

/-- **The order of the start** holds in front of each call, whichever calls
    fail, and when `main` gives up. -/
theorem start_orderly {t : Tables} (ht : t.Distinct) {fuel : Nat} (hfuel : 2 ≤ fuel) (idxs : List Nat)
    {m : Machine} (hpast : m.kernel.Past) :
    (start t fuel idxs).Outline sys (fun _ m' => Orderly t idxs m.kernel m'.kernel)
      (fun _ m' => Orderly t idxs m.kernel m'.kernel) m := by
  have hleads : Leads (Moves t idxs m.kernel) False _ _ (start t fuel idxs) := leads_start hfuel
  refine (hleads m ⟨rfl, False.elim⟩).mono ?_ ?_
  · intro o m' hmoves
    exact (Moves.orderly hpast ht hmoves).1
  · intro r m' hexit
    cases r with
    | none =>
      rw [hexit.1]
      exact (lastStage_stage t idxs).orderly hpast ht
    | some e => exact (Moves.orderly hpast ht hexit.1).1

/-- The process runs out of memory for the hooks. -/
theorem start_orderly_sample :
    (start hash_tables 2 [3]).Outline sys (fun _ m => Orderly hash_tables [3] boot m.kernel)
      (fun _ m => Orderly hash_tables [3] boot m.kernel) ⟨boot, fun n => n = 20⟩ :=
  start_orderly (m := ⟨boot, fun n => n = 20⟩) hash_tables_distinct (Nat.le_refl 2) [3] boot_past

end BpfBroker.Loader
