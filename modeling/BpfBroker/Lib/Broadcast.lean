import Mathlib.Data.List.Flatten
import Mathlib.Data.List.Nodup
import Mathlib.Data.List.Perm.Subperm

/-! # Broadcast

    Messages are sent to all members of a group, and each copy arrives once
    or is lost. So a message has come to every member when the number of its
    receipts is that of the members: nothing else can make up the number. -/

namespace Broadcast

variable {M B : Type}

/-- A copy of each message for each member. -/
def copies (members : List M) (msgs : List B) : List (M × B) :=
  msgs.flatMap fun m => members.map fun c => (c, m)

variable {members : List M} {msgs : List B}

theorem mem_copies {c : M} {m : B} : (c, m) ∈ copies members msgs ↔ c ∈ members ∧ m ∈ msgs := by
  unfold copies
  rw [List.mem_flatMap]
  constructor
  · intro h
    obtain ⟨m', hm', hmem⟩ := h
    obtain ⟨c', hc', heq⟩ := List.mem_map.mp hmem
    cases heq
    exact ⟨hc', hm'⟩
  · intro h
    exact ⟨m, h.2, List.mem_map.mpr ⟨c, h.1, rfl⟩⟩

@[simp] theorem length_copies :
    (copies members msgs).length = msgs.length * members.length := by
  unfold copies
  rw [List.length_flatMap]
  simp

theorem nodup_copies (hmembers : members.Nodup) (hmsgs : msgs.Nodup) :
    (copies members msgs).Nodup := by
  unfold copies
  rw [List.nodup_flatMap]
  constructor
  · intro m _
    exact hmembers.map fun c c' h => congrArg Prod.fst h
  · apply hmsgs.imp
    intro m m' hne x hx hx'
    obtain ⟨c, -, rfl⟩ := List.mem_map.mp hx
    obtain ⟨c', -, heq⟩ := List.mem_map.mp hx'
    exact hne (congrArg Prod.snd heq).symm

theorem copies_perm {members' : List M} {msgs' : List B} (h : members.Perm members')
    (hm : msgs.Perm msgs') : (copies members msgs).Perm (copies members' msgs') := by
  unfold copies
  exact (hm.flatMap_right _).trans (List.Perm.flatMap_left _ fun m _ => h.map _)

/-- The copies of messages that come out changed. -/
theorem map_copies {B' : Type} (f : B → B') (members : List M) (msgs : List B) :
    (copies members msgs).map (fun e => (e.1, f e.2)) = copies members (msgs.map f) := by
  unfold copies
  rw [List.map_flatMap, List.flatMap_map]
  congr 1
  funext m
  rw [List.map_map]
  rfl

/-- The copies that are not among the receipts. -/
def missing [DecidableEq M] [DecidableEq B] (members : List M) (msgs : List B)
    (receipts : List (M × B)) : List (M × B) :=
  (copies members msgs).filter fun e => e ∉ receipts

theorem missing_eq_nil_iff [DecidableEq M] [DecidableEq B] {receipts : List (M × B)} :
    missing members msgs receipts = [] ↔ ∀ m ∈ msgs, ∀ c ∈ members, (c, m) ∈ receipts := by
  unfold missing
  rw [List.filter_eq_nil_iff]
  constructor
  · intro h m hm c hc
    have hnot := h (c, m) (mem_copies.mpr ⟨hc, hm⟩)
    rwa [decide_eq_true_eq, not_not] at hnot
  · intro h e he
    obtain ⟨hc, hm⟩ := mem_copies.mp he
    rw [decide_eq_true_eq, not_not]
    exact h e.2 hm e.1 hc

/-- A part of a list in some order, element by element. -/
theorem subperm_map {B' : Type} (f : B → B') {l l' : List B} (h : l.Subperm l') :
    (l.map f).Subperm (l'.map f) := by
  obtain ⟨l₀, hperm, hsub⟩ := h
  exact ⟨l₀.map f, hperm.map f, hsub.map f⟩

/-- Each copy arrives once or is lost. -/
def Received (members : List M) (msgs : List B) (receipts : List (M × B)) : Prop :=
  receipts.Subperm (copies members msgs)

section received
variable {receipts : List (M × B)} (h : Received members msgs receipts)
include h

theorem Received.mem {c : M} {m : B} (hmem : (c, m) ∈ receipts) : c ∈ members ∧ m ∈ msgs :=
  mem_copies.mp (h.subset hmem)

theorem Received.length_le : receipts.length ≤ msgs.length * members.length := by
  rw [← length_copies]
  exact List.Subperm.length_le h

/-- Of more messages, too, each copy arrives once or is lost. -/
theorem Received.mono {msgs' : List B} (hmsgs : msgs.Subperm msgs') :
    Received members msgs' receipts := by
  obtain ⟨l, hperm, hsub⟩ := hmsgs
  have hcopies : (copies members msgs).Subperm (copies members msgs') :=
    ⟨copies members l, copies_perm (List.Perm.refl members) hperm, hsub.flatMap _⟩
  exact List.Subperm.trans h hcopies

/-- **What is missing** makes up the number of the copies. -/
theorem Received.length_add_missing [DecidableEq M] [DecidableEq B] (hmembers : members.Nodup)
    (hmsgs : msgs.Nodup) :
    receipts.length + (missing members msgs receipts).length = msgs.length * members.length := by
  have hcopies := nodup_copies hmembers hmsgs
  have hreceipts : receipts.Nodup := by
    obtain ⟨l, hperm, hsub⟩ := h
    exact hperm.nodup_iff.mp (hsub.nodup hcopies)
  have hthere : ((copies members msgs).filter fun e => e ∈ receipts).Perm receipts := by
    refine (List.perm_ext_iff_of_nodup (hcopies.filter _) hreceipts).mpr ?_
    intro e
    rw [List.mem_filter, decide_eq_true_eq]
    exact ⟨fun hand => hand.2, fun hmem => ⟨h.subset hmem, hmem⟩⟩
  have hsplit := List.length_eq_length_filter_add (l := copies members msgs)
    fun e => decide (e ∈ receipts)
  rw [length_copies, hthere.length_eq] at hsplit
  rw [hsplit]
  unfold missing
  simp only [decide_not]

variable [DecidableEq B]

/-- The members that have received a message are different ones. -/
theorem Received.nodup (hmembers : members.Nodup) (hmsgs : msgs.Nodup) (m : B) :
    ((receipts.filter fun r => r.2 = m).map Prod.fst).Nodup := by
  have hall : receipts.Nodup := by
    obtain ⟨l, hperm, hsub⟩ := h
    exact hperm.nodup_iff.mp (hsub.nodup (nodup_copies hmembers hmsgs))
  refine List.Nodup.map_on ?_ (hall.filter _)
  intro r hr r' hr' heq
  have hsnd := of_decide_eq_true (List.mem_filter.mp hr).2
  have hsnd' := of_decide_eq_true (List.mem_filter.mp hr').2
  exact Prod.ext heq (hsnd.trans hsnd'.symm)

/-- **Complete**: as many receipts as members, exactly when every member has
    the message. -/
theorem Received.complete_iff (hmembers : members.Nodup) (hmsgs : msgs.Nodup) (m : B) :
    (receipts.filter fun r => r.2 = m).length = members.length ↔
      ∀ c ∈ members, (c, m) ∈ receipts := by
  have hmem : ∀ c, c ∈ (receipts.filter fun r => r.2 = m).map Prod.fst ↔ (c, m) ∈ receipts := by
    intro c
    simp
  have hsub : ((receipts.filter fun r => r.2 = m).map Prod.fst).Subperm members := by
    apply (h.nodup hmembers hmsgs m).subperm
    intro c hc
    exact (h.mem ((hmem c).mp hc)).1
  constructor
  · intro hlen c hc
    have hperm := hsub.perm_of_length_le (by rw [List.length_map]; exact Nat.le_of_eq hlen.symm)
    exact (hmem c).mp (hperm.mem_iff.mpr hc)
  · intro hall
    have hle := (hmembers.subperm fun c hc => (hmem c).mpr (hall c hc)).length_le
    have hge := hsub.length_le
    rw [List.length_map] at hle hge
    exact Nat.le_antisymm hge hle

end received

end Broadcast
