import BpfBroker.Lib.System
import BpfBroker.Loader.Process

/-! # From the Loader to the Control Process

    The control process finds the maps by their pins. It opens them one after
    the other, while a loader may be replacing them one after the other. Both
    go through the table in the same order, so neither order of the calls
    makes this safe: the control process may overtake the loader, and the
    loader the control process.

    What is safe is to wait for the last pin of the table. A control process
    that starts then gets all its maps from the newest load, whatever becomes
    of the loader, until another load begins. -/

namespace BpfBroker.Loader

open Atomic Prog LTS

/-- The maps that `main` of `bpf_broker/bpf_broker_proto.c` opens. -/
def hash_opens : List String := ["topic_subscribe", "topic_sub_cnt", "topic_first_sub"]

/-- The maps that `main` of `bpf_broker_xdp/bpf_broker_proto.c` opens. -/
def clone_opens : List String := ["topic_sub_array", "topic_sub_cnt"]

/-- One of the two brokers on a machine. -/
structure Site where
  tables : Tables
  opens : List String
  if_nametoindex : List Char → Nat
  fuel : Nat

structure Site.Valid (s : Site) : Prop where
  distinct : s.tables.Distinct
  opens : s.opens ⊆ s.tables.maps
  fuel : 2 ≤ s.fuel

/-- A control process that has not yet opened all its maps, or has. -/
structure Control where
  todo : List String
  fds : List Obj

/-- The kernel and the processes: one loader at most, and control processes. -/
structure World where
  kernel : Kernel
  loader : Option Phase
  controls : Nat → Option Control

inductive Label where
  | loader_start (args : List (List Char))
  | loader_call (fails : Bool)
  /-- It returns from `main`, or is killed. -/
  | loader_end
  | control_start (i : Nat)
  | control_open (i : Nat) (fails : Bool)
  | control_end (i : Nat)

/-- A call of the loader. -/
def World.call (w : World) (o : SysOp) (next : SysSig.Res o → Phase) (fails : Bool) : World :=
  if fails then { w with loader := some (next (failure o)) }
  else
    { w with
      kernel := (Kernel.call o w.kernel).2
      loader := some (next (Kernel.call o w.kernel).1) }

def World.setControl (w : World) (i : Nat) (c : Option Control) : World :=
  { w with controls := Function.update w.controls i c }

/-- `bpf_obj_get` on the next pin; the process exits when it fails. -/
def Control.obj_get (c : Control) (k : Kernel) (fails : Bool) : Option (Option Control) :=
  match c.todo with
  | [] => none
  | name :: todo =>
    if fails then some none
    else
      match k.pins name with
      | none => some none
      | some o => some (some { todo := todo, fds := c.fds ++ [o] })

def World.next (s : Site) (w : World) : Label → Option World
  | .loader_start args =>
    match w.loader with
    | some _ => none
    | none => some { w with loader := some (main s.tables s.if_nametoindex s.fuel args) }
  | .loader_call fails =>
    match w.loader with
    | some (.op o next) => some (w.call o next fails)
    | _ => none
  | .loader_end => some { w with loader := none }
  | .control_start i =>
    match w.controls i with
    | some _ => none
    | none => some (w.setControl i (some { todo := s.opens, fds := [] }))
  | .control_open i fails =>
    match w.controls i with
    | none => none
    | some c => (c.obj_get w.kernel fails).map (w.setControl i)
  | .control_end i => some (w.setControl i none)

/-- Nothing runs, and nothing in use comes from the load before the first. -/
structure World.Initial (w : World) : Prop where
  past : w.kernel.Past
  newest : ∀ path, ¬ w.kernel.Newest path
  loader : w.loader = none
  controls : ∀ i, w.controls i = none

def Site.system (s : Site) : System World Label where
  init := World.Initial
  step w l w' := w.next s l = some w'

/-! ### The invariant of the kernel -/

/-- What is left of the loader keeps its guarantee from here on. -/
def Keeping (t : Tables) (k : Kernel) (p : Phase) : Prop :=
  ∀ faults, p.Outline sys (Along (Guarantee t)) (fun _ _ => True) ⟨k, faults⟩

/-- The state of the loader and the kernel. -/
structure World.Sound (s : Site) (w : World) : Prop where
  kernel : w.kernel.Sound s.tables
  loader : ∀ p, w.loader = some p → Keeping s.tables w.kernel p

theorem World.Initial.sound {s : Site} {w : World} (h : w.Initial) : w.Sound s where
  kernel := ⟨h.past, fun _ name _ _ hname => absurd hname (h.newest name)⟩
  loader p hp := by
    rw [h.loader] at hp
    cases hp

section step
variable {s : Site} {w w' : World} {l : Label}

theorem Guarantee.refl {t : Tables} {k : Kernel} (hk : k.Sound t) : Guarantee t k k :=
  ⟨hk, Nat.le_refl _, fun _ _ h => h⟩

theorem keeping_main (hs : s.Valid) (hw : w.kernel.Sound s.tables) (args : List (List Char)) :
    Keeping s.tables w.kernel (main s.tables s.if_nametoindex s.fuel args) := by
  intro faults
  exact (guaranteed_main hs.distinct hs.fuel s.if_nametoindex args ⟨w.kernel, faults⟩ hw).mono
    (fun _ _ h => h) (fun _ _ _ => trivial)

/-- A call of the loader keeps the guarantee, failing or not. -/
theorem World.Sound.call (hw : w.Sound s) {o : SysOp} {next : SysSig.Res o → Phase}
    (hloader : w.loader = some (.op o next)) (fails : Bool) :
    (w.call o next fails).Sound s ∧
    Guarantee s.tables w.kernel (w.call o next fails).kernel := by
  have hkeep : Keeping s.tables w.kernel (.op o next) := hw.loader _ hloader
  unfold World.call
  cases fails with
  | true =>
    refine ⟨⟨hw.kernel, ?_⟩, Guarantee.refl hw.kernel⟩
    intro p hp
    cases hp
    intro faults
    exact (hkeep fun n => n.casesOn true faults).2
  | false =>
    have hguarantee : Guarantee s.tables w.kernel (Kernel.call o w.kernel).2 :=
      (hkeep fun _ => false).1
    refine ⟨⟨hguarantee.sound, ?_⟩, hguarantee⟩
    intro p hp
    cases hp
    intro faults
    exact (hkeep fun n => n.casesOn false faults).2

/-- **One step** of any process. -/
theorem World.Sound.next (hs : s.Valid) (hw : w.Sound s) (hstep : w.next s l = some w') :
    w'.Sound s ∧ Guarantee s.tables w.kernel w'.kernel := by
  have hsame : ∀ i c, (w.setControl i c).Sound s ∧
      Guarantee s.tables w.kernel (w.setControl i c).kernel :=
    fun i c => ⟨⟨hw.kernel, hw.loader⟩, Guarantee.refl hw.kernel⟩
  unfold World.next at hstep
  cases l with
  | loader_start args =>
    dsimp only at hstep
    split at hstep
    · cases hstep
    · cases hstep
      refine ⟨⟨hw.kernel, ?_⟩, Guarantee.refl hw.kernel⟩
      intro p hp
      cases hp
      exact keeping_main hs hw.kernel args
  | loader_call fails =>
    dsimp only at hstep
    split at hstep
    next o next hloader =>
      cases hstep
      exact hw.call hloader fails
    next => cases hstep
  | loader_end =>
    cases hstep
    exact ⟨⟨hw.kernel, nofun⟩, Guarantee.refl hw.kernel⟩
  | control_start i =>
    dsimp only at hstep
    split at hstep
    · cases hstep
    · cases hstep
      exact hsame _ _
  | control_open i fails =>
    dsimp only at hstep
    split at hstep
    · cases hstep
    · obtain ⟨c, -, rfl⟩ := Option.map_eq_some_iff.1 hstep
      exact hsame _ _
  | control_end i =>
    cases hstep
    exact hsame _ _

/-- What a step does to the control process `i`: nothing, or it starts, or it
    gets its next map, or it is gone. -/
theorem next_control (hstep : w.next s l = some w') {i : Nat} {c' : Control}
    (hc' : w'.controls i = some c') :
    w.controls i = some c' ∨ c' = { todo := s.opens, fds := [] } ∨
    ∃ name todo fds o, w.controls i = some { todo := name :: todo, fds := fds } ∧
      w.kernel.pins name = some o ∧ c' = { todo := todo, fds := fds ++ [o] } := by
  -- a step of the control process `j`
  have hset : ∀ j c, (w.setControl j c).controls i = some c' →
      (j = i ∧ c = some c') ∨ w.controls i = some c' := by
    intro j c h
    by_cases hj : i = j
    · subst hj
      exact Or.inl ⟨rfl, by simpa [World.setControl] using h⟩
    · exact Or.inr (by simpa [World.setControl, hj] using h)
  unfold World.next at hstep
  cases l with
  | loader_start args =>
    dsimp only at hstep
    split at hstep
    · cases hstep
    · cases hstep
      exact Or.inl hc'
  | loader_call fails =>
    dsimp only at hstep
    split at hstep
    next o next hloader =>
      cases hstep
      unfold World.call at hc'
      split at hc'
      · exact Or.inl hc'
      · exact Or.inl hc'
    next => cases hstep
  | loader_end =>
    cases hstep
    exact Or.inl hc'
  | control_start j =>
    dsimp only at hstep
    split at hstep
    · cases hstep
    · cases hstep
      rcases hset j _ hc' with ⟨-, hnew⟩ | hsame
      · exact Or.inr (Or.inl (Option.some.inj hnew).symm)
      · exact Or.inl hsame
  | control_open j fails =>
    dsimp only at hstep
    split at hstep
    · cases hstep
    next c hc =>
      obtain ⟨c'', hopen, rfl⟩ := Option.map_eq_some_iff.1 hstep
      rcases hset j _ hc' with ⟨rfl, rfl⟩ | hsame
      · obtain ⟨todo, fds⟩ := c
        unfold Control.obj_get at hopen
        cases todo with
        | nil => cases hopen
        | cons name todo =>
          dsimp only at hopen
          split at hopen
          · cases hopen
          · split at hopen
            · cases hopen
            next o hpin =>
              cases hopen
              exact Or.inr (Or.inr ⟨name, todo, fds, o, hc, hpin, rfl⟩)
      · exact Or.inl hsame
  | control_end j =>
    cases hstep
    rcases hset j _ hc' with ⟨-, hnone⟩ | hsame
    · cases hnone
    · exact Or.inl hsame

end step

/-! ### Opening the maps -/

/-- The control process has got the maps of one load, in its order. -/
def Control.OpenedFrom (s : Site) (load : Nat) (c : Control) : Prop :=
  ∃ opened, s.opens = opened ++ c.todo ∧ c.fds = opened.map (Obj.map load)

/-- All pins are of the newest load, and the control process `i` has got
    nothing else. -/
structure Handed (s : Site) (load i : Nat) (w : World) : Prop where
  loads : w.kernel.loads = load + 1
  newest : ∀ path ∈ s.tables.maps, w.kernel.Newest path
  opened : ∀ c, w.controls i = some c → c.OpenedFrom s load

/-- A step keeps this, unless it begins a load. -/
theorem Handed.next {s : Site} {load i : Nat} {w w' : World} {l : Label} (hs : s.Valid)
    (hsound : w.Sound s) (h : Handed s load i w) (hstep : w.next s l = some w')
    (hsame : w'.kernel.loads = w.kernel.loads) : Handed s load i w' where
  loads := hsame.trans h.loads
  newest path hpath := (hsound.next hs hstep).2.keeps hsame path (h.newest path hpath)
  opened c hc := by
    rcases next_control hstep hc with hold | rfl | ⟨name, todo, fds, o, hold, hpin, rfl⟩
    · exact h.opened c hold
    · exact ⟨[], rfl, rfl⟩
    · obtain ⟨opened, htodo, hfds⟩ := h.opened _ hold
      have hmem : name ∈ s.tables.maps := by
        refine hs.opens ?_
        rw [htodo]
        exact List.mem_append_right _ List.mem_cons_self
      obtain ⟨load', hload', hnew⟩ := h.newest name hmem
      obtain rfl : load = load' := Nat.succ.inj (h.loads.symm.trans hload')
      rw [hnew] at hpin
      cases hpin
      refine ⟨opened ++ [name], ?_, ?_⟩
      · rw [htodo, List.append_cons]
      · show fds ++ [Obj.map load name] = (opened ++ [name]).map (Obj.map load)
        rw [List.map_append, ← hfds]
        rfl

/-! ### Runs -/

section runs
variable {s : Site} (hs : s.Valid) (r : Run s.system)
include hs

theorem sound_run {n : Nat} (hn : n ≤ r.len) : (r.states n).Sound s :=
  r.invariant (P := fun _ w => w.Sound s) (fun _ hw => hw.sound)
    (fun _ _ hw hstep => (hw.next hs hstep).1) n hn

/-- No load is undone. -/
theorem loads_mono {a b : Nat} (hab : a ≤ b) (hb : b ≤ r.len) :
    (r.states a).kernel.loads ≤ (r.states b).kernel.loads := by
  refine r.invariant_from (P := fun _ w => (r.states a).kernel.loads ≤ w.kernel.loads) hb
    (Nat.le_refl _) ?_ b hab (Nat.le_refl b)
  intro n _ hn hle hstep
  exact Nat.le_trans hle ((sound_run hs r (Nat.le_of_lt (Nat.lt_of_lt_of_le hn hb))).next hs hstep).2.loads

/-- **The handover**, in any interleaving: from when the last pin of the table
    is new until the next load begins, a control process that starts gets
    nothing but the maps of the newest load, in its order. -/
theorem opens_newest {a b : Nat} (hab : a ≤ b) (hb : b ≤ r.len) {load : Nat}
    (hload : (r.states a).kernel.loads = load + 1) {front : List String} {last : String}
    (hlast : s.tables.maps = front ++ [last])
    (hpinned : (r.states a).kernel.pins last = some (.map load last))
    (hsame : (r.states b).kernel.loads = (r.states a).kernel.loads)
    {i : Nat} (hidle : (r.states a).controls i = none) {c : Control}
    (hc : (r.states b).controls i = some c) :
    ∃ opened, s.opens = opened ++ c.todo ∧ c.fds = opened.map (Obj.map load) := by
  have hnew : (r.states a).kernel.Newest last := ⟨load, hload, hpinned⟩
  have hstart : Handed s load i (r.states a) := by
    refine ⟨hload, ?_, ?_⟩
    · intro path hpath
      rw [hlast] at hpath
      rcases List.mem_append.1 hpath with hfront | hpath
      · exact (sound_run hs r (Nat.le_trans hab hb)).kernel.order front last [] hlast hnew path hfront
      · obtain rfl := List.mem_singleton.1 hpath
        exact hnew
    · intro c hc
      rw [hidle] at hc
      cases hc
  -- between `a` and `b` no load begins
  have hbetween : ∀ n, a ≤ n → n ≤ b → (r.states n).kernel.loads = load + 1 := by
    intro n han hnb
    have hle := loads_mono hs r han (Nat.le_trans hnb hb)
    have hge := loads_mono hs r hnb hb
    omega
  have hhanded := r.invariant_from (P := fun _ w => Handed s load i w) hb hstart
    (fun n han hnb h hstep => h.next hs (sound_run hs r (Nat.le_of_lt (Nat.lt_of_lt_of_le hnb hb))) hstep
      ((hbetween (n + 1) (Nat.le_succ_of_le han) hnb).trans
        (hbetween n han (Nat.le_of_lt hnb)).symm)) b hab (Nat.le_refl b)
  exact hhanded.opened c hc

end runs

/-- A machine with the clone broker. -/
def clone_site : Site where
  tables := clone_tables
  opens := clone_opens
  if_nametoindex := fun _ => 0
  fuel := 2

/-- Nothing has run. -/
def powered_on : World where
  kernel := boot
  loader := none
  controls := fun _ => none

/-- A loader for the interface 3 makes its calls. -/
def clone_start (calls : Nat) : List Label :=
  .loader_start [['3']] :: List.replicate calls (.loader_call false)

/-- A control process starts when the loader waits for a signal. -/
def clone_handover : List Label :=
  clone_start 14 ++ [.control_start 0, .control_open 0 false, .control_open 0 false]

instance : Inhabited Label := ⟨.loader_end⟩

def clone_labelled : Run (ofNext (World.next clone_site) powered_on) :=
  Run.ofLabels (World.next clone_site) powered_on clone_handover (by decide)

def clone_run : Run clone_site.system where
  len := clone_labelled.len
  states := clone_labelled.states
  labels := clone_labelled.labels
  init :=
    { past := boot_past
      newest := fun path h => by
        obtain ⟨load, hload, -⟩ := h
        cases hload
      loader := rfl
      controls := fun _ => rfl }
  step := clone_labelled.step

theorem clone_site_valid : clone_site.Valid :=
  ⟨clone_tables_distinct, by decide, Nat.le_refl 2⟩

/-- A machine with the hash broker. -/
def hash_site : Site where
  tables := hash_tables
  opens := hash_opens
  if_nametoindex := fun _ => 0
  fuel := 2

theorem hash_site_valid : hash_site.Valid :=
  ⟨hash_tables_distinct, by decide, Nat.le_refl 2⟩

theorem opens_newest_sample :
    ∃ opened, clone_opens = opened ++ [] ∧
      [Obj.map 0 "topic_sub_array", Obj.map 0 "topic_sub_cnt"] = opened.map (Obj.map 0) :=
  opens_newest clone_site_valid clone_run (a := 15) (b := 18) (by decide) (by decide)
    rfl (show clone_tables.maps = ["topic_sub_array", "topic_sub_cnt"] ++ ["pub_counter_2"] from rfl)
    rfl rfl (i := 0) rfl
    (c := ⟨[], [.map 0 "topic_sub_array", .map 0 "topic_sub_cnt"]⟩) rfl

/-- With the hash broker, too, a control process that waits gets its three maps
    from the loader's load. -/
example :
    ((exec (World.next hash_site) powered_on <|
      .loader_start [['3']] :: List.replicate 26 (.loader_call false) ++ .control_start 0 ::
        List.replicate 3 (.control_open 0 false)).bind
      fun w => (w.controls 0).map Control.fds) =
    some [.map 0 "topic_subscribe", .map 0 "topic_sub_cnt", .map 0 "topic_first_sub"] := by rfl

/-- A control process that does not wait for the second load ends up with maps
    of both. -/
example :
    ((exec (World.next clone_site) powered_on <|
      clone_start 14 ++ .loader_end :: clone_start 8 ++ [.control_start 0, .control_open 0 false] ++
        List.replicate 10 (.loader_call false) ++ [.control_open 0 false]).bind
      fun w => (w.controls 0).map Control.fds) =
    some [.map 0 "topic_sub_array", .map 1 "topic_sub_cnt"] := by rfl

end BpfBroker.Loader
