import BpfBroker.Loader.Model

/-! # Starting a Loader

    The calls of `main` come in an order, and what has been done so far says
    what the kernel looks like: first the program pins, then the XDP programs,
    then the pins of the maps, and the programs for TC at last. Whatever call
    fails, and wherever the process is killed, the kernel is at one of these
    stages. When no call fails, `main` reaches its last stage from every state
    of the kernel, also one that an earlier run has left half done. -/

namespace BpfBroker.Loader

open Atomic Prog

/-! ### Stages -/

/-- The programs that are pinned. -/
def pinned (t : Tables) : List String := (t.progs.filter (·.pin)).map (·.name)

/-- What a load has done so far: the programs and maps it has pinned, a path
    where it has removed a pin, the interfaces with its XDP program and those
    with its program for TC, and a qdisc it is about to set up. -/
structure Progress where
  programs : List String := []
  attached : List Nat := []
  maps : List String := []
  gap : Option String := none
  filtered : List Nat := []
  rebuilt : Option (Nat × Option (List Obj)) := none

/-- The filters of an interface that is set up. -/
def filters (t : Tables) (load : Nat) : List Obj := (t.tc.map (Obj.prog load)).toList

/-- The kernel that was `k₀` before the load. -/
def Progress.kernel (p : Progress) (t : Tables) (k₀ : Kernel) : Kernel where
  pins path :=
    if p.gap = some path then none
    else if path ∈ p.maps then some (.map k₀.loads path)
    else if path ∈ p.programs then some (.prog k₀.loads path)
    else k₀.pins path
  xdp ifindex := if ifindex ∈ p.attached then some (.prog k₀.loads xdp_main) else k₀.xdp ifindex
  clsact ifindex :=
    if p.rebuilt.map Prod.fst = some ifindex then p.rebuilt.bind Prod.snd
    else if ifindex ∈ p.filtered then some (filters t k₀.loads)
    else k₀.clsact ifindex
  loads := k₀.loads + 1

section stages
variable (t : Tables) (idxs : List Nat)

abbrev pinningPrograms (done : List String) (gap : Option String) : Progress :=
  { programs := done, gap := gap }

abbrev attachingXdp (done : List Nat) : Progress := { programs := pinned t, attached := done }

abbrev pinningMaps (done : List String) (gap : Option String) : Progress :=
  { programs := pinned t, attached := idxs, maps := done, gap := gap }

abbrev attachingTc (done : List Nat) (rebuilt : Option (Nat × Option (List Obj))) : Progress :=
  { programs := pinned t, attached := idxs, maps := t.maps, filtered := done, rebuilt := rebuilt }

/-- How far a load can have come. -/
inductive Stage : Progress → Prop where
  | programs {done : List String} {gap : Option String} (hdone : done <+: pinned t)
      (hgap : ∀ path, gap = some path → path ∈ pinned t) : Stage (pinningPrograms done gap)
  | xdp {done : List Nat} (hdone : done <+: idxs) : Stage (attachingXdp t done)
  | maps {done : List String} {gap : Option String} (hdone : done <+: t.maps)
      (hgap : ∀ path, gap = some path → done ++ [path] <+: t.maps) :
    Stage (pinningMaps t idxs done gap)
  | tc {done : List Nat} {rebuilt : Option (Nat × Option (List Obj))} (htc : t.tc.isSome)
      (hdone : done <+: idxs)
      (hrebuilt : ∀ i q, rebuilt = some (i, q) → done ++ [i] <+: idxs ∧ (q = none ∨ q = some [])) :
    Stage (attachingTc t idxs done rebuilt)

end stages

/-- What one call of a load that began in `k₀` does to the kernel: the load
    has not begun, it begins, or it goes from a stage to one at which no fewer
    maps are pinned. -/
inductive Moves (t : Tables) (idxs : List Nat) (k₀ : Kernel) : Kernel → Kernel → Prop where
  | before : Moves t idxs k₀ k₀ k₀
  | load {p : Progress} (hp : Stage t idxs p) : Moves t idxs k₀ k₀ (p.kernel t k₀)
  | stage {p p' : Progress} (hp : Stage t idxs p) (hp' : Stage t idxs p')
      (hmaps : p.maps <+: p'.maps) : Moves t idxs k₀ (p.kernel t k₀) (p'.kernel t k₀)

/-- The last stage. -/
def lastStage (t : Tables) (idxs : List Nat) : Progress :=
  if t.tc.isSome then attachingTc t idxs idxs none else pinningMaps t idxs t.maps none

theorem lastStage_stage (t : Tables) (idxs : List Nat) : Stage t idxs (lastStage t idxs) := by
  unfold lastStage
  split
  next htc => exact .tc htc List.prefix_rfl nofun
  next => exact .maps List.prefix_rfl nofun

/-! ### Assertions -/

/-- None of the calls to come fails. -/
def Machine.Faultless (m : Machine) : Prop := ∀ n, m.faults n = false

/-- The kernel is `k`, and if the run is to be clean no call fails. -/
def At (clean : Prop) (k : Kernel) (m : Machine) : Prop := m.kernel = k ∧ (clean → m.Faultless)

section rules
variable {G : Kernel → Kernel → Prop} {clean : Prop}

/-- Every call is within the guarantee `G`. -/
def Along (G : Kernel → Kernel → Prop) : SysOp → Machine → Prop :=
  fun o m => G m.kernel (sys o m).2.kernel

/-- `main` leaves early within the guarantee, and only because a call has
    failed. -/
def Stopped (G : Kernel → Kernel → Prop) (clean : Prop) (e : Exit) (m : Machine) : Prop :=
  G m.kernel m.kernel ∧ ¬ clean ∧ e ≠ .fuel

/-- The outline of a part of `main` that leads from one kernel to another. -/
def Leads (G : Kernel → Kernel → Prop) (clean : Prop) (k k' : Kernel) (p : Phase) : Prop :=
  ∀ m, At clean k m → p.Outline sys (Along G) (OnExit (At clean k') (Stopped G clean)) m

/-- **One call**: it fails and leaves the kernel alone, or it has its effect. -/
theorem Leads.call {o : SysOp} {next : SysSig.Res o → Phase} {k k₁ k' : Kernel} {r : SysSig.Res o}
    (hk : G k k) (hk₁ : G k k₁) (hcall : Kernel.call o k = (r, k₁))
    (hfail : ¬ clean → Leads G clean k k' (next (failure o)))
    (hok : Leads G clean k₁ k' (next r)) : Leads G clean k k' (.op o next) := by
  intro m hm
  obtain ⟨hkernel, hclean⟩ := hm
  rw [outline_op]
  unfold Along sys
  by_cases hfault : m.faults 0 = true
  · have hno : ¬ clean := fun h => by
      rw [hclean h 0] at hfault
      cases hfault
    rw [if_pos hfault]
    refine ⟨?_, hfail hno m.tail ⟨hkernel, fun h => absurd h hno⟩⟩
    rw [← hkernel] at hk
    exact hk
  · rw [if_neg hfault, hkernel, hcall]
    exact ⟨hk₁, hok _ ⟨rfl, fun h n => hclean h (n + 1)⟩⟩

/-- A call that leaves the kernel alone. -/
theorem Leads.look {o : SysOp} {next : SysSig.Res o → Phase} {k k' : Kernel} {r : SysSig.Res o}
    (hk : G k k) (hcall : Kernel.call o k = (r, k))
    (hfail : ¬ clean → Leads G clean k k' (next (failure o)))
    (hok : Leads G clean k k' (next r)) : Leads G clean k k' (.op o next) :=
  Leads.call hk hk hcall hfail hok

theorem Leads.done (k : Kernel) : Leads G clean k k (.ret none) := fun _ hm => hm

theorem Leads.stop {k k' : Kernel} (hk : G k k) (hno : ¬ clean) (status : Int) :
    Leads G clean k k' (leave status) := by
  intro m hm
  refine ⟨?_, hno, Exit.noConfusion⟩
  rw [hm.1]
  exact hk

theorem Leads.andThen {k k' k'' : Kernel} {p q : Phase} (hp : Leads G clean k k' p)
    (hq : Leads G clean k' k'' q) : Leads G clean k k'' (p.andThen q) :=
  fun m hm => outline_andThen (hp m hm) hq

theorem Leads.forEach {α : Type} {f : α → Phase} {l : List α} {k : List α → Kernel}
    (hstep : ∀ done a rest, l = done ++ a :: rest →
      Leads G clean (k done) (k (done ++ [a])) (f a)) :
    Leads G clean (k []) (k l) (forEach f l) :=
  fun _ hm => outline_forEach (fun done => At clean (k done))
    (fun done a rest s hl hs => hstep done a rest hl s hs) hm

theorem leads_check {k : Kernel} (hk : G k k) (c : Check) (status : Int) :
    Leads G clean k k (check c status) :=
  Leads.look hk rfl (fun hno => Leads.stop hk hno status) (Leads.done k)

end rules

/-! ### What each call does at its stage -/

section progress
variable {t : Tables} {k₀ : Kernel} (p : Progress)

/-- A pin is removed. -/
theorem Progress.unpin (hgap : p.gap = none) {path : String}
    (hsome : ((p.kernel t k₀).pins path).isSome) :
    (p.kernel t k₀).unpin path = (true, { p with gap := some path }.kernel t k₀) := by
  unfold Kernel.unpin
  rw [if_pos hsome]
  congr 1
  unfold kernel
  congr 1
  funext q
  by_cases hq : q = path
  · subst hq
    simp
  · simp [hq, Ne.symm hq, hgap]

/-- A pin is in the way. -/
theorem Progress.pin_eexist {path : String} (hsome : ((p.kernel t k₀).pins path).isSome) (o : Obj) :
    (p.kernel t k₀).pin path o = (.eexist, p.kernel t k₀) := if_pos hsome

/-- Nothing is in the way at the path of a gap. -/
theorem Progress.pins_gap {path : String} (hgap : p.gap = some path) :
    ((p.kernel t k₀).pins path).isSome = false := by
  unfold kernel
  simp [hgap]

/-- A map is pinned. -/
theorem Progress.pin_map {path : String} (hnone : ((p.kernel t k₀).pins path).isSome = false)
    (hgap : p.gap = none ∨ p.gap = some path) :
    (p.kernel t k₀).pin path (.map k₀.loads path) =
      (.pinned, { p with maps := p.maps ++ [path], gap := none }.kernel t k₀) := by
  unfold Kernel.pin
  rw [if_neg (by rw [hnone]; exact Bool.false_ne_true)]
  congr 1
  unfold kernel
  congr 1
  funext q
  by_cases hq : q = path
  · subst hq
    simp
  · rcases hgap with hgap | hgap
    · simp [hq, hgap]
    · simp [hq, Ne.symm hq, hgap]

/-- A program is pinned, before any map is. -/
theorem Progress.pin_program {path : String} (hmaps : p.maps = [])
    (hnone : ((p.kernel t k₀).pins path).isSome = false)
    (hgap : p.gap = none ∨ p.gap = some path) :
    (p.kernel t k₀).pin path (.prog k₀.loads path) =
      (.pinned, { p with programs := p.programs ++ [path], gap := none }.kernel t k₀) := by
  unfold Kernel.pin
  rw [if_neg (by rw [hnone]; exact Bool.false_ne_true)]
  congr 1
  unfold kernel
  congr 1
  funext q
  by_cases hq : q = path
  · subst hq
    simp [hmaps]
  · rcases hgap with hgap | hgap
    · simp [hq, hgap]
    · simp [hq, Ne.symm hq, hgap]

/-- An XDP program is attached, whatever was there. -/
theorem Progress.attach (ifindex : Nat) :
    Kernel.call (.xdp_attach ifindex (some (.prog k₀.loads xdp_main))) (p.kernel t k₀) =
      (true, { p with attached := p.attached ++ [ifindex] }.kernel t k₀) := by
  unfold Kernel.call kernel
  dsimp only
  congr 2
  funext i
  by_cases hi : i = ifindex
  · subst hi
    simp
  · simp [hi]

/-- The qdisc of an earlier run goes. -/
theorem Progress.destroy (hrebuilt : p.rebuilt = none) {ifindex : Nat}
    (hsome : ((p.kernel t k₀).clsact ifindex).isSome) :
    Kernel.call (.tc_hook_destroy ifindex) (p.kernel t k₀) =
      (true, { p with rebuilt := some (ifindex, none) }.kernel t k₀) := by
  unfold Kernel.call
  dsimp only
  rw [if_pos hsome]
  congr 1
  unfold kernel
  congr 1
  funext i
  by_cases hi : i = ifindex
  · subst hi
    simp
  · simp [hi, Ne.symm hi, hrebuilt]

/-- There is none. -/
theorem Progress.destroy_none {ifindex : Nat}
    (hnone : ((p.kernel t k₀).clsact ifindex).isSome = false) :
    Kernel.call (.tc_hook_destroy ifindex) (p.kernel t k₀) = (false, p.kernel t k₀) :=
  if_neg (by rw [hnone]; exact Bool.false_ne_true)

/-- An empty qdisc. -/
theorem Progress.create {ifindex : Nat}
    (hnone : ((p.kernel t k₀).clsact ifindex).isSome = false)
    (hrebuilt : p.rebuilt = none ∨ ∃ q, p.rebuilt = some (ifindex, q)) :
    Kernel.call (.tc_hook_create ifindex) (p.kernel t k₀) =
      (true, { p with rebuilt := some (ifindex, some []) }.kernel t k₀) := by
  unfold Kernel.call
  dsimp only
  rw [if_neg (by rw [hnone]; exact Bool.false_ne_true)]
  congr 1
  unfold kernel
  congr 1
  funext i
  by_cases hi : i = ifindex
  · subst hi
    simp
  · rcases hrebuilt with hrebuilt | ⟨q, hrebuilt⟩
    · simp [hi, Ne.symm hi, hrebuilt]
    · simp [hi, Ne.symm hi, hrebuilt]

/-- The qdisc gets its program. -/
theorem Progress.filter {ifindex : Nat} (hrebuilt : p.rebuilt = some (ifindex, some [])) {name : String}
    (htc : t.tc = some name) :
    Kernel.call (.tc_attach ifindex (.prog k₀.loads name)) (p.kernel t k₀) =
      (true, { p with filtered := p.filtered ++ [ifindex], rebuilt := none }.kernel t k₀) := by
  have hempty : (p.kernel t k₀).clsact ifindex = some [] := by
    unfold kernel
    simp [hrebuilt]
  unfold Kernel.call
  dsimp only
  rw [hempty]
  dsimp only
  congr 1
  unfold kernel
  congr 1
  funext i
  by_cases hi : i = ifindex
  · subst hi
    simp [filters, htc]
  · simp [hi, Ne.symm hi, hrebuilt]

end progress

/-! ### The parts of `main` -/

section parts
variable {t : Tables} {idxs : List Nat} {k₀ : Kernel} {clean : Prop}

theorem Stage.stay {p : Progress} (h : Stage t idxs p) :
    Moves t idxs k₀ (p.kernel t k₀) (p.kernel t k₀) := .stage h h List.prefix_rfl

/-- A pin that is in the way is replaced. -/
theorem leads_repin_map {done : List String} {name : String} (hdone : done ++ [name] <+: t.maps)
    (hpin : (((pinningMaps t idxs done none).kernel t k₀).pins name).isSome) :
    Leads (Moves t idxs k₀) clean ((pinningMaps t idxs done none).kernel t k₀)
      ((pinningMaps t idxs (done ++ [name]) none).kernel t k₀) (repin_map k₀.loads name) := by
  have hpre : done <+: t.maps := (List.prefix_append done [name]).trans hdone
  have hstage : Stage t idxs (pinningMaps t idxs done none) := .maps hpre nofun
  have hgap : Stage t idxs (pinningMaps t idxs done (some name)) := by
    refine .maps hpre ?_
    intro path hpath
    cases hpath
    exact hdone
  have hnext : Stage t idxs (pinningMaps t idxs (done ++ [name]) none) := .maps hdone nofun
  refine Leads.call hstage.stay (.stage hstage hgap List.prefix_rfl) (Progress.unpin _ rfl hpin)
    (fun hno => Leads.stop hstage.stay hno _) ?_
  -- the path is free now
  exact Leads.call hgap.stay (.stage hgap hnext (List.prefix_append done [name]))
    (Progress.pin_map _ (Progress.pins_gap _ rfl) (Or.inr rfl))
    (fun hno => Leads.stop hgap.stay hno _) (Leads.done _)

/-- `pin_map`. -/
theorem leads_pin_map {done : List String} {name : String} (hdone : done ++ [name] <+: t.maps) :
    Leads (Moves t idxs k₀) clean ((pinningMaps t idxs done none).kernel t k₀)
      ((pinningMaps t idxs (done ++ [name]) none).kernel t k₀) (pin_map k₀.loads name) := by
  have hstage : Stage t idxs (pinningMaps t idxs done none) :=
    .maps ((List.prefix_append done [name]).trans hdone) nofun
  refine (leads_check hstage.stay _ _).andThen ?_
  cases hpin : (((pinningMaps t idxs done none).kernel t k₀).pins name).isSome with
  | false =>
    have hnext : Stage t idxs (pinningMaps t idxs (done ++ [name]) none) := .maps hdone nofun
    exact Leads.call hstage.stay (.stage hstage hnext (List.prefix_append done [name]))
      (Progress.pin_map _ hpin (Or.inl rfl))
      (fun hno => Leads.stop hstage.stay hno _) (Leads.done _)
  | true =>
    have hrepin : Leads (Moves t idxs k₀) clean _ _ _ := leads_repin_map hdone hpin
    -- whether the old pin can be opened makes no difference
    exact Leads.look hstage.stay (Progress.pin_eexist _ hpin _)
      (fun hno => Leads.stop hstage.stay hno _)
      (Leads.look hstage.stay rfl (fun _ => hrepin) hrepin)

/-- The lines at `retry`: two rounds are enough. -/
theorem leads_pin_program {done : List String} {name : String} (hdone : done ++ [name] <+: pinned t)
    {fuel : Nat} (hfuel : 2 ≤ fuel) :
    Leads (Moves t idxs k₀) clean ((pinningPrograms done none).kernel t k₀)
      ((pinningPrograms (done ++ [name]) none).kernel t k₀) (pin_program k₀.loads name fuel) := by
  obtain ⟨n, rfl⟩ : ∃ n, fuel = n + 1 + 1 := ⟨fuel - 2, by omega⟩
  have hpre : done <+: pinned t := (List.prefix_append done [name]).trans hdone
  have hstage : Stage t idxs (pinningPrograms done none) := .programs hpre nofun
  have hgap : Stage t idxs (pinningPrograms done (some name)) := by
    refine .programs hpre ?_
    intro path hpath
    cases hpath
    exact hdone.subset (List.mem_append_right _ (List.mem_singleton_self _))
  have hnext : Stage t idxs (pinningPrograms (done ++ [name]) none) := .programs hdone nofun
  unfold pin_program
  cases hpin : (((pinningPrograms done none).kernel t k₀).pins name).isSome with
  | false =>
    exact Leads.call hstage.stay (.stage hstage hnext List.prefix_rfl)
      (Progress.pin_program _ rfl hpin (Or.inl rfl))
      (fun hno => Leads.stop hstage.stay hno _) (Leads.done _)
  | true =>
    refine Leads.look hstage.stay (Progress.pin_eexist _ hpin _)
      (fun hno => Leads.stop hstage.stay hno _) ?_
    refine Leads.call hstage.stay (.stage hstage hgap List.prefix_rfl) (Progress.unpin _ rfl hpin)
      (fun hno => Leads.stop hstage.stay hno _) ?_
    -- the path is free in the second round
    show Leads (Moves t idxs k₀) clean _ _ (pin_program k₀.loads name (n + 1))
    unfold pin_program
    exact Leads.call hgap.stay (.stage hgap hnext List.prefix_rfl)
      (Progress.pin_program _ rfl (Progress.pins_gap _ rfl) (Or.inr rfl))
      (fun hno => Leads.stop hgap.stay hno _) (Leads.done _)

/-- A new qdisc where there is none. -/
theorem leads_create_tc {name : String} (htc : t.tc = some name) {done : List Nat} {ifindex : Nat}
    (hdone : done ++ [ifindex] <+: idxs) {rebuilt : Option (Nat × Option (List Obj))}
    (hrebuilt : rebuilt = none ∨ rebuilt = some (ifindex, none))
    (hqdisc : (((attachingTc t idxs done rebuilt).kernel t k₀).clsact ifindex).isSome = false) :
    Leads (Moves t idxs k₀) clean ((attachingTc t idxs done rebuilt).kernel t k₀)
      ((attachingTc t idxs (done ++ [ifindex]) none).kernel t k₀)
      (create_tc k₀.loads name ifindex) := by
  have hpre : done <+: idxs := (List.prefix_append done [ifindex]).trans hdone
  have hsome : t.tc.isSome := by
    rw [htc]
    rfl
  have hstage : Stage t idxs (attachingTc t idxs done rebuilt) := by
    refine .tc hsome hpre ?_
    intro i q heq
    rcases hrebuilt with rfl | rfl
    · cases heq
    · cases heq
      exact ⟨hdone, Or.inl rfl⟩
  have hempty : Stage t idxs (attachingTc t idxs done (some (ifindex, some []))) := by
    refine .tc hsome hpre ?_
    intro i q heq
    cases heq
    exact ⟨hdone, Or.inr rfl⟩
  have hown : rebuilt = none ∨ ∃ q, rebuilt = some (ifindex, q) := by
    rcases hrebuilt with h | h
    · exact Or.inl h
    · exact Or.inr ⟨none, h⟩
  have hnext : Stage t idxs (attachingTc t idxs (done ++ [ifindex]) none) := .tc hsome hdone nofun
  refine Leads.call hstage.stay (.stage hstage hempty List.prefix_rfl)
    (Progress.create _ hqdisc hown)
    (fun hno => Leads.stop hstage.stay hno _) ?_
  exact Leads.call hempty.stay (.stage hempty hnext List.prefix_rfl) (Progress.filter _ rfl htc)
    (fun hno => Leads.stop hempty.stay hno _) (Leads.done _)

/-- One interface gets its qdisc and its program for TC. -/
theorem leads_attach_tc {name : String} (htc : t.tc = some name) {done : List Nat} {ifindex : Nat}
    (hdone : done ++ [ifindex] <+: idxs) :
    Leads (Moves t idxs k₀) clean ((attachingTc t idxs done none).kernel t k₀)
      ((attachingTc t idxs (done ++ [ifindex]) none).kernel t k₀)
      (attach_tc k₀.loads name ifindex) := by
  have hpre : done <+: idxs := (List.prefix_append done [ifindex]).trans hdone
  have hsome : t.tc.isSome := by
    rw [htc]
    rfl
  have hstage : Stage t idxs (attachingTc t idxs done none) := .tc hsome hpre nofun
  unfold attach_tc
  cases hqdisc : (((attachingTc t idxs done none).kernel t k₀).clsact ifindex).isSome with
  | false =>
    have hcreate : Leads (Moves t idxs k₀) clean _ _ _ := leads_create_tc htc hdone (Or.inl rfl) hqdisc
    exact Leads.look hstage.stay (Progress.destroy_none _ hqdisc) (fun _ => hcreate) hcreate
  | true =>
    have hgone : Stage t idxs (attachingTc t idxs done (some (ifindex, none))) := by
      refine .tc hsome hpre ?_
      intro i q heq
      cases heq
      exact ⟨hdone, Or.inl rfl⟩
    refine Leads.call hstage.stay (.stage hstage hgone List.prefix_rfl)
      (Progress.destroy _ rfl hqdisc) ?_ ?_
    · -- the old qdisc stays, and the new one cannot be created
      intro hno
      exact Leads.look hstage.stay (if_pos hqdisc) (fun hno => Leads.stop hstage.stay hno _)
        (Leads.stop hstage.stay hno _)
    · apply leads_create_tc htc hdone (Or.inr rfl)
      unfold Progress.kernel
      simp

theorem leads_index_program {k : Kernel} (hk : Moves t idxs k₀ k k) (desc : ProgDesc) :
    Leads (Moves t idxs k₀) clean k k (index_program desc) := by
  unfold index_program
  cases desc.map_prog_idx with
  | none => exact Leads.done _
  | some index => exact leads_check hk _ _

/-- The loop over `progs`. -/
theorem leads_setup_programs {fuel : Nat} (hfuel : 2 ≤ fuel) :
    Leads (Moves t idxs k₀) clean ((pinningPrograms [] none).kernel t k₀)
      ((pinningPrograms (pinned t) none).kernel t k₀)
      (forEach (setup_program k₀.loads fuel) t.progs) := by
  have hpinned : ∀ done : List ProgDesc, done <+: t.progs →
      (done.filter (·.pin)).map (·.name) <+: pinned t := fun done h => (h.filter _).map _
  refine Leads.forEach (k := fun done : List ProgDesc =>
    (pinningPrograms ((done.filter (·.pin)).map (·.name)) none).kernel t k₀) ?_
  intro done desc rest hsplit
  have hpre : done ++ [desc] <+: t.progs := ⟨rest, by rw [hsplit, List.append_assoc]; rfl⟩
  have hstage : Stage t idxs (pinningPrograms ((done.filter (·.pin)).map (·.name)) none) :=
    .programs (hpinned done ((List.prefix_append done [desc]).trans hpre)) nofun
  refine (leads_check hstage.stay _ _).andThen ?_
  refine (leads_index_program hstage.stay desc).andThen ?_
  have hnext := hpinned _ hpre
  rw [List.filter_append, List.map_append] at hnext ⊢
  cases hpin : desc.pin with
  | false =>
    rw [List.filter_cons_of_neg (by rw [hpin]; exact Bool.false_ne_true), List.filter_nil,
      List.map_nil, List.append_nil]
    exact Leads.done _
  | true =>
    rw [List.filter_cons_of_pos (by exact hpin), List.filter_nil] at hnext ⊢
    exact leads_pin_program hnext hfuel

/-- The loop that attaches the XDP programs. -/
theorem leads_attach_xdp :
    Leads (Moves t idxs k₀) clean ((attachingXdp t []).kernel t k₀) ((attachingXdp t idxs).kernel t k₀)
      (forEach (attach_xdp k₀.loads) idxs) := by
  refine Leads.forEach (k := fun done : List Nat => (attachingXdp t done).kernel t k₀) ?_
  intro done ifindex rest hsplit
  have hstage : Stage t idxs (attachingXdp t done) := .xdp ⟨ifindex :: rest, hsplit.symm⟩
  have hnext : Stage t idxs (attachingXdp t (done ++ [ifindex])) :=
    .xdp ⟨rest, by rw [hsplit, List.append_assoc]; rfl⟩
  exact Leads.call hstage.stay (.stage hstage hnext List.prefix_rfl) (Progress.attach _ ifindex)
    (fun hno => Leads.stop hstage.stay hno _) (Leads.done _)

/-- The loop over `maps`. -/
theorem leads_pin_maps :
    Leads (Moves t idxs k₀) clean ((pinningMaps t idxs [] none).kernel t k₀)
      ((pinningMaps t idxs t.maps none).kernel t k₀) (forEach (pin_map k₀.loads) t.maps) := by
  refine Leads.forEach (k := fun done : List String => (pinningMaps t idxs done none).kernel t k₀) ?_
  intro done name rest hsplit
  exact leads_pin_map ⟨rest, by rw [hsplit, List.append_assoc]; rfl⟩

/-- The loop that attaches the programs for TC. -/
theorem leads_attach_tcs {name : String} (htc : t.tc = some name) :
    Leads (Moves t idxs k₀) clean ((attachingTc t idxs [] none).kernel t k₀)
      ((attachingTc t idxs idxs none).kernel t k₀)
      (forEach (attach_tc k₀.loads name) idxs) := by
  refine Leads.forEach (k := fun done : List Nat => (attachingTc t idxs done none).kernel t k₀) ?_
  intro done ifindex rest hsplit
  exact leads_attach_tc htc ⟨rest, by rw [hsplit, List.append_assoc]; rfl⟩

/-- **Behind the load**, `main` goes through all stages. -/
theorem leads_attach {fuel : Nat} (hfuel : 2 ≤ fuel) :
    Leads (Moves t idxs k₀) clean ((pinningPrograms [] none).kernel t k₀) ((lastStage t idxs).kernel t k₀)
      (attach t k₀.loads fuel idxs) := by
  have hfirst : Stage t idxs (pinningPrograms [] none) := .programs List.nil_prefix nofun
  have hxdp : Stage t idxs (attachingXdp t []) := .xdp List.nil_prefix
  have hmaps : Stage t idxs (pinningMaps t idxs t.maps none) := .maps List.prefix_rfl nofun
  unfold attach
  refine Leads.andThen (Leads.forEach (k := fun _ : List String => (pinningPrograms [] none).kernel t k₀)
    fun _ _ _ _ => leads_check hfirst.stay _ _) ?_
  refine (leads_setup_programs hfuel).andThen ?_
  refine (leads_check hxdp.stay _ _).andThen ?_
  refine leads_attach_xdp.andThen ?_
  refine leads_pin_maps.andThen ?_
  unfold lastStage
  cases htc : t.tc with
  | none => exact Leads.done _
  | some name =>
    refine (leads_check hmaps.stay _ _).andThen ?_
    exact (leads_check hmaps.stay _ _).andThen (leads_attach_tcs htc)

/-- **`main` up to the wait.** -/
theorem leads_start {fuel : Nat} (hfuel : 2 ≤ fuel) :
    Leads (Moves t idxs k₀) clean k₀ ((lastStage t idxs).kernel t k₀) (start t fuel idxs) := by
  have hbefore : Moves t idxs k₀ k₀ k₀ := .before
  have hfirst : Stage t idxs (pinningPrograms [] none) := .programs List.nil_prefix nofun
  have hloaded : { k₀ with loads := k₀.loads + 1 } = (pinningPrograms [] none).kernel t k₀ := by
    unfold Progress.kernel
    simp
  unfold start
  refine (leads_check hbefore _ _).andThen ((leads_check hbefore _ _).andThen ?_)
  refine Leads.andThen (Leads.forEach (k := fun _ : List ProgDesc => k₀)
    fun _ _ _ _ => leads_check hbefore _ _) ?_
  refine Leads.call hbefore (.load hfirst) (Prod.ext rfl hloaded)
    (fun hno => Leads.stop hbefore hno _) ?_
  exact leads_attach hfuel

end parts

end BpfBroker.Loader
