import BpfBroker.Loader.Safety

/-! # The Loader as a Process

    `main` as a whole, whatever its arguments are and whichever of its calls
    fail. It ends with an exit status, and when nothing goes wrong it leaves
    its interfaces as if no program had ever been there; only the pins stay.

    Other processes see the pins. To them `main` gives a guarantee: the pins
    of the newest load are made in the order of the table, and such a pin
    stays until the next load. -/

namespace BpfBroker.Loader

open Atomic Prog

/-! ### Pins of the newest load -/

/-- The pin of a map of the newest load. -/
def Kernel.Newest (k : Kernel) (path : String) : Prop :=
  ∃ load, k.loads = load + 1 ∧ k.pins path = some (.map load path)

/-- The state of the kernel between any two calls. -/
structure Kernel.Sound (t : Tables) (k : Kernel) : Prop where
  past : k.Past
  order : ∀ done name rest, t.maps = done ++ name :: rest → k.Newest name →
    ∀ path ∈ done, k.Newest path

/-- What one call may do to the kernel. -/
structure Guarantee (t : Tables) (k k' : Kernel) : Prop where
  sound : k'.Sound t
  loads : k.loads ≤ k'.loads
  keeps : k'.loads = k.loads → ∀ path, k.Newest path → k'.Newest path

theorem Kernel.Newest.congr {k k' : Kernel} {path : String} (h : k.Newest path)
    (hpins : k'.pins = k.pins) (hloads : k'.loads = k.loads) : k'.Newest path := by
  obtain ⟨load, hload, hpin⟩ := h
  exact ⟨load, hloads.trans hload, by rw [hpins]; exact hpin⟩

section moves
variable {t : Tables} {idxs : List Nat} {k₀ : Kernel} {p : Progress}

theorem Stage.gap_not_mem (ht : t.Distinct) (h : Stage t idxs p) {path : String}
    (hgap : p.gap = some path) : path ∉ p.maps := by
  cases h with
  | programs => exact List.not_mem_nil
  | xdp => cases hgap
  | maps hdone hnext => exact not_mem_of_prefix ht.nodup (hnext path hgap)
  | tc => cases hgap

theorem Stage.maps_prefix (h : Stage t idxs p) : p.maps <+: t.maps := by
  cases h with
  | programs => exact List.nil_prefix
  | xdp => exact List.nil_prefix
  | maps hdone => exact hdone
  | tc => exact List.prefix_rfl

theorem Stage.newest_iff (ht : t.Distinct) (hpast : k₀.Past) (h : Stage t idxs p) {path : String} :
    (p.kernel t k₀).Newest path ↔ path ∈ p.maps := by
  rw [← Progress.mapPinned_iff hpast (h.gap_not_mem ht)]
  constructor
  · intro hnew
    obtain ⟨load, hload, hpin⟩ := hnew
    obtain rfl : k₀.loads = load := Nat.succ.inj hload
    exact hpin
  · intro hpin
    exact ⟨k₀.loads, rfl, hpin⟩

theorem Stage.sound (ht : t.Distinct) (hpast : k₀.Past) (h : Stage t idxs p) :
    (p.kernel t k₀).Sound t where
  past := h.past hpast
  order done name rest hsplit hname path hpath := by
    rw [h.newest_iff ht hpast] at hname ⊢
    exact subset_of_mem_prefix ht.nodup h.maps_prefix hsplit hname hpath

/-- **The guarantee of the start.** -/
theorem Moves.guarantee (ht : t.Distinct) (hk₀ : k₀.Sound t) {k k' : Kernel}
    (h : Moves t idxs k₀ k k') : Guarantee t k k' := by
  cases h with
  | before => exact ⟨hk₀, Nat.le_refl _, fun _ _ h => h⟩
  | load hp =>
    exact ⟨hp.sound ht hk₀.past, Nat.le_succ _, fun h => absurd h (Nat.succ_ne_self _)⟩
  | stage hp hp' hmaps =>
    refine ⟨hp'.sound ht hk₀.past, Nat.le_refl _, fun _ path hnew => ?_⟩
    rw [hp.newest_iff ht hk₀.past] at hnew
    rw [hp'.newest_iff ht hk₀.past]
    exact hmaps.subset hnew

end moves

/-! ### Waiting and taking down -/

/-- The calls behind the start. -/
def Closing : SysOp → Prop
  | .check _ => True
  | .xdp_attach _ none => True
  | .tc_hook_destroy _ => True
  | .sigwait => True
  | _ => False

theorem check_closing (c : Check) (status : Int) : (check c status).AllOps Closing := by
  refine ⟨trivial, fun ok => ?_⟩
  cases (show Bool from ok) with
  | true => trivial
  | false => trivial

theorem detach_closing (t : Tables) (ifindex : Nat) : (detach t ifindex).AllOps Closing := by
  unfold detach
  cases t.tc with
  | none => exact ⟨trivial, fun _ => trivial⟩
  | some name => exact ⟨trivial, fun _ => ⟨trivial, fun _ => trivial⟩⟩

theorem teardown_closing (t : Tables) (idxs : List Nat) : (teardown t idxs).AllOps Closing :=
  allOps_forEach (detach_closing t) idxs

theorem wait_closing (t : Tables) (idxs : List Nat) : (wait t idxs).AllOps Closing := by
  refine (check_closing _ _).andThen ⟨trivial, fun ok => ?_⟩
  cases (show Bool from ok) with
  | true => exact (teardown_closing t idxs).andThen trivial
  | false => trivial

/-- Such a call leaves the pins alone, and puts nothing anywhere. -/
theorem Closing.call {o : SysOp} (ho : Closing o) (k : Kernel) :
    (Kernel.call o k).2.pins = k.pins ∧ (Kernel.call o k).2.loads = k.loads ∧
    (k.Past → (Kernel.call o k).2.Past) := by
  cases o with
  | check c => exact ⟨rfl, rfl, id⟩
  | sigwait => exact ⟨rfl, rfl, id⟩
  | xdp_attach ifindex prog =>
    cases prog with
    | some o => exact ho.elim
    | none =>
      refine ⟨rfl, rfl, fun h => ⟨h.pins, fun i o hi => ?_, h.clsact⟩⟩
      by_cases hif : i = ifindex
      · subst hif
        simp [Kernel.call] at hi
      · simp only [Kernel.call, Function.update_of_ne hif] at hi
        exact h.xdp i o hi
  | tc_hook_destroy ifindex =>
    unfold Kernel.call
    dsimp only
    split
    · refine ⟨rfl, rfl, fun h => ⟨h.pins, h.xdp, fun i q hi => ?_⟩⟩
      by_cases hif : i = ifindex
      · subst hif
        simp at hi
      · simp only [Function.update_of_ne hif] at hi
        exact h.clsact i q hi
    · exact ⟨rfl, rfl, id⟩
  | _ => exact ho.elim

/-- **The guarantee behind the start.** -/
theorem Closing.guarantee {t : Tables} {o : SysOp} (ho : Closing o) {m : Machine}
    (hm : m.kernel.Sound t) : Guarantee t m.kernel (sys o m).2.kernel := by
  unfold sys
  split
  · exact ⟨hm, Nat.le_refl _, fun _ _ h => h⟩
  · obtain ⟨hpins, hloads, hpast⟩ := ho.call m.kernel
    refine ⟨⟨hpast hm.past, ?_⟩, Nat.le_of_eq hloads.symm, fun _ path h => h.congr hpins hloads⟩
    intro done name rest hsplit hname path hpath
    exact (hm.order done name rest hsplit (hname.congr hpins.symm hloads.symm) path hpath).congr
      hpins hloads

/-! ### The whole run -/

section main
variable {t : Tables} {fuel : Nat}

/-- `main`, whatever comes of its parts. -/
theorem main_phases {P : Phase → Prop} (t : Tables) (names : List Char → Nat) (fuel : Nat)
    (args : List (List Char)) (hleave : P (leave 1)) (hstop : P ((check .calloc 1).andThen (leave 1)))
    (hrun : ∀ idxs, P ((check .calloc 1).andThen ((start t fuel idxs).andThen (wait t idxs)))) :
    P (main t names fuel args) := by
  unfold main
  split
  · exact hleave
  · split
    · exact hstop
    · exact hrun _

/-- The guarantee holds for all calls of a part of `main`. -/
def Guaranteed (t : Tables) (p : Phase) : Prop :=
  ∀ m, m.kernel.Sound t → p.Outline sys (Along (Guarantee t))
    (OnExit (fun m' => m'.kernel.Sound t) (fun _ m' => m'.kernel.Sound t)) m

theorem Guaranteed.andThen {p q : Phase} (hp : Guaranteed t p) (hq : Guaranteed t q) :
    Guaranteed t (p.andThen q) := fun m hm => outline_andThen (hp m hm) hq

theorem guaranteed_closing {p : Phase} (hp : p.AllOps Closing) : Guaranteed t p := by
  intro m hm
  have hkeep : ∀ o, Closing o → ∀ m : Machine, m.kernel.Sound t → (sys o m).2.kernel.Sound t :=
    fun o ho m hm => (ho.guarantee hm).sound
  refine (hp.outline hkeep hm).mono ?_ ?_
  · intro o m' h
    exact h.1.guarantee h.2
  · intro r m' h
    cases r with
    | none => exact h
    | some e => exact h

theorem guaranteed_start (ht : t.Distinct) (hfuel : 2 ≤ fuel) (idxs : List Nat) :
    Guaranteed t (start t fuel idxs) := by
  intro m hm
  have hleads : Leads (Moves t idxs m.kernel) False _ _ (start t fuel idxs) := leads_start hfuel
  refine (hleads m ⟨rfl, False.elim⟩).mono ?_ ?_
  · intro o m' h
    exact Moves.guarantee ht hm h
  · intro r m' h
    cases r with
    | none =>
      obtain ⟨hkernel, -⟩ := h
      show m'.kernel.Sound t
      rw [hkernel]
      exact (lastStage_stage t idxs).sound ht hm.past
    | some e => exact (Moves.guarantee ht hm h.1).sound

/-- **The guarantee of `main`.** -/
theorem guaranteed_main (ht : t.Distinct) (hfuel : 2 ≤ fuel) (names : List Char → Nat)
    (args : List (List Char)) : Guaranteed t (main t names fuel args) := by
  have hcalloc : Guaranteed t (check .calloc 1) := guaranteed_closing (check_closing _ _)
  have hleave : Guaranteed t (leave 1) := fun _ hm => hm
  refine main_phases t names fuel args hleave (hcalloc.andThen hleave) ?_
  intro idxs
  exact hcalloc.andThen ((guaranteed_start ht hfuel idxs).andThen
    (guaranteed_closing (wait_closing t idxs)))

/-- The process ends with an exit status. -/
def Exits (p : Phase) : Prop := ∀ m, ∃ status, (p.run sys m).1 = some (.code status)

/-- It does not hang. -/
def Runs (p : Phase) : Prop := ∀ m, (p.run sys m).1 ≠ some .fuel

theorem Runs.and_exits {p q : Phase} (hp : Runs p) (hq : Exits q) : Exits (p.andThen q) := by
  intro m
  rw [run_andThen]
  have hrun := hp m
  generalize p.run sys m = out at hrun ⊢
  obtain ⟨r, m'⟩ := out
  cases r with
  | none => exact hq m'
  | some e =>
    cases e with
    | code status => exact ⟨status, rfl⟩
    | fuel => exact absurd rfl hrun

theorem Runs.andThen {p q : Phase} (hp : Runs p) (hq : Runs q) : Runs (p.andThen q) := by
  intro m
  rw [run_andThen]
  have hrun := hp m
  generalize p.run sys m = out at hrun ⊢
  obtain ⟨r, m'⟩ := out
  cases r with
  | none => exact hq m'
  | some e => exact hrun

theorem runs_done : Runs (.ret none) := fun _ => nofun

theorem exits_leave (status : Int) : Exits (leave status) := fun _ => ⟨status, rfl⟩

theorem runs_check (c : Check) (status : Int) : Runs (check c status) := by
  intro m
  show ((if (sys (.check c) m).1 then .ret none else leave status : Phase).run sys _).1 ≠ _
  split
  · nofun
  · nofun

theorem runs_start (hfuel : 2 ≤ fuel) (idxs : List Nat) : Runs (start t fuel idxs) :=
  fun m => (start_ready hfuel t idxs m).1

theorem runs_detach (t : Tables) (ifindex : Nat) : Runs (detach t ifindex) := by
  intro m
  unfold detach
  cases t.tc with
  | none => nofun
  | some name => nofun

theorem runs_teardown (t : Tables) (idxs : List Nat) : Runs (teardown t idxs) := by
  unfold teardown
  induction idxs with
  | nil => exact runs_done
  | cons i idxs ih => exact (runs_detach t i).andThen ih

theorem exits_wait (t : Tables) (idxs : List Nat) : Exits (wait t idxs) := by
  refine (runs_check _ _).and_exits ?_
  intro m
  show ∃ status, ((if !(sys .sigwait m).1 then leave 1
    else (teardown t idxs).andThen (leave 0) : Phase).run sys _).1 = _
  split
  · exact ⟨1, rfl⟩
  · exact (runs_teardown t idxs).and_exits (exits_leave 0) _

theorem exits_main (hfuel : 2 ≤ fuel) (names : List Char → Nat) (args : List (List Char)) :
    Exits (main t names fuel args) := by
  have hcalloc : Runs (check .calloc 1) := runs_check _ _
  refine main_phases t names fuel args (exits_leave 1) (hcalloc.and_exits (exits_leave 1)) ?_
  intro idxs
  exact hcalloc.and_exits ((runs_start hfuel idxs).and_exits (exits_wait t idxs))

end main

/-! ### A run in which no call fails -/

section clean
variable {t : Tables} {fuel : Nat} {k : Kernel}

/-- The kernel while it is taken down. -/
def takenDown (t : Tables) (done : List Nat) (k : Kernel) : Kernel :=
  { k with
    xdp := fun i => if i ∈ done then none else k.xdp i
    clsact := fun i => if t.tc.isSome ∧ i ∈ done then none else k.clsact i }

/-- Any calls at all. -/
abbrev Anything : Kernel → Kernel → Prop := fun _ _ => True

theorem leads_detach (done : List Nat) (ifindex : Nat) :
    Leads Anything True (takenDown t done k) (takenDown t (done ++ [ifindex]) k) (detach t ifindex) := by
  have hxdp : ∀ clsact : Nat → Option (List Obj),
      (∀ i, clsact i = if t.tc.isSome ∧ i ∈ done ++ [ifindex] then none else k.clsact i) →
      Leads Anything True { takenDown t done k with clsact := clsact }
        (takenDown t (done ++ [ifindex]) k)
        (.op (.xdp_attach ifindex none) fun _ => .ret none) := by
    intro clsact hclsact
    have hcall : Kernel.call (.xdp_attach ifindex none) { takenDown t done k with clsact := clsact } =
        (true, takenDown t (done ++ [ifindex]) k) := by
      unfold Kernel.call takenDown
      dsimp only
      rw [funext hclsact]
      congr 2
      funext i
      by_cases hi : i = ifindex
      · subst hi
        simp
      · simp [hi]
    exact Leads.call trivial trivial hcall (fun hno => absurd trivial hno) (Leads.done _)
  unfold detach
  cases htc : t.tc with
  | none =>
    refine hxdp (takenDown t done k).clsact fun i => ?_
    unfold takenDown
    simp [htc]
  | some name =>
    dsimp only
    cases hqdisc : ((takenDown t done k).clsact ifindex).isSome with
    | true =>
      refine Leads.call trivial trivial (if_pos hqdisc) (fun hno => absurd trivial hno) (hxdp _ ?_)
      intro i
      unfold takenDown
      by_cases hi : i = ifindex
      · subst hi
        simp [htc]
      · simp [hi, htc]
    | false =>
      refine Leads.look trivial (if_neg (by rw [hqdisc]; exact Bool.false_ne_true))
        (fun hno => absurd trivial hno) (hxdp (takenDown t done k).clsact ?_)
      intro i
      by_cases hi : i = ifindex
      · subst hi
        rw [if_pos (by simp [htc])]
        exact Option.isNone_iff_eq_none.1 (Option.isSome_eq_false_iff.1 hqdisc)
      · unfold takenDown
        simp [hi, htc]

theorem leads_teardown (idxs : List Nat) :
    Leads Anything True k (takenDown t idxs k) (teardown t idxs) := by
  have hstart : takenDown t [] k = k := by
    unfold takenDown
    simp
  have hloop : Leads Anything True (takenDown t [] k) (takenDown t idxs k) (teardown t idxs) :=
    Leads.forEach (k := fun done : List Nat => takenDown t done k) fun done i _ _ => leads_detach done i
  rw [hstart] at hloop
  exact hloop

/-- The process ends with status 0. -/
def Ends (k k' : Kernel) (p : Phase) : Prop :=
  ∀ m, At True k m → (p.run sys m).1 = some (.code 0) ∧ (p.run sys m).2.kernel = k'

theorem Leads.ends {G : Kernel → Kernel → Prop} {k₁ k' : Kernel} {p q : Phase}
    (hp : Leads G True k k₁ p) (hq : Ends k₁ k' q) : Ends k k' (p.andThen q) := by
  intro m hm
  rw [run_andThen]
  have hexit := Outline.result (hp m hm)
  generalize p.run sys m = out at hexit ⊢
  obtain ⟨r, m'⟩ := out
  cases r with
  | none => exact hq m' hexit
  | some e => exact absurd trivial hexit.2.1

theorem ends_leave (k : Kernel) : Ends k k (leave 0) := fun _ hm => ⟨rfl, hm.1⟩

theorem ends_wait (idxs : List Nat) : Ends k (takenDown t idxs k) (wait t idxs) := by
  refine Leads.ends (leads_check (G := Anything) trivial _ _) ?_
  intro m hm
  obtain ⟨hkernel, hclean⟩ := hm
  have hcall : sys .sigwait m = (true, m.tail) := by
    unfold sys
    rw [hclean trivial 0]
    rfl
  rw [run_op, hcall]
  exact (leads_teardown idxs).ends (ends_leave _) m.tail
    ⟨hkernel, fun h n => hclean h (n + 1)⟩

/-- What a run leaves that has been ended by a signal. -/
structure Down (t : Tables) (idxs : List Nat) (k₀ k : Kernel) : Prop where
  xdp : ∀ i, k.xdp i = if i ∈ idxs then none else k₀.xdp i
  clsact : ∀ i, k.clsact i = if t.tc.isSome ∧ i ∈ idxs then none else k₀.clsact i
  pins : ∀ path, k.pins path =
    if path ∈ t.maps then some (.map k₀.loads path)
    else if path ∈ pinned t then some (.prog k₀.loads path)
    else k₀.pins path
  loads : k.loads = k₀.loads + 1

theorem Ready.down {idxs : List Nat} {k₀ : Kernel} (h : Ready t idxs k₀ k) :
    Down t idxs k₀ (takenDown t idxs k) where
  xdp i := by
    show (if i ∈ idxs then none else k.xdp i) = _
    rw [h.xdp]
    split <;> rfl
  clsact i := by
    show (if t.tc.isSome ∧ i ∈ idxs then none else k.clsact i) = _
    rw [h.clsact]
    split <;> rfl
  pins := h.pins
  loads := h.loads

end clean

/-- **The process ends**, with an exit status in any case. If no call fails and
    all interfaces are found, the status is 0, and the XDP programs on the
    interfaces are gone, also those of others. So are the qdiscs if there is a
    program for TC; otherwise they stay. The pins of the load stay. -/
theorem main_ends {fuel : Nat} (hfuel : 2 ≤ fuel) (t : Tables) (names : List Char → Nat)
    (args : List (List Char)) (m : Machine) :
    (∃ status, ((main t names fuel args).run sys m).1 = some (.code status)) ∧
    ∀ idxs, m.Faultless → args ≠ [] → args.mapM (resolve_interface names) = some idxs →
      ((main t names fuel args).run sys m).1 = some (.code 0) ∧
      Down t idxs m.kernel ((main t names fuel args).run sys m).2.kernel := by
  refine ⟨exits_main hfuel names args m, ?_⟩
  intro idxs hm hargs hidxs
  have hstart : Leads (Moves t idxs m.kernel) True _ _ (start t fuel idxs) := leads_start hfuel
  have hmain : Ends m.kernel (takenDown t idxs ((lastStage t idxs).kernel t m.kernel))
      (main t names fuel args) := by
    unfold main
    rw [if_neg hargs, hidxs]
    exact Leads.ends (leads_check (G := Anything) trivial _ _) (hstart.ends (ends_wait idxs))
  obtain ⟨hcode, hkernel⟩ := hmain m ⟨rfl, fun _ => hm⟩
  refine ⟨hcode, ?_⟩
  rw [hkernel]
  exact (lastStage_ready t idxs m.kernel).down

theorem main_ends_sample :
    Down clone_tables [3] boot
      ((main clone_tables (fun _ => 0) 2 [['3']]).run sys ⟨boot, fun _ => false⟩).2.kernel :=
  ((main_ends (Nat.le_refl 2) clone_tables (fun _ => 0) [['3']] ⟨boot, fun _ => false⟩).2 [3]
    (fun _ => rfl) (by decide) (by decide)).2

end BpfBroker.Loader
