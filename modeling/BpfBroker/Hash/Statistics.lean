import BpfBroker.Reference
import BpfBroker.Hash.Delivery

/-! # What `pub_counter_2` Counts

    Both programs of the hash broker count a publication when they see it.
    `xdp_broker` counts before it knows whether it will handle the frame, so
    a frame that it passes on is counted again by `tc_ingress_broker`. -/

namespace BpfBroker.Hash

open Atomic

/-- The sum of a counter over the first `n` CPUs. -/
def pub_total (n : Nat) (counter : Nat → UInt32) : Nat :=
  ((List.range n).map fun i => (counter i).toNat).sum

/-- The pipeline over a sequence of frames, each with its environment. -/
def receive_all (fs : List (Env × Frame)) (s : KernState) : KernState :=
  fs.foldl (fun s p => (receive p.1 p.2 s).2) s

/-- `xdp_broker` does not handle the publication `f`: it finds no topic, or a
    counter other than 1. -/
def passed_on (m : Maps) (f : Frame) : Bool :=
  match extract_topic_id ((payload f).drop 8) with
  | none => true
  | some t => m.topic_sub_cnt.lookup t ≠ some 1

/-- The frame is a publication that `xdp_broker` passes on, and
    `tc_ingress_broker` gets to read it. -/
def counted_twice (m : Maps) (p : Env × Frame) : Bool :=
  BpfBroker.is_publish p.2 && (passed_on m p.2 && !p.1.tc.pull)

/-! ### One more on one CPU -/

theorem pub_total_succ (n : Nat) (counter : Nat → UInt32) :
    pub_total (n + 1) counter = pub_total n counter + (counter n).toNat := by
  unfold pub_total
  rw [List.range_succ, List.map_append, List.sum_append]
  rfl

theorem pub_total_bump_ge {cpu n : Nat} (h : n ≤ cpu) (counter : Nat → UInt32) :
    pub_total n (bump cpu counter) = pub_total n counter := by
  unfold pub_total
  congr 1
  apply List.map_congr_left
  intro i hi
  have hne : i ≠ cpu := by
    have := List.mem_range.mp hi
    omega
  unfold bump
  rw [if_neg hne]

/-- The sum grows by one, modulo `2^32`. -/
theorem pub_total_bump {cpu n : Nat} (h : cpu < n) (counter : Nat → UInt32) :
    pub_total n (bump cpu counter) % 4294967296 = (pub_total n counter + 1) % 4294967296 := by
  induction n with
  | zero => omega
  | succ n ih =>
    rw [pub_total_succ, pub_total_succ]
    rcases Nat.lt_succ_iff_lt_or_eq.mp h with hlt | heq
    · -- the entry of another CPU stays
      have hn : bump cpu counter n = counter n := by
        unfold bump
        rw [if_neg (by omega)]
      have := ih hlt
      rw [hn]
      omega
    · -- the last CPU is the one that counts
      subst heq
      have hcpu : bump cpu counter cpu = counter cpu + 1 := by
        unfold bump
        rw [if_pos rfl]
      rw [pub_total_bump_ge (Nat.le_refl cpu), hcpu, UInt32.toNat_add]
      show (_ + ((counter cpu).toNat + 1) % 4294967296) % _ = _
      omega

/-! ### The programs -/

/-- Operations that leave `pub_counter_2` alone. -/
abbrev Silent (o : KernOp) : Prop := o ≠ .pub_count

theorem pub_counter_silent (cpu : Nat) (o : KernOp) (ho : Silent o) (s : KernState) :
    (kern cpu o s).2.stats.pub_counter_2 = s.stats.pub_counter_2 := by
  cases o with
  | pub_count => exact absurd rfl ho
  | clone_count => rfl
  | queue_count qid =>
    show (s.stats.count_queue cpu qid).pub_counter_2 = _
    unfold Stats.count_queue
    split
    · rfl
    · split <;> rfl
  | cnt_lookup => rfl
  | first_lookup => rfl
  | outer_lookup => rfl

theorem pub_counter_run {α : Type} {p : Prog KernSig α} (hp : p.AllOps Silent) (cpu : Nat)
    (s : KernState) : (p.run (kern cpu) s).2.stats.pub_counter_2 = s.stats.pub_counter_2 :=
  Prog.AllOps.run_preserves hp (fun s : KernState => s.stats.pub_counter_2)
    (pub_counter_silent cpu) s

/-- `xdp_broker` counts a publication once. -/
theorem xdp_broker_pub (cpu : Nat) (f : Frame) (s : KernState) :
    ((xdp_broker f).run (kern cpu) s).2.stats.pub_counter_2 =
      if BpfBroker.is_publish f then bump cpu s.stats.pub_counter_2
      else s.stats.pub_counter_2 := by
  rcases hp : BpfBroker.is_publish f with _ | _
  · rw [xdp_broker_other hp]
    rfl
  rcases ht : extract_topic_id ((payload f).drop 8) with _ | t
  · rw [xdp_broker_no_topic hp ht]
    rfl
  · rw [xdp_broker_eq (publishes_iff.mpr ⟨hp, ht⟩), Prog.run_op]
    -- behind the counter there are only lookups and the count of a clone
    have hsilent : (Prog.op (.cnt_lookup t) (xdp_counted f t) : Prog KernSig _).AllOps Silent := by
      refine ⟨by simp [Silent], ?_⟩
      intro cnt
      unfold xdp_counted
      split
      · refine ⟨by simp [Silent], ?_⟩
        intro first
        rcases first with _ | packed
        · trivial
        · exact ⟨by simp [Silent], fun _ => trivial⟩
      · trivial
    exact pub_counter_run hsilent cpu _

theorem for_each_elem_silent (flt : Nat → CallbackFaults) (queue_mapping : UInt32)
    (keys : List UInt64) (skb : Frame) :
    (for_each_elem flt queue_mapping keys skb).AllOps Silent := by
  induction keys generalizing flt skb with
  | nil => trivial
  | cons key keys ih =>
    unfold for_each_elem callback_fn
    split
    · show (for_each_elem _ queue_mapping keys _ >>= _).AllOps Silent
      exact Prog.AllOps.bind (ih _ _) fun _ => trivial
    · refine ⟨by simp [Silent], fun _ => ⟨by simp [Silent], fun _ => ?_⟩⟩
      show (for_each_elem _ queue_mapping keys _ >>= _).AllOps Silent
      exact Prog.AllOps.bind (ih _ _) fun _ => trivial

/-- What is left of `tc_ingress_prologue` behind its counter, whatever
    helper calls fail. -/
theorem tc_ingress_prologue_counts {flt : TcFaults} {f : Frame} (hpull : flt.pull = false)
    (h : BpfBroker.is_publish f = true) :
    ∃ rest, tc_ingress_prologue flt f = .op .pub_count rest ∧ ∀ r, (rest r).AllOps Silent := by
  rw [is_publish_eq] at h
  simp only [Bool.and_eq_true] at h
  unfold tc_ingress_prologue
  rw [hpull, h.1.1, h.1.2, h.2]
  rcases extract_topic_id ((payload f).drop 8) with _ | t
  · exact ⟨fun _ => .ret (.act_ok f), rfl, fun _ => trivial⟩
  · refine ⟨_, rfl, ?_⟩
    intro r
    refine ⟨by simp [Silent], ?_⟩
    intro found
    -- whatever the lookup and the edits return, nothing more is counted
    cases found with
    | false => trivial
    | true =>
      rcases tc_edit flt f with skb | skb
      · trivial
      · trivial

/-- `tc_ingress_broker` counts every publication that it can read. -/
theorem tc_ingress_broker_pub (env : Env) (f : Frame) (s : KernState) :
    (tc_ingress_broker env f s).2.stats.pub_counter_2 =
      if BpfBroker.is_publish f && !env.tc.pull then bump env.cpu s.stats.pub_counter_2
      else s.stats.pub_counter_2 := by
  have hprologue : ((tc_ingress_prologue env.tc f).run (kern env.cpu) s).2.stats.pub_counter_2 =
      if BpfBroker.is_publish f && !env.tc.pull then bump env.cpu s.stats.pub_counter_2
      else s.stats.pub_counter_2 := by
    by_cases hcount : (BpfBroker.is_publish f && !env.tc.pull) = true
    · rw [if_pos hcount]
      obtain ⟨hp, hpull⟩ := Bool.and_eq_true_iff.mp hcount
      obtain ⟨rest, heq, hsilent⟩ := tc_ingress_prologue_counts
        (by simpa using hpull) hp
      rw [heq, Prog.run_op]
      exact pub_counter_run (hsilent _) env.cpu _
    · rw [if_neg hcount, tc_ingress_prologue_other]
      · rfl
      · rcases hpull : env.tc.pull with _ | _
        · right
          simpa [hpull] using hcount
        · exact Or.inl rfl
  unfold tc_ingress_broker
  rw [← hprologue]
  -- the walk counts clones, not publications
  generalize (tc_ingress_prologue env.tc f).run (kern env.cpu) s = point
  obtain ⟨skb | ⟨topic_id, skb⟩, s'⟩ := point
  · rfl
  · exact pub_counter_run (for_each_elem_silent _ _ _ _) env.cpu s'

/-! ### The pipeline -/

theorem maps_receive (env : Env) (f : Frame) (s : KernState) :
    (receive env f s).2.maps = s.maps := by
  have hxdp := maps_run env.cpu (xdp_broker f) s
  unfold receive
  generalize (xdp_broker f).run (kern env.cpu) s = result at hxdp
  obtain ⟨⟨verdict, g⟩, s'⟩ := result
  -- both programs only read the topic maps
  cases verdict with
  | drop => exact hxdp
  | tx => exact hxdp
  | pass =>
    have htc := maps_run env.cpu (tc_ingress_prologue env.tc g) s'
    show (tc_ingress_broker env g s').2.maps = s.maps
    unfold tc_ingress_broker
    generalize (tc_ingress_prologue env.tc g).run (kern env.cpu) s' = point at htc
    obtain ⟨skb | ⟨topic_id, skb⟩, s''⟩ := point
    · exact htc.trans hxdp
    · exact (maps_run env.cpu _ s'').trans (htc.trans hxdp)

/-- What `xdp_broker` makes of a publication. -/
theorem xdp_broker_verdict {f : Frame} (hp : BpfBroker.is_publish f = true) (cpu : Nat)
    (s : KernState) :
    (passed_on s.maps f = true ∧ ((xdp_broker f).run (kern cpu) s).1 = (.pass, f)) ∨
      (passed_on s.maps f = false ∧ ((xdp_broker f).run (kern cpu) s).1.1 ≠ .pass) := by
  unfold passed_on
  rcases ht : extract_topic_id ((payload f).drop 8) with _ | t
  · left
    rw [xdp_broker_no_topic hp ht]
    exact ⟨rfl, rfl⟩
  rw [xdp_broker_run (publishes_iff.mpr ⟨hp, ht⟩)]
  by_cases hone : (s.maps.view t).cnt = some 1
  · right
    have hlookup : s.maps.topic_sub_cnt.lookup t = some 1 := hone
    rw [if_pos hone]
    refine ⟨by simp [hlookup], ?_⟩
    cases (s.maps.view t).first with
    | none =>
      intro h
      cases h
    | some packed =>
      intro h
      cases h
  · left
    have hlookup : s.maps.topic_sub_cnt.lookup t ≠ some 1 := hone
    rw [if_neg hone]
    exact ⟨by simp [hlookup], rfl⟩

/-- How often a frame is counted. -/
def times_counted (m : Maps) (p : Env × Frame) : Nat :=
  (BpfBroker.is_publish p.2).toNat + (counted_twice m p).toNat

theorem pub_total_if {cpu n : Nat} (h : cpu < n) (b : Bool) (counter : Nat → UInt32) :
    pub_total n (if b then bump cpu counter else counter) % 4294967296 =
      (pub_total n counter + b.toNat) % 4294967296 := by
  cases b with
  | false => rfl
  | true => exact pub_total_bump h counter

/-- **One frame**: the sum grows by the number of times it is counted. -/
theorem pub_total_receive {n : Nat} {env : Env} (hcpu : env.cpu < n) (f : Frame)
    (s : KernState) :
    pub_total n (receive env f s).2.stats.pub_counter_2 % 4294967296 =
      (pub_total n s.stats.pub_counter_2 + times_counted s.maps (env, f)) % 4294967296 := by
  have hpub := xdp_broker_pub env.cpu f s
  have hxdp := pub_total_if hcpu (BpfBroker.is_publish f) s.stats.pub_counter_2
  -- what the TC program adds when the frame gets there
  have htc : ∀ s', s'.stats.pub_counter_2 =
      (if BpfBroker.is_publish f then bump env.cpu s.stats.pub_counter_2
        else s.stats.pub_counter_2) →
      pub_total n (tc_ingress_broker env f s').2.stats.pub_counter_2 % 4294967296 =
        (pub_total n s.stats.pub_counter_2 + (BpfBroker.is_publish f).toNat +
          (BpfBroker.is_publish f && !env.tc.pull).toNat) % 4294967296 := by
    intro s' hs'
    rw [tc_ingress_broker_pub, pub_total_if hcpu, hs', Nat.add_mod, hxdp, ← Nat.add_mod]
  unfold receive times_counted counted_twice
  rcases hp : BpfBroker.is_publish f with _ | _
  · -- no publication for XDP, hence none for TC
    rw [hp] at htc hpub
    rw [xdp_broker_other hp]
    exact htc s rfl
  have hverdict := xdp_broker_verdict hp env.cpu s
  generalize (xdp_broker f).run (kern env.cpu) s = result at hpub hverdict
  obtain ⟨⟨verdict, g⟩, s'⟩ := result
  rw [hp] at htc
  -- a publication that is passed on is counted a second time
  rcases hverdict with ⟨hpass, heq⟩ | ⟨hpass, hne⟩
  · cases heq
    rw [hpass]
    rw [hp] at hpub
    exact (htc s' hpub).trans (by rw [Nat.add_assoc]; rfl)
  · rw [hpass]
    rw [← hpub, hp] at hxdp
    cases verdict with
    | pass => exact absurd rfl hne
    | drop => exact hxdp
    | tx => exact hxdp

/-- **A sequence of frames.** -/
theorem pub_total_receive_all {n : Nat} (fs : List (Env × Frame)) (hcpu : ∀ p ∈ fs, p.1.cpu < n)
    (s : KernState) :
    pub_total n (receive_all fs s).stats.pub_counter_2 % 4294967296 =
      (pub_total n s.stats.pub_counter_2 +
        (fs.countP (fun p => BpfBroker.is_publish p.2) + fs.countP (counted_twice s.maps))) %
        4294967296 := by
  induction fs generalizing s with
  | nil => rfl
  | cons p fs ih =>
    have hrest := ih (fun q hq => hcpu q (List.mem_cons_of_mem _ hq)) (receive p.1 p.2 s).2
    have hone : _ = (_ + times_counted s.maps p) % _ :=
      pub_total_receive (hcpu p (by simp)) p.2 s
    -- the maps do not change, so `counted_twice` is decided in the first state
    rw [maps_receive] at hrest
    have hcount : ∀ b : Bool, (if b = true then 1 else 0) = b.toNat := by
      intro b
      cases b <;> rfl
    show pub_total n (receive_all fs (receive p.1 p.2 s).2).stats.pub_counter_2 % _ = _
    rw [hrest, List.countP_cons, List.countP_cons, hcount, hcount]
    unfold times_counted at hone
    omega

/-! ### Publications -/

/-- The programs take the frame for a publication, and it is none. -/
def misread (p : Env × Frame) : Bool :=
  BpfBroker.is_publish p.2 && !Reference.is_publish p.2

/-- The frame is a publication, and the programs do not see it. -/
def missed (p : Env × Frame) : Bool :=
  Reference.is_publish p.2 && !BpfBroker.is_publish p.2

theorem count_publish (fs : List (Env × Frame)) :
    fs.countP (fun p => BpfBroker.is_publish p.2) + fs.countP missed =
      fs.countP (fun p => Reference.is_publish p.2) + fs.countP misread := by
  induction fs with
  | nil => rfl
  | cons p fs ih =>
    simp only [List.countP_cons]
    unfold missed misread at ih ⊢
    -- frame by frame, by what both sides make of it
    cases BpfBroker.is_publish p.2 <;> cases Reference.is_publish p.2 <;> simp <;> omega

/-- **Each publication is counted once** exactly when the frames that are
    counted twice and those that are misread together are as many, modulo
    `2^32`, as those that are missed. -/
theorem published_once_iff (n : Nat) (fs : List (Env × Frame)) (hcpu : ∀ p ∈ fs, p.1.cpu < n)
    (s : KernState) :
    pub_total n (receive_all fs s).stats.pub_counter_2 % 2 ^ 32 =
        (pub_total n s.stats.pub_counter_2 +
          fs.countP (fun p => Reference.is_publish p.2)) % 2 ^ 32 ↔
      (fs.countP (counted_twice s.maps) + fs.countP misread) % 2 ^ 32 =
        fs.countP missed % 2 ^ 32 := by
  have hall := pub_total_receive_all fs hcpu s
  have hcount := count_publish fs
  have hpow : 2 ^ 32 = 4294967296 := by decide
  rw [hpow, hall]
  omega

/-- A publication to a topic that nobody has registered is counted twice. -/
theorem publication_counted_twice :
    ¬ ∀ (rs : List Request) (fs : List Frame),
      pub_total 1 (receive_all (fs.map fun f => (⟨listed, 0, 0, {}, fun _ => {}⟩, f))
        ⟨(serve_all listed rs .empty).2, .empty⟩).stats.pub_counter_2 % 2 ^ 32 =
        (pub_total 1 Stats.empty.pub_counter_2 + fs.countP Reference.is_publish) % 2 ^ 32 := by
  intro h
  have hone := h [] [sample_frame [97] [104, 105]]
  exact absurd hone (by decide +kernel)

theorem published_once_iff_sample :
    pub_total 1 (receive_all [(⟨listed, 0, 0, {}, fun _ => {}⟩, sample_frame [97] [104, 105])]
      ⟨(serve_all listed one_client .empty).2, .empty⟩).stats.pub_counter_2 % 2 ^ 32 =
      (pub_total 1 Stats.empty.pub_counter_2 + 1) % 2 ^ 32 :=
  (published_once_iff 1 [(⟨listed, 0, 0, {}, fun _ => {}⟩, sample_frame [97] [104, 105])]
    (by simp) ⟨(serve_all listed one_client .empty).2, .empty⟩).mpr (by decide +kernel)

end BpfBroker.Hash
