import Mathlib.Data.List.Induction
import BpfBroker.Lib.BoundedMap
import BpfBroker.Control

/-! # What a Broker is For

    The abstract model of the control side of both brokers: a directory that
    maps each registered topic to the clients accepted for it since its last
    FLUSH, in order and with repetitions. The brokers differ only in when they
    have room for one more client, which is a parameter here.

    Each broker's control process is shown to refine a directory; what its
    kernel programs deliver is then a function of the directory alone. -/

namespace BpfBroker

/-- The registered topics, at most `cap`, each with its accepted clients. -/
abbrev Directory (cap : Nat) : Type := BMap cap TopicKey (List SockAddr)

/-- The command is a FLUSH of topic `t`. -/
def Cmd.Flushes (cmd : Cmd) (t : TopicKey) : Prop :=
  ∃ topic_name, cmd = .flush topic_name ∧ topic_key_of topic_name = some t

/-- Commands other than a FLUSH of the topic only add clients. -/
theorem Served.prefix_apply {e : Served} {t : TopicKey} (h : ¬ e.cmd.Flushes t) (subs : List SockAddr) :
    subs <+: e.apply t subs := by
  rcases e with ⟨cmd, ret⟩
  cases cmd with
  | register => exact List.prefix_rfl
  | subscribe topic_name c =>
    unfold Served.apply
    dsimp only
    split
    · exact List.prefix_append _ _
    · exact List.prefix_rfl
  | flush topic_name =>
    have hne : ¬ topic_key_of topic_name = some t := fun hk => h ⟨topic_name, rfl, hk⟩
    unfold Served.apply
    dsimp only
    rw [if_neg hne]
  | unknown => exact List.prefix_rfl

namespace Directory

variable {cap : Nat}

/-- The clients accepted for a topic. -/
def subs (d : Directory cap) (t : TopicKey) : List SockAddr := (d.lookup t).getD []

/-- One command: the value its function returns and the directory after. The
    test `room` decides whether a client can join those already there. -/
def exec (room : List SockAddr → SockAddr → Bool) (cmd : Cmd) (d : Directory cap) :
    Int × Directory cap :=
  match cmd with
  | .register topic_name =>
    match topic_key_of topic_name with
    | none => (-1, d)
    | some t =>
      if t ∈ d.keys then (0, d) else
      match d.update t [] with
      | none => (-1, d)
      | some d' => (0, d')
  | .subscribe topic_name c =>
    match topic_key_of topic_name with
    | none => (-1, d)
    | some t =>
      if t ∈ d.keys ∧ room (d.subs t) c then (0, d.modify t (· ++ [c])) else (-1, d)
  | .flush topic_name =>
    match topic_key_of topic_name with
    | none => (-1, d)
    | some t => (0, d.modify t fun _ => [])
  | .unknown => (0, d)

/-- One round of the main loop. -/
def serve (room : List SockAddr → SockAddr → Bool) (r : Request) (d : Directory cap) :
    Served × Directory cap :=
  let cmd := parse_request r
  let (ret, d') := d.exec room cmd
  (⟨cmd, ret⟩, d')

/-- The directory after a sequence of requests, from an empty one. -/
def after (room : List SockAddr → SockAddr → Bool) (rs : List Request) : Directory cap :=
  (main_loop (serve room) rs .empty).2

/-- The history of these requests. -/
def history (cap : Nat) (room : List SockAddr → SockAddr → Bool) (rs : List Request) :
    List Served :=
  (main_loop (serve room) rs (.empty : Directory cap)).1

/-- The clients that stay live while a command runs: a FLUSH gives up the
    clients of its topic when it starts. -/
def during (d : Directory cap) (cmd : Cmd) (t : TopicKey) : List SockAddr :=
  match cmd with
  | .flush topic_name => if topic_key_of topic_name = some t then [] else d.subs t
  | _ => d.subs t

theorem during_eq (d : Directory cap) {cmd : Cmd} {t : TopicKey} (h : ¬ cmd.Flushes t) :
    d.during cmd t = d.subs t := by
  cases cmd with
  | flush topic_name => exact if_neg fun hk => h ⟨topic_name, rfl, hk⟩
  | register => rfl
  | subscribe => rfl
  | unknown => rfl

/-! ### Clients of the directory -/

@[simp] theorem subs_empty (t : TopicKey) : Directory.subs (.empty : Directory cap) t = [] := rfl

theorem subs_of_not_mem {d : Directory cap} {t : TopicKey} (h : t ∉ d.keys) : d.subs t = [] := by
  unfold subs
  rw [BMap.lookup_eq_none.mpr h]
  rfl

theorem subs_modify (d : Directory cap) (t : TopicKey) (f : List SockAddr → List SockAddr)
    (t' : TopicKey) :
    Directory.subs (d.modify t f) t' =
      if t' = t ∧ t ∈ d.keys then f (d.subs t) else d.subs t' := by
  unfold subs
  rw [BMap.lookup_modify]
  by_cases ht : t' = t
  · subst ht
    rcases Option.eq_none_or_eq_some (d.lookup t') with hl | ⟨l, hl⟩
    · have hnot : t' ∉ d.keys := BMap.lookup_eq_none.mp hl
      simp [hl, hnot]
    · have hmem : t' ∈ d.keys := BMap.mem_keys_of_lookup hl
      simp [hl, hmem]
  · simp [ht]

/-- Registering a topic gives it no clients. -/
theorem subs_update_new {d d' : Directory cap} {t : TopicKey} (hnew : t ∉ d.keys)
    (h : d.update t [] = some d') (t' : TopicKey) : d'.subs t' = d.subs t' := by
  unfold subs
  rw [BMap.lookup_update h]
  split
  · next heq => rw [heq, BMap.lookup_eq_none.mpr hnew]; rfl
  · rfl

variable {room : List SockAddr → SockAddr → Bool}

section exec
variable (d : Directory cap) {name : List UInt8} {t : TopicKey}

/-- A name that is too long changes nothing. -/
theorem exec_register_none (hk : topic_key_of name = none) :
    d.exec room (.register name) = (-1, d) := by
  simp only [exec, hk]

theorem exec_register_mem (hk : topic_key_of name = some t) (h : t ∈ d.keys) :
    d.exec room (.register name) = (0, d) := by
  simp only [exec, hk, if_pos h]

theorem exec_register_full (hk : topic_key_of name = some t) (h : t ∉ d.keys)
    (hu : d.update t [] = none) : d.exec room (.register name) = (-1, d) := by
  simp only [exec, hk, if_neg h, hu]

theorem exec_register_new (hk : topic_key_of name = some t) (h : t ∉ d.keys)
    {d' : Directory cap} (hu : d.update t [] = some d') :
    d.exec room (.register name) = (0, d') := by
  simp only [exec, hk, if_neg h, hu]

theorem exec_subscribe_yes (hk : topic_key_of name = some t) {c : SockAddr} (h : t ∈ d.keys)
    (hroom : room (d.subs t) c) :
    d.exec room (.subscribe name c) = (0, d.modify t (· ++ [c])) := by
  simp only [exec, hk, if_pos (And.intro h hroom)]

theorem exec_subscribe_no {c : SockAddr}
    (h : ∀ t, topic_key_of name = some t → t ∈ d.keys → ¬ room (d.subs t) c) :
    d.exec room (.subscribe name c) = (-1, d) := by
  rcases hk : topic_key_of name with _ | t
  · simp only [exec, hk]
  · simp only [exec, hk, if_neg (fun hand : t ∈ d.keys ∧ room (d.subs t) c => h t hk hand.1 hand.2)]

theorem exec_flush_none (hk : topic_key_of name = none) :
    d.exec room (.flush name) = (-1, d) := by
  simp only [exec, hk]

theorem exec_flush (hk : topic_key_of name = some t) :
    d.exec room (.flush name) = (0, d.modify t fun _ => []) := by
  simp only [exec, hk]

end exec

/-- A SUBSCRIBE succeeds when its topic is registered and there is room. -/
theorem exec_subscribe_ret (d : Directory cap) (name : List UInt8) (c : SockAddr) :
    (d.exec room (.subscribe name c)).1 = 0 ↔
      ∃ t, topic_key_of name = some t ∧ t ∈ d.keys ∧ room (d.subs t) c := by
  by_cases h : ∃ t, topic_key_of name = some t ∧ t ∈ d.keys ∧ room (d.subs t) c
  · obtain ⟨t, hk, hmem, hroom⟩ := h
    rw [exec_subscribe_yes d hk hmem hroom]
    exact ⟨fun _ => ⟨t, hk, hmem, hroom⟩, fun _ => rfl⟩
  · rw [exec_subscribe_no d (fun t hk hmem hroom => h ⟨t, hk, hmem, hroom⟩)]
    exact ⟨fun h0 => absurd h0 (show (-1 : Int) ≠ 0 by decide), fun hyes => absurd hyes h⟩

/-- A command changes the clients of the directory as its entry in the
    history says. -/
theorem subs_exec (d : Directory cap) (cmd : Cmd) (t : TopicKey) :
    (d.exec room cmd).2.subs t = (Served.mk cmd (d.exec room cmd).1).apply t (d.subs t) := by
  cases cmd with
  | register name =>
    show (d.exec room (.register name)).2.subs t = d.subs t
    rcases hk : topic_key_of name with _ | t'
    · rw [exec_register_none d hk]
    by_cases hmem : t' ∈ d.keys
    · rw [exec_register_mem d hk hmem]
    rcases hu : d.update t' [] with _ | d'
    · rw [exec_register_full d hk hmem hu]
    · rw [exec_register_new d hk hmem hu]
      exact subs_update_new hmem hu t
  | subscribe name c =>
    by_cases h : ∃ t, topic_key_of name = some t ∧ t ∈ d.keys ∧ room (d.subs t) c
    · obtain ⟨t', hk, hmem, hroom⟩ := h
      rw [exec_subscribe_yes d hk hmem hroom, subs_modify]
      by_cases ht : t = t'
      · simp [Served.apply, hk, ht, hmem]
      · simp [Served.apply, hk, ht, Ne.symm ht]
    · rw [exec_subscribe_no d (fun t hk hmem hroom => h ⟨t, hk, hmem, hroom⟩)]
      simp [Served.apply]
  | flush name =>
    rcases hk : topic_key_of name with _ | t'
    · rw [exec_flush_none d hk]
      simp [Served.apply, hk]
    rw [exec_flush d hk, subs_modify]
    by_cases ht : t = t'
    · subst ht
      by_cases hmem : t ∈ d.keys
      · simp [Served.apply, hk, hmem]
      · simp [Served.apply, hk, hmem, subs_of_not_mem hmem]
    · simp [Served.apply, hk, ht, Ne.symm ht]
  | unknown => rfl

/-- **The directory holds the accepted clients**: after any sequence of
    requests its clients are those that the history accepted. -/
theorem subs_after (rs : List Request) (t : TopicKey) :
    (after room rs : Directory cap).subs t = accepted (history cap room rs) t := by
  have hfold : ∀ d : Directory cap, (main_loop (serve room) rs d).2.subs t =
      (main_loop (serve room) rs d).1.foldl (fun subs e => e.apply t subs) (d.subs t) := by
    induction rs with
    | nil => intro d; rfl
    | cons r rs ih =>
      intro d
      have hround : (serve room r d).2.subs t = (serve room r d).1.apply t (d.subs t) :=
        subs_exec d (parse_request r) t
      rw [main_loop_cons, List.foldl_cons, ← hround]
      exact ih _
  exact hfold .empty

/-- One more request. -/
theorem after_snoc (rs : List Request) (r : Request) :
    (after room (rs ++ [r]) : Directory cap) =
      ((after room rs : Directory cap).exec room (parse_request r)).2 := by
  unfold after
  rw [main_loop_append]
  rfl

/-- Until the next FLUSH of a topic, its clients stay. -/
theorem subs_after_prefix {t : TopicKey} (rs rs' : List Request)
    (h : ∀ r ∈ rs', ¬ (parse_request r).Flushes t) :
    (after room rs : Directory cap).subs t <+: (after room (rs ++ rs') : Directory cap).subs t := by
  induction rs' using List.reverseRecOn with
  | nil => rw [List.append_nil]
  | append_singleton rs' r ih =>
    have hrs := ih fun q hq => h q (List.mem_append_left _ hq)
    rw [← List.append_assoc, after_snoc, subs_exec]
    exact hrs.trans (Served.prefix_apply (h r (by simp)) _)

/-- What a SUBSCRIBE makes of the clients of a topic. -/
theorem subs_exec_subscribe (d : Directory cap) (name : List UInt8) (c : SockAddr)
    (t : TopicKey) :
    (d.exec room (.subscribe name c)).2.subs t =
      if topic_key_of name = some t ∧ t ∈ d.keys ∧ room (d.subs t) c then d.subs t ++ [c]
      else d.subs t := by
  have hret : (d.exec room (.subscribe name c)).1 = 0 ↔ _ := exec_subscribe_ret d name c
  rw [subs_exec]
  unfold Served.apply
  dsimp only
  by_cases hk : topic_key_of name = some t
  · simp [hk, hret]
  · rw [if_neg (fun hand => hk hand.1), if_neg (fun hand => hk hand.1)]

/-- After its SUBSCRIBE, a client is accepted when it was there before or
    there was room for it. -/
theorem mem_subs_subscribe (d : Directory cap) {name : List UInt8} {t : TopicKey}
    (hk : topic_key_of name = some t) (c : SockAddr) :
    c ∈ (d.exec room (.subscribe name c)).2.subs t ↔
      t ∈ d.keys ∧ (c ∈ d.subs t ∨ room (d.subs t) c) := by
  rw [subs_exec_subscribe]
  by_cases hmem : t ∈ d.keys
  · by_cases hroom : room (d.subs t) c = true
    · simp [hk, hmem, hroom]
    · simp [hmem, hroom]
  · simp [hmem, subs_of_not_mem hmem]

/-! ### Topics of the directory -/

/-- Only REGISTER changes the topics, and `room` plays no part in it. -/
theorem mem_keys_exec (d : Directory cap) (cmd : Cmd) (t : TopicKey) :
    t ∈ (d.exec room cmd).2.keys ↔
      t ∈ d.keys ∨ (∃ name, cmd = .register name ∧ topic_key_of name = some t) ∧ d.fits t := by
  cases cmd with
  | register name =>
    simp only [Cmd.register.injEq, exists_eq_left']
    rcases hk : topic_key_of name with _ | t'
    · rw [exec_register_none d hk]
      simp
    simp only [Option.some.injEq]
    by_cases hmem : t' ∈ d.keys
    · rw [exec_register_mem d hk hmem]
      refine ⟨Or.inl, ?_⟩
      rintro (h | ⟨rfl, -⟩)
      · exact h
      · exact hmem
    rcases hu : d.update t' [] with _ | d'
    · rw [exec_register_full d hk hmem hu]
      refine ⟨Or.inl, ?_⟩
      rintro (h | ⟨rfl, hfits⟩)
      · exact h
      · exact absurd hfits (BMap.update_eq_none.mp hu)
    · have hfits : d.fits t' := BMap.update_isSome.mp (by rw [hu]; rfl)
      rw [exec_register_new d hk hmem hu]
      show t ∈ BMap.keys d' ↔ _
      rw [BMap.mem_keys_update hu]
      refine ⟨?_, ?_⟩
      · rintro (rfl | h)
        · exact Or.inr ⟨rfl, hfits⟩
        · exact Or.inl h
      · rintro (h | ⟨rfl, -⟩)
        · exact Or.inr h
        · exact Or.inl rfl
  | subscribe name c =>
    by_cases h : ∃ t, topic_key_of name = some t ∧ t ∈ d.keys ∧ room (d.subs t) c
    · obtain ⟨t', hk, hmem, hroom⟩ := h
      rw [exec_subscribe_yes d hk hmem hroom]
      simp [BMap.mem_keys_modify]
    · rw [exec_subscribe_no d (fun t hk hmem hroom => h ⟨t, hk, hmem, hroom⟩)]
      simp
  | flush name =>
    rcases hk : topic_key_of name with _ | t'
    · rw [exec_flush_none d hk]
      simp
    · rw [exec_flush d hk]
      simp [BMap.mem_keys_modify]
  | unknown => simp [exec]

end Directory

end BpfBroker
