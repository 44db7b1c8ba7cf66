import BpfBroker.Hash.Delivery
import BpfBroker.Clone.Delivery

/-! # One Name, Two Keys

    The control process and the kernel programs cut a topic name at different
    bytes: the control process at NUL, LF and CR, the kernel at NUL, LF and
    space. A topic can be registered and acknowledged under a key that no
    publication to the same name is looked up with. -/

namespace BpfBroker

open CString

/-! ### The key of a command -/

/-- The key that the function called for a command builds. -/
def Cmd.topic_key : Cmd → Option TopicKey
  | .register topic_name => topic_key_of topic_name
  | .subscribe topic_name _ => topic_key_of topic_name
  | .flush topic_name => topic_key_of topic_name
  | .unknown => none

/-- A name that is short in the receive buffer is short. -/
theorem topic_key_of_take {s stack : List UInt8} {n : Nat} (hn : MAX_TOPIC_ID_CHARS ≤ n)
    {key : TopicKey} (h : topic_key_of (topic_key_buffer (s.take n) ++ stack) = some key) :
    (ctlName s).length < MAX_TOPIC_ID_CHARS ∧ key = TopicKey.ofName (ctlName s) := by
  rw [topic_key_of_buffer] at h
  have htake := ctlName_take s n
  split at h
  · next hlt =>
    rw [htake, List.length_take] at hlt
    have hshort : (ctlName s).length < MAX_TOPIC_ID_CHARS := by omega
    rw [htake, List.take_of_length_le (by omega)] at h
    exact ⟨hshort, (Option.some.inj h).symm⟩
  · cases h

/-! ### Where the tokenizers agree -/

theorem ctlName_no_nul (s : List UInt8) : NUL ∉ ctlName s := by
  intro hmem
  have := List.mem_takeWhile_imp hmem
  simp at this

theorem pubName_no_delim (s : List UInt8) : ∀ b ∈ pubName s, isDelim b = false := by
  intro b hb
  simpa using List.mem_takeWhile_imp hb

/-- The byte at which the control process cuts the name. -/
theorem ctlName_split (s : List UInt8) :
    s = ctlName s ∨ ∃ b rest, s = ctlName s ++ b :: rest ∧ (b = NUL ∨ b = LF ∨ b = CR) := by
  have hsplit := List.takeWhile_append_dropWhile (p := fun b => !isNewline b && b ≠ NUL) (l := s)
  rcases hrest : s.dropWhile (fun b => !isNewline b && b ≠ NUL) with _ | ⟨b, rest⟩
  · left
    rw [hrest, List.append_nil] at hsplit
    exact hsplit.symm
  · right
    rw [hrest] at hsplit
    refine ⟨b, rest, hsplit.symm, ?_⟩
    have hb := List.head_dropWhile_not (p := fun b => !isNewline b && b ≠ NUL) (l := s)
      (by rw [hrest]; simp)
    simp only [hrest, List.head_cons] at hb
    by_cases hnul : b = NUL
    · exact Or.inl hnul
    · right
      by_cases hlf : b = LF
      · exact Or.inl hlf
      · exact Or.inr (by simpa [isNewline, hnul, hlf] using hb)

/-- **The names agree** when the name has no space in it and is not cut at a
    CR; a CR does not matter behind 19 bytes, where the kernel cuts anyway. -/
theorem ctlName_eq_iff {s : List UInt8} (h : (ctlName s).length < MAX_TOPIC_ID_CHARS) :
    ctlName s = (pubName s).take (MAX_TOPIC_ID_CHARS - 1) ↔
      SP ∉ ctlName s ∧ (s[(ctlName s).length]? = some CR → (ctlName s).length = 19) := by
  simp only [MAX_TOPIC_ID_CHARS] at h
  by_cases hsp : SP ∈ ctlName s
  · -- the kernel's name has no space
    refine ⟨fun heq => ?_, fun hand => absurd hsp hand.1⟩
    rw [heq] at hsp
    have := pubName_no_delim s SP (List.mem_of_mem_take hsp)
    exact absurd this (by decide)
  -- the kernel reads on as far as the control process
  have hpos : ∀ b ∈ ctlName s, (!isDelim b) = true := by
    intro b hb
    have hctl := List.mem_takeWhile_imp hb
    have hne : b ≠ SP := fun heq => hsp (heq ▸ hb)
    simp only [isNewline, Bool.and_eq_true, Bool.not_eq_true', decide_eq_true_eq,
      decide_eq_false_iff_not, not_or] at hctl
    simp [isDelim, hne, hctl.1.1, hctl.2]
  have htake : ∀ rest : List UInt8, (ctlName s ++ rest).take (MAX_TOPIC_ID_CHARS - 1) = ctlName s ↔
      rest = [] ∨ (ctlName s).length = 19 := by
    intro rest
    rw [List.take_append, List.take_of_length_le (by simp only [MAX_TOPIC_ID_CHARS]; omega),
      List.append_right_eq_self, List.take_eq_nil_iff, or_comm]
    simp only [MAX_TOPIC_ID_CHARS]
    exact or_congr_right (by omega)
  rw [eq_comm]
  simp only [hsp, not_false_eq_true, true_and]
  rcases ctlName_split s with hs | ⟨b, rest, hs, hb⟩
  · have hpub : pubName s = ctlName s ++ [] := by
      rw [List.append_nil, ← hs]
      unfold pubName
      rw [List.takeWhile_eq_self_iff]
      intro b hb
      exact hpos b (hs ▸ hb)
    have hnone : s[(ctlName s).length]? = none := by
      rw [← hs]
      exact List.getElem?_eq_none (Nat.le_refl _)
    rw [hpub, htake, hnone]
    simp
  · have hpub : pubName s = ctlName s ++ pubName (b :: rest) := by
      conv_lhs => rw [hs]
      unfold pubName
      rw [List.takeWhile_append_of_pos hpos]
    have hget : s[(ctlName s).length]? = some b := by
      calc s[(ctlName s).length]?
          = (ctlName s ++ b :: rest)[(ctlName s).length]? := by rw [← hs]
        _ = some b := by simp
    rw [hpub, htake, hget]
    rcases hb with rfl | rfl | rfl
    · exact ⟨fun _ heq => absurd heq (by decide), fun _ => Or.inl rfl⟩
    · exact ⟨fun _ heq => absurd heq (by decide), fun _ => Or.inl rfl⟩
    · -- the kernel does not stop at the CR
      have hcons : pubName (CR :: rest) = CR :: pubName rest := rfl
      rw [hcons]
      exact ⟨fun hor _ => hor.resolve_left (List.cons_ne_nil _ _), fun himp => Or.inr (himp rfl)⟩

/-- The key of a publication of `p` to the name `s`. -/
theorem extract_topic_id_name (s p : List UInt8) :
    extract_topic_id (s ++ SP :: p) =
      some (TopicKey.ofName ((pubName s).take (MAX_TOPIC_ID_CHARS - 1))) := by
  have hpub : pubName (s ++ SP :: p) = pubName s := by
    unfold pubName
    rw [List.takeWhile_append]
    split
    · next hall =>
      rw [(List.takeWhile_prefix _).eq_of_length hall]
      simp [isDelim]
    · rfl
  have hlen : (pubName s).length ≤ s.length := (List.takeWhile_prefix _).length_le
  rw [extract_topic_id_eq, hpub, if_pos]
  left
  rw [List.length_append, List.length_cons]
  omega

/-! ### Registered names -/

/-- `add_topic` returns 0 only when it has a key. -/
theorem Hash.key_of_registered {ord : Hash.HashOrder} {r : Request} {name : List UInt8}
    (hr : parse_request r = .register name) {m : Hash.Maps}
    (hret : (Hash.serve ord r m).1.ret = 0) : (topic_key_of name).isSome := by
  unfold Hash.serve at hret
  rw [hr] at hret
  rcases hk : topic_key_of name with _ | key
  · have hnone : (Hash.command (.register name)) = .ret (-1) := by
      show Hash.add_topic name = _
      unfold Hash.add_topic
      rw [hk]
      rfl
    dsimp only at hret
    rw [hnone] at hret
    exact absurd hret (show (-1 : Int) ≠ 0 by decide)
  · rfl

theorem Clone.key_of_registered {r : Request} {name : List UInt8}
    (hr : parse_request r = .register name) {m : Clone.Maps}
    (hret : (Clone.serve r m).1.ret = 0) : (topic_key_of name).isSome := by
  unfold Clone.serve at hret
  rw [hr] at hret
  rcases hk : topic_key_of name with _ | key
  · have hnone : (Clone.command (.register name)) = .ret (-1) := by
      show Clone.add_topic name = _
      unfold Clone.add_topic
      rw [hk]
      rfl
    dsimp only at hret
    rw [hnone] at hret
    exact absurd hret (show (-1 : Int) ≠ 0 by decide)
  · rfl

/-- **One key for both**: a name `s` that was registered, with either broker
    and in any state, is published under its key exactly when it has no space
    up to its first NUL, LF or CR, and is not cut at a CR within its first 19
    bytes. -/
theorem names_agree_iff (s p : List UInt8) (client : SockAddr) (stack : List UInt8)
    {ord : Hash.HashOrder} {m : Hash.Maps} {m' : Clone.Maps}
    (hret : (Hash.serve ord ⟨REGISTER ++ s, client, stack⟩ m).1.ret = 0 ∨
      (Clone.serve ⟨REGISTER ++ s, client, stack⟩ m').1.ret = 0)
    {f : Frame} (hf : payload f = PUBLISH ++ (s ++ SP :: p)) :
    (parse_request ⟨REGISTER ++ s, client, stack⟩).topic_key =
        extract_topic_id ((payload f).drop 8) ↔
      SP ∉ ctlName s ∧ (s[(ctlName s).length]? = some CR → (ctlName s).length = 19) := by
  have hparse := parse_register s client stack
  have hsome : (topic_key_of (topic_key_buffer (s.take 1014) ++ stack)).isSome := by
    rcases hret with hret | hret
    · exact Hash.key_of_registered hparse hret
    · exact Clone.key_of_registered hparse hret
  obtain ⟨key, hkey⟩ := Option.isSome_iff_exists.mp hsome
  obtain ⟨hshort, hkey'⟩ := topic_key_of_take (by decide) hkey
  have hdrop : (payload f).drop 8 = s ++ SP :: p := by
    rw [hf]
    rfl
  rw [hparse, hdrop, extract_topic_id_name, ← ctlName_eq_iff hshort]
  show topic_key_of _ = _ ↔ _
  rw [hkey, hkey', Option.some.injEq]
  refine ⟨?_, fun heq => by rw [← heq]⟩
  -- both names are short and free of NUL, so their keys tell them apart
  apply TopicKey.ofName_injective hshort
  · rw [List.length_take]
    simp only [MAX_TOPIC_ID_CHARS]
    omega
  · exact ctlName_no_nul s
  · intro hmem
    have := pubName_no_delim s NUL (List.mem_of_mem_take hmem)
    exact absurd this (by decide)

/-- The name `a b` is registered under its own key and published under that of
    `a`. -/
theorem names_differ :
    ¬ ∀ (s p : List UInt8) (client : SockAddr) (ord : Hash.HashOrder) (m : Hash.Maps) (f : Frame),
      (Hash.serve ord ⟨REGISTER ++ s, client, []⟩ m).1.ret = 0 →
      payload f = PUBLISH ++ (s ++ SP :: p) →
        (parse_request ⟨REGISTER ++ s, client, []⟩).topic_key =
          extract_topic_id ((payload f).drop 8) := by
  intro h
  have heq := h [97, 32, 98] [104, 105] ⟨0x0700000a, 0x8813⟩ Hash.listed .empty
    (sample_frame [97, 32, 98] [104, 105]) (by decide +kernel) rfl
  exact absurd heq (by decide +kernel)

theorem names_agree_iff_sample :
    (Hash.serve Hash.listed ⟨REGISTER ++ [97, 98], ⟨0x0700000a, 0x8813⟩, []⟩ .empty).1.ret = 0 ∧
    (parse_request ⟨REGISTER ++ [97, 98], ⟨0x0700000a, 0x8813⟩, []⟩).topic_key =
      extract_topic_id ((payload (sample_frame [97, 98] [104, 105])).drop 8) := by
  have hret : (Hash.serve Hash.listed ⟨REGISTER ++ [97, 98], ⟨0x0700000a, 0x8813⟩, []⟩
      .empty).1.ret = 0 := by
    decide +kernel
  have hor : _ ∨ (Clone.serve ⟨REGISTER ++ [97, 98], ⟨0x0700000a, 0x8813⟩, []⟩
      .empty).1.ret = 0 := Or.inl hret
  exact ⟨hret, (names_agree_iff [97, 98] [104, 105] ⟨0x0700000a, 0x8813⟩ [] hor rfl).mpr
    (by decide)⟩

end BpfBroker
