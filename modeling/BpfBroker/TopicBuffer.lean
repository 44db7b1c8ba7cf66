import BpfBroker.Acknowledge

/-! # Topic Buffers without a Terminator

    The main loops copy a topic into the 20 bytes of `topic_key` and hand the
    buffer to functions that read up to a NUL. The copy keeps 20 bytes of a
    name, not 19: a name of that length fills the buffer, and its readers go
    on in the memory behind it. -/

namespace BpfBroker

open CString

/-! ### What is read -/

/-- The memory from `topic_key` on, as it is passed to the command's function
    and to the format of the reply. -/
def Cmd.topic_name : Cmd → Option (List UInt8)
  | .register topic_name => some topic_name
  | .subscribe topic_name _ => some topic_name
  | .flush topic_name => some topic_name
  | .unknown => none

/-- The 20 bytes of `topic_key` hold a NUL, and a reader that stops there
    stays in them: `strlen` is the last index it reads. -/
structure Terminated (topic_name : List UInt8) : Prop where
  nul : NUL ∈ topic_name.take MAX_TOPIC_ID_CHARS
  inside : strlen topic_name < MAX_TOPIC_ID_CHARS

/-- `answer` may be sent back for the datagram `data`: by either broker, to
    any client, in any state of the maps, and with anything behind `topic_key`
    in memory. -/
def Answers (data answer : List UInt8) : Prop :=
  ∃ client stack,
    (∃ ord m, (Hash.serve ord ⟨data, client, stack⟩ m).1.reply = some answer) ∨
    ∃ m, (Clone.serve ⟨data, client, stack⟩ m).1.reply = some answer

/-- **The buffer is terminated** when the name has less than 20 bytes up to its
    first NUL, LF or CR. -/
theorem terminated_iff (s stack : List UInt8) {n : Nat} (hn : MAX_TOPIC_ID_CHARS ≤ n) :
    Terminated (topic_key_buffer (s.take n) ++ stack) ↔
      (ctlName s).length < MAX_TOPIC_ID_CHARS := by
  have hshort : (ctlName (s.take n)).length < MAX_TOPIC_ID_CHARS ↔
      (ctlName s).length < MAX_TOPIC_ID_CHARS := by
    rw [ctlName_take, List.length_take]
    omega
  have hlen := length_topic_key_buffer (s.take n)
  have htake : (topic_key_buffer (s.take n) ++ stack).take MAX_TOPIC_ID_CHARS =
      topic_key_buffer (s.take n) := List.take_left' hlen
  rw [← hshort]
  constructor
  · intro h
    by_contra hlong
    have hnul := h.nul
    rw [htake] at hnul
    exact topic_key_buffer_full hlong hnul
  · intro h
    have hstrlen : strlen (topic_key_buffer (s.take n) ++ stack) < MAX_TOPIC_ID_CHARS := by
      unfold strlen
      rw [text_topic_key_buffer h]
      exact h
    refine ⟨?_, hstrlen⟩
    rw [htake]
    by_contra hnot
    have hle := le_strlen (t := stack) hnot
    omega

/-! ### Parsing -/

/-- The command words. -/
def words : List (List UInt8) := [REGISTER, SUBSCRIBE, FLUSH]

/-- A word that matches in the receive buffer starts the datagram. -/
theorem exists_name {data : List UInt8} (word : List UInt8) (hw : NUL ∉ word)
    (h : strncmpEq (data.take 1023) word word.length = true) : ∃ name, data = word ++ name := by
  obtain ⟨name, hname⟩ := ((strncmpEq_iff hw).mp h).trans (List.take_prefix 1023 data)
  exact ⟨name, hname.symm⟩

/-- **What a datagram can be**: one of the words and a name, or unknown. -/
theorem word_or_unknown (data : List UInt8) :
    (∃ word ∈ words, ∃ name, data = word ++ name) ∨
      ∀ client stack, parse_request ⟨data, client, stack⟩ = .unknown := by
  by_cases hreg : strncmpEq (data.take 1023) REGISTER 9 = true
  · exact Or.inl ⟨REGISTER, by simp [words], exists_name REGISTER (by decide) hreg⟩
  by_cases hsub : strncmpEq (data.take 1023) SUBSCRIBE 10 = true
  · exact Or.inl ⟨SUBSCRIBE, by simp [words], exists_name SUBSCRIBE (by decide) hsub⟩
  by_cases hflush : strncmpEq (data.take 1023) FLUSH 6 = true
  · exact Or.inl ⟨FLUSH, by simp [words], exists_name FLUSH (by decide) hflush⟩
  right
  intro client stack
  unfold parse_request
  dsimp only
  rw [if_neg hreg, if_neg hsub, if_neg hflush]

/-- The buffer of a command is that of the name behind its word. -/
theorem topic_name_of_word {word : List UInt8} (hw : word ∈ words) (name : List UInt8)
    (client : SockAddr) (stack : List UInt8) :
    ∃ n, MAX_TOPIC_ID_CHARS ≤ n ∧ (parse_request ⟨word ++ name, client, stack⟩).topic_name =
      some (topic_key_buffer (name.take n) ++ stack) := by
  simp only [words, List.mem_cons, List.not_mem_nil, or_false] at hw
  rcases hw with rfl | rfl | rfl
  · exact ⟨1014, by decide, by rw [parse_register]; rfl⟩
  · exact ⟨1013, by decide, by rw [parse_subscribe]; rfl⟩
  · exact ⟨1017, by decide, by rw [parse_flush]; rfl⟩

/-! ### Replies -/

/-- The reply to a terminated name, whatever is behind it. -/
theorem response_buffer {s : List UInt8} {n : Nat} (hn : MAX_TOPIC_ID_CHARS ≤ n)
    (h : (ctlName s).length < MAX_TOPIC_ID_CHARS) (word stack : List UInt8) :
    response word (topic_key_buffer (s.take n) ++ stack) = (word ++ ctlName s).take 255 := by
  have hname : ctlName (s.take n) = ctlName s := by
    rw [ctlName_take, List.take_of_length_le (by omega)]
  unfold response
  rw [text_topic_key_buffer (by rw [hname]; exact h), hname]

/-- Both brokers reply through `Cmd.reply`. -/
theorem Answers.exists_reply {data answer : List UInt8} (h : Answers data answer) :
    ∃ client stack ret, (parse_request ⟨data, client, stack⟩).reply ret = some answer := by
  obtain ⟨client, stack, h⟩ := h
  rcases h with ⟨ord, m, h⟩ | ⟨m, h⟩
  · exact ⟨client, stack, _, h⟩
  · exact ⟨client, stack, _, h⟩

/-- **A short name has one reply.** -/
theorem answers_unique {data : List UInt8}
    (hshort : ∀ word ∈ words, ∀ name, data = word ++ name →
      (ctlName name).length < MAX_TOPIC_ID_CHARS) :
    ∃ x, ∀ answer, Answers data answer → answer = x := by
  rcases word_or_unknown data with ⟨word, hw, name, rfl⟩ | hunknown
  · have hname := hshort word hw name rfl
    simp only [words, List.mem_cons, List.not_mem_nil, or_false] at hw
    rcases hw with rfl | rfl | rfl
    · refine ⟨(REGACK ++ ctlName name).take 255, ?_⟩
      intro answer h
      obtain ⟨client, stack, ret, h⟩ := h.exists_reply
      rw [parse_register] at h
      unfold Cmd.reply at h
      dsimp only at h
      split at h
      · rw [response_buffer (by decide) hname] at h
        exact (Option.some.inj h).symm
      · cases h
    · refine ⟨(SUBACK ++ ctlName name).take 255, ?_⟩
      intro answer h
      obtain ⟨client, stack, ret, h⟩ := h.exists_reply
      rw [parse_subscribe] at h
      unfold Cmd.reply at h
      dsimp only at h
      rw [response_buffer (by decide) hname] at h
      exact (Option.some.inj h).symm
    · refine ⟨FLUSHED, ?_⟩
      intro answer h
      obtain ⟨client, stack, ret, h⟩ := h.exists_reply
      rw [parse_flush] at h
      exact (Option.some.inj h).symm
  · refine ⟨[], ?_⟩
    intro answer h
    obtain ⟨client, stack, ret, h⟩ := h.exists_reply
    rw [hunknown] at h
    cases h

/-- **When the topic buffer is terminated**, and the reply to a datagram follows
    from the datagram alone: a name behind REGISTER, SUBSCRIBE or FLUSH has
    less than 20 bytes up to its first NUL, LF or CR. -/
theorem topic_buffer_terminated_iff (data : List UInt8) :
    ((∀ client stack topic_name,
        (parse_request ⟨data, client, stack⟩).topic_name = some topic_name →
          Terminated topic_name) ∧
      ∀ answer answer', Answers data answer → Answers data answer' → answer = answer') ↔
    ∀ word ∈ words, ∀ name, data = word ++ name →
      (ctlName name).length < MAX_TOPIC_ID_CHARS := by
  constructor
  · intro h word hw name hdata
    obtain ⟨n, hn, htopic⟩ := topic_name_of_word hw name ⟨0, 0⟩ []
    rw [← hdata] at htopic
    exact (terminated_iff name [] hn).mp (h.1 ⟨0, 0⟩ [] _ htopic)
  · intro hshort
    refine ⟨?_, ?_⟩
    · intro client stack topic_name h
      rcases word_or_unknown data with ⟨word, hw, name, rfl⟩ | hunknown
      · obtain ⟨n, hn, htopic⟩ := topic_name_of_word hw name client stack
        rw [← Option.some.inj (htopic.symm.trans h), terminated_iff name stack hn]
        exact hshort word hw name rfl
      · rw [hunknown] at h
        cases h
    · obtain ⟨x, hx⟩ := answers_unique hshort
      intro answer answer' h h'
      rw [hx answer h, hx answer' h']

/-- A SUBSCRIBE of a name of 20 bytes: the buffer has no NUL in it, and a byte
    of the stack comes back to the client. -/
theorem suback_leaks_stack :
    (∃ topic_name, (parse_request ⟨SUBSCRIBE ++ List.replicate 20 97, ⟨0x0800000a, 0x8813⟩,
        [42]⟩).topic_name = some topic_name ∧ ¬ Terminated topic_name) ∧
    (Hash.serve Hash.listed ⟨SUBSCRIBE ++ List.replicate 20 97, ⟨0x0800000a, 0x8813⟩, [42]⟩
        .empty).1.reply = some (SUBACK ++ List.replicate 20 97 ++ [42]) ∧
    (Clone.serve ⟨SUBSCRIBE ++ List.replicate 20 97, ⟨0x0800000a, 0x8813⟩, [43]⟩
        .empty).1.reply = some (SUBACK ++ List.replicate 20 97 ++ [43]) := by
  refine ⟨?_, by decide +kernel, by decide +kernel⟩
  refine ⟨_, rfl, ?_⟩
  intro h
  exact absurd h.nul (by decide +kernel)

end BpfBroker
