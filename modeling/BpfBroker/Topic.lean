import BpfBroker.Lib.CString

/-! # Topic Keys

    Every topic map of both brokers is keyed by a `char[MAX_TOPIC_ID_CHARS]`,
    a zero-padded buffer of 20 bytes. Two programs compute such a key from
    received bytes, each with its own tokenizer:

    * the control process (`bpf_broker_proto.c`) from a REGISTER, SUBSCRIBE
      or FLUSH datagram, with `strnlen`, `strncpy` and a loop that cuts the
      name at the first LF or CR;
    * the kernel programs (`bpf_broker_kern.c`) from a PUBLISH frame, with
      `extract_topic_id`. -/

namespace BpfBroker

open CString

def MAX_TOPIC_ID_CHARS : Nat := 20

abbrev SP : UInt8 := 32
abbrev LF : UInt8 := 10
abbrev CR : UInt8 := 13

/-- The key of the topic maps: exactly 20 bytes. -/
structure TopicKey where
  bytes : List UInt8
  length_eq : bytes.length = MAX_TOPIC_ID_CHARS
  deriving DecidableEq

namespace TopicKey

theorem ext_bytes {a b : TopicKey} (h : a.bytes = b.bytes) : a = b := by
  cases a; cases b; cases h; rfl

/-- Store one byte; the length stays. -/
def set (k : TopicKey) (i : Nat) (c : UInt8) : TopicKey :=
  ⟨k.bytes.set i c, by rw [List.length_set]; exact k.length_eq⟩

/-- A zeroed buffer with `name` copied into it. -/
def ofName (name : List UInt8) : TopicKey :=
  ⟨(name ++ List.replicate MAX_TOPIC_ID_CHARS NUL).take MAX_TOPIC_ID_CHARS, by simp⟩

/-- The zeroed buffer. -/
def zero : TopicKey := ofName []

theorem ofName_bytes {name : List UInt8} (h : name.length ≤ MAX_TOPIC_ID_CHARS) :
    (ofName name).bytes = name ++ List.replicate (MAX_TOPIC_ID_CHARS - name.length) NUL := by
  show (name ++ List.replicate MAX_TOPIC_ID_CHARS NUL).take MAX_TOPIC_ID_CHARS = _
  rw [List.take_append, List.take_of_length_le h, List.take_replicate]
  congr 2
  omega

/-- Short names without NUL are told apart by their keys. -/
theorem ofName_injective {a b : List UInt8} (ha : a.length < MAX_TOPIC_ID_CHARS)
    (hb : b.length < MAX_TOPIC_ID_CHARS) (ha0 : NUL ∉ a) (hb0 : NUL ∉ b)
    (h : ofName a = ofName b) : a = b := by
  have hbytes := congrArg TopicKey.bytes h
  rw [ofName_bytes ha.le, ofName_bytes hb.le] at hbytes
  obtain ⟨m, hm⟩ := Nat.exists_eq_succ_of_ne_zero (Nat.sub_ne_zero_of_lt ha)
  obtain ⟨n, hn⟩ := Nat.exists_eq_succ_of_ne_zero (Nat.sub_ne_zero_of_lt hb)
  rw [hm, hn, List.replicate_succ, List.replicate_succ] at hbytes
  have := congrArg text hbytes
  rwa [text_append_nul ha0, text_append_nul hb0] at this

/-- Storing the next byte of a name. -/
theorem ofName_set {name : List UInt8} (h : name.length < MAX_TOPIC_ID_CHARS) (c : UInt8) :
    (ofName name).set name.length c = ofName (name ++ [c]) := by
  apply ext_bytes
  have hlen : (name ++ [c]).length ≤ MAX_TOPIC_ID_CHARS := by simp; omega
  obtain ⟨m, hm⟩ := Nat.exists_eq_succ_of_ne_zero (Nat.sub_ne_zero_of_lt h)
  have hm' : MAX_TOPIC_ID_CHARS - (name ++ [c]).length = m := by simp; omega
  show (ofName name).bytes.set name.length c = _
  rw [ofName_bytes h.le, ofName_bytes hlen, hm, hm', List.replicate_succ,
    List.set_append_right _ _ (Nat.le_refl _), Nat.sub_self]
  simp

/-- Storing a NUL where the name ends changes nothing. -/
theorem ofName_set_nul {name : List UInt8} (h : name.length < MAX_TOPIC_ID_CHARS) :
    (ofName name).set name.length NUL = ofName name := by
  apply ext_bytes
  obtain ⟨m, hm⟩ := Nat.exists_eq_succ_of_ne_zero (Nat.sub_ne_zero_of_lt h)
  show (ofName name).bytes.set name.length NUL = _
  rw [ofName_bytes h.le, hm, List.replicate_succ,
    List.set_append_right _ _ (Nat.le_refl _), Nat.sub_self]
  simp

/-- The last byte of a full buffer is overwritten by the terminator. -/
theorem ofName_set_last {name : List UInt8} (h : name.length = MAX_TOPIC_ID_CHARS) :
    (ofName name).set (MAX_TOPIC_ID_CHARS - 1) NUL =
      ofName (name.take (MAX_TOPIC_ID_CHARS - 1)) := by
  apply ext_bytes
  have hlast : (name.take (MAX_TOPIC_ID_CHARS - 1)).length = MAX_TOPIC_ID_CHARS - 1 := by
    rw [List.length_take, h]; rfl
  show (ofName name).bytes.set (MAX_TOPIC_ID_CHARS - 1) NUL = _
  rw [ofName_bytes h.le, ofName_bytes (by rw [hlast]; decide), hlast, h, Nat.sub_self,
    List.replicate_zero, List.append_nil, List.set_eq_take_append_cons_drop, if_pos (by rw [h]; decide),
    List.drop_of_length_le (by rw [h]; decide)]
  rfl

end TopicKey

/-! ### The control process's tokenizer -/

/-- The bytes at which the main loop cuts a name. -/
def isNewline (b : UInt8) : Bool := b = LF ∨ b = CR

/-- The trimming loop of the main loop: the first LF or CR becomes NUL, and
    the loop stops there. -/
def trim_newline : List UInt8 → List UInt8
  | [] => []
  | b :: bs => if isNewline b then NUL :: bs else b :: trim_newline bs

/-- The buffer `topic_key` the main loop builds from the bytes after the
    command word. -/
def topic_key_buffer (topic_raw : List UInt8) : List UInt8 :=
  let topic_len := strnlen topic_raw MAX_TOPIC_ID_CHARS
  let topic_key := strncpy (List.replicate MAX_TOPIC_ID_CHARS NUL) topic_raw topic_len
  trim_newline topic_key

/-- The key that `add_topic`, `add_subscriber` and `flush_topic` build from
    their argument; `none` is the early return for names that are too long.
    `topic_name` is the memory the pointer points to, past the 20 bytes of
    the caller's buffer if nothing terminates it before. -/
def topic_key_of (topic_name : List UInt8) : Option TopicKey :=
  let len := strlen topic_name
  if len ≥ MAX_TOPIC_ID_CHARS then none else some (TopicKey.ofName (topic_name.take len))

/-! ### The kernel's tokenizer -/

/-- The bytes that end a topic in a PUBLISH payload. -/
def isDelim (c : UInt8) : Bool := c = SP ∨ c = NUL ∨ c = LF

/-- The loop of `extract_topic_id`, at index `i` with `n` iterations left. -/
def extract_topic_loop (s : List UInt8) : (n i : Nat) → TopicKey → Option TopicKey
  | 0, _, out_id => some (out_id.set (MAX_TOPIC_ID_CHARS - 1) NUL)
  | n + 1, i, out_id =>
    match s[i]? with
    | none => none
    | some c =>
      if isDelim c then some (out_id.set i NUL)
      else extract_topic_loop s n (i + 1) (out_id.set i c)

/-- `extract_topic_id` on the bytes from `s` up to the end of the frame, into
    a zeroed `out_id`; `none` is the return value -1. -/
def extract_topic_id (s : List UInt8) : Option TopicKey :=
  extract_topic_loop s MAX_TOPIC_ID_CHARS 0 TopicKey.zero

/-! ### What the tokenizers compute -/

/-- The name the control process reads: up to the first NUL, LF or CR. -/
def ctlName (topic_raw : List UInt8) : List UInt8 :=
  topic_raw.takeWhile fun b => !isNewline b && b ≠ NUL

/-- The topic the kernel reads: up to the first space, NUL or LF. -/
def pubName (s : List UInt8) : List UInt8 := s.takeWhile fun c => !isDelim c

theorem ctlName_take (s : List UInt8) (n : Nat) : ctlName (s.take n) = (ctlName s).take n := by
  unfold ctlName
  rw [List.take_takeWhile]

/-- The trimming loop ends the string at the first LF or CR, provided there
    is one or the buffer has a zero left. -/
theorem text_trim_newline {name : List UInt8} (h0 : NUL ∉ name) (m : Nat) (stack : List UInt8)
    (h : name.takeWhile (fun b => !isNewline b) ≠ name ∨ 0 < m) :
    text (trim_newline (name ++ List.replicate m NUL) ++ stack) =
      name.takeWhile fun b => !isNewline b := by
  induction name with
  | nil =>
    obtain ⟨m, rfl⟩ := Nat.exists_eq_succ_of_ne_zero
      (Nat.pos_iff_ne_zero.mp (h.resolve_left (fun h => h rfl)))
    rfl
  | cons b name ih =>
    have hb : b ≠ NUL := fun hb => h0 (by simp [hb])
    have h0' : NUL ∉ name := fun hmem => h0 (by simp [hmem])
    rw [List.cons_append, trim_newline]
    by_cases hnl : isNewline b = true
    · rw [if_pos hnl, List.takeWhile_cons_of_neg (by simpa using hnl)]
      rfl
    · rw [List.takeWhile_cons_of_pos (by simpa using hnl)] at h ⊢
      have ih' := ih h0' (h.imp_left fun hne heq => hne (by rw [heq]))
      rw [if_neg hnl, List.cons_append]
      unfold text at ih' ⊢
      rw [List.takeWhile_cons_of_pos (by simpa using hb), ih']

/-- A buffer without LF or CR is left alone. -/
theorem length_trim_newline (bs : List UInt8) : (trim_newline bs).length = bs.length := by
  induction bs with
  | nil => rfl
  | cons b bs ih =>
    rw [trim_newline]
    split
    · rfl
    · rw [List.length_cons, List.length_cons, ih]

theorem trim_newline_eq_self {name : List UInt8}
    (h : name.takeWhile (fun b => !isNewline b) = name) : trim_newline name = name := by
  induction name with
  | nil => rfl
  | cons b name ih =>
    rw [List.takeWhile_eq_self_iff] at h
    have hb : ¬ isNewline b = true := by simpa using h b (by simp)
    have hrest : name.takeWhile (fun b => !isNewline b) = name := by
      rw [List.takeWhile_eq_self_iff]
      exact fun x hx => h x (by simp [hx])
    rw [trim_newline, if_neg hb, ih hrest]

/-- The copy `strncpy` makes: the name up to the first NUL, at most 20
    bytes, padded with zeros. -/
theorem strncpy_buffer (topic_raw : List UInt8) :
    strncpy (List.replicate MAX_TOPIC_ID_CHARS NUL) topic_raw
        (strnlen topic_raw MAX_TOPIC_ID_CHARS) =
      text (topic_raw.take MAX_TOPIC_ID_CHARS) ++
        List.replicate
          (MAX_TOPIC_ID_CHARS - (text (topic_raw.take MAX_TOPIC_ID_CHARS)).length) NUL := by
  generalize hT : text (topic_raw.take MAX_TOPIC_ID_CHARS) = T
  have hlen : strnlen topic_raw MAX_TOPIC_ID_CHARS = T.length := by rw [← hT]; rfl
  have hpre : T <+: topic_raw := by
    rw [← hT]
    exact (List.takeWhile_prefix _).trans (List.take_prefix _ _)
  have htake : topic_raw.take T.length = T := (List.prefix_iff_eq_take.mp hpre).symm
  have hT0 : NUL ∉ T := by
    intro hmem
    rw [← hT] at hmem
    simpa using List.mem_takeWhile_imp hmem
  rw [hlen]
  unfold strncpy
  simp only [htake, text_eq_self hT0, Nat.sub_self, List.replicate_zero, List.append_nil,
    List.drop_replicate]

/-- What `strncpy` copies has no NUL and fits the buffer; the two cuts, at NUL
    and at a newline, together give the name. -/
theorem text_take_spec (topic_raw : List UInt8) :
    NUL ∉ text (topic_raw.take MAX_TOPIC_ID_CHARS) ∧
      (text (topic_raw.take MAX_TOPIC_ID_CHARS)).length ≤ MAX_TOPIC_ID_CHARS ∧
      (text (topic_raw.take MAX_TOPIC_ID_CHARS)).takeWhile (fun b => !isNewline b) =
        (ctlName topic_raw).take MAX_TOPIC_ID_CHARS := by
  refine ⟨?_, ?_, ?_⟩
  · intro hmem
    simpa using List.mem_takeWhile_imp hmem
  · exact (List.takeWhile_prefix _).length_le.trans (by rw [List.length_take]; omega)
  · unfold text ctlName
    rw [List.takeWhile_takeWhile, List.take_takeWhile]
    simp

theorem length_topic_key_buffer (topic_raw : List UInt8) :
    (topic_key_buffer topic_raw).length = MAX_TOPIC_ID_CHARS := by
  have hlen := (text_take_spec topic_raw).2.1
  unfold topic_key_buffer
  simp only [strncpy_buffer, length_trim_newline, List.length_append, List.length_replicate]
  omega

/-- A name of less than 20 bytes is terminated in the buffer. -/
theorem text_topic_key_buffer {topic_raw : List UInt8}
    (h : (ctlName topic_raw).length < MAX_TOPIC_ID_CHARS) (stack : List UInt8) :
    text (topic_key_buffer topic_raw ++ stack) = ctlName topic_raw := by
  obtain ⟨hT0, -, hname⟩ := text_take_spec topic_raw
  unfold topic_key_buffer
  simp only [strncpy_buffer]
  generalize text (topic_raw.take MAX_TOPIC_ID_CHARS) = T at hT0 hname ⊢
  rw [List.take_of_length_le h.le] at hname
  rw [text_trim_newline hT0 (MAX_TOPIC_ID_CHARS - T.length) stack, hname]
  by_cases heq : T.takeWhile (fun b => !isNewline b) = T
  · right
    rw [← heq, hname]
    omega
  · exact Or.inl heq

/-- A longer one fills the buffer, and nothing terminates it. -/
theorem topic_key_buffer_full {topic_raw : List UInt8}
    (h : ¬ (ctlName topic_raw).length < MAX_TOPIC_ID_CHARS) :
    NUL ∉ topic_key_buffer topic_raw := by
  obtain ⟨hT0, hTlen, hname⟩ := text_take_spec topic_raw
  unfold topic_key_buffer
  simp only [strncpy_buffer]
  generalize text (topic_raw.take MAX_TOPIC_ID_CHARS) = T at hT0 hTlen hname ⊢
  have hfull : ((ctlName topic_raw).take MAX_TOPIC_ID_CHARS).length = MAX_TOPIC_ID_CHARS := by
    rw [List.length_take]
    omega
  have hTT : T.takeWhile (fun b => !isNewline b) = T := by
    apply (List.takeWhile_prefix _).eq_of_length
    have hle := (List.takeWhile_prefix (l := T) (fun b => !isNewline b)).length_le
    rw [hname, hfull] at hle ⊢
    omega
  have hT20 : T.length = MAX_TOPIC_ID_CHARS := by rw [← hTT, hname, hfull]
  rw [hT20, Nat.sub_self, List.replicate_zero, List.append_nil, trim_newline_eq_self hTT]
  exact hT0

/-- **The control key**: the name up to the first NUL, LF or CR, zero-padded;
    refused when it has 20 bytes or more, whatever follows the buffer in
    memory. -/
theorem topic_key_of_buffer (topic_raw stack : List UInt8) :
    topic_key_of (topic_key_buffer topic_raw ++ stack) =
      if (ctlName topic_raw).length < MAX_TOPIC_ID_CHARS then
        some (TopicKey.ofName (ctlName topic_raw))
      else none := by
  unfold topic_key_of
  by_cases hshort : (ctlName topic_raw).length < MAX_TOPIC_ID_CHARS
  · have htext := text_topic_key_buffer hshort stack
    have hpre : text (topic_key_buffer topic_raw ++ stack) <+: topic_key_buffer topic_raw ++ stack :=
      List.takeWhile_prefix _
    have htake := List.prefix_iff_eq_take.mp hpre
    rw [htext] at htake
    simp only [strlen, htext, if_pos hshort]
    rw [if_neg (Nat.not_le.mpr hshort), ← htake]
  · have hle := le_strlen (t := stack) (topic_key_buffer_full hshort)
    rw [length_topic_key_buffer] at hle
    rw [if_neg hshort, if_pos hle]

/-- The extraction loop after the bytes `pre` have been copied. -/
theorem extract_topic_loop_eq (pre suf : List UInt8) (n : Nat)
    (hn : pre.length + n = MAX_TOPIC_ID_CHARS) :
    extract_topic_loop (pre ++ suf) n pre.length (TopicKey.ofName pre) =
      if (pubName suf).length < suf.length ∨ n ≤ (pubName suf).length then
        some (TopicKey.ofName ((pre ++ pubName suf).take (MAX_TOPIC_ID_CHARS - 1)))
      else none := by
  induction n generalizing pre suf with
  | zero =>
    have hpre : (pre ++ pubName suf).take (MAX_TOPIC_ID_CHARS - 1) =
        pre.take (MAX_TOPIC_ID_CHARS - 1) := by
      rw [List.take_append_of_le_length]
      omega
    rw [if_pos (Or.inr (Nat.zero_le _)), hpre, extract_topic_loop,
      TopicKey.ofName_set_last (by omega)]
  | succ n ih =>
    have hlt : pre.length < MAX_TOPIC_ID_CHARS := by omega
    rw [extract_topic_loop, List.getElem?_append_right (Nat.le_refl _), Nat.sub_self]
    cases suf with
    | nil =>
      rw [if_neg]
      · rfl
      · simp [pubName]
    | cons c suf =>
      simp only [List.getElem?_cons_zero]
      by_cases hc : isDelim c = true
      · have hnil : pubName (c :: suf) = [] := List.takeWhile_cons_of_neg (by simpa using hc)
        rw [if_pos hc, hnil, if_pos (Or.inl (by simp)), TopicKey.ofName_set_nul hlt,
          List.append_nil, List.take_of_length_le (by omega)]
      · have hcons : pubName (c :: suf) = c :: pubName suf :=
          List.takeWhile_cons_of_pos (by simpa using hc)
        have hlen : (pre ++ [c]).length = pre.length + 1 := by simp
        have ih' := ih (pre ++ [c]) suf (by omega)
        rw [if_neg hc, hcons, TopicKey.ofName_set hlt]
        rw [hlen, List.append_assoc, List.append_assoc, List.singleton_append,
          List.singleton_append] at ih'
        rw [ih']
        simp only [List.length_cons, Nat.add_lt_add_iff_right, Nat.add_le_add_iff_right]

/-- **The kernel key**: the first 19 bytes of the topic, zero-padded; refused
    when the frame ends before the topic does. -/
theorem extract_topic_id_eq (s : List UInt8) :
    extract_topic_id s =
      if (pubName s).length < s.length ∨ MAX_TOPIC_ID_CHARS ≤ (pubName s).length then
        some (TopicKey.ofName ((pubName s).take (MAX_TOPIC_ID_CHARS - 1)))
      else none :=
  extract_topic_loop_eq [] s MAX_TOPIC_ID_CHARS rfl

end BpfBroker
