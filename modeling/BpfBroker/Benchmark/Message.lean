import Mathlib.Data.BitVec
import BpfBroker.Lib.Decimal
import BpfBroker.UserSpace

/-! # Benchmark Messages

    The publishers of `pubsub-benchmark` put a timestamp and a sequence number
    into each message, and the subscribers read them back from the copies they
    receive. -/

namespace BpfBroker.Benchmark

open Text Decimal

/-! ### Reading

    Where a slice would be out of range the program panics; the functions are
    `none` there. -/

/-- `&msg[a..b]`. -/
def slice (msg : List UInt8) (a b : Nat) : Option (List UInt8) :=
  if a ≤ b ∧ b ≤ msg.length then some ((msg.drop a).take (b - a)) else none

/-- The loop of `parse_decimal_u64` and `parse_decimal_u128`, for an integer
    of `w` bits. The arithmetic wraps. -/
def decimal_loop {w : Nat} : List UInt8 → BitVec w → Option (BitVec w)
  | [], val => some val
  | b :: bytes, val =>
    if b < 48 ∨ 57 < b then none
    else decimal_loop bytes (val * 10 + BitVec.ofNat w (b - 48).toNat)

def parse_decimal (w : Nat) (bytes : List UInt8) : Option (BitVec w) :=
  if bytes.isEmpty then none else decimal_loop bytes 0

def parse_decimal_u64 : List UInt8 → Option (BitVec 64) := parse_decimal 64

def parse_decimal_u128 : List UInt8 → Option (BitVec 128) := parse_decimal 128

/-- The loop of `parse_timestamp_ns` and `parse_seq_number`: the bytes behind
    the `k`-th space, up to the next one or the end of the message. -/
def field_loop (k : Nat) (msg : List UInt8) :
    List UInt8 → Nat → Nat → Nat → Option (Option (List UInt8))
  | [], _, spaces, start =>
    if spaces = k ∧ start < msg.length then (slice msg start msg.length).map some else some none
  | b :: rest, i, spaces, start =>
    if b = SP then
      if spaces + 1 = k then field_loop k msg rest (i + 1) (spaces + 1) (i + 1)
      else if spaces + 1 = k + 1 then (slice msg start i).map some
      else field_loop k msg rest (i + 1) (spaces + 1) start
    else field_loop k msg rest (i + 1) spaces start

def parse_timestamp_ns (msg : List UInt8) : Option (Option (BitVec 128)) :=
  (field_loop 2 msg msg 0 0 0).map fun field => field.bind parse_decimal_u128

def parse_seq_number (msg : List UInt8) : Option (Option (BitVec 64)) :=
  (field_loop 3 msg msg 0 0 0).map fun field => field.bind parse_decimal_u64

/-! ### Writing -/

/-- The loop of `write_u128_fixed`: the digits of `v` from the right, below
    `pos`. -/
def digit_loop : Nat → Nat → List UInt8 → Option (Nat × List UInt8)
  | 0, v, tmp => if v > 0 then none else some (0, tmp)
  | pos + 1, v, tmp =>
    if v > 0 then digit_loop pos (v / 10) (tmp.set pos (UInt8.ofNat (48 + v % 10)))
    else some (pos + 1, tmp)

/-- `digits` of `write_u128_fixed`: `tmp` from the first digit of `val` on. -/
def decimal_digits (val : BitVec 128) : Option (List UInt8) :=
  let tmp := List.replicate 39 48
  let written := if val = 0 then some (38, tmp.set 38 48) else digit_loop 39 val.toNat tmp
  written.map fun (pos, tmp) => tmp.drop pos

/-- `write_u128_fixed`: the new bytes of `buf`. -/
def write_u128_fixed (buf : List UInt8) (val : BitVec 128) : Option (List UInt8) := do
  let width := buf.length
  let digits ← decimal_digits val
  let dlen := digits.length
  if dlen ≥ width then return digits.drop (dlen - width)
  else
    let pad := width - dlen
    return List.replicate pad 48 ++ digits

def TS_LEN : Nat := 20

def SEQ_LEN : Nat := 10

/-- The text in front of the timestamp. -/
def head (topic : List Char) : List UInt8 := utf8 ("PUBLISH ".toList ++ (topic ++ [' ']))

/-- The buffer of a packet before its first use. -/
def msg_template (topic : List Char) (payload : List UInt8) : List UInt8 :=
  head topic ++ (List.replicate TS_LEN 48 ++ SP :: (List.replicate SEQ_LEN 48 ++ SP :: payload))

/-- `write_u128_fixed(&mut buf[start..start + len], val)`. -/
def write_field (buf : List UInt8) (start len : Nat) (val : BitVec 128) : Option (List UInt8) := do
  let field ← slice buf start (start + len)
  let field ← write_u128_fixed field val
  return buf.take start ++ (field ++ buf.drop (start + len))

/-- A packet is filled in for the next batch; its buffer still has what the
    last batch wrote. -/
def fill (topic : List Char) (buf : List UInt8) (now_ns : BitVec 128) (seq : BitVec 64) :
    Option (List UInt8) := do
  let ts_start := (head topic).length
  let seq_start := ts_start + TS_LEN + 1
  let buf ← write_field buf ts_start TS_LEN now_ns
  write_field buf seq_start SEQ_LEN (seq.setWidth 128)

/-- The buffer of a packet after the given batches. -/
def msg_buf (topic : List Char) (payload : List UInt8) (batches : List (BitVec 128 × BitVec 64)) :
    Option (List UInt8) :=
  batches.foldlM (fun buf batch => fill topic buf batch.1 batch.2) (msg_template topic payload)

/-! ### What is written -/

/-- **The digits**: from `pos` down, as many as the number has. -/
theorem digit_loop_eq {pos v : Nat} (tmp : List UInt8) (hv : v < 10 ^ pos)
    (hlen : pos ≤ tmp.length) :
    ∃ n tmp', n ≤ pos ∧ v < 10 ^ n ∧ digit_loop pos v tmp = some (pos - n, tmp') ∧
      tmp'.drop (pos - n) = fixed n v ++ tmp.drop pos := by
  induction pos generalizing v tmp with
  | zero =>
    have hzero : v = 0 := by omega
    refine ⟨0, tmp, Nat.le_refl 0, hv, ?_, rfl⟩
    rw [digit_loop, if_neg (by omega)]
  | succ pos ih =>
    rw [digit_loop]
    split
    · have hnext : v / 10 < 10 ^ pos := by
        rw [Nat.pow_succ] at hv
        omega
      obtain ⟨n, tmp', hn, hvn, hrun, hdrop⟩ :=
        ih (tmp.set pos (UInt8.ofNat (48 + v % 10))) hnext (by rw [List.length_set]; omega)
      have hpos : pos + 1 - (n + 1) = pos - n := by omega
      refine ⟨n + 1, tmp', by omega, ?_, by rw [hpos]; exact hrun, ?_⟩
      · rw [Nat.pow_succ]
        omega
      · -- the digit just stored comes behind the ones still to come
        rw [hpos, hdrop, fixed, List.append_assoc,
          List.drop_eq_getElem_cons (by rw [List.length_set]; omega), List.getElem_set_self,
          List.drop_set_of_lt (by omega)]
        rfl
    · have hzero : v = 0 := by omega
      exact ⟨0, tmp, Nat.zero_le _, by rw [hzero]; exact Nat.one_pos, rfl, rfl⟩

theorem decimal_digits_eq (val : BitVec 128) :
    ∃ n, val.toNat < 10 ^ n ∧ decimal_digits val = some (fixed n val.toNat) := by
  unfold decimal_digits
  dsimp only
  split
  · next hzero =>
    rw [hzero]
    exact ⟨1, by decide, rfl⟩
  · -- a number of 128 bits has at most 39 digits
    have hlt : val.toNat < 10 ^ 39 := Nat.lt_trans val.isLt (by decide)
    obtain ⟨n, tmp', -, hvn, hrun, hdrop⟩ :=
      digit_loop_eq (List.replicate 39 48) hlt (by rw [List.length_replicate])
    refine ⟨n, hvn, ?_⟩
    rw [hrun, Option.map_some, hdrop, List.drop_replicate, Nat.sub_self, List.replicate_zero,
      List.append_nil]

/-- **`write_u128_fixed`** writes the last digits that fit. -/
theorem write_u128_fixed_eq (buf : List UInt8) (val : BitVec 128) :
    write_u128_fixed buf val = some (fixed buf.length val.toNat) := by
  obtain ⟨n, hvn, hdigits⟩ := decimal_digits_eq val
  unfold write_u128_fixed
  simp only [hdigits, Option.bind_eq_bind, Option.bind_some, length_fixed]
  split
  · have hcut := drop_fixed (n - buf.length) buf.length val.toNat
    rw [Nat.sub_add_cancel (by omega)] at hcut
    exact congrArg some hcut
  · have hpad := replicate_append_fixed (buf.length - n) hvn
    rw [Nat.sub_add_cancel (by omega)] at hpad
    exact congrArg some hpad

/-- The message with the given fields. -/
def message (topic : List Char) (ts q : Nat) (payload : List UInt8) : List UInt8 :=
  head topic ++ (fixed TS_LEN ts ++ SP :: (fixed SEQ_LEN q ++ SP :: payload))

theorem msg_template_eq (topic : List Char) (payload : List UInt8) :
    msg_template topic payload = message topic 0 0 payload := by
  unfold msg_template message
  rw [fixed_zero, fixed_zero]
  rfl

/-- Writing a field in place. -/
theorem write_field_eq (a field b : List UInt8) (val : BitVec 128) :
    write_field (a ++ (field ++ b)) a.length field.length val =
      some (a ++ (fixed field.length val.toNat ++ b)) := by
  have hslice : slice (a ++ (field ++ b)) a.length (a.length + field.length) = some field := by
    unfold slice
    rw [if_pos ⟨by omega, by simp⟩, List.drop_left, Nat.add_sub_cancel_left, List.take_left]
  have hdrop : (a ++ (field ++ b)).drop (a.length + field.length) = b := by
    rw [← List.append_assoc]
    exact List.drop_left' (by rw [List.length_append])
  unfold write_field
  rw [hslice]
  simp only [Option.bind_eq_bind, Option.bind_some, write_u128_fixed_eq]
  rw [List.take_left, hdrop]
  rfl

/-- **A packet is filled in**, whatever it had before. -/
theorem fill_message (topic : List Char) (ts q : Nat) (payload : List UInt8) (now_ns : BitVec 128)
    (seq : BitVec 64) :
    fill topic (message topic ts q payload) now_ns seq =
      some (message topic now_ns.toNat seq.toNat payload) := by
  have hts := write_field_eq (head topic) (fixed TS_LEN ts)
    (SP :: (fixed SEQ_LEN q ++ SP :: payload)) now_ns
  have hseq := write_field_eq (head topic ++ (fixed TS_LEN now_ns.toNat ++ [SP])) (fixed SEQ_LEN q)
    (SP :: payload) (seq.setWidth 128)
  rw [length_fixed] at hts hseq
  have hstart : (head topic ++ (fixed TS_LEN now_ns.toNat ++ [SP])).length =
      (head topic).length + TS_LEN + 1 := by
    rw [List.length_append, List.length_append, length_fixed, List.length_singleton]
    omega
  have hval : (seq.setWidth 128).toNat = seq.toNat := by
    rw [BitVec.toNat_setWidth, Nat.mod_eq_of_lt (Nat.lt_trans seq.isLt (by decide))]
  rw [hstart, hval] at hseq
  unfold fill message
  simp only [hts, Option.bind_eq_bind, Option.bind_some]
  simp only [List.append_assoc, List.singleton_append] at hseq
  exact hseq

/-- **Every message sent** has the fields of its batch. -/
theorem msg_buf_eq (topic : List Char) (payload : List UInt8)
    (batches : List (BitVec 128 × BitVec 64)) (ts : BitVec 128) (q : BitVec 64) :
    msg_buf topic payload (batches ++ [(ts, q)]) =
      some (message topic ts.toNat q.toNat payload) := by
  have hrun : ∀ (batches : List (BitVec 128 × BitVec 64)) (a b : Nat), ∃ a' b',
      batches.foldlM (fun buf batch => fill topic buf batch.1 batch.2)
        (message topic a b payload) = some (message topic a' b' payload) := by
    intro batches
    induction batches with
    | nil =>
      intro a b
      exact ⟨a, b, rfl⟩
    | cons batch batches ih =>
      intro a b
      simp only [List.foldlM_cons, fill_message, Option.bind_eq_bind, Option.bind_some]
      exact ih _ _
  obtain ⟨a, b, hbefore⟩ := hrun batches 0 0
  unfold msg_buf
  rw [msg_template_eq, List.foldlM_append, hbefore]
  simp only [Option.bind_eq_bind, Option.bind_some, List.foldlM_cons, fill_message, List.foldlM_nil]
  rfl

/-! ### What is read -/

/-- **No slice is out of range**, whatever the message. -/
theorem field_loop_isSome {k : Nat} {msg rest : List UInt8} {i spaces start : Nat}
    (hstart : start ≤ i) (hrest : i + rest.length = msg.length) :
    (field_loop k msg rest i spaces start).isSome := by
  have hslice : ∀ {a b}, a ≤ b → b ≤ msg.length → ((slice msg a b).map some).isSome := by
    intro a b hab hb
    unfold slice
    rw [if_pos ⟨hab, hb⟩]
    rfl
  induction rest generalizing i spaces start with
  | nil =>
    rw [field_loop]
    split
    · next hend => exact hslice hend.2.le (Nat.le_refl _)
    · rfl
  | cons b rest ih =>
    rw [List.length_cons] at hrest
    rw [field_loop]
    split
    · split
      · exact ih (Nat.le_refl _) (by omega)
      split
      · exact hslice hstart (by omega)
      · exact ih (by omega) (by omega)
    · exact ih (by omega) (by omega)

theorem parse_timestamp_ns_isSome (msg : List UInt8) : (parse_timestamp_ns msg).isSome := by
  unfold parse_timestamp_ns
  rw [Option.isSome_map]
  exact field_loop_isSome (Nat.le_refl 0) (Nat.zero_add _)

theorem parse_seq_number_isSome (msg : List UInt8) : (parse_seq_number msg).isSome := by
  unfold parse_seq_number
  rw [Option.isSome_map]
  exact field_loop_isSome (Nat.le_refl 0) (Nat.zero_add _)

section scan
variable {k i spaces start : Nat} {msg rest : List UInt8}

/-- Up to the `k`-th space nothing happens, -/
theorem field_loop_append {pre : List UInt8} (h : spaces + pre.count SP < k) :
    field_loop k msg (pre ++ rest) i spaces start =
      field_loop k msg rest (i + pre.length) (spaces + pre.count SP) start := by
  induction pre generalizing i spaces with
  | nil => rfl
  | cons b pre ih =>
    rw [List.cons_append, field_loop, List.length_cons]
    by_cases hb : b = SP
    · rw [hb, List.count_cons_self] at h ⊢
      rw [if_pos rfl, if_neg (by omega), if_neg (by omega), ih (by omega)]
      congr 1 <;> omega
    · rw [List.count_cons_of_ne hb] at h ⊢
      rw [if_neg hb, ih h]
      congr 1
      omega

/-- nor in a field without spaces. -/
theorem field_loop_field {field : List UInt8} (h : SP ∉ field) :
    field_loop k msg (field ++ rest) i spaces start =
      field_loop k msg rest (i + field.length) spaces start := by
  induction field generalizing i with
  | nil => rfl
  | cons b field ih =>
    have hb : b ≠ SP := fun heq => h (by rw [heq]; exact List.mem_cons_self)
    rw [List.cons_append, field_loop, if_neg hb, ih fun hmem => h (List.mem_cons_of_mem _ hmem),
      List.length_cons]
    congr 1
    omega

end scan

/-- A slice that is in range. -/
theorem slice_field (pre field rest : List UInt8) :
    slice (pre ++ SP :: (field ++ rest)) (pre.length + 1) (pre.length + 1 + field.length) =
      some field := by
  have hdrop : (pre ++ SP :: (field ++ rest)).drop (pre.length + 1) = field ++ rest := by
    rw [← List.drop_drop, List.drop_left]
    rfl
  unfold slice
  rw [if_pos ⟨by omega, by simp; omega⟩, hdrop, Nat.add_sub_cancel_left, List.take_left]

section field
variable {pre field : List UInt8} {k : Nat} (hk : pre.count SP + 1 = k) (hf : SP ∉ field)
include hk hf

/-- The scan has come to the end of the field. -/
theorem field_loop_behind (rest : List UInt8) :
    field_loop k (pre ++ SP :: (field ++ rest)) (pre ++ SP :: (field ++ rest)) 0 0 0 =
      field_loop k (pre ++ SP :: (field ++ rest)) rest (pre.length + 1 + field.length) k
        (pre.length + 1) := by
  rw [field_loop_append (by omega), field_loop, if_pos rfl, if_pos (by omega), field_loop_field hf]
  congr 1 <;> omega

/-- **A field inside the message**, -/
theorem field_loop_inside (post : List UInt8) :
    field_loop k (pre ++ SP :: (field ++ SP :: post)) (pre ++ SP :: (field ++ SP :: post)) 0 0 0 =
      some (some field) := by
  rw [field_loop_behind hk hf, field_loop, if_pos rfl, if_neg (by omega), if_pos rfl,
    slice_field]
  rfl

/-- **and at its end.** -/
theorem field_loop_last (hne : field ≠ []) :
    field_loop k (pre ++ SP :: field) (pre ++ SP :: field) 0 0 0 = some (some field) := by
  have hpos := List.length_pos_iff.mpr hne
  have hbehind := field_loop_behind hk hf []
  have hslice := slice_field pre field []
  rw [List.append_nil] at hbehind hslice
  have hlen : (pre ++ SP :: field).length = pre.length + 1 + field.length := by
    rw [List.length_append, List.length_cons]
    omega
  rw [hbehind, field_loop, hlen, if_pos ⟨rfl, by omega⟩, hslice]
  rfl

end field

theorem decimal_loop_snoc {w : Nat} (bytes : List UInt8) (b : UInt8) (val : BitVec w) :
    decimal_loop (bytes ++ [b]) val =
      (decimal_loop bytes val).bind fun val => decimal_loop [b] val := by
  induction bytes generalizing val with
  | nil => rfl
  | cons c bytes ih =>
    rw [List.cons_append, decimal_loop, decimal_loop]
    split
    · rfl
    · exact ih _

/-- The value of a field, as far as it fits. -/
theorem decimal_loop_fixed {w : Nat} (n v a : Nat) :
    decimal_loop (fixed n v) (BitVec.ofNat w a) = some (BitVec.ofNat w (a * 10 ^ n + v % 10 ^ n)) := by
  induction n generalizing v with
  | zero => rw [fixed, decimal_loop, Nat.pow_zero, Nat.mod_one, Nat.mul_one, Nat.add_zero]
  | succ n ih =>
    have hdigit : ¬ (digit v < 48 ∨ 57 < digit v) := by
      rw [UInt8.lt_iff_toNat_lt, UInt8.lt_iff_toNat_lt, toNat_digit]
      show ¬ (48 + v % 10 < 48 ∨ 57 < 48 + v % 10)
      omega
    have hle : 48 ≤ digit v := by
      rw [UInt8.le_iff_toNat_le, toNat_digit]
      exact Nat.le_add_right _ _
    have hsub : (digit v - 48).toNat = v % 10 := by
      rw [UInt8.toNat_sub_of_le _ _ hle, toNat_digit]
      exact Nat.add_sub_cancel_left _ _
    rw [fixed, decimal_loop_snoc, ih, Option.bind_some, decimal_loop, if_neg hdigit, decimal_loop,
      hsub, mod_pow_succ]
    have hten : (10 : BitVec w) = BitVec.ofNat w 10 := rfl
    rw [hten, ← BitVec.ofNat_mul, ← BitVec.ofNat_add, Nat.pow_succ, Nat.add_mul, Nat.mul_assoc,
      Nat.add_assoc]

theorem parse_decimal_fixed {w n : Nat} (hn : 0 < n) (v : Nat) :
    parse_decimal w (fixed n v) = some (BitVec.ofNat w (v % 10 ^ n)) := by
  have hne : (fixed n v).isEmpty = false := by
    rw [List.isEmpty_eq_false_iff, ← List.length_pos_iff, length_fixed]
    exact hn
  have hloop := decimal_loop_fixed (w := w) n v 0
  rw [Nat.zero_mul, Nat.zero_add] at hloop
  unfold parse_decimal
  rw [hne]
  exact hloop

/-- **The two fields** of a message, with more behind them or not. -/
theorem parse_fields {topic : List Char} (htopic : ' ' ∉ topic) (ts q : Nat) {tail : List UInt8}
    (htail : tail = [] ∨ ∃ payload, tail = SP :: payload) :
    parse_timestamp_ns (head topic ++ (fixed TS_LEN ts ++ SP :: (fixed SEQ_LEN q ++ tail))) =
        some (some (BitVec.ofNat 128 (ts % 10 ^ TS_LEN))) ∧
      parse_seq_number (head topic ++ (fixed TS_LEN ts ++ SP :: (fixed SEQ_LEN q ++ tail))) =
        some (some (BitVec.ofNat 64 (q % 10 ^ SEQ_LEN))) := by
  have hno : ∀ n v, SP ∉ fixed n v := by
    intro n v hmem
    exact absurd (digits_of_mem_fixed hmem).1 (by decide)
  have hutf8 : SP ∉ utf8 topic := not_mem_utf8 (c := ' ') (by decide) htopic
  have hword : (utf8 "PUBLISH".toList).count SP = 0 := by decide
  -- the message from its first space on
  obtain ⟨pre, hpre, hcount⟩ : ∃ pre, head topic = pre ++ [SP] ∧ pre.count SP = 1 := by
    refine ⟨utf8 "PUBLISH".toList ++ SP :: utf8 topic, ?_, ?_⟩
    · have hspace : utf8 [' '] = [SP] := by decide
      have hhead : utf8 "PUBLISH ".toList = utf8 "PUBLISH".toList ++ [SP] := by decide
      unfold head
      rw [utf8_append, utf8_append, hspace, hhead]
      simp
    · rw [List.count_append, hword, List.count_cons_self, List.count_eq_zero_of_not_mem hutf8]
  have hts : head topic ++ (fixed TS_LEN ts ++ SP :: (fixed SEQ_LEN q ++ tail)) =
      pre ++ SP :: (fixed TS_LEN ts ++ SP :: (fixed SEQ_LEN q ++ tail)) := by
    rw [hpre]
    simp
  have hseq : head topic ++ (fixed TS_LEN ts ++ SP :: (fixed SEQ_LEN q ++ tail)) =
      (pre ++ SP :: fixed TS_LEN ts) ++ SP :: (fixed SEQ_LEN q ++ tail) := by
    rw [hpre]
    simp
  have hcount' : (pre ++ SP :: fixed TS_LEN ts).count SP + 1 = 3 := by
    rw [List.count_append, hcount, List.count_cons_self, List.count_eq_zero_of_not_mem (hno _ _)]
  refine ⟨?_, ?_⟩
  · unfold parse_timestamp_ns
    rw [hts, field_loop_inside (by rw [hcount]) (hno _ _), Option.map_some, Option.bind_some]
    exact congrArg some (parse_decimal_fixed (by decide) ts)
  · have hfield : field_loop 3 ((pre ++ SP :: fixed TS_LEN ts) ++ SP :: (fixed SEQ_LEN q ++ tail))
        ((pre ++ SP :: fixed TS_LEN ts) ++ SP :: (fixed SEQ_LEN q ++ tail)) 0 0 0 =
        some (some (fixed SEQ_LEN q)) := by
      rcases htail with rfl | ⟨payload, rfl⟩
      · have hne : fixed SEQ_LEN q ≠ [] := by
          rw [← List.length_pos_iff, length_fixed]
          decide
        rw [List.append_nil]
        exact field_loop_last hcount' (hno _ _) hne
      · exact field_loop_inside hcount' (hno _ _) payload
    unfold parse_seq_number
    rw [hseq, hfield, Option.map_some, Option.bind_some]
    exact congrArg some (parse_decimal_fixed (by decide) q)

/-! ### Through the user-space broker -/

/-- A publication of ASCII bytes, as text. -/
def publish_text (topic : List Char) (bytes : List UInt8) : List Char :=
  "PUBLISH ".toList ++ (topic ++ ' ' :: ascii bytes)

theorem utf8_publish_text (topic : List Char) {bytes : List UInt8}
    (h : ∀ b ∈ bytes, b.toNat < 128) : utf8 (publish_text topic bytes) = head topic ++ bytes := by
  unfold publish_text head
  rw [utf8_append, utf8_append, utf8_append, utf8_append, utf8_cons, utf8_ascii h]
  simp only [utf8_cons, utf8_nil, List.append_nil, List.append_assoc]

/-- A publication that ends in a graphic character is not trimmed. -/
theorem trim_publish_text (topic : List Char) {bytes : List UInt8} (hne : bytes ≠ [])
    (hlast : ∀ b, bytes.getLast? = some b → 33 ≤ b.toNat ∧ b.toNat ≤ 126) :
    trim (publish_text topic bytes) = publish_text topic bytes := by
  have hne' : ascii bytes ≠ [] := by
    unfold ascii
    rw [Ne, List.map_eq_nil_iff]
    exact hne
  have htail : topic ++ ' ' :: ascii bytes ≠ [] := by simp
  have hend : ∀ e, (topic ++ ' ' :: ascii bytes).getLast? = some e → is_whitespace e = false := by
    intro e he
    have happ : topic ++ ' ' :: ascii bytes = (topic ++ [' ']) ++ ascii bytes := by simp
    rw [happ, List.getLast?_append_of_ne_nil _ hne'] at he
    unfold ascii at he
    rw [List.getLast?_map, Option.map_eq_some_iff] at he
    obtain ⟨b, hb, rfl⟩ := he
    exact not_whitespace_of_graphic (hlast b hb)
  exact UserSpace.trim_command (c := 'P') (w := "UBLISH".toList) (by decide) htail hend

/-- The timestamp and the sequence number with what is behind them. -/
def fields (ts q : Nat) (tail : List UInt8) : List UInt8 :=
  fixed TS_LEN ts ++ SP :: (fixed SEQ_LEN q ++ tail)

theorem fields_ascii (ts q : Nat) {tail : List UInt8} (h : ∀ b ∈ tail, b.toNat < 128) :
    ∀ b ∈ fields ts q tail, b.toNat < 128 := by
  have hdigit : ∀ {n v : Nat} {b : UInt8}, b ∈ fixed n v → b.toNat < 128 := by
    intro n v b hb
    have := digits_of_mem_fixed hb
    omega
  intro b hb
  simp only [fields, List.mem_append, List.mem_cons] at hb
  rcases hb with hb | rfl | hb | hb
  · exact hdigit hb
  · decide
  · exact hdigit hb
  · exact h b hb

theorem utf8_fields (topic : List Char) (ts q : Nat) {tail : List UInt8}
    (h : ∀ b ∈ tail, b.toNat < 128) :
    utf8 (publish_text topic (fields ts q tail)) = head topic ++ fields ts q tail :=
  utf8_publish_text topic (fields_ascii ts q h)

/-- What the user-space broker keeps behind the sequence number: it trims the
    message, and with an empty payload the last separator goes. -/
def kept (payload : List UInt8) : List UInt8 := if payload = [] then [] else SP :: payload

theorem kept_cases (payload : List UInt8) : kept payload = [] ∨ ∃ p, kept payload = SP :: p := by
  unfold kept
  split
  · exact Or.inl rfl
  · exact Or.inr ⟨payload, rfl⟩

theorem mem_of_mem_kept {payload : List UInt8} {b : UInt8} (h : b ∈ kept payload) :
    b ∈ SP :: payload := by
  unfold kept at h
  split at h
  · cases h
  · exact h

theorem trim_fields (topic : List Char) (ts q : Nat) {payload : List UInt8}
    (hpayload : ∀ b ∈ payload, 33 ≤ b.toNat ∧ b.toNat ≤ 126) :
    trim (publish_text topic (fields ts q (SP :: payload))) =
      publish_text topic (fields ts q (kept payload)) := by
  unfold kept
  split
  · next hnil =>
    -- the sequence number comes last when the separator is gone
    have hbare : trim (publish_text topic (fields ts q [])) = publish_text topic (fields ts q []) := by
      have hne : fixed SEQ_LEN q ≠ [] := by
        rw [← List.length_pos_iff, length_fixed]
        decide
      have hsplit : fields ts q [] = (fixed TS_LEN ts ++ [SP]) ++ fixed SEQ_LEN q := by
        simp [fields]
      refine trim_publish_text topic (by rw [hsplit]; simp) ?_
      intro b hb
      rw [hsplit, List.getLast?_append_of_ne_nil _ hne] at hb
      have := digits_of_mem_fixed (List.mem_of_getLast? hb)
      omega
    obtain ⟨w, hw⟩ : ∃ w, "PUBLISH ".toList = 'P' :: w := ⟨"UBLISH ".toList, rfl⟩
    have hspace : publish_text topic (fields ts q [SP]) =
        'P' :: (w ++ (topic ++ ' ' :: ascii (fields ts q []))) ++ [' '] := by
      have hsp : Char.ofNat SP.toNat = ' ' := by decide
      unfold publish_text fields ascii
      rw [hw]
      simp [hsp]
    have hbare' : publish_text topic (fields ts q []) =
        'P' :: (w ++ (topic ++ ' ' :: ascii (fields ts q []))) := by
      unfold publish_text
      rw [hw, List.cons_append]
    rw [hnil, hspace, trim_append_space (by decide) (by decide), ← hbare', hbare]
  · next hne =>
    have hsplit : fields ts q (SP :: payload) =
        (fixed TS_LEN ts ++ (SP :: fixed SEQ_LEN q ++ [SP])) ++ payload := by
      simp [fields]
    refine trim_publish_text topic (by rw [hsplit]; simp) ?_
    intro b hb
    rw [hsplit, List.getLast?_append_of_ne_nil _ hne] at hb
    exact hpayload b (List.mem_of_getLast? hb)

/-- What is in front of the bytes behind the fields. -/
theorem fields_split (topic : List Char) (ts q : Nat) : ∃ pre : List UInt8,
    pre.length = (head topic).length + 31 ∧
      ∀ tail, head topic ++ fields ts q tail = pre ++ tail := by
  refine ⟨head topic ++ (fixed TS_LEN ts ++ SP :: fixed SEQ_LEN q), ?_, fun tail => by simp [fields]⟩
  simp only [List.length_append, List.length_cons, length_fixed, TS_LEN, SEQ_LEN]

/-- The bytes are a message with these fields, whatever is behind them. -/
def HasFields (topic : List Char) (ts q : Nat) (bytes : List UInt8) : Prop :=
  ∃ tail, (tail = [] ∨ ∃ payload, tail = SP :: payload) ∧ bytes = head topic ++ fields ts q tail

section hasFields
variable {topic : List Char} {ts q : Nat} {bytes : List UInt8}

theorem hasFields_message (topic : List Char) (ts q : Nat) (payload : List UInt8) :
    HasFields topic ts q (message topic ts q payload) := ⟨_, Or.inr ⟨payload, rfl⟩, rfl⟩

theorem HasFields.read (h : HasFields topic ts q bytes) (htopic : ' ' ∉ topic) :
    parse_timestamp_ns bytes = some (some (BitVec.ofNat 128 (ts % 10 ^ TS_LEN))) ∧
      parse_seq_number bytes = some (some (BitVec.ofNat 64 (q % 10 ^ SEQ_LEN))) := by
  obtain ⟨tail, htail, rfl⟩ := h
  exact parse_fields htopic ts q htail

/-- A cut behind the fields leaves them alone. -/
theorem HasFields.take (h : HasFields topic ts q bytes) {n : Nat} (hn : (head topic).length + 31 ≤ n) :
    HasFields topic ts q (bytes.take n) := by
  obtain ⟨tail, htail, rfl⟩ := h
  obtain ⟨pre, hlen, hsplit⟩ := fields_split topic ts q
  refine ⟨tail.take (n - pre.length), ?_, ?_⟩
  · rcases htail with rfl | ⟨payload, rfl⟩
    · exact Or.inl List.take_nil
    · cases n - pre.length with
      | zero => exact Or.inl rfl
      | succ k => exact Or.inr ⟨payload.take k, rfl⟩
  · rw [hsplit, hsplit, List.take_append, List.take_of_length_le (hlen ▸ hn)]

end hasFields

/-- **Messages decode to what was encoded**, as they are sent and as the
    user-space broker sends them on. -/
theorem message_round_trip (topic : List Char) (htopic : ' ' ∉ topic) (payload : List UInt8)
    (hpayload : ∀ b ∈ payload, 33 ≤ b.toNat ∧ b.toNat ≤ 126)
    (batches : List (BitVec 128 × BitVec 64)) (ts : BitVec 128) (q : BitVec 64) :
    ∃ m, msg_buf topic payload (batches ++ [(ts, q)]) = some m ∧
      parse_timestamp_ns m = some (some (BitVec.ofNat 128 (ts.toNat % 10 ^ 20))) ∧
      parse_seq_number m = some (some (BitVec.ofNat 64 (q.toNat % 10 ^ 10))) ∧
      ∃ m', (∀ ord sender b,
          (UserSpace.handle_message ord (from_utf8_lossy m) sender b).1 =
            ((b.topics topic).elim [] ord.iter).map (fun sub => (sub, m'))) ∧
        parse_timestamp_ns m' = some (some (BitVec.ofNat 128 (ts.toNat % 10 ^ 20))) ∧
        parse_seq_number m' = some (some (BitVec.ofNat 64 (q.toNat % 10 ^ 10))) := by
  have hascii : ∀ b ∈ SP :: payload, b.toNat < 128 := by
    intro b hb
    rcases List.mem_cons.mp hb with rfl | hb
    · decide
    · have := (hpayload b hb).2
      omega
  -- the message as text, and what is sent on
  have hsent : from_utf8_lossy (message topic ts.toNat q.toNat payload) =
      publish_text topic (fields ts.toNat q.toNat (SP :: payload)) := by
    rw [← from_utf8_lossy_utf8 (publish_text topic _), utf8_fields topic _ _ hascii]
    rfl
  have hforwarded : utf8 (publish_text topic (fields ts.toNat q.toNat (kept payload))) =
      head topic ++ fields ts.toNat q.toNat (kept payload) :=
    utf8_fields topic _ _ fun b hb => hascii b (mem_of_mem_kept hb)
  obtain ⟨hts, hq⟩ := parse_fields htopic ts.toNat q.toNat (Or.inr ⟨payload, rfl⟩)
  obtain ⟨hts', hq'⟩ := parse_fields htopic ts.toNat q.toNat (kept_cases payload)
  have hwidth : (10 : Nat) ^ TS_LEN = 10 ^ 20 ∧ (10 : Nat) ^ SEQ_LEN = 10 ^ 10 := ⟨rfl, rfl⟩
  rw [hwidth.1] at hts hts'
  rw [hwidth.2] at hq hq'
  refine ⟨_, msg_buf_eq topic payload batches ts q, hts, hq, _, ?_, hts', hq'⟩
  intro ord sender b
  have hpublish := UserSpace.handle_publish ord htopic
    (trim_fields topic ts.toNat q.toNat hpayload) sender b
  rw [hsent, hpublish.1]
  exact congrArg (fun m' => ((b.topics topic).elim [] ord.iter).map fun sub => (sub, m')) hforwarded

theorem message_round_trip_sample :
    ∃ m, msg_buf ['a'] [] ([] ++ [(123456789012345678901234#128, 42#64)]) = some m ∧
      parse_timestamp_ns m = some (some (BitVec.ofNat 128 (123456789012345678901234 % 10 ^ 20))) ∧
      parse_seq_number m = some (some (BitVec.ofNat 64 (42 % 10 ^ 10))) := by
  obtain ⟨m, hm, hts, hq, -⟩ := message_round_trip ['a'] (by decide) [] (by simp) []
    123456789012345678901234#128 42#64
  exact ⟨m, hm, hts, hq⟩

end BpfBroker.Benchmark
