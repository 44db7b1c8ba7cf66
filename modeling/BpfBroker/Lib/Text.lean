import Mathlib.Data.List.DropRight

/-! # Text

    UTF-8 text as a list of characters, with the string functions of Rust's
    standard library that parse a command line: lossy decoding, `trim` and
    `splitn`. -/

namespace Text

/-! ### UTF-8 -/

/-- The bytes of a text. -/
def utf8 (s : List Char) : List UInt8 := s.flatMap String.utf8EncodeChar

/-- The second byte can follow the lead byte of a character of two bytes or
    more. -/
def follows (lead second : UInt8) : Bool :=
  let l := lead.toNat
  let b := second.toNat
  if 0xC2 ≤ l ∧ l ≤ 0xDF then 0x80 ≤ b && b ≤ 0xBF
  else if l = 0xE0 then 0xA0 ≤ b && b ≤ 0xBF
  else if l = 0xED then 0x80 ≤ b && b ≤ 0x9F
  else if 0xE1 ≤ l ∧ l ≤ 0xEF then 0x80 ≤ b && b ≤ 0xBF
  else if l = 0xF0 then 0x90 ≤ b && b ≤ 0xBF
  else if 0xF1 ≤ l ∧ l ≤ 0xF3 then 0x80 ≤ b && b ≤ 0xBF
  else if l = 0xF4 then 0x80 ≤ b && b ≤ 0x8F
  else false

/-- How many bytes one replacement character stands for: the longest beginning
    of a character at this point, or one byte. -/
def broken_length : List UInt8 → Nat
  | lead :: second :: third :: _ =>
    if !follows lead second then 1
    -- a character of four bytes may break off after the third
    else if 0xF0 ≤ lead.toNat && 0x80 ≤ third.toNat && third.toNat ≤ 0xBF then 3
    else 2
  | [lead, second] => if follows lead second then 2 else 1
  | _ => 1

/-- `String::from_utf8_lossy`: what is no character becomes U+FFFD. -/
def from_utf8_lossy (bytes : List UInt8) : List Char :=
  match bytes with
  | [] => []
  | lead :: rest =>
    match (lead :: rest).toByteArray.utf8DecodeChar? 0 with
    | some c => c :: from_utf8_lossy (rest.drop (c.utf8Size - 1))
    | none =>
      Char.ofNat 0xFFFD :: from_utf8_lossy (rest.drop (broken_length (lead :: rest) - 1))
termination_by bytes.length
decreasing_by
  · rw [List.length_drop, List.length_cons]
    omega
  · rw [List.length_drop, List.length_cons]
    omega

@[simp] theorem utf8_nil : utf8 [] = [] := rfl

theorem utf8_cons (c : Char) (s : List Char) : utf8 (c :: s) = String.utf8EncodeChar c ++ utf8 s :=
  List.flatMap_cons

theorem utf8_append (s s' : List Char) : utf8 (s ++ s') = utf8 s ++ utf8 s' :=
  List.flatMap_append

/-- **Decoding reads valid UTF-8 back.** -/
theorem from_utf8_lossy_utf8 (s : List Char) : from_utf8_lossy (utf8 s) = s := by
  induction s with
  | nil =>
    rw [utf8_nil, from_utf8_lossy]
  | cons c s ih =>
    have hsize := String.length_utf8EncodeChar c
    have hpos := c.utf8Size_pos
    rw [utf8_cons]
    rcases he : String.utf8EncodeChar c with _ | ⟨lead, rest⟩
    · rw [he, List.length_nil] at hsize
      omega
    · have hdecode : (lead :: (rest ++ utf8 s)).toByteArray.utf8DecodeChar? 0 = some c := by
        rw [← List.cons_append, ← he, List.toByteArray_append]
        exact ByteArray.utf8DecodeChar?_utf8EncodeChar_append
      have hrest : rest.length = c.utf8Size - 1 := by
        rw [he, List.length_cons] at hsize
        omega
      rw [List.cons_append, from_utf8_lossy]
      simp only [hdecode]
      rw [← hrest, List.drop_left, ih]

/-- The characters of ASCII bytes. -/
def ascii (bytes : List UInt8) : List Char := bytes.map fun b => Char.ofNat b.toNat

theorem toNat_ofNat_ascii {b : UInt8} (h : b.toNat < 128) : (Char.ofNat b.toNat).toNat = b.toNat := by
  have hvalid : b.toNat.isValidChar := Or.inl (by omega)
  unfold Char.ofNat
  rw [dif_pos hvalid]
  rfl

theorem utf8_ascii {bytes : List UInt8} (h : ∀ b ∈ bytes, b.toNat < 128) :
    utf8 (ascii bytes) = bytes := by
  induction bytes with
  | nil => rfl
  | cons b bytes ih =>
    have hb := h b List.mem_cons_self
    have hencode : String.utf8EncodeChar (Char.ofNat b.toNat) = [b] := by
      have hval : (Char.ofNat b.toNat).val.toNat = b.toNat := toNat_ofNat_ascii hb
      unfold String.utf8EncodeChar
      rw [hval, if_pos (by omega), UInt8.ofNat_toNat]
    show utf8 (Char.ofNat b.toNat :: ascii bytes) = _
    rw [utf8_cons, hencode, ih fun c hc => h c (List.mem_cons_of_mem _ hc)]
    rfl

/-- An ASCII byte comes from the ASCII character only. -/
theorem toNat_of_mem_encode {c : Char} {b : UInt8} (h : b ∈ String.utf8EncodeChar c)
    (hb : b.toNat < 128) : c.toNat = b.toNat := by
  -- every byte of a longer code is a number of at least 128
  have hlong : ∀ n, 128 ≤ n → n < 256 → b ≠ UInt8.ofNat n := by
    intro n hlo hhi heq
    rw [heq, UInt8.toNat_ofNat'] at hb
    omega
  unfold String.utf8EncodeChar at h
  dsimp only at h
  split at h
  · rw [List.mem_singleton] at h
    have hval : c.toNat ≤ 127 := ‹_›
    rw [h, UInt8.toNat_ofNat']
    show c.toNat = c.toNat % 2 ^ 8
    omega
  split at h
  · simp only [List.mem_cons, List.not_mem_nil, or_false] at h
    rcases h with h | h
    · exact absurd h (hlong _ (by omega) (by omega))
    · exact absurd h (hlong _ (by omega) (by omega))
  split at h
  · simp only [List.mem_cons, List.not_mem_nil, or_false] at h
    rcases h with h | h | h
    · exact absurd h (hlong _ (by omega) (by omega))
    · exact absurd h (hlong _ (by omega) (by omega))
    · exact absurd h (hlong _ (by omega) (by omega))
  · simp only [List.mem_cons, List.not_mem_nil, or_false] at h
    rcases h with h | h | h | h
    · exact absurd h (hlong _ (by omega) (by omega))
    · exact absurd h (hlong _ (by omega) (by omega))
    · exact absurd h (hlong _ (by omega) (by omega))
    · exact absurd h (hlong _ (by omega) (by omega))

/-- A text without a certain ASCII character does not have its byte. -/
theorem not_mem_utf8 {s : List Char} {c : Char} (hc : c.toNat < 128) (h : c ∉ s) :
    UInt8.ofNat c.toNat ∉ utf8 s := by
  intro hmem
  obtain ⟨d, hd, hmem⟩ := List.mem_flatMap.mp hmem
  have hbyte : (UInt8.ofNat c.toNat).toNat = c.toNat := by
    rw [UInt8.toNat_ofNat']
    omega
  have heq := toNat_of_mem_encode hmem (by rw [hbyte]; exact hc)
  rw [hbyte] at heq
  exact h (Char.toNat_inj.mp heq ▸ hd)

theorem ascii_injective {a b : List UInt8} (ha : ∀ c ∈ a, c.toNat < 128)
    (hb : ∀ c ∈ b, c.toNat < 128) (h : ascii a = ascii b) : a = b := by
  rw [← utf8_ascii ha, h, utf8_ascii hb]

/-! ### Trimming -/

/-- Unicode `White_Space`. -/
def is_whitespace (c : Char) : Bool :=
  let n := c.toNat
  decide (9 ≤ n ∧ n ≤ 13 ∨ n = 32 ∨ n = 0x85 ∨ n = 0xA0 ∨ n = 0x1680 ∨ 0x2000 ≤ n ∧ n ≤ 0x200A ∨
    n = 0x2028 ∨ n = 0x2029 ∨ n = 0x202F ∨ n = 0x205F ∨ n = 0x3000)

/-- A graphic ASCII character is none. -/
theorem not_whitespace_of_graphic {b : UInt8} (h : 33 ≤ b.toNat ∧ b.toNat ≤ 126) :
    is_whitespace (Char.ofNat b.toNat) = false := by
  unfold is_whitespace
  rw [decide_eq_false_iff_not, toNat_ofNat_ascii (by omega)]
  omega

/-- `str::trim`. -/
def trim (s : List Char) : List Char := (s.dropWhile is_whitespace).rdropWhile is_whitespace

/-- A text that neither begins nor ends with white space stays as it is. -/
theorem trim_eq_self {c : Char} {s : List Char} (hfirst : is_whitespace c = false)
    (hlast : ∀ e, (c :: s).getLast? = some e → is_whitespace e = false) :
    trim (c :: s) = c :: s := by
  have hne : c :: s ≠ [] := List.cons_ne_nil c s
  have hend : is_whitespace ((c :: s).getLast hne) = false :=
    hlast _ (List.getLast?_eq_getLast_of_ne_nil hne)
  unfold trim
  rw [List.dropWhile_cons_of_neg (by rw [hfirst]; exact Bool.false_ne_true),
    List.rdropWhile_eq_self_iff]
  intro _
  rw [hend]
  exact Bool.false_ne_true

/-- White space at the end goes. -/
theorem trim_append_space {c d : Char} {s : List Char} (hfirst : is_whitespace c = false)
    (hd : is_whitespace d = true) : trim (c :: s ++ [d]) = trim (c :: s) := by
  unfold trim
  rw [List.cons_append, List.dropWhile_cons_of_neg (by rw [hfirst]; exact Bool.false_ne_true),
    List.dropWhile_cons_of_neg (by rw [hfirst]; exact Bool.false_ne_true), ← List.cons_append,
    List.rdropWhile_concat_pos _ _ _ hd]

/-! ### Splitting -/

/-- `str::splitn(n, sep)`: at most `n` parts, the last with what is left. -/
def splitn (sep : Char) : Nat → List Char → List (List Char)
  | 0, _ => []
  | 1, s => [s]
  | n + 2, s =>
    match s.dropWhile (· ≠ sep) with
    | [] => [s]
    | _ :: rest => s.takeWhile (· ≠ sep) :: splitn sep (n + 1) rest

section splitn
variable {sep : Char} {s : List Char} (h : sep ∉ s)
include h

theorem splitn_of_not_mem (n : Nat) : splitn sep (n + 1) s = [s] := by
  cases n with
  | zero => rfl
  | succ n =>
    have hdrop : s.dropWhile (· ≠ sep) = [] := by
      rw [List.dropWhile_eq_nil_iff]
      intro c hc
      exact decide_eq_true fun heq => h (heq ▸ hc)
    unfold splitn
    rw [hdrop]

theorem splitn_append (n : Nat) (rest : List Char) :
    splitn sep (n + 2) (s ++ sep :: rest) = s :: splitn sep (n + 1) rest := by
  have hpos : ∀ c ∈ s, decide (c ≠ sep) = true := fun c hc => decide_eq_true fun heq => h (heq ▸ hc)
  have hdrop : (s ++ sep :: rest).dropWhile (· ≠ sep) = sep :: rest := by
    rw [List.dropWhile_append_of_pos hpos]
    simp
  have htake : (s ++ sep :: rest).takeWhile (· ≠ sep) = s := by
    rw [List.takeWhile_append_of_pos hpos]
    simp
  rw [splitn, hdrop]
  dsimp only
  rw [htake]

end splitn

end Text
