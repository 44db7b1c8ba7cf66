import Mathlib.Data.Finset.Card
import Mathlib.Data.Finset.Insert
import BpfBroker.Lib.Text
import BpfBroker.Publish

/-! # The User-Space Broker (`mqttsn-udp-sr`)

    The broker that the kernel programs replace: a thread receives a datagram,
    decodes it, splits it into words and sends a publication from user space
    to each subscriber of its topic. -/

namespace BpfBroker.UserSpace

open Text

/-! ### State -/

abbrev Topic : Type := List Char
abbrev SubscriberSet : Type := Finset SockAddr

/-- The order in which the iterator of a `HashSet` visits its elements. It is
    not specified; each element comes exactly once. -/
structure SetOrder where
  iter : SubscriberSet → List SockAddr
  nodup : ∀ s, (iter s).Nodup
  mem_iff : ∀ s c, c ∈ iter s ↔ c ∈ s

/-- What the threads share: the `DashMap` of topics and the counters. -/
structure Broker where
  topics : Topic → Option SubscriberSet
  publish_counter : UInt64
  clone_counter : UInt64

def Broker.empty : Broker := ⟨fun _ => none, 0, 0⟩

/-- Write the set of a topic. -/
def Broker.store (b : Broker) (topic : Topic) (set : SubscriberSet) : Broker :=
  { b with topics := fun t => if t = topic then some set else b.topics t }

/-! ### `handle_message` -/

/-- The texts `"REGACK"`, `"SUBACK"` and `"FLUSHED"`. -/
def REGACK : List UInt8 := [82, 69, 71, 65, 67, 75]

def SUBACK : List UInt8 := [83, 85, 66, 65, 67, 75]

def FLUSHED : List UInt8 := [70, 76, 85, 83, 72, 69, 68]

/-- `handle_message`: the datagrams it sends, each with its destination, and
    the broker after. -/
def handle_message (ord : SetOrder) (msg : List Char) (sender : SockAddr) (b : Broker) :
    List (SockAddr × List UInt8) × Broker :=
  match splitn ' ' 3 (trim msg) with
  | [] => ([], b)
  | word :: parts =>
    if word = "REGISTER".toList then
      match parts with
      | [] => ([], b)
      -- `entry(..).or_insert(..)` keeps the set that is there
      | topic :: _ => ([(sender, REGACK)], b.store topic ((b.topics topic).getD ∅))
    else if word = "SUBSCRIBE".toList then
      match parts with
      | [] => ([], b)
      | topic :: _ =>
        ([(sender, SUBACK)], b.store topic (insert sender ((b.topics topic).getD ∅)))
    else if word = "PUBLISH".toList then
      match parts with
      | topic :: rest :: _ =>
        let raw_payload := "PUBLISH ".toList ++ (topic ++ ' ' :: rest)
        let b := { b with publish_counter := b.publish_counter + 1 }
        match b.topics topic with
        | some subs =>
          ((ord.iter subs).map fun sub => (sub, utf8 raw_payload),
            { b with clone_counter := b.clone_counter + UInt64.ofNat subs.card })
        | none => ([], b)
      | _ => ([], b)
    else if word = "FLUSH".toList then
      match parts with
      | [] => ([], b)
      | topic :: _ =>
        -- a topic that is not there is acknowledged all the same
        match b.topics topic with
        | some _ => ([(sender, FLUSHED)], b.store topic ∅)
        | none => ([(sender, FLUSHED)], b)
    else ([], b)

/-- One round of a receive loop; its buffer has 4096 bytes. -/
def receive (ord : SetOrder) (data : List UInt8) (sender : SockAddr) (b : Broker) :
    List (SockAddr × List UInt8) × Broker :=
  handle_message ord (from_utf8_lossy (data.take 4096)) sender b

/-- **A PUBLISH** is sent on to each subscriber of its topic, put together
    again from its parts. -/
theorem handle_publish (ord : SetOrder) {msg topic rest : List Char} (hsp : ' ' ∉ topic)
    (hmsg : trim msg = "PUBLISH ".toList ++ (topic ++ ' ' :: rest)) (sender : SockAddr)
    (b : Broker) :
    (handle_message ord msg sender b).1 =
        ((b.topics topic).elim [] ord.iter).map
          (fun sub => (sub, utf8 ("PUBLISH ".toList ++ (topic ++ ' ' :: rest)))) ∧
      (handle_message ord msg sender b).2.topics = b.topics := by
  have hsplit : splitn ' ' 3 (trim msg) = ["PUBLISH".toList, topic, rest] := by
    have hchars : "PUBLISH ".toList ++ (topic ++ ' ' :: rest) =
        "PUBLISH".toList ++ ' ' :: (topic ++ ' ' :: rest) := rfl
    rw [hmsg, hchars, splitn_append (by decide), splitn_append hsp]
    rfl
  have hrun : handle_message ord msg sender b =
      match b.topics topic with
      | some subs =>
        ((ord.iter subs).map fun sub =>
            (sub, utf8 ("PUBLISH ".toList ++ (topic ++ ' ' :: rest))),
          { b with
            publish_counter := b.publish_counter + 1
            clone_counter := b.clone_counter + UInt64.ofNat subs.card })
      | none => ([], { b with publish_counter := b.publish_counter + 1 }) := by
    unfold handle_message
    rw [hsplit]
    rfl
  rw [hrun]
  rcases b.topics topic with _ | subs
  · exact ⟨rfl, rfl⟩
  · exact ⟨rfl, rfl⟩

/-! ### What it makes of a command -/

/-- A topic of 1 to 19 graphic ASCII characters. -/
structure TopicName (t : List UInt8) : Prop where
  ne_nil : t ≠ []
  length_le : t.length ≤ 19
  graphic : ∀ b ∈ t, 33 ≤ b.toNat ∧ b.toNat ≤ 126

namespace TopicName

variable {t : List UInt8} (h : TopicName t)
include h

theorem is_ascii : ∀ b ∈ t, b.toNat < 128 := by
  intro b hb
  have := h.graphic b hb
  omega

theorem toNat_mem {c : Char} (hc : c ∈ ascii t) : 33 ≤ c.toNat ∧ c.toNat ≤ 126 := by
  obtain ⟨b, hb, rfl⟩ := List.mem_map.mp hc
  rw [toNat_ofNat_ascii (h.is_ascii b hb)]
  exact h.graphic b hb

/-- The words of a command end at its spaces. -/
theorem no_space : ' ' ∉ ascii t := by
  intro hmem
  have := (h.toNat_mem hmem).1
  exact absurd this (by decide)

theorem not_whitespace {c : Char} (hc : c ∈ ascii t) : is_whitespace c = false := by
  obtain ⟨b, hb, rfl⟩ := List.mem_map.mp hc
  exact not_whitespace_of_graphic (h.graphic b hb)

/-- The kernel and the control process read the topic as it is. -/
theorem shortToken : ShortToken t := by
  have hne : ∀ b ∈ t, ∀ n, n < 33 → b ≠ UInt8.ofNat n := by
    intro b hb n hn heq
    have hge := (h.graphic b hb).1
    rw [heq, UInt8.toNat_ofNat'] at hge
    omega
  refine ⟨⟨h.ne_nil, ?_⟩, Nat.lt_succ_of_le h.length_le, ?_⟩
  · intro b hb
    have h32 := hne b hb 32 (by omega)
    have h0 := hne b hb 0 (by omega)
    have h10 := hne b hb 10 (by omega)
    unfold isDelim
    rw [decide_eq_false_iff_not]
    exact fun hor => hor.elim h32 fun hor => hor.elim h0 h10
  · intro hcr
    exact hne CR hcr 13 (by omega) rfl

/-- Different topics have different keys. -/
theorem ofName_inj {t' : List UInt8} (h' : TopicName t') :
    TopicKey.ofName t = TopicKey.ofName t' ↔ t = t' := by
  refine ⟨?_, congrArg _⟩
  intro heq
  have hs := h.shortToken
  have hs' := h'.shortToken
  exact TopicKey.ofName_injective hs.length_lt hs'.length_lt hs.no_nul hs'.no_nul heq

end TopicName

/-- A text between two characters that are no white space stays as it is. -/
theorem trim_command {c : Char} {w rest : List Char} (hc : is_whitespace c = false)
    (hrest : rest ≠ []) (hlast : ∀ e, rest.getLast? = some e → is_whitespace e = false) :
    trim (c :: w ++ ' ' :: rest) = c :: w ++ ' ' :: rest := by
  rw [List.cons_append]
  apply trim_eq_self hc
  intro e he
  have hsplit : c :: (w ++ ' ' :: rest) = (c :: w ++ [' ']) ++ rest := by simp
  rw [hsplit, List.getLast?_append_of_ne_nil _ hrest] at he
  exact hlast e he

/-- The words of a control datagram. -/
theorem split_control {word t : List UInt8} {c : Char} {w : List Char} (ht : TopicName t)
    (hword : word.all (fun b => b.toNat < 128) = true) (hchars : ascii word = c :: w ++ [' '])
    (hshort : word.length ≤ 10) (hc : is_whitespace c = false) (hsp : ' ' ∉ c :: w) :
    splitn ' ' 3 (trim (from_utf8_lossy ((word ++ t).take 4096))) = [c :: w, ascii t] := by
  have hfits : (word ++ t).take 4096 = word ++ t := by
    apply List.take_of_length_le
    rw [List.length_append]
    have := ht.length_le
    omega
  have htext : from_utf8_lossy (word ++ t) = c :: w ++ ' ' :: ascii t := by
    have hall : ∀ b ∈ word ++ t, b.toNat < 128 := by
      intro b hb
      rcases List.mem_append.mp hb with hb | hb
      · exact of_decide_eq_true (List.all_eq_true.mp hword b hb)
      · exact ht.is_ascii b hb
    have hsplit : ascii (word ++ t) = c :: w ++ ' ' :: ascii t := by
      unfold ascii at hchars ⊢
      rw [List.map_append, hchars]
      simp
    rw [← utf8_ascii hall, from_utf8_lossy_utf8, hsplit]
  have hne : ascii t ≠ [] := by
    unfold ascii
    rw [Ne, List.map_eq_nil_iff]
    exact ht.ne_nil
  rw [hfits, htext, trim_command hc hne fun e he => ht.not_whitespace (List.mem_of_getLast? he),
    splitn_append hsp, splitn_of_not_mem ht.no_space]

section receive
variable (ord : SetOrder) {t : List UInt8} (ht : TopicName t) (sender : SockAddr) (b : Broker)
include ht

theorem receive_register :
    receive ord (REGISTER ++ t) sender b =
      ([(sender, REGACK)], b.store (ascii t) ((b.topics (ascii t)).getD ∅)) := by
  have hsplit := split_control (c := 'R') (w := "EGISTER".toList) ht
    (by decide : REGISTER.all _ = true) (by decide) (by decide) (by decide) (by decide)
  unfold receive handle_message
  rw [hsplit]
  rfl

theorem receive_subscribe :
    receive ord (SUBSCRIBE ++ t) sender b =
      ([(sender, SUBACK)], b.store (ascii t) (insert sender ((b.topics (ascii t)).getD ∅))) := by
  have hsplit := split_control (c := 'S') (w := "UBSCRIBE".toList) ht
    (by decide : SUBSCRIBE.all _ = true) (by decide) (by decide) (by decide) (by decide)
  unfold receive handle_message
  rw [hsplit]
  rfl

theorem receive_flush :
    receive ord (FLUSH ++ t) sender b =
      ([(sender, FLUSHED)],
        match b.topics (ascii t) with
        | some _ => b.store (ascii t) ∅
        | none => b) := by
  have hsplit := split_control (c := 'F') (w := "LUSH".toList) ht
    (by decide : FLUSH.all _ = true) (by decide) (by decide) (by decide) (by decide)
  unfold receive handle_message
  rw [hsplit]
  show (match b.topics (ascii t) with | some _ => _ | none => _) = _
  rcases b.topics (ascii t) with _ | subs
  · rfl
  · rfl

/-- A PUBLISH datagram as text. -/
theorem utf8_publish (text : List Char) :
    utf8 ("PUBLISH ".toList ++ (ascii t ++ ' ' :: text)) = PUBLISH ++ (t ++ SP :: utf8 text) := by
  have hword : utf8 "PUBLISH ".toList = PUBLISH := by decide
  have hspace : String.utf8EncodeChar ' ' = [SP] := by decide
  rw [utf8_append, utf8_append, utf8_cons, hword, hspace, utf8_ascii ht.is_ascii]
  rfl

/-- **A publication** is sent on as it came, to each subscriber of its
    topic. -/
theorem receive_publish {text : List Char} (hne : text ≠ [])
    (hlast : ∀ e, text.getLast? = some e → is_whitespace e = false)
    (hfits : (PUBLISH ++ (t ++ SP :: utf8 text)).length ≤ 4096) :
    (receive ord (PUBLISH ++ (t ++ SP :: utf8 text)) sender b).1 =
        ((b.topics (ascii t)).elim [] ord.iter).map
          (fun sub => (sub, PUBLISH ++ (t ++ SP :: utf8 text))) ∧
      (receive ord (PUBLISH ++ (t ++ SP :: utf8 text)) sender b).2.topics = b.topics := by
  have htail : ascii t ++ ' ' :: text ≠ [] := by simp
  have hend : ∀ e, (ascii t ++ ' ' :: text).getLast? = some e → is_whitespace e = false := by
    intro e he
    have happ : ascii t ++ ' ' :: text = (ascii t ++ [' ']) ++ text := by simp
    rw [happ, List.getLast?_append_of_ne_nil _ hne] at he
    exact hlast e he
  have htrim : trim ("PUBLISH ".toList ++ (ascii t ++ ' ' :: text)) =
      "PUBLISH ".toList ++ (ascii t ++ ' ' :: text) :=
    trim_command (c := 'P') (w := "UBLISH".toList) (by decide) htail hend
  unfold receive
  rw [List.take_of_length_le hfits, ← utf8_publish ht text, from_utf8_lossy_utf8]
  exact handle_publish ord ht.no_space htrim sender b

end receive

end BpfBroker.UserSpace
