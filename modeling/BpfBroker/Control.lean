import BpfBroker.Packet

/-! # Control Datagrams

    The part of the main loop of `bpf_broker_proto.c` that both brokers
    share: receiving a datagram, telling the command, building `topic_key`,
    and the reply. What a command does to the maps differs, and is modelled
    with each broker. -/

namespace BpfBroker

open CString

/-! ### Addresses -/

/-- The sender of a datagram: the fields of `struct sockaddr_in`, both in
    network byte order. -/
structure SockAddr where
  sin_addr : UInt32
  sin_port : UInt16
  deriving DecidableEq, Repr

/-- The byte swap of a 32-bit word. -/
def bswap32 (n : Nat) : Nat :=
  n % 256 * 16777216 + n / 256 % 256 * 65536 + n / 65536 % 256 * 256 + n / 16777216 % 256

/-- `htonl` and `ntohl` on a little-endian host. -/
def htonl (x : UInt32) : UInt32 := UInt32.ofNat (bswap32 x.toNat)

/-- `htons` and `ntohs` on a little-endian host. -/
def htons (x : UInt16) : UInt16 := UInt16.ofNat (bswap16 x.toNat)

theorem bswap16_bswap16 {n : Nat} (h : n < 65536) : bswap16 (bswap16 n) = n := by
  obtain ⟨a, b, ha, hb, rfl⟩ : ∃ a b, a < 256 ∧ b < 256 ∧ n = a + 256 * b :=
    ⟨n % 256, n / 256, by omega, by omega, by omega⟩
  have hswap : ∀ a b, a < 256 → b < 256 → bswap16 (a + 256 * b) = b + 256 * a := by
    intro a b ha hb
    unfold bswap16
    omega
  rw [hswap a b ha hb, hswap b a hb ha]

theorem bswap16_lt (n : Nat) : bswap16 n < 65536 := by
  unfold bswap16
  omega

theorem bswap32_bswap32 {n : Nat} (h : n < 4294967296) : bswap32 (bswap32 n) = n := by
  obtain ⟨a, b, c, d, ha, hb, hc, hd, rfl⟩ : ∃ a b c d, a < 256 ∧ b < 256 ∧ c < 256 ∧ d < 256 ∧
      n = a + 256 * b + 65536 * c + 16777216 * d :=
    ⟨n % 256, n / 256 % 256, n / 65536 % 256, n / 16777216, by omega, by omega, by omega,
      by omega, by omega⟩
  have hswap : ∀ a b c d, a < 256 → b < 256 → c < 256 → d < 256 →
      bswap32 (a + 256 * b + 65536 * c + 16777216 * d) =
        d + 256 * c + 65536 * b + 16777216 * a := by
    intro a b c d ha hb hc hd
    unfold bswap32
    omega
  rw [hswap a b c d ha hb hc hd, hswap d c b a hd hc hb ha]

theorem bswap32_lt (n : Nat) : bswap32 n < 4294967296 := by
  unfold bswap32
  omega

theorem htonl_htonl (x : UInt32) : htonl (htonl x) = x := by
  apply UInt32.toNat_inj.mp
  unfold htonl
  rw [UInt32.toNat_ofNat', UInt32.toNat_ofNat', Nat.mod_eq_of_lt (bswap32_lt _),
    Nat.mod_eq_of_lt (bswap32_lt _), bswap32_bswap32 x.toNat_lt]

theorem htons_htons (x : UInt16) : htons (htons x) = x := by
  apply UInt16.toNat_inj.mp
  unfold htons
  rw [UInt16.toNat_ofNat', UInt16.toNat_ofNat', Nat.mod_eq_of_lt (bswap16_lt _),
    Nat.mod_eq_of_lt (bswap16_lt _), bswap16_bswap16 x.toNat_lt]

/-- The packed subscriber `add_subscriber` stores, from an address and a port
    in host order: bits 63:32 the address and bits 31:16 the port, both in
    network order. -/
def packed_key (ip port : UInt32) : UInt64 :=
  ((htonl ip).toUInt64 <<< 32) ||| ((htons port.toUInt16).toUInt64 <<< 16)

/-- The packed subscriber of a client: the main loop converts its address to
    host order and `add_subscriber` converts it back. -/
def pack (c : SockAddr) : UInt64 :=
  packed_key (htonl c.sin_addr) (htons c.sin_port).toUInt32

theorem pack_toNat (c : SockAddr) :
    (pack c).toNat = c.sin_addr.toNat * 4294967296 + c.sin_port.toNat * 65536 := by
  have ha := c.sin_addr.toNat_lt
  have hp := c.sin_port.toNat_lt
  have hport : (htons c.sin_port).toUInt32.toUInt16 = htons c.sin_port := by
    apply UInt16.toNat_inj.mp
    have := (htons c.sin_port).toNat_lt
    simp only [UInt32.toNat_toUInt16, UInt16.toNat_toUInt32, Nat.reducePow]
    omega
  have h1 : (c.sin_addr.toUInt64 <<< 32).toNat = c.sin_addr.toNat <<< 32 := by
    simp only [UInt64.toNat_shiftLeft, UInt32.toNat_toUInt64, Nat.shiftLeft_eq, Nat.reducePow]
    show c.sin_addr.toNat * 4294967296 % 18446744073709551616 = _
    omega
  have h2 : (c.sin_port.toUInt64 <<< 16).toNat = c.sin_port.toNat * 65536 := by
    simp only [UInt64.toNat_shiftLeft, UInt16.toNat_toUInt64, Nat.shiftLeft_eq, Nat.reducePow]
    show c.sin_port.toNat * 65536 % 18446744073709551616 = _
    omega
  unfold pack packed_key
  rw [htonl_htonl, hport, htons_htons, UInt64.toNat_or, h1, h2,
    ← Nat.shiftLeft_add_eq_or_of_lt (by omega), Nat.shiftLeft_eq]

theorem pack_injective {a b : SockAddr} (h : pack a = pack b) : a = b := by
  have hn := congrArg UInt64.toNat h
  rw [pack_toNat, pack_toNat] at hn
  have ha := a.sin_port.toNat_lt
  have hb := b.sin_port.toNat_lt
  have haddr : a.sin_addr = b.sin_addr := UInt32.toNat_inj.mp (by omega)
  have hport : a.sin_port = b.sin_port := UInt16.toNat_inj.mp (by omega)
  cases a; cases b
  simp only at haddr hport
  rw [haddr, hport]

/-! ### Requests and commands -/

/-- One round of the main loop: the datagram `recvfrom` returns, its sender,
    and the bytes that lie behind `topic_key` in memory. -/
structure Request where
  data : List UInt8
  client : SockAddr
  stack : List UInt8 := []

/-- What the main loop makes of a request. The topic is the memory from
    `topic_key` on. -/
inductive Cmd where
  | register (topic_name : List UInt8)
  | subscribe (topic_name : List UInt8) (client : SockAddr)
  | flush (topic_name : List UInt8)
  | unknown
  deriving DecidableEq

/-- The text `"REGISTER "`. -/
def REGISTER : List UInt8 := [82, 69, 71, 73, 83, 84, 69, 82, 32]

/-- The text `"SUBSCRIBE "`. -/
def SUBSCRIBE : List UInt8 := [83, 85, 66, 83, 67, 82, 73, 66, 69, 32]

/-- The text `"FLUSH "`. -/
def FLUSH : List UInt8 := [70, 76, 85, 83, 72, 32]

/-- The texts `"REGACK "`, `"SUBACK "` and `"FLUSHED"`. -/
def REGACK : List UInt8 := [82, 69, 71, 65, 67, 75, 32]

def SUBACK : List UInt8 := [83, 85, 66, 65, 67, 75, 32]

def FLUSHED : List UInt8 := [70, 76, 85, 83, 72, 69, 68]

/-- The chain of `strncmp` tests. `recvfrom` keeps at most 1023 bytes and the
    loop puts a NUL behind them. -/
def parse_request (r : Request) : Cmd :=
  let buf := r.data.take 1023
  if strncmpEq buf REGISTER 9 then
    .register (topic_key_buffer (buf.drop 9) ++ r.stack)
  else if strncmpEq buf SUBSCRIBE 10 then
    .subscribe (topic_key_buffer (buf.drop 10) ++ r.stack) r.client
  else if strncmpEq buf FLUSH 6 then
    .flush (topic_key_buffer (buf.drop 6) ++ r.stack)
  else .unknown

/-- A REGISTER datagram; the receive buffer keeps 1014 bytes of the name. -/
theorem parse_register (s : List UInt8) (client : SockAddr) (stack : List UInt8) :
    parse_request ⟨REGISTER ++ s, client, stack⟩ =
      .register (topic_key_buffer (s.take 1014) ++ stack) := by
  have hbuf : (REGISTER ++ s).take 1023 = REGISTER ++ s.take 1014 := rfl
  have hcmp : strncmpEq (REGISTER ++ s.take 1014) REGISTER 9 = true :=
    (strncmpEq_iff (b := REGISTER) (by decide)).mpr (List.prefix_append _ _)
  unfold parse_request
  dsimp only
  rw [hbuf, if_pos hcmp]
  rfl

/-- The words differ in their first byte. -/
theorem strncmpEq_ne {a b : UInt8} (h : a ≠ b) (as bs : List UInt8) (n : Nat) :
    ¬ strncmpEq (a :: as) (b :: bs) (n + 1) = true := by
  simp [strncmpEq, h]

theorem parse_subscribe (s : List UInt8) (client : SockAddr) (stack : List UInt8) :
    parse_request ⟨SUBSCRIBE ++ s, client, stack⟩ =
      .subscribe (topic_key_buffer (s.take 1013) ++ stack) client := by
  have hbuf : (SUBSCRIBE ++ s).take 1023 = SUBSCRIBE ++ s.take 1013 := rfl
  have hcmp : strncmpEq (SUBSCRIBE ++ s.take 1013) SUBSCRIBE 10 = true :=
    (strncmpEq_iff (b := SUBSCRIBE) (by decide)).mpr (List.prefix_append _ _)
  have hno : ¬ strncmpEq (SUBSCRIBE ++ s.take 1013) REGISTER 9 = true :=
    strncmpEq_ne (by decide : (83 : UInt8) ≠ 82) _ _ _
  unfold parse_request
  dsimp only
  rw [hbuf, if_neg hno, if_pos hcmp]
  rfl

theorem parse_flush (s : List UInt8) (client : SockAddr) (stack : List UInt8) :
    parse_request ⟨FLUSH ++ s, client, stack⟩ =
      .flush (topic_key_buffer (s.take 1017) ++ stack) := by
  have hbuf : (FLUSH ++ s).take 1023 = FLUSH ++ s.take 1017 := rfl
  have hcmp : strncmpEq (FLUSH ++ s.take 1017) FLUSH 6 = true :=
    (strncmpEq_iff (b := FLUSH) (by decide)).mpr (List.prefix_append _ _)
  have hno : ¬ strncmpEq (FLUSH ++ s.take 1017) REGISTER 9 = true :=
    strncmpEq_ne (by decide : (70 : UInt8) ≠ 82) _ _ _
  have hno' : ¬ strncmpEq (FLUSH ++ s.take 1017) SUBSCRIBE 10 = true :=
    strncmpEq_ne (by decide : (70 : UInt8) ≠ 83) _ _ _
  unfold parse_request
  dsimp only
  rw [hbuf, if_neg hno, if_neg hno', if_pos hcmp]
  rfl

/-- A PUBLISH that reaches the main loop is no command. -/
theorem parse_publish (s : List UInt8) (client : SockAddr) (stack : List UInt8) :
    parse_request ⟨PUBLISH ++ s, client, stack⟩ = .unknown := by
  have hbuf : (PUBLISH ++ s).take 1023 = PUBLISH ++ s.take 1015 := rfl
  have hno : ¬ strncmpEq (PUBLISH ++ s.take 1015) REGISTER 9 = true :=
    strncmpEq_ne (by decide : (80 : UInt8) ≠ 82) _ _ _
  have hno' : ¬ strncmpEq (PUBLISH ++ s.take 1015) SUBSCRIBE 10 = true :=
    strncmpEq_ne (by decide : (80 : UInt8) ≠ 83) _ _ _
  have hno'' : ¬ strncmpEq (PUBLISH ++ s.take 1015) FLUSH 6 = true :=
    strncmpEq_ne (by decide : (80 : UInt8) ≠ 70) _ _ _
  unfold parse_request
  dsimp only
  rw [hbuf, if_neg hno, if_neg hno', if_neg hno'']

/-- The client of a SUBSCRIBE is the sender of the datagram. -/
theorem client_of_subscribe {r : Request} {name : List UInt8} {c : SockAddr}
    (h : parse_request r = .subscribe name c) : r.client = c := by
  unfold parse_request at h
  dsimp only at h
  split at h
  · cases h
  split at h
  · cases h
    rfl
  split at h
  · cases h
  · cases h

/-- `snprintf(response, 256, "%s %s", ..)` with the topic read up to its
    terminator. -/
def response (word topic_name : List UInt8) : List UInt8 := (word ++ text topic_name).take 255

/-- The datagram sent back after a command that returned `ret`. REGISTER is
    acknowledged only when `add_topic` returned 0; SUBSCRIBE and FLUSH are
    acknowledged always. -/
def Cmd.reply : Cmd → Int → Option (List UInt8)
  | .register topic_name, ret => if ret = 0 then some (response REGACK topic_name) else none
  | .subscribe topic_name _, _ => some (response SUBACK topic_name)
  | .flush _, _ => some FLUSHED
  | .unknown, _ => none

/-- The datagram of a command as the client scripts send it. -/
def datagram (word topic_name : List UInt8) (client : SockAddr) : Request :=
  ⟨word ++ topic_name, client, []⟩

/-! ### Histories -/

/-- A command that has been carried out, with the value its function
    returned. -/
structure Served where
  cmd : Cmd
  ret : Int
  deriving DecidableEq

/-- The main loop over a sequence of requests, with `serve` one round of it. -/
def main_loop {M : Type} (serve : Request → M → Served × M) : List Request → M → List Served × M
  | [], m => ([], m)
  | r :: rs, m =>
    let (e, m') := serve r m
    let (es, m'') := main_loop serve rs m'
    (e :: es, m'')

/-- The effect of one carried out command on the clients accepted for topic
    `t`: an `add_subscriber` for `t` that returned 0 adds its client at the
    end, a FLUSH of `t` removes all. -/
def Served.apply (e : Served) (t : TopicKey) (subs : List SockAddr) : List SockAddr :=
  match e.cmd with
  | .subscribe name c => if topic_key_of name = some t ∧ e.ret = 0 then subs ++ [c] else subs
  | .flush name => if topic_key_of name = some t then [] else subs
  | _ => subs

/-- The clients whose `add_subscriber` call for topic `t` returned 0 since
    the last FLUSH of `t`, in order and with repetitions. -/
def accepted (hist : List Served) (t : TopicKey) : List SockAddr :=
  hist.foldl (fun subs e => e.apply t subs) []

/-- A command adds one client at most. -/
theorem Served.length_apply_le (e : Served) (t : TopicKey) (subs : List SockAddr) :
    (e.apply t subs).length ≤ subs.length + 1 := by
  rcases e with ⟨cmd, ret⟩
  cases cmd with
  | register => exact Nat.le_succ _
  | subscribe name c =>
    unfold Served.apply
    dsimp only
    split
    · rw [List.length_append, List.length_singleton]
    · exact Nat.le_succ _
  | flush name =>
    unfold Served.apply
    dsimp only
    split
    · exact Nat.zero_le _
    · exact Nat.le_succ _
  | unknown => exact Nat.le_succ _

section main_loop
variable {M : Type} {serve : Request → M → Served × M}

@[simp] theorem main_loop_nil (m : M) : main_loop serve [] m = ([], m) := rfl

@[simp] theorem main_loop_cons (r : Request) (rs : List Request) (m : M) :
    main_loop serve (r :: rs) m =
      ((serve r m).1 :: (main_loop serve rs (serve r m).2).1,
        (main_loop serve rs (serve r m).2).2) := rfl

theorem main_loop_append (rs rs' : List Request) (m : M) :
    main_loop serve (rs ++ rs') m =
      ((main_loop serve rs m).1 ++ (main_loop serve rs' (main_loop serve rs m).2).1,
        (main_loop serve rs' (main_loop serve rs m).2).2) := by
  induction rs generalizing m with
  | nil => rfl
  | cons r rs ih => simp only [List.cons_append, main_loop_cons, ih]

/-- **Simulation**: when each round keeps two states related and makes the
    same entry in the history, so does the loop. -/
theorem main_loop_simulates {N : Type} {serve' : Request → N → Served × N} {R : M → N → Prop}
    (hstep : ∀ r m n, R m n → (serve r m).1 = (serve' r n).1 ∧ R (serve r m).2 (serve' r n).2)
    (rs : List Request) {m : M} {n : N} (h : R m n) :
    (main_loop serve rs m).1 = (main_loop serve' rs n).1 ∧
      R (main_loop serve rs m).2 (main_loop serve' rs n).2 := by
  induction rs generalizing m n with
  | nil => exact ⟨rfl, h⟩
  | cons r rs ih =>
    obtain ⟨hsame, hnext⟩ := hstep r m n h
    obtain ⟨hrest, hend⟩ := ih hnext
    exact ⟨congrArg₂ List.cons hsame hrest, hend⟩

end main_loop

@[simp] theorem accepted_nil (t : TopicKey) : accepted [] t = [] := rfl

@[simp] theorem accepted_snoc (hist : List Served) (e : Served) (t : TopicKey) :
    accepted (hist ++ [e]) t = e.apply t (accepted hist t) := by
  simp [accepted, List.foldl_append]

end BpfBroker
