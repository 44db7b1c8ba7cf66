import Mathlib.Data.List.GetD
import BpfBroker.Benchmark.Publisher
import BpfBroker.Lib.Workers

/-! # Sequence Numbers

    The publishers take their numbers from one counter and keep them in their
    buffers until `sendmmsg` has sent the batch; what it did not send is
    overwritten, and its numbers are lost. No number comes twice. -/

namespace BpfBroker.Benchmark

open LTS Workers

/-- What a publisher puts into a packet: where it goes, the time taken for it,
    and the number drawn for it. -/
structure Stamp where
  dest : Fin 16
  now_ns : BitVec 128
  seq : Nat

/-- The message of publisher `i` with this stamp. -/
def Stamp.bytes (args : PublisherArgs) (i : Fin args.pubs) (s : Stamp) : List UInt8 :=
  message args.topic s.now_ns.toNat (BitVec.ofNat 64 s.seq).toNat (args.payload i)

def Stamp.port (s : Stamp) : Nat := 49152 + s.dest.val

/-- The packet of publisher `i` with this stamp. -/
def Stamp.packet (args : PublisherArgs) (i : Fin args.pubs) (s : Stamp) : Packet :=
  ⟨s.port, s.bytes args i⟩

/-- The stamp that step `k` of a run writes into a buffer, if it does, and the
    publisher that writes it. -/
def stamped {args : PublisherArgs} (r : Run (publishing args)) (k : Nat) :
    Option (Fin args.pubs × Stamp) :=
  match r.labels k with
  | .publisher i (.fill dest now_ns) => some (i, ⟨dest, now_ns, (r.states k).shared.global_seq⟩)
  | _ => none

/-- The numbers in a list of stamps. -/
def seqs (stamps : List Stamp) : Multiset Nat := (stamps.map Stamp.seq : List Nat)

/-- The buffers in use hold the stamps of the current batch that are not sent
    yet. -/
def Holding (args : PublisherArgs) (i : Fin args.pubs) (p : Publisher) (held : List Stamp) : Prop :=
  match p.point with
  | .fill n =>
    n < BATCH ∧ p.msg_bufs.take n = held.map (Stamp.bytes args i) ∧
      p.dest_ports.take n = held.map Stamp.port
  | .sendmmsg k =>
    k ≤ BATCH ∧ p.msg_bufs.drop k = held.map (Stamp.bytes args i) ∧
      p.dest_ports.drop k = held.map Stamp.port
  | .panicked => False
  | _ => held = []

/-- The buffers of a publisher: 64 messages, whatever their stamps. -/
structure Publisher.Loaded (args : PublisherArgs) (i : Fin args.pubs) (p : Publisher)
    (held : List Stamp) : Prop where
  length : p.msg_bufs.length = BATCH
  ports : p.dest_ports.length = BATCH
  message : ∀ buf ∈ p.msg_bufs, ∃ ts q, buf = message args.topic ts q (args.payload i)
  holding : Holding args i p held

/-- The packets on the wire have the stamps `sent`. Their numbers and those
    held in buffers are different and below the next one, and each stamp is one
    of those that have been `made`. -/
structure Trial.Numbered {args : PublisherArgs} (t : Trial args)
    (made : Fin args.pubs × Stamp → Prop) (held : Fin args.pubs → List Stamp)
    (sent : List (Fin args.pubs × Stamp)) : Prop where
  loaded : ∀ i, (t.publishers i).Loaded args i (held i)
  wire : t.shared.wire = sent.map fun e => e.2.packet args e.1
  sent_made : ∀ e ∈ sent, made e
  held_made : ∀ i, ∀ s ∈ held i, made (i, s)
  nodup : (seqs (sent.map Prod.snd) + total seqs held).Nodup
  below : ∀ q ∈ seqs (sent.map Prod.snd) + total seqs held, q < t.shared.global_seq

section loaded
variable {args : PublisherArgs} {i : Fin args.pubs} {p : Publisher} {held : List Stamp}

/-- A packet is filled in: no slice is out of range, and the buffer has the
    next stamp. -/
theorem Publisher.Loaded.fill_eq (h : p.Loaded args i held) {n : Nat} (hn : n < BATCH)
    (dest : Fin 16) (now_ns : BitVec 128) (seq : Nat) :
    fill args.topic (p.msg_bufs.getD n []) now_ns (BitVec.ofNat 64 seq) =
      some (Stamp.bytes args i ⟨dest, now_ns, seq⟩) := by
  have hlt : n < p.msg_bufs.length := by
    rw [h.length]
    exact hn
  have hmem : p.msg_bufs.getD n [] ∈ p.msg_bufs := by
    rw [List.getD_eq_getElem _ _ hlt]
    exact List.getElem_mem hlt
  obtain ⟨ts, q, hbuf⟩ := h.message _ hmem
  rw [hbuf, fill_message]
  rfl

/-- The buffers after a packet is filled in. -/
theorem Publisher.Loaded.fill (h : p.Loaded args i held) {n : Nat} (hp : p.point = .fill n)
    (s : Stamp) :
    Publisher.Loaded args i
      { p with
        point := if n + 1 < BATCH then .fill (n + 1) else .sendmmsg 0
        dest_ports := p.dest_ports.set n s.port
        msg_bufs := p.msg_bufs.set n (s.bytes args i) } (held ++ [s]) := by
  have hholding := h.holding
  unfold Holding at hholding
  rw [hp] at hholding
  obtain ⟨hn, hbufs, hports⟩ := hholding
  have hnext : ∀ {α : Type} {l : List α} {f : Stamp → α}, l.length = BATCH →
      l.take n = held.map f → (l.set n (f s)).take (n + 1) = (held ++ [s]).map f := by
    intro α l f hlen htake
    rw [List.take_add_one, List.take_set_of_le (Nat.le_refl n), htake,
      List.getElem?_set_self (by rw [hlen]; exact hn), List.map_append]
    rfl
  have hbufs' := hnext h.length hbufs
  have hports' := hnext h.ports hports
  have hlength : (p.msg_bufs.set n (s.bytes args i)).length = BATCH := by
    rw [List.length_set]
    exact h.length
  have hlength' : (p.dest_ports.set n s.port).length = BATCH := by
    rw [List.length_set]
    exact h.ports
  constructor
  · exact hlength
  · exact hlength'
  · intro buf hbuf
    rcases List.mem_or_eq_of_mem_set hbuf with hold | rfl
    · exact h.message buf hold
    · exact ⟨_, _, rfl⟩
  · unfold Holding
    by_cases hlast : n + 1 < BATCH
    · rw [if_pos hlast]
      exact ⟨hlast, hbufs', hports'⟩
    · -- the batch is complete
      have hall : n + 1 = BATCH := by omega
      rw [List.take_of_length_le (by rw [hlength, hall])] at hbufs'
      rw [List.take_of_length_le (by rw [hlength', hall])] at hports'
      rw [if_neg hlast]
      exact ⟨Nat.zero_le _, hbufs', hports'⟩

/-- **One step of a publisher** takes the next number, sends the first message
    it holds, or does neither. -/
theorem PublisherStep.loaded {sh sh' : Shared} {p' : Publisher} {a : Act}
    (hstep : PublisherStep args sh p a p' sh') (h : p.Loaded args i held) :
    (∃ dest now_ns, a = .fill dest now_ns ∧
      p'.Loaded args i (held ++ [⟨dest, now_ns, sh.global_seq⟩]) ∧ sh'.wire = sh.wire ∧
      sh'.global_seq = sh.global_seq + 1) ∨
    (∃ s held', held = s :: held' ∧ p'.Loaded args i held' ∧
      sh'.wire = sh.wire ++ [s.packet args i] ∧ sh'.global_seq = sh.global_seq) ∨
    (p'.Loaded args i [] ∧ sh'.wire = sh.wire ∧ sh'.global_seq = sh.global_seq) := by
  have hholding := h.holding
  unfold Holding at hholding
  cases hstep with
  | start hp => exact Or.inr (Or.inr ⟨⟨h.length, h.ports, h.message, rfl⟩, rfl, rfl⟩)
  | again hp _ =>
    exact Or.inr (Or.inr ⟨⟨h.length, h.ports, h.message, Nat.zero_lt_succ 63, rfl, rfl⟩, rfl, rfl⟩)
  | finish hp => exact Or.inr (Or.inr ⟨⟨h.length, h.ports, h.message, rfl⟩, rfl, rfl⟩)
  | @panic n dest now_ns hp hfill =>
    rw [hp] at hholding
    rw [h.fill_eq hholding.1 dest] at hfill
    cases hfill
  | @fill n dest now_ns buf hp hfill =>
    rw [hp] at hholding
    rw [h.fill_eq hholding.1 dest] at hfill
    cases hfill
    exact Or.inl ⟨dest, now_ns, rfl, h.fill hp ⟨dest, now_ns, sh.global_seq⟩, rfl, rfl⟩
  | transmit hp hk =>
    rw [hp] at hholding
    obtain ⟨-, hdrop, hports⟩ := hholding
    have hlt := hk
    rw [← h.length] at hlt
    have hport := hk
    rw [← h.ports] at hport
    rw [List.drop_eq_getElem_cons hlt] at hdrop
    obtain ⟨s, held', rfl, hs, hrest⟩ := List.map_eq_cons_iff.mp hdrop.symm
    rw [List.drop_eq_getElem_cons hport, List.map_cons] at hports
    obtain ⟨hfirst, hports'⟩ := List.cons.inj hports
    refine Or.inr (Or.inl ⟨s, held', rfl, ⟨h.length, h.ports, h.message, hk, hrest.symm, hports'⟩,
      ?_, rfl⟩)
    unfold Stamp.packet
    rw [hs, ← hfirst, List.getD_eq_getElem _ _ hlt, List.getD_eq_getElem _ _ hport]
  | ret hp =>
    refine Or.inr (Or.inr ⟨⟨h.length, h.ports, h.message, ?_⟩, rfl, rfl⟩)
    unfold Holding
    dsimp only
    split_ifs
    · rfl
    · rfl
  | count hp =>
    refine Or.inr (Or.inr ⟨⟨h.length, h.ports, h.message, ?_⟩, rfl, rfl⟩)
    unfold Holding
    dsimp only
    split_ifs
    · rfl
    · rfl
  | pace hp =>
    refine Or.inr (Or.inr ⟨⟨h.length, h.ports, h.message, ?_⟩, rfl, rfl⟩)
    unfold Holding
    dsimp only
    split_ifs
    · rfl
    · rfl
  | wake hp _ => exact Or.inr (Or.inr ⟨⟨h.length, h.ports, h.message, rfl⟩, rfl, rfl⟩)

end loaded

@[simp] theorem seqs_nil : seqs [] = 0 := rfl

@[simp] theorem seqs_cons (s : Stamp) (l : List Stamp) : seqs (s :: l) = s.seq ::ₘ seqs l := rfl

@[simp] theorem seqs_append (l l' : List Stamp) : seqs (l ++ l') = seqs l + seqs l' := by
  unfold seqs
  rw [List.map_append, Multiset.coe_add]

section numbered
variable {args : PublisherArgs}

theorem numbered_init (made : Fin args.pubs × Stamp → Prop) :
    (Trial.init args).Numbered made (fun _ => []) [] := by
  have hnone : total seqs (fun _ : Fin args.pubs => ([] : List Stamp)) = 0 := total_eq_zero fun _ => rfl
  constructor
  · intro i
    constructor
    · exact List.length_replicate
    · exact List.length_replicate
    · intro buf hbuf
      rw [List.eq_of_mem_replicate hbuf]
      exact ⟨0, 0, msg_template_eq _ _⟩
    · exact rfl
  · rfl
  · intro e he
    exact absurd he List.not_mem_nil
  · intro i s hs
    exact absurd hs List.not_mem_nil
  · rw [List.map_nil, seqs_nil, hnone, add_zero]
    exact Multiset.nodup_zero
  · rw [List.map_nil, seqs_nil, hnone, add_zero]
    intro q hq
    exact absurd hq (Multiset.notMem_zero q)

/-- The other publishers keep what they hold. -/
theorem loaded_update {publishers : Fin args.pubs → Publisher} {held : Fin args.pubs → List Stamp}
    (h : ∀ j, (publishers j).Loaded args j (held j)) {i : Fin args.pubs} {p : Publisher}
    {held' : List Stamp} (hi : p.Loaded args i held') (j : Fin args.pubs) :
    (Function.update publishers i p j).Loaded args j (Function.update held i held' j) := by
  by_cases hj : j = i
  · subst hj
    rw [Function.update_self, Function.update_self]
    exact hi
  · rw [Function.update_of_ne hj, Function.update_of_ne hj]
    exact h j

/-- What the publishers hold has been made, after one of them has changed what
    it holds. -/
theorem held_update {made made' : Fin args.pubs × Stamp → Prop} {held : Fin args.pubs → List Stamp}
    (h : ∀ j, ∀ s ∈ held j, made (j, s)) (hmade : ∀ e, made e → made' e) {i : Fin args.pubs}
    {held' : List Stamp} (hi : ∀ s ∈ held', made' (i, s)) (j : Fin args.pubs) :
    ∀ s ∈ Function.update held i held' j, made' (j, s) := by
  by_cases hj : j = i
  · subst hj
    rw [Function.update_self]
    exact hi
  · rw [Function.update_of_ne hj]
    exact fun s hs => hmade _ (h j s hs)

/-- **One step** keeps the numbers different: a publisher takes the next one,
    sends one it holds, or gives up those it holds. -/
theorem Trial.Numbered.step {t t' : Trial args} {made made' : Fin args.pubs × Stamp → Prop}
    {held : Fin args.pubs → List Stamp} {sent : List (Fin args.pubs × Stamp)}
    (h : t.Numbered made held sent) {l : Trial.Label args} (hnext : t.next l = some t')
    (hmade : ∀ e, made e → made' e)
    (hfill : ∀ i dest now_ns, l = .publisher i (.fill dest now_ns) →
      made' (i, ⟨dest, now_ns, t.shared.global_seq⟩)) :
    ∃ held' sent', t'.Numbered made' held' sent' := by
  have hsent : ∀ e ∈ sent, made' e := fun e he => hmade e (h.sent_made e he)
  have hheld : ∀ i, ∀ s ∈ held i, made' (i, s) := fun i s hs => hmade _ (h.held_made i s hs)
  rcases Trial.next_cases hnext with ⟨i, a, p, sh, rfl, hstep, rfl⟩ | ⟨ns, rfl⟩ | ⟨n, rfl⟩ | rfl
  · rcases hstep.loaded (h.loaded i) with ⟨dest, now_ns, rfl, hp, hwire, hseq⟩ |
      ⟨s, rest, hfirst, hp, hwire, hseq⟩ | ⟨hp, hwire, hseq⟩
    · -- the next number is new
      let s : Stamp := ⟨dest, now_ns, t.shared.global_seq⟩
      have htotal : total seqs (Function.update held i (held i ++ [s])) =
          total seqs held + {t.shared.global_seq} := by
        have hadd : total seqs (Function.update held i (held i ++ [s])) +
            0 = total seqs held + {t.shared.global_seq} :=
          total_update_of_add (by rw [add_zero, seqs_append]; rfl)
        rwa [add_zero] at hadd
      have hall : seqs (sent.map Prod.snd) + total seqs (Function.update held i (held i ++ [s])) =
          t.shared.global_seq ::ₘ (seqs (sent.map Prod.snd) + total seqs held) := by
        rw [htotal, ← add_assoc, add_comm _ {_}, Multiset.singleton_add]
      have hnew : t.shared.global_seq ∉ seqs (sent.map Prod.snd) + total seqs held :=
        fun hmem => Nat.lt_irrefl _ (h.below _ hmem)
      refine ⟨_, sent, loaded_update h.loaded hp, ?_, hsent, ?_, ?_, ?_⟩
      · rw [hwire]
        exact h.wire
      · apply held_update h.held_made hmade
        intro s' hs'
        rcases List.mem_append.mp hs' with hold | hlast
        · exact hheld i s' hold
        · rw [List.mem_singleton.mp hlast]
          exact hfill i dest now_ns rfl
      · rw [hall]
        exact Multiset.nodup_cons.mpr ⟨hnew, h.nodup⟩
      · intro q hq
        show q < sh.global_seq
        rw [hseq]
        rcases Multiset.mem_cons.mp (hall ▸ hq) with rfl | hq
        · exact Nat.lt_succ_self _
        · exact Nat.lt_succ_of_lt (h.below q hq)
    · -- the number goes from the buffer to the wire
      have htotal : total seqs (Function.update held i rest) + {s.seq} = total seqs held := by
        have hadd : total seqs (Function.update held i rest) + {s.seq} = total seqs held + 0 :=
          total_update_of_add
            (by rw [hfirst, add_zero, seqs_cons, add_comm, Multiset.singleton_add])
        rwa [add_zero] at hadd
      have hall : seqs ((sent ++ [(i, s)]).map Prod.snd) + total seqs (Function.update held i rest) =
          seqs (sent.map Prod.snd) + total seqs held := by
        rw [List.map_append, seqs_append, ← htotal, add_assoc, add_comm (total seqs _)]
        rfl
      refine ⟨_, sent ++ [(i, s)], loaded_update h.loaded hp, ?_, ?_, ?_, ?_, ?_⟩
      · rw [hwire, List.map_append, h.wire]
        rfl
      · intro e he
        rcases List.mem_append.mp he with hold | hlast
        · exact hsent e hold
        · rw [List.mem_singleton.mp hlast]
          exact hheld i s (by rw [hfirst]; exact List.mem_cons_self)
      · apply held_update h.held_made hmade
        intro s' hs'
        exact hheld i s' (by rw [hfirst]; exact List.mem_cons_of_mem _ hs')
      · rw [hall]
        exact h.nodup
      · intro q hq
        show q < sh.global_seq
        rw [hseq]
        exact h.below q (hall ▸ hq)
    · -- what is held and not sent is lost
      have htotal : total seqs (Function.update held i []) + seqs (held i) = total seqs held := by
        have hadd : total seqs (Function.update held i []) + seqs (held i) = total seqs held + 0 :=
          total_update_of_add (by rw [add_zero, seqs_nil, zero_add])
        rwa [add_zero] at hadd
      have hle : seqs (sent.map Prod.snd) + total seqs (Function.update held i []) ≤
          seqs (sent.map Prod.snd) + total seqs held := by
        rw [← htotal, ← add_assoc]
        exact Multiset.le_add_right _ _
      refine ⟨_, sent, loaded_update h.loaded hp, ?_, hsent, ?_, ?_, ?_⟩
      · rw [hwire]
        exact h.wire
      · exact held_update h.held_made hmade fun s' hs' => absurd hs' List.not_mem_nil
      · exact Multiset.nodup_of_le hle h.nodup
      · intro q hq
        show q < sh.global_seq
        rw [hseq]
        exact h.below q (Multiset.mem_of_le hle hq)
  · exact ⟨held, sent, h.loaded, h.wire, hsent, hheld, h.nodup, h.below⟩
  · exact ⟨held, sent, h.loaded, h.wire, hsent, hheld, h.nodup, h.below⟩
  · exact ⟨held, sent, h.loaded, h.wire, hsent, hheld, h.nodup, h.below⟩

/-- The stamps that a run has made before step `n`. -/
def Made (r : Run (publishing args)) (n : Nat) (e : Fin args.pubs × Stamp) : Prop :=
  ∃ k, k < n ∧ stamped r k = some e

/-- **Along every run**, however the threads interleave. -/
theorem numbered (r : Run (publishing args)) {n : Nat} (hn : n ≤ r.len) :
    ∃ held sent, (r.states n).Numbered (Made r n) held sent := by
  refine r.invariant (P := fun n t => ∃ held sent, t.Numbered (Made r n) held sent) ?_ ?_ n hn
  · rintro t rfl
    exact ⟨_, _, numbered_init _⟩
  · intro k _ h hstep
    obtain ⟨held, sent, hnum⟩ := h
    refine hnum.step hstep ?_ ?_
    · intro e he
      obtain ⟨k', hk', heq⟩ := he
      exact ⟨k', Nat.lt_succ_of_lt hk', heq⟩
    · intro i dest now_ns hl
      refine ⟨k, Nat.lt_succ_self k, ?_⟩
      unfold stamped
      rw [hl]

end numbered

/-! ### The packets on the wire -/

/-- The bytes are a message with this stamp, as far as a subscriber reads it. -/
def Stamp.Carried (args : PublisherArgs) (s : Stamp) (bytes : List UInt8) : Prop :=
  HasFields args.topic s.now_ns.toNat (BitVec.ofNat 64 s.seq).toNat bytes

theorem Stamp.carried_bytes (args : PublisherArgs) (i : Fin args.pubs) (s : Stamp) :
    s.Carried args (s.bytes args i) := hasFields_message _ _ _ _

/-- What a subscriber reads from a message; the field of the number has 10
    digits. -/
theorem Stamp.Carried.read {args : PublisherArgs} (htopic : ' ' ∉ args.topic) {s : Stamp}
    {bytes : List UInt8} (h : s.Carried args bytes) (hs : s.seq < 10 ^ 10) :
    parse_timestamp_ns bytes = some (some (BitVec.ofNat 128 (s.now_ns.toNat % 10 ^ 20))) ∧
      parse_seq_number bytes = some (some (BitVec.ofNat 64 s.seq)) := by
  have hsmall : s.seq < 10000000000 := hs
  have hfields := HasFields.read h htopic
  have hts : (10 : Nat) ^ TS_LEN = 10 ^ 20 := rfl
  have hlen : (10 : Nat) ^ SEQ_LEN = 10000000000 := rfl
  rwa [hts, hlen, BitVec.toNat_ofNat, Nat.mod_eq_of_lt (Nat.lt_trans hsmall (by decide)),
    Nat.mod_eq_of_lt hsmall] at hfields

/-- These stamps were made in the first `n` steps of a run, all with numbers of
    their own. -/
structure Genuine {args : PublisherArgs} (r : Run (publishing args)) (n : Nat)
    (stamps : List (Fin args.pubs × Stamp)) : Prop where
  made : ∀ e ∈ stamps, Made r n e
  seq_lt : ∀ e ∈ stamps, e.2.seq < (r.states n).shared.global_seq
  nodup : (stamps.map fun e => e.2.seq).Nodup

/-- Numbers that are different are read differently. -/
theorem Genuine.nodup_read {args : PublisherArgs} {r : Run (publishing args)} {n : Nat}
    {stamps : List (Fin args.pubs × Stamp)} (h : Genuine r n stamps) (htopic : ' ' ∉ args.topic)
    (hseq : (r.states n).shared.global_seq ≤ 10 ^ 10) {bytes : Fin args.pubs × Stamp → List UInt8}
    (hbytes : ∀ e ∈ stamps, e.2.Carried args (bytes e)) :
    (stamps.map fun e => parse_seq_number (bytes e)).Nodup := by
  have hlt : ∀ e ∈ stamps, e.2.seq < 10 ^ 10 :=
    fun e he => Nat.lt_of_lt_of_le (h.seq_lt e he) hseq
  have hmap : stamps.map (fun e => parse_seq_number (bytes e)) =
      (stamps.map fun e => e.2.seq).map fun q => some (some (BitVec.ofNat 64 q)) := by
    rw [List.map_map]
    exact List.map_congr_left fun e he => ((hbytes e he).read htopic (hlt e he)).2
  rw [hmap]
  refine List.Nodup.map_on ?_ h.nodup
  intro a ha b hb hab
  obtain ⟨ea, hea, rfl⟩ := List.mem_map.mp ha
  obtain ⟨eb, heb, rfl⟩ := List.mem_map.mp hb
  have hlt' : ∀ e ∈ stamps, e.2.seq < 2 ^ 64 := fun e he => Nat.lt_trans (hlt e he) (by decide)
  have hval := congrArg BitVec.toNat (Option.some.inj (Option.some.inj hab))
  rwa [BitVec.toNat_ofNat, BitVec.toNat_ofNat, Nat.mod_eq_of_lt (hlt' ea hea),
    Nat.mod_eq_of_lt (hlt' eb heb)] at hval

section wire
variable {args : PublisherArgs} (r : Run (publishing args)) {n : Nat} (hn : n ≤ r.len)
include hn

/-- **The wire** holds the packets of stamps that the publishers made. -/
theorem wire_stamps : ∃ sent : List (Fin args.pubs × Stamp),
    (r.states n).shared.wire = sent.map (fun e => e.2.packet args e.1) ∧ Genuine r n sent := by
  obtain ⟨held, sent, h⟩ := numbered r hn
  refine ⟨sent, h.wire, h.sent_made, ?_, ?_⟩
  · intro e he
    apply h.below
    exact Multiset.mem_add.mpr (Or.inl (List.mem_map_of_mem (List.mem_map_of_mem he)))
  · have hnodup := Multiset.nodup_of_le (Multiset.le_add_right _ _) h.nodup
    unfold seqs at hnodup
    rw [List.map_map] at hnodup
    exact hnodup

/-- The same for packets that have got somewhere, in any order. -/
theorem arrived_stamps {arrived : List Packet} (h : arrived.Subperm (r.states n).shared.wire) :
    ∃ stamps : List (Fin args.pubs × Stamp),
      arrived = stamps.map (fun e => e.2.packet args e.1) ∧ Genuine r n stamps := by
  obtain ⟨sent, hwire, hsent⟩ := wire_stamps r hn
  obtain ⟨l, hperm, hsub⟩ := h
  rw [hwire] at hsub
  obtain ⟨l', hsub', rfl⟩ := List.sublist_map_iff.mp hsub
  -- the stamps in the order of the packets
  have hsame : List.Forall₂ (fun p (e : Fin args.pubs × Stamp) => p = e.2.packet args e.1)
      (l'.map fun e => e.2.packet args e.1) l' :=
    List.forall₂_map_left_iff.mpr (List.forall₂_same.mpr fun _ _ => rfl)
  obtain ⟨stamps, hall, hstamps⟩ := List.perm_comp_forall₂ hperm.symm hsame
  refine ⟨stamps, ?_, ?_, ?_, ?_⟩
  · rw [← List.forall₂_eq_eq_eq, List.forall₂_map_right_iff]
    exact hall
  · intro e he
    exact hsent.made e (hsub'.subset (hstamps.subset he))
  · intro e he
    exact hsent.seq_lt e (hsub'.subset (hstamps.subset he))
  · exact (hstamps.map _).nodup_iff.mpr (hsent.nodup.sublist (hsub'.map _))

end wire

end BpfBroker.Benchmark
