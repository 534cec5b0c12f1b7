import OpenURMA.Framing
import OpenURMA.Library.DirectMapped
import OpenURMA.Transport.Receivers

/-!
# Isolation of receive channels

The channels of the receiver are a table of machines, one for each value of the low four bits
of the source.  Two sources with different channels do not notice each other; two sources that
share a channel take it from each other, and each time its window starts anew.
-/

namespace OpenURMA.TpChannelRx

open Library Slots UbMeta List BitVec

def source (p : Packet) : U32 := scna.get p.head

theorem framing_passedMeta (c : RxChan) (f : Flit) :
    (passedMeta c f).sop = f.sop ∧ (passedMeta c f).eop = f.eop := by
  unfold passedMeta
  split <;> simp

def answer : Mealy RxChan Packet (Option Packet × Flit) := fun c p =>
  let psn := psn.get p.head
  let checked := receivePsn (openChannel c (source p) psn) psn
  let framing := framing_passedMeta checked.1 p.head
  (checked.1, (if checked.2.inWindow then
      some (p.withHead (passedMeta checked.1 p.head) framing.1 framing.2) else none),
    descriptor checked.1 checked.2 (source p))

def channels : Mealy (Fin 16 → RxChan) Packet (Option Packet × Flit) :=
  cellwise (fun p => idx (source p)) answer

theorem sent_packets_cons (port : ℕ) (s : State) (p : Packet) (packets : List Packet) :
    Ports.sent port (step.trace s ((p :: packets).flatMap Packet.flits)) =
      Ports.sent port (step.trace s p.flits) ++
        Ports.sent port (step.trace (deliver s p) (packets.flatMap Packet.flits)) := by
  rw [flatMap_cons, Mealy.trace_append, Ports.sent_append]
  rfl

theorem sent_channels (s : State) (packets : List Packet) :
    Ports.sent 1 (step.trace s (packets.flatMap Packet.flits)) =
        ((channels.trace s.rxchan packets).flatMap (·.1.toList)).flatMap Packet.flits ∧
      Ports.sent 2 (step.trace s (packets.flatMap Packet.flits)) =
        (channels.trace s.rxchan packets).map (·.2) := by
  induction packets generalizing s with
  | nil => exact ⟨rfl, rfl⟩
  | cons p packets ih =>
    have passed : Ports.sent 1 (step.trace s p.flits) =
        (channels s.rxchan p).2.1.toList.flatMap Packet.flits := by
      rw [show Ports.sent 1 (step.trace s p.flits) = _ from forwarded_eq s p]
      change _ = (if (checkMeta s p.head).2.inWindow then _ else none).toList.flatMap _
      cases (checkMeta s p.head).2.inWindow <;> simp [Packet.flits, Packet.withHead, checkMeta,
        source]
    have acked : Ports.sent 2 (step.trace s p.flits) = [(channels s.rxchan p).2.2] :=
      acknowledged_eq s p
    have later : (deliver s p).rxchan = (channels s.rxchan p).1 := by
      rw [deliver_eq]
      rfl
    obtain ⟨flits, descriptors⟩ := ih (deliver s p)
    rw [later] at flits descriptors
    rw [sent_packets_cons, sent_packets_cons, flits, descriptors, passed, acked,
      Mealy.trace_cons, flatMap_cons, flatMap_append]
    exact ⟨rfl, rfl⟩

/-- The flits of a source that are handed on, and the descriptors addressed to it. -/
def concerning (a : U32) (memory : Fin 16 → U32) (packets : List Packet) : List Flit × List Flit :=
  let trace := step.trace (init memory) (packets.flatMap Packet.flits)
  (ofKey scna.get a (Ports.sent 1 trace),
    (Ports.sent 2 trace).filter fun d => d.get 0 = a.setWidth 64)

/-- Whatever packets of `b` arrive between them, those of `a` are treated as if they arrived
alone. -/
def Isolated (a b : U32) : Prop :=
  ∀ (memory : Fin 16 → U32) (packets : List Packet),
    (∀ p ∈ packets, source p = a ∨ source p = b) →
      concerning a memory packets = concerning a memory (packets.filter fun p => source p = a)

/-- The part of an answer that concerns a source. -/
def ownPacket (a : U32) (reply : Option Packet × Flit) : List Packet :=
  reply.1.toList.filter fun p => scna.get p.head = a

def ownDescriptor (a : U32) (reply : Option Packet × Flit) : List Flit :=
  [reply.2].filter fun d => d.get 0 = a.setWidth 64

theorem concerning_eq (a : U32) (memory : Fin 16 → U32) (packets : List Packet) :
    concerning a memory packets =
      (((channels.trace (init memory).rxchan packets).flatMap (ownPacket a)).flatMap Packet.flits,
        (channels.trace (init memory).rxchan packets).flatMap (ownDescriptor a)) := by
  obtain ⟨flits, descriptors⟩ := sent_channels (init memory) packets
  rw [concerning, flits, descriptors, ofKey_packets, filter_flatMap]
  refine congrArg (Prod.mk _) ?_
  induction channels.trace (init memory).rxchan packets with
  | nil => rfl
  | cons reply replies ih =>
    rw [map_cons, flatMap_cons, ← ih, ownDescriptor, ← filter_append]
    rfl

theorem source_answer {c : RxChan} {p q : Packet} (passed : (answer c p).2.1 = some q) :
    scna.get q.head = source p := by
  simp only [answer, Option.ite_none_right_eq_some, Option.some.injEq] at passed
  obtain ⟨_, rfl⟩ := passed
  change scna.get (passedMeta _ _) = _
  unfold passedMeta
  split
  · exact Field.get_set_disjoint (by decide) ..
  · rfl

theorem descriptor_get (c : RxChan) (flags : Flags) (scna : U32) :
    (descriptor c flags scna).get 0 = scna.setWidth 64 := by
  unfold descriptor
  split
  · rfl
  · split <;> rfl

section

variable {a : U32} (c : RxChan) {p : Packet} (foreign : idx (source p) ≠ idx a)
include foreign

theorem source_ne_of_foreign : source p ≠ a := fun own => foreign (congrArg idx own)

theorem ownPacket_answer : ownPacket a (answer c p).2 = [] := by
  rw [ownPacket, filter_eq_nil_iff]
  intro q member
  rw [Option.mem_toList] at member
  simpa [source_answer member] using source_ne_of_foreign foreign

theorem ownDescriptor_answer : ownDescriptor a (answer c p).2 = [] := by
  have addressed : (answer c p).2.2.get 0 = (source p).setWidth 64 := descriptor_get ..
  rw [ownDescriptor, filter_eq_nil_iff]
  intro d member
  rw [mem_singleton.mp member, addressed, decide_eq_true_eq]
  intro same
  have narrow := congrArg (BitVec.setWidth 32) same
  simp only [setWidth_setWidth_of_le _ (show 32 ≤ 64 by decide),
    setWidth_eq] at narrow
  exact source_ne_of_foreign foreign narrow

end

theorem isolated_of_idx_ne {a b : U32} (apart : idx a ≠ idx b) : Isolated a b := by
  intro memory packets sources
  -- the packets in the channel of `a` are those of `a`
  have same : (packets.filter fun p => source p = a).filter (fun p => idx (source p) = idx a) =
      packets.filter fun p => idx (source p) = idx a := by
    rw [filter_filter]
    refine filter_congr fun p member => ?_
    rcases sources p member with own | other
    · simp [own]
    · simp [other, apart.symm]
  rw [concerning_eq, concerning_eq, channels, flatMap_cellwise fun c _ => ownPacket_answer c,
    flatMap_cellwise fun c _ => ownDescriptor_answer c,
    flatMap_cellwise fun c _ => ownPacket_answer c,
    flatMap_cellwise fun c _ => ownDescriptor_answer c, same]

section

variable {s : State} {slots : Slots} {a : Arrival} (represents : Represents s slots)
variable (opened : slots.receiver a.source a.number = .opened 64 a.number)
include represents opened

theorem forwarded_of_opened : forwarded s a.packet = a.packet.flits := by
  have close : slots.Close a := by
    rw [Close, opened]
    exact ⟨Nat.le_add_right .., Nat.le_add_right ..⟩
  rw [forwarded_spec represents a close, opened]
  exact if_pos (congrArg Verdict.accepts (Receiver.verdict_next _))

theorem represents_deliver_opened :
    Represents (deliver s a.packet) (slots.arrive a.source a.number) := by
  refine represents_deliver represents a ?_
  rw [Close, opened]
  exact ⟨Nat.le_add_right .., Nat.le_add_right ..⟩

end

theorem source_plain (node : BitVec 24) (number : ℕ) :
    (Arrival.plain (node.setWidth 32) number).source = node.setWidth 32 := by
  have bound := node.isLt
  have low : (Arrival.plain (node.setWidth 32) number).source.toNat =
      (node.setWidth 32).toNat % 2 ^ 24 := by
    rw [Arrival.source, Arrival.plain, Field.get_set_disjoint (by decide)]
    exact Field.toNat_get_set scna (by decide) _ _
  apply eq_of_toNat_eq
  rw [low, toNat_setWidth]
  omega

section

def first (node : BitVec 24) : Arrival := .plain (node.setWidth 32) 0

theorem setWidth_ne {a b : BitVec 24} (different : a ≠ b) : a.setWidth 32 ≠ b.setWidth 32 := by
  intro same
  have narrow := congrArg (BitVec.setWidth 24) same
  simp only [setWidth_setWidth_of_le _ (show 24 ≤ 32 by decide),
    setWidth_eq] at narrow
  exact different narrow

theorem source_first (node : BitVec 24) : source (first node).packet = node.setWidth 32 :=
  source_plain node 0

theorem sent_duplicate (memory : Fin 16 → U32) (a : BitVec 24) :
    Ports.sent 1 (step.trace (init memory)
        ([(first a).packet, (first a).packet].flatMap Packet.flits)) = (first a).packet.flits := by
  have fresh : empty.receiver (first a).source 0 = .opened 64 0 := rfl
  have expects := (expects_empty (first a).source).arrive_next
  have next : ((empty.arrive (first a).source 0).receiver (first a).source 0).next = 1 := by
    rw [expects.receiver_before Nat.zero_lt_one, expects.window.1]
  have represents := represents_deliver_opened (a := first a) (represents_init memory) fresh
  have close : (empty.arrive (first a).source 0).Close (first a) := by
    rw [Close, show (first a).number = 0 from rfl, next]
    decide
  have refused : forwarded (deliver (init memory) (first a).packet) (first a).packet = [] := by
    rw [forwarded_spec represents _ close, Receiver.verdict, show (first a).number = 0 from rfl,
      next]
    rfl
  rw [sent_packets_cons, sent_packets_cons]
  change forwarded _ _ ++ (forwarded _ _ ++ []) = _
  rw [forwarded_of_opened (represents_init memory) fresh, refused, append_nil, append_nil]

variable {a b : BitVec 24} (different : a ≠ b)
variable (shared : idx (a.setWidth 32) = idx (b.setWidth 32))
include different shared

theorem sent_collision (memory : Fin 16 → U32) : Ports.sent 1 (step.trace (init memory)
        ([(first a).packet, (first b).packet, (first a).packet].flatMap Packet.flits)) =
      [(first a).packet, (first b).packet, (first a).packet].flatMap Packet.flits := by
  have other : (first a).source ≠ (first b).source := by
    rw [first, first, source_plain, source_plain]
    exact setWidth_ne different
  have cell : idx (first a).source = idx (first b).source := by
    rw [first, first, source_plain, source_plain, shared]
  have fresh : empty.receiver (first a).source 0 = .opened 64 0 := rfl
  have represents₁ := represents_deliver_opened (a := first a) (represents_init memory) fresh
  have held₁ := empty.arrive_held (first a).source 0
  rw [cell] at held₁
  have taken₁ := receiver_of_taken held₁ other 0
  have represents₂ := represents_deliver_opened (a := first b) represents₁ taken₁
  have held₂ := (empty.arrive (first a).source 0).arrive_held (first b).source 0
  rw [← cell] at held₂
  have taken₂ := receiver_of_taken held₂ other.symm 0
  rw [sent_packets_cons, sent_packets_cons, sent_packets_cons]
  change forwarded _ _ ++ (forwarded _ _ ++ (forwarded _ _ ++ [])) = _
  rw [forwarded_of_opened (represents_init memory) fresh, forwarded_of_opened represents₁ taken₁,
    forwarded_of_opened represents₂ taken₂]
  rfl

theorem not_isolated_of_shared : ¬Isolated (a.setWidth 32) (b.setWidth 32) := by
  intro isolated
  have alike := isolated (fun _ => 0)
    [(first a).packet, (first b).packet, (first a).packet] (by simp [source_first])
  have alone : [(first a).packet, (first b).packet, (first a).packet].filter
      (fun p => source p = a.setWidth 32) = [(first a).packet, (first a).packet] := by
    simp [source_first, setWidth_ne different.symm]
  have single : [(first a).packet].filter (fun p => source p = a.setWidth 32) =
      [(first a).packet] := by
    simp [source_first]
  have flits := congrArg Prod.fst alike
  rw [alone] at flits
  simp only [concerning] at flits
  rw [sent_collision different shared, sent_duplicate, ← flatMap_singleton Packet.flits,
    ofKey_packets, ofKey_packets] at flits
  change flatMap Packet.flits (filter (fun p => source p = a.setWidth 32) _) =
    flatMap Packet.flits (filter (fun p => source p = a.setWidth 32) _) at flits
  rw [alone, single] at flits
  exact absurd (congrArg length flits) (by simp [Packet.flits])

end

/-- Two sources are isolated exactly if they differ in the low four bits. -/
theorem isolated_iff {a b : BitVec 24} (different : a ≠ b) :
    Isolated (a.setWidth 32) (b.setWidth 32) ↔ idx (a.setWidth 32) ≠ idx (b.setWidth 32) := by
  refine ⟨fun isolated shared => ?_, isolated_of_idx_ne⟩
  exact not_isolated_of_shared different shared isolated

theorem isolated_three_four : Isolated (BitVec.setWidth 32 3#24) (BitVec.setWidth 32 4#24) :=
  (isolated_iff (by decide)).mpr (by decide)

theorem not_isolated_three_nineteen :
    ¬Isolated (BitVec.setWidth 32 3#24) (BitVec.setWidth 32 19#24) :=
  not_isolated_of_shared (by decide) (by decide)

end OpenURMA.TpChannelRx
