import OpenURMA.Packet

/-!
# Acknowledgements on their way to the wire

`RoCE_ACK_Gen` makes a packet of a single flit from a descriptor.  `RoCE_Eth_Encap` waits for an
extension flit after the metadata flit of an acknowledgement before it emits a frame, and the next
metadata flit makes it start again, so that no acknowledgement leaves it.
-/

namespace OpenURMA.Roce

open Library RoceMeta OpenURMA.Field List

def opAcknowledge : U8 := 0x11

def ackGen (a : Flit) : Flit :=
  let localQpn := (a.get 0 &&& 0xFFFFFF).setWidth 32
  let m := opcode.set ((a.get 2 &&& 0xFF).setWidth 8) {}
  let m := srcQp.set localQpn (destQp.set localQpn m)
  let m := msn.set 0 (psn.set ((a.get 1 &&& 0xFFFFFF).setWidth 32) m)
  let m := valid.set true (syndrome.set ((a.get 3 &&& 0xFF).setWidth 8) m)
  ((aFlag.set false (isResponse.set true m)).setSop true).setEop true

namespace EthEncap

/-- `cur_opcode` is never read. -/
structure State where
  wire : Buffer
  wireLen : ℕ
  emitOffset : ℕ
  emitMode : Bool
  inPacket : Bool
  needsReth : Bool
  needsAeth : Bool
  needsAtom : Bool

def init (wire : Buffer) : State := ⟨wire, 0, 0, false, false, false, false, false⟩

def flag (b : Bool) (v : Byte) : Byte := if b then v else 0

def ethBytes : List Byte := replicate 6 0xFF ++ replicate 6 0x00 ++ [0x89, 0x15]

def headerBytes (m : Flit) : List Byte :=
  let dq := destQp.get m
  let psn := psn.get m
  ethBytes ++
    [opcode.get m,
      flag (se.get m) 0x80 ||| flag (RoceMeta.m.get m) 0x40 ||| ((padcnt.get m &&& 0x3) <<< 4) |||
        (tver.get m &&& 0xF),
      octet 8 (pkey.get m), octet 0 (pkey.get m), flag (fecn.get m) 0x80 ||| flag (becn.get m) 0x40,
      octet 16 dq, octet 8 dq, octet 0 dq, flag (aFlag.get m) 0x80, octet 16 psn, octet 8 psn,
      octet 0 psn]

def bigEndian (word : U64) : List Byte := (range 8).map fun i => octet (56 - i * 8) word

def rethBytes (e : Flit) : List Byte :=
  let len := (e.get 1 &&& 0xFFFFFFFF).setWidth 32
  bigEndian (e.get 0) ++ [0, 0, 0, 0, octet 24 len, octet 16 len, octet 8 len, octet 0 len]

/-- The syndrome and the MSN are in the metadata flit, which is gone by now. -/
def aethBytes : List Byte := [0, 0, 0, 0]

def atomicBytes (e : Flit) : List Byte :=
  bigEndian (e.get 0) ++ [0, 0, 0, 0] ++ bigEndian (e.get 2) ++ bigEndian (e.get 3)

def buildHeaders (s : State) (f : Flit) : State :=
  let op := opcode.get f
  let needsReth := op == 0x0A || op == 0x0B || op == 0x06 || op == 0x0C
  let needsAeth := op == opAcknowledge || op == 0x12 || (0x0D ≤ op && op ≤ 0x10)
  let needsAtom := op == 0x13 || op == 0x14
  let now := f.eop && !needsReth && !needsAeth && !needsAtom
  { wire := s.wire.blit 0 (headerBytes f)
    wireLen := 26
    emitOffset := if now then 0 else s.emitOffset
    emitMode := now
    inPacket := true
    needsReth, needsAeth, needsAtom }

def State.appendIf (s : State) (present : Bool) (octets : List Byte) : State :=
  if present then
    { s with wire := s.wire.blit s.wireLen octets, wireLen := s.wireLen + octets.length }
  else s

def appendExtension (s : State) (f : Flit) : State :=
  let s := s.appendIf s.needsReth (rethBytes f)
  let s := s.appendIf s.needsAeth aethBytes
  let s := s.appendIf s.needsAtom (atomicBytes f)
  { s with emitMode := true, emitOffset := 0 }

def emitChunk (s : State) : State × Flit :=
  let take := min 32 (s.wireLen - s.emitOffset)
  let last : Bool := s.wireLen ≤ s.emitOffset + take
  (if last then { s with emitMode := false, emitOffset := 0, wireLen := 0, inPacket := false }
    else { s with emitOffset := s.emitOffset + take },
    ((Flit.ofData (s.wire.slice s.emitOffset take)).setSop (s.emitOffset == 0)).setEop last)

def handler : Handler State Flit Flit := fun s offered =>
  if s.emitMode then ⟨(emitChunk s).1, false, some (emitChunk s).2⟩
  else
    match offered with
    | none => ⟨s, false, none⟩
    | some f =>
      if f.sop then ⟨buildHeaders s f, true, none⟩
      else if s.inPacket then ⟨appendExtension s f, true, none⟩
      else ⟨s, true, none⟩

end EthEncap

/-- What comes to the encoder: data packets, and descriptors that have gone through
`RoCE_ACK_Gen`. -/
inductive Item where
  | data (p : Packet) (other : opcode.get p.head ≠ opAcknowledge)
  | ack (descriptor : Flit) (kind : (descriptor.get 2 &&& 0xFF).setWidth 8 = opAcknowledge)

def Item.flits : Item → List Flit
  | data p _ => p.flits
  | ack descriptor _ => [ackGen descriptor]

def Item.isAck : Item → Bool
  | data .. => false
  | ack .. => true

/-- The first flits of the frames of acknowledgements; the opcode is octet 14 of a frame. -/
def ackFrames (wire : List Flit) : List Flit :=
  wire.filter fun f => f.sop && f.byte 14 == opAcknowledge

theorem opcode_ackGen (a : Flit) : opcode.get (ackGen a) = (a.get 2 &&& 0xFF).setWidth 8 := by
  simp only [ackGen, get_setEop, get_setSop]
  rw [get_set_disjoint (by decide), get_set_disjoint (by decide),
    get_set_disjoint (by decide), get_set_disjoint (by decide),
    get_set_disjoint (by decide), get_set_disjoint (by decide),
    get_set_disjoint (by decide), get_set_disjoint (by decide), get_set_same]
  exact BitVec.and_allOnes

namespace EthEncap

/-- No acknowledgement is being emitted, and a packet of which flits are still to come is not
one. -/
structure Silent (s : State) (part : List Flit) : Prop where
  long : s.inPacket = true ∨ s.emitMode = true → 26 ≤ s.wireLen
  emitted : s.emitMode = true → s.wire 14 ≠ opAcknowledge
  inner : ∀ f ∈ part, f.sop = false
  rest : part ≠ [] → s.wire 14 ≠ opAcknowledge

variable {s : State} {part : List Flit}

theorem buildHeaders_wire (s : State) (f : Flit) : (buildHeaders s f).wire 14 = opcode.get f := by
  change s.wire.blit 0 (headerBytes f) (0 + 14) = opcode.get f
  rw [Buffer.blit_inside (by simp [headerBytes, ethBytes])]
  rfl

theorem appendIf_wire (present : Bool) (octets : List Byte) (long : 26 ≤ s.wireLen) :
    (s.appendIf present octets).wire 14 = s.wire 14 ∧ 26 ≤ (s.appendIf present octets).wireLen := by
  unfold State.appendIf
  split
  · exact ⟨Buffer.blit_before (by omega), by dsimp only; omega⟩
  · exact ⟨rfl, long⟩

theorem appendExtension_wire (f : Flit) (long : 26 ≤ s.wireLen) :
    (appendExtension s f).wire 14 = s.wire 14 ∧ 26 ≤ (appendExtension s f).wireLen := by
  obtain ⟨wire₁, long₁⟩ := appendIf_wire s.needsReth (rethBytes f) long
  obtain ⟨wire₂, long₂⟩ := appendIf_wire (s.appendIf s.needsReth (rethBytes f)).needsAeth aethBytes
    long₁
  obtain ⟨wire₃, long₃⟩ := appendIf_wire (State.appendIf (s.appendIf s.needsReth (rethBytes f))
    (s.appendIf s.needsReth (rethBytes f)).needsAeth aethBytes).needsAtom (atomicBytes f) long₂
  exact ⟨wire₃.trans (wire₂.trans wire₁), long₃⟩

theorem Silent.emitChunk (silent : Silent s part) (emitting : s.emitMode = true) :
    Silent (emitChunk s).1 part ∧ ((emitChunk s).2.sop = true →
      (emitChunk s).2.byte 14 ≠ opAcknowledge) := by
  have long := silent.long (.inr emitting)
  have other := silent.emitted emitting
  constructor
  · unfold EthEncap.emitChunk
    dsimp only
    split
    · exact ⟨by simp, by simp, silent.inner, fun _ => other⟩
    · exact ⟨fun _ => long, fun _ => other, silent.inner, fun _ => other⟩
  · intro first
    have start : s.emitOffset = 0 := by simpa [EthEncap.emitChunk] using first
    have inside : 14 < min 32 (s.wireLen - s.emitOffset) := by omega
    have octet : (EthEncap.emitChunk s).2.byte 14 = s.wire 14 := by
      simp only [Flit.byte]
      refine (Flit.byte_ofData _ (by decide)).trans ((Buffer.getD_slice inside).trans ?_)
      rw [start]
    rwa [octet]

theorem silent_data {f : Flit} (other : opcode.get f ≠ opAcknowledge)
    (inner : ∀ g ∈ part, g.sop = false) : Silent (buildHeaders s f) part := by
  rw [← buildHeaders_wire s f] at other
  exact ⟨fun _ => Nat.le_refl 26, fun _ => other, inner, fun _ => other⟩

theorem silent_ack {f : Flit} (kind : opcode.get f = opAcknowledge) :
    Silent (buildHeaders s f) [] := by
  have waits : (buildHeaders s f).emitMode = false := by simp [buildHeaders, kind]
  exact ⟨fun _ => Nat.le_refl 26, by simp [waits], nofun, nofun⟩

/-- A flit that is read belongs to a data packet, or it is an acknowledgement, after which there is
nothing to make a frame of. -/
theorem Silent.read (silent : Silent s part) (idle : s.emitMode = false) {items : List Item}
    {f : Flit} {queue : List Flit} (shape : part ++ items.flatMap Item.flits = f :: queue) :
    ∃ s', handler s (some f) = ⟨s', true, none⟩ ∧ ∃ part', ∃ items' : List Item,
      queue = part' ++ items'.flatMap Item.flits ∧ Silent s' part' := by
  cases part with
  | nil =>
    cases items with
    | nil => cases shape
    | cons item items =>
      cases item with
      | data p other =>
        obtain ⟨rfl, rfl⟩ : p.head = f ∧ p.rest ++ items.flatMap Item.flits = queue := by
          simpa [Item.flits, Packet.flits] using shape
        exact ⟨buildHeaders s p.head, by simp [handler, idle, p.sop_head], p.rest, items, rfl,
          silent_data other p.sop_rest⟩
      | ack a kind =>
        obtain ⟨rfl, rfl⟩ : ackGen a = f ∧ items.flatMap Item.flits = queue := by
          simpa [Item.flits] using shape
        exact ⟨buildHeaders s (ackGen a), by simp [handler, idle, ackGen], [], items, rfl,
          silent_ack ((opcode_ackGen a).trans kind)⟩
  | cons g part =>
    obtain ⟨rfl, rfl⟩ : g = f ∧ part ++ items.flatMap Item.flits = queue := by simpa using shape
    obtain ⟨mark, inner⟩ := forall_mem_cons.mp silent.inner
    have other := silent.rest (cons_ne_nil g part)
    by_cases within : s.inPacket = true
    · obtain ⟨wire, long⟩ := appendExtension_wire g (silent.long (.inl within))
      rw [← wire] at other
      exact ⟨appendExtension s g, by simp [handler, idle, mark, within], part, items, rfl,
        fun _ => long, fun _ => other, inner, fun _ => other⟩
    · exact ⟨s, by simp [handler, idle, mark, within], part, items, rfl,
        silent.long, silent.emitted, inner, fun _ => other⟩

theorem ackFrames_run (schedule : List Bool) (silent : Silent s part) (items : List Item) :
    ackFrames (handler.run schedule s (part ++ items.flatMap Item.flits)).outputs = [] := by
  induction schedule generalizing s part items with
  | nil => rfl
  | cons offer schedule ih =>
    by_cases emitting : s.emitMode = true
    · obtain ⟨next, first⟩ := silent.emitChunk emitting
      have call (offered : Option Flit) :
          handler s offered = ⟨(emitChunk s).1, false, some (emitChunk s).2⟩ := if_pos emitting
      rw [Handler.run]
      simp only [call, Bool.false_eq_true, if_false, ackFrames, Option.toList_some,
        singleton_append]
      rw [filter_cons_of_neg]
      · exact ih next items
      · simpa using first
    · rw [Bool.not_eq_true] at emitting
      have wait : handler s none = ⟨s, false, none⟩ := by simp [handler, emitting]
      rw [Handler.run]
      cases offered : (if offer then (part ++ items.flatMap Item.flits).head? else none) with
      | none =>
        rw [wait]
        exact ih silent items
      | some f =>
        obtain ⟨queue, shape⟩ : ∃ queue, part ++ items.flatMap Item.flits = f :: queue := by
          split at offered
          · exact head?_eq_some_iff.mp offered
          · cases offered
        obtain ⟨s', call, part', items', rest, silent'⟩ := silent.read emitting shape
        rw [call, shape]
        simp only [if_true, tail_cons, rest]
        exact ih silent' items'

end EthEncap

/-- Every acknowledgement has a frame, whatever the schedule, exactly if there is none. -/
theorem ackFrames_length_iff (schedule : List Bool) (wire : Buffer) (items : List Item) :
    (ackFrames (EthEncap.handler.run schedule (EthEncap.init wire)
        (items.flatMap Item.flits)).outputs).length = items.countP Item.isAck ↔
      ∀ item ∈ items, item.isAck = false := by
  have silent : EthEncap.Silent (EthEncap.init wire) [] :=
    ⟨by simp [EthEncap.init], nofun, nofun, nofun⟩
  have none := EthEncap.ackFrames_run schedule silent items
  rw [nil_append] at none
  rw [none, length_nil, eq_comm, countP_eq_zero]
  simp

/-- An acknowledgement of PSN 5 for queue pair 1, and time enough for its frame. -/
theorem ackFrames_lost :
    (ackFrames (EthEncap.handler.run (replicate 8 true) (EthEncap.init fun _ => 0)
      (Item.flits (.ack { lane0 := 1, lane1 := 5, lane2 := 0x11 } (by decide)))).outputs).length ≠
        1 := by
  decide +kernel

end OpenURMA.Roce
