import OpenURMA.Opcode
import OpenURMA.Packet

/-!
# Elements that act on the metadata flit

Between the channels and the wire a router picks an output port by the metadata flit, and a stamp
rewrites the metadata flit. On the way back from the target, `UB_Completion_Gen` turns a request
round into its response and `UB_TAACK_Gen` drops the responses that the service mode does not want;
back at the initiator `UB_Completion_Stream` makes completion records of the responses.
-/

namespace OpenURMA

open Library UbMeta UbExt Ports Write Mealy Packet OpenURMA.Field BitVec List

/-- Pick port 2 or port 1 by the metadata flit and keep to it until the next one. -/
def route (pick : Flit → Bool) : Mealy Bool Flit (Ports Flit) := fun kept f =>
  let second := if f.sop then pick f else kept
  (second, emit (if second then 2 else 1) f)

section

variable (pick : Flit → Bool) (kept : Bool)
include pick kept

theorem trace_route_rest (flits : List Flit) (inner : ∀ f ∈ flits, f.sop = false) :
    (route pick).trace kept flits = flits.map (emit (if kept then 2 else 1)) := by
  induction flits with
  | nil => rfl
  | cons f flits ih =>
    have call : route pick kept f = (kept, emit (if kept then 2 else 1) f) := by
      simp [route, inner f (by simp)]
    rw [trace_cons, call, ih fun g member => inner g (by simp [member]), map_cons]

theorem trace_route_packet (p : Packet) :
    (route pick).trace kept p.flits = p.flits.map (emit (if pick p.head then 2 else 1)) := by
  have call : route pick kept p.head =
      (pick p.head, emit (if pick p.head then 2 else 1) p.head) := by
    simp [route, p.sop_head]
  rw [flits, trace_cons, call, trace_route_rest pick _ _ p.sop_rest, map_cons]

theorem sent_route_first (p : Packet) :
    Ports.sent 1 ((route pick).trace kept p.flits) = if pick p.head then [] else p.flits := by
  rw [trace_route_packet]
  cases pick p.head with
  | true => exact sent_map_emit_other (by decide) p.flits
  | false => exact sent_map_emit 1 p.flits

theorem sent_route_second (p : Packet) :
    Ports.sent 2 ((route pick).trace kept p.flits) = if pick p.head then p.flits else [] := by
  rw [trace_route_packet]
  cases pick p.head with
  | true => exact sent_map_emit 2 p.flits
  | false => exact sent_map_emit_other (by decide) p.flits

end

namespace NthParse

def goUtp (m : Flit) : Bool := nthNlp.get m == nthNlpUtph

def step : Mealy Bool Flit (Ports Flit) := route goUtp

end NthParse

namespace RtphParse

def isAck (m : Flit) : Bool :=
  let tpop := tpOpcode.get m &&& 0x7F
  tpop == tpopTpack || tpop == tpopTpackCc || tpop == tpopTpsack || tpop == tpopTpsackCc ||
    tpop == tpopCnp

def step : Mealy Bool Flit (Ports Flit) := route isAck

end RtphParse

namespace BtahParse

def isResp (m : Flit) : Bool := isResponse.get m

def step : Mealy Bool Flit (Ports Flit) := route isResp

end BtahParse

/-- A change of the metadata flit that keeps its framing marks. -/
structure Stamp where
  build : Flit → Flit
  sop_build : ∀ f, (build f).sop = f.sop
  eop_build : ∀ f, (build f).eop = f.eop

namespace Stamp

variable (stamp : Stamp)

def packet (p : Packet) : Packet :=
  p.withHead (stamp.build p.head) (stamp.sop_build _) (stamp.eop_build _)

/-- The element that changes metadata flits and passes the others on. -/
def step : Mealy Unit Flit (Ports Flit) := fun _ f =>
  ((), emit 1 (if f.sop then stamp.build f else f))

theorem trace_packet (p : Packet) :
    stamp.step.trace () p.flits = (stamp.packet p).flits.map (emit 1) := by
  have passed : ∀ flits : List Flit, (∀ f ∈ flits, f.sop = false) →
      stamp.step.trace () flits = flits.map (emit 1) := by
    intro flits inner
    induction flits with
    | nil => rfl
    | cons f flits ih =>
      rw [trace_cons, map_cons, step, if_neg (by simp [inner f (by simp)])]
      exact congrArg _ (ih fun g member => inner g (by simp [member]))
  rw [flits, trace_cons, passed _ p.sop_rest, step, if_pos p.sop_head]
  rfl

theorem sent_packets (packets : List Packet) :
    Ports.sent 1 (stamp.step.trace () (packets.flatMap flits)) =
      (packets.map stamp.packet).flatMap flits := by
  induction packets with
  | nil => rfl
  | cons p packets ih =>
    rw [flatMap_cons, trace_append, Ports.sent_append, trace_packet,
      sent_map_emit, map_cons, flatMap_cons, ← ih]

end Stamp

variable {α : Type} {field : Field α}

namespace BtahBuild

def writes (m : Flit) : List Write :=
  [taVer.write 0, eeBits.write 1, targetHint.write false, poison.write false,
    isResponse.write false,
    iniRcType.write (if svcMode.get m == svcRot && alloc.get m then 2 else 0)]

def build (m : Flit) : Flit := Write.apply (writes m) m

def stamp : Stamp where
  build := build
  sop_build m := (framing_apply _ m).1
  eop_build m := (framing_apply _ m).2

def step : Mealy Unit Flit (Ports Flit) := stamp.step

theorem get_build [FieldValue α]
    (other : ∀ slot ∈ (writes {}).map Write.slot, slot.Disjoint field.toSlot) (m : Flit) :
    field.get (build m) = field.get m :=
  field_get_apply_other (by rfl) other m

end BtahBuild

namespace CongWindow

/-- The bytes in flight per channel; nothing is ever kept back. -/
structure State where
  inflightBytes : Fin 16 → U64

def init : State where
  inflightBytes _ := 0

def idx (dcna : U32) : Fin 16 :=
  ⟨(dcna &&& 15).toNat, BitField.and_15_lt dcna⟩

def step : Mealy State Flit (Ports Flit) := fun s f =>
  let i := idx (dcna.get f)
  (if f.sop then
      { inflightBytes := Function.update s.inflightBytes i (s.inflightBytes i + 64) }
    else s, emit 1 f)

theorem sent_trace (s : State) (flits : List Flit) : Ports.sent 1 (step.trace s flits) = flits := by
  induction flits generalizing s with
  | nil => rfl
  | cons f flits ih =>
    rw [trace_cons, Ports.sent_cons, ih]
    rfl

end CongWindow

variable {m : Flit}

namespace RtphBuild

/-- The setter calls on the metadata of a reliable packet. -/
def writes (m : Flit) : List Write :=
  let base := tpOpcode.get m &&& 0x80
  [tpOpcode.write (base ||| tpopRtpData), tpVer.write 0, padding.write 0, rtphNlp.write 0,
    aFlag.write true, fFlag.write false, nthNlp.write nthNlpRtph]

/-- The metadata of packets in UNO mode is left alone. -/
def build (m : Flit) : Flit :=
  if nthNlp.get m == nthNlpUtph || svcMode.get m == svcUno then m
  else Write.apply (writes m) m

def stamp : Stamp where
  build := build
  sop_build m := by unfold build; split <;> simp [framing_apply]
  eop_build m := by unfold build; split <;> simp [framing_apply]

def step : Mealy Unit Flit (Ports Flit) := stamp.step

theorem writes_separate (m : Flit) : Separate (writes m) :=
  separate_of_slots (writes {}) rfl (by decide)

section

variable (rtph : nthNlp.get m = nthNlpRtph)
variable (reliable : svcMode.get m ≠ svcUno)
include rtph reliable

theorem build_reliable : build m = Write.apply (writes m) m := by
  have other : nthNlpRtph ≠ nthNlpUtph := by decide
  rw [build, if_neg (by simp [rtph, reliable, other])]

theorem get_build [FieldValue α]
    (other : ∀ slot ∈ (writes {}).map Write.slot, slot.Disjoint field.toSlot) :
    field.get (build m) = field.get m := by
  have slots : (writes m).map Write.slot = (writes {}).map Write.slot := rfl
  rw [build_reliable rtph reliable]
  exact field_get_apply_other slots other m

theorem data_build : nthNlp.get (build m) = nthNlpRtph ∧
    tpOpcode.get (build m) &&& 0x7F = tpopRtpData := by
  have opcode : ∀ op : U8, ((op &&& 0x80) ||| tpopRtpData) &&& BitField.mask 8 8 &&& 0x7F =
      tpopRtpData := by decide
  rw [build_reliable rtph reliable,
    field_get_apply_of_fits (v := nthNlpRtph) (writes_separate m) (by simp [writes])
      (by decide), field_get_apply (v := (tpOpcode.get m &&& 0x80) ||| tpopRtpData)
      (writes_separate m) (by simp [writes])]
  exact ⟨rfl, opcode _⟩

end

theorem build_uno (uno : svcMode.get m = svcUno) : build m = m := by
  rw [build, if_pos (by simp [uno])]

end RtphBuild

namespace NthBuild

structure State where
  localScna : U32
  defaultSl : U8
  defaultNlp : U8

def build (s : State) (m : Flit) : Flit :=
  let m := sl.set s.defaultSl (scna.set s.localScna m)
  if nthNlp.get m == 0 then nthNlp.set s.defaultNlp m else m

def stamp (s : State) : Stamp where
  build := build s
  sop_build m := by simp only [build]; split <;> simp
  eop_build m := by simp only [build]; split <;> simp

def step (s : State) : Mealy Unit Flit (Ports Flit) := (stamp s).step

variable (known : nthNlp.get m ≠ 0)
include known

theorem build_known (s : State) : build s m = sl.set s.defaultSl (scna.set s.localScna m) := by
  simp only [build]
  rw [if_neg]
  rw [get_set_disjoint (by decide), get_set_disjoint (by decide)]
  simpa using known

theorem get_build [FieldValue α]
    (other : sl.Disjoint field.toSlot ∧ scna.Disjoint field.toSlot) (s : State) :
    field.get (build s m) = field.get m := by
  rw [build_known known, get_set_disjoint other.1, get_set_disjoint other.2]

theorem scna_build (s : State) : scna.get (build s m) = s.localScna &&& BitField.mask 32 24 := by
  rw [build_known known, get_set_disjoint (by decide), get_set_same]
  rfl

end NthBuild

namespace UtphParse

def build (m : Flit) : Flit := svcMode.set svcUno m

def stamp : Stamp where
  build := build
  sop_build _ := sop_set ..
  eop_build _ := eop_set ..

def step : Mealy Unit Flit (Ports Flit) := stamp.step

end UtphParse

namespace CompletionGen

def responseOpcode (taop : U8) : U8 :=
  if taop == taopRead then taopReadResp
  else if isAtomic taop then taopAtomicResp
  else taopTaack

/-- The setter calls that turn a request's metadata round. -/
def writes (m : Flit) : List Write :=
  [scna.write (dcna.get m), dcna.write (scna.get m), srcTpn.write (dstTpn.get m),
    dstTpn.write (srcTpn.get m), isResponse.write true,
    taOpcode.write (responseOpcode (taOpcode.get m)), rspst.write rspstOk, rspinfo.write 0]

def build (m : Flit) : Flit := Write.apply (writes m) m

def stamp : Stamp where
  build := build
  sop_build m := (framing_apply _ m).1
  eop_build m := (framing_apply _ m).2

def step : Mealy Bool Flit (Ports Flit) := fun haveMeta f =>
  if f.sop then (true, emit 1 (build f))
  else if haveMeta then (!f.eop, emit 1 f)
  else (haveMeta, silent)

theorem writes_separate (m : Flit) : Separate (writes m) :=
  separate_of_slots (writes {}) rfl (by decide)

theorem isResponse_build (m : Flit) : isResponse.get (build m) = true :=
  field_get_apply_of_fits (writes_separate m) (by simp [writes]) (by decide) m

theorem rspst_build (m : Flit) : rspst.get (build m) = rspstOk :=
  field_get_apply_of_fits (writes_separate m) (by simp [writes]) (by decide) m

theorem get_build [FieldValue α]
    (other : ∀ slot ∈ (writes {}).map Write.slot, slot.Disjoint field.toSlot) (m : Flit) :
    field.get (build m) = field.get m :=
  field_get_apply_other (by rfl) other m

theorem trace_packet (haveMeta : Bool) (p : Packet) :
    step.trace haveMeta p.flits = (stamp.packet p).flits.map (emit 1) := by
  have streams : Streams step true false 1 :=
    ⟨fun f inner more => by simp [step, inner, more],
      fun f inner last => by simp [step, inner, last]⟩
  have call : step haveMeta p.head = (true, emit 1 (build p.head)) := by
    rw [step, if_pos p.sop_head]
  have rest : step.trace true p.rest = p.rest.map (emit 1) := by
    cases equal : p.rest with
    | nil => rfl
    | cons g flits =>
      have framed := p.eop_last
      rw [equal] at framed
      exact (streams.run _ (equal ▸ p.sop_rest) framed.2).2
  rw [flits, trace_cons, call, rest]
  rfl

end CompletionGen

namespace TaackGen

def drops (m : Flit) : Bool :=
  svcMode.get m == svcUno || svcMode.get m == svcRol

/-- The opcode of a response that is neither Read_resp nor Atomic_resp becomes TAACK. -/
def build (m : Flit) : Flit :=
  if taOpcode.get m != taopReadResp && taOpcode.get m != taopAtomicResp then
    taOpcode.set taopTaack m
  else m

def stamp : Stamp where
  build := build
  sop_build m := by unfold build; split <;> simp
  eop_build m := by unfold build; split <;> simp

theorem get_build [FieldValue α] (other : taOpcode.Disjoint field.toSlot) (m : Flit) :
    field.get (build m) = field.get m := by
  unfold build
  split
  · exact get_set_disjoint other ..
  · rfl

def step : Mealy Bool Flit (Ports Flit) := fun dropPkt f =>
  let drop := if f.sop then drops f else dropPkt
  let out := if drop then silent
    else emit 1 (if f.sop then build f else f)
  (if f.eop then false else drop, out)

theorem sent_rest (dropPkt : Bool) (flits : List Flit) (inner : ∀ f ∈ flits, f.sop = false)
    (framed : EopLast flits) :
    Ports.sent 1 (step.trace dropPkt flits) = if dropPkt then [] else flits := by
  induction flits with
  | nil => exact framed.elim
  | cons f flits ih =>
    have notSop := inner f (by simp)
    rw [trace_cons, Ports.sent_cons]
    cases flits with
    | nil => cases dropPkt <;> simp [step, notSop]
    | cons g flits =>
      have more := framed.1
      have call : step dropPkt f =
          (dropPkt, if dropPkt then silent else emit 1 f) := by
        simp [step, notSop, more]
      rw [call, ih (fun h member => inner h (by simp [member])) framed.2]
      cases dropPkt <;> simp

theorem sent_packet (dropPkt : Bool) (p : Packet) : Ports.sent 1 (step.trace dropPkt p.flits) =
      if drops p.head then [] else (stamp.packet p).flits := by
  have call : step dropPkt p.head = (if p.head.eop then false else drops p.head,
      if drops p.head then silent else emit 1 (build p.head)) := by
    simp [step, p.sop_head]
  have framed := p.eop_last
  have inner := p.sop_rest
  rw [flits, trace_cons, Ports.sent_cons, call]
  change _ = if drops p.head then [] else build p.head :: p.rest
  cases equal : p.rest with
  | nil => cases drops p.head <;> simp
  | cons g flits =>
    rw [equal] at framed inner
    simp only [framed.1, Bool.false_eq_true, if_false]
    rw [sent_rest _ _ inner framed.2]
    cases drops p.head <;> simp

end TaackGen

namespace CompletionStream

def record (m : Flit) : Flit :=
  let lane0 : U64 := ((rspst.get m).setWidth 64 <<< 56) |||
    ((iniTassn.get m).setWidth 64 <<< 32) |||
    ((taOpcode.get m).setWidth 64 <<< 24) |||
    (iniRcId.get m &&& 0xFFFFF).setWidth 64
  let lane1 : U64 := ((svcMode.get m).setWidth 64 <<< 56) |||
    ((if fce.get m then 1 else 0) <<< 48)
  { lane0, lane1, sop := true, eop := true }

def dataRecord (f : Flit) : Flit := { lane3 := opData f, eop := true }

def step : Mealy Bool Flit (Ports Flit) := fun inPacket f =>
  if f.sop then (true, emit 1 (record f))
  else if inPacket then (!f.eop, emit 1 (dataRecord f))
  else (inPacket, silent)

def tassn (cqe : Flit) : U16 := (cqe.lane0 >>> 32).setWidth 16

def rcId (cqe : Flit) : U32 := (cqe.lane0 &&& 0xFFFFF).setWidth 32

theorem tassn_record (m : Flit) : tassn (record m) = iniTassn.get m := by
  apply eq_of_getLsbD_eq
  intro index inside
  simp only [tassn, record, getLsbD_setWidth, getLsbD_ushiftRight,
    getLsbD_or, getLsbD_shiftLeft]
  rw [getLsbD_of_ge (taOpcode.get m) (32 + index - 24) (by omega),
    getLsbD_of_ge (iniRcId.get m &&& 0xFFFFF) (32 + index) (by omega)]
  simp [inside, show 32 + index < 64 by omega, show 32 + index < 56 by omega,
    show index < 64 by omega]

theorem rcId_record (m : Flit) : rcId (record m) = iniRcId.get m := by
  have narrow : iniRcId.get m &&& BitField.mask 32 20 = iniRcId.get m :=
    iniRcId.get_and_mask (by decide) m
  have mask : (0xFFFFF : U64) = BitField.mask 64 20 := by decide
  have mask' : (0xFFFFF : U32) = BitField.mask 32 20 := by decide
  rw [← narrow]
  apply eq_of_getLsbD_eq
  intro index inside
  simp only [rcId, record, mask, mask', getLsbD_setWidth, getLsbD_and,
    BitField.getLsbD_mask, getLsbD_or, getLsbD_shiftLeft]
  by_cases low : index < 20
  · simp [low, inside, show index < 56 by omega, show index < 24 by omega, show index < 64 by omega]
  · simp [low]

theorem sent_rest (flits : List Flit) (inner : ∀ f ∈ flits, f.sop = false)
    (framed : EopLast flits) : Ports.sent 1 (step.trace true flits) = flits.map dataRecord := by
  induction flits with
  | nil => exact framed.elim
  | cons f flits ih =>
    have call : step true f = (!f.eop, emit 1 (dataRecord f)) := by
      rw [step, if_neg (by simp [inner f (by simp)]), if_pos rfl]
    rw [trace_cons, call, Ports.sent_cons]
    cases flits with
    | nil => rfl
    | cons g flits =>
      rw [framed.1, Bool.not_false, ih (fun h member => inner h (by simp [member])) framed.2]
      rfl

/-- The records of a response: one for its metadata flit and one for each flit behind it. -/
def records (p : Packet) : List Flit := record p.head :: p.rest.map dataRecord

theorem sent_packets (inPacket : Bool) (packets : List Packet) :
    Ports.sent 1 (step.trace inPacket (packets.flatMap flits)) = packets.flatMap records := by
  induction packets generalizing inPacket with
  | nil => rfl
  | cons p packets ih =>
    have call : step inPacket p.head = (true, emit 1 (record p.head)) := by
      rw [step, if_pos p.sop_head]
    have framed := p.eop_last
    rw [flatMap_cons, trace_append, Ports.sent_append, ih, flatMap_cons,
      flits, trace_cons, call, Ports.sent_cons]
    congr 1
    cases shape : p.rest with
    | nil => rw [records, shape]; rfl
    | cons f rest =>
      rw [shape] at framed
      rw [sent_rest (f :: rest) (fun g member => p.sop_rest g (by rw [shape]; exact member))
        framed.2, records, shape]
      rfl

theorem sent_response (inPacket : Bool) {f : Flit} (sop : m.sop = true) (inner : f.sop = false)
    (flits : List Flit) :
    ∃ more, Ports.sent 1 (step.trace inPacket (m :: f :: flits)) =
      record m :: dataRecord f :: more := by
  have first : step inPacket m = (true, emit 1 (record m)) := by
    rw [step, if_pos sop]
  have second : step true f = (!f.eop, emit 1 (dataRecord f)) := by
    rw [step, if_neg (by simp [inner]), if_pos rfl]
  rw [trace_cons, trace_cons, first, second, Ports.sent_cons, Ports.sent_cons]
  exact ⟨_, rfl⟩

end CompletionStream

end OpenURMA
