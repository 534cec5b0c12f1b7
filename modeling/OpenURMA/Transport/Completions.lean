import OpenURMA.Codec.Responses
import OpenURMA.Transport.AckSoundness
import OpenURMA.Transport.TransmitPath
import OpenURMA.Transport.TwoNodes

/-!
# Completions of a stream of Writes

One node posts Writes, the other one executes them. `UB_Completion_Stream` gets the acknowledgements
of the transport, which `UB_TPACK_Gen` builds from nothing but the channel's descriptor, and those
of the transactions, which are the requests turned round. Every Write that arrives is acknowledged
by the transport, whatever its service mode, and the completion record of that acknowledgement names
no request.
-/

namespace OpenURMA

open Library TpChannelRx UbMeta CompletionStream NthParse TwoNodes Ports Write List Bool
open RtphParse (isAck)

def Packet.single (f : Flit) (sop : f.sop = true) (eop : f.eop = true) : Packet where
  head := f
  rest := []
  sop_head := sop
  sop_rest := sop_nil
  eop_last := eop

namespace CongEcho

structure State where
  localScna : U32

/-- The setter calls on a blank metadata flit. -/
def writes (s : State) (m : Flit) : List Write :=
  [dcna.write (scna.get m), scna.write s.localScna, nthNlp.write nthNlpRtph, valid.write true,
    tpOpcode.write tpopCnp, tpVer.write 0, isResponse.write true, aFlag.write false,
    fFlag.write false, rspst.write rspstOk]

/-- The CNP for a packet that has met congestion. -/
def build (s : State) (m : Flit) : Flit :=
  ((Write.apply (writes s m) {}).setSop true).setEop true

theorem sop_build (s : State) (m : Flit) : (build s m).sop = true := Flit.sop_setEop ..

theorem eop_build (s : State) (m : Flit) : (build s m).eop = true := Flit.eop_setEop ..

def packet (s : State) (m : Flit) : Packet := .single (build s m) (sop_build s m) (eop_build s m)

def step : Mealy State Flit (Ports Flit) := fun s f =>
  (s, if f.sop && fFlag.get f then put 2 (build s f) (emit 1 f)
    else emit 1 f)

theorem writes_separate (s : State) (m : Flit) : Separate (writes s m) :=
  separate_of_slots (writes ⟨0⟩ {}) rfl (by decide)

theorem sent_rest (s : State) (flits : List Flit) (inner : ∀ f ∈ flits, f.sop = false) :
    Ports.sent 1 (step.trace s flits) = flits ∧ Ports.sent 2 (step.trace s flits) = [] := by
  induction flits with
  | nil => exact ⟨rfl, rfl⟩
  | cons f flits ih =>
    have call : step s f = (s, emit 1 f) := by
      simp [step, inner f (by simp)]
    obtain ⟨passed, quiet⟩ := ih fun g member => inner g (by simp [member])
    rw [Mealy.trace_cons, Ports.sent_cons, Ports.sent_cons, call, passed, quiet]
    exact ⟨rfl, rfl⟩

theorem sent_packet (s : State) (p : Packet) :
    Ports.sent 1 (step.trace s p.flits) = p.flits ∧ Ports.sent 2 (step.trace s p.flits) =
        if fFlag.get p.head then [build s p.head] else [] := by
  obtain ⟨passed, quiet⟩ := sent_rest s p.rest p.sop_rest
  have call : step s p.head = (s, if fFlag.get p.head then
      put 2 (build s p.head) (emit 1 p.head) else emit 1 p.head) := by
    rw [step, p.sop_head, Bool.true_and]
  rw [Packet.flits, Mealy.trace_cons, Ports.sent_cons, Ports.sent_cons, call, passed, quiet]
  cases fFlag.get p.head with
  | true => exact ⟨rfl, rfl⟩
  | false => exact ⟨rfl, rfl⟩

end CongEcho

namespace TpackGen

theorem sop_build (s : State) (a : Flit) : (build s a).sop = true := Flit.sop_setEop ..

theorem eop_build (s : State) (a : Flit) : (build s a).eop = true := Flit.eop_setEop ..

def packet (s : State) (a : Flit) : Packet := .single (build s a) (sop_build s a) (eop_build s a)

end TpackGen

namespace Completions

open EthDecap (arrival)
open TwoNodes (isRtphData responseFrame)

/-- What control messages have set up in a node. -/
structure Station where
  nth : NthBuild.State
  tpack : TpackGen.State
  echo : CongEcho.State

section

variable (station : Station)

def Station.frame (p : Packet) : Packet := (NthBuild.stamp station.nth).packet p

structure Reception where
  rx : TpChannelRx.State
  replies : List Packet
  acks : List Flit
  passed : List Flit

def Station.acknowledgement (rx : TpChannelRx.State) (m : Flit) : Packet :=
  let checked := checkMeta rx m
  TpackGen.packet station.tpack
    (descriptor checked.1 checked.2 (scna.get m))

def Station.notice (m : Flit) : List Packet :=
  if fFlag.get m then [CongEcho.packet station.echo m] else []

def Station.receive (rx : TpChannelRx.State) (m : Flit) : Reception :=
  if goUtp m then ⟨rx, [], [], [UtphParse.build m]⟩
  else if isAck m then ⟨rx, [], [m], []⟩
  else
    let checked := checkMeta rx m
    { rx := nextState rx m
      replies := (station.notice m ++ [station.acknowledgement rx m]).map station.frame
      acks := []
      passed := if checked.2.inWindow then [passedMeta checked.1 m] else [] }

end

section

variable (station : Station) (rx : TpChannelRx.State) (kept ack : Bool) (q : Packet)

def dataFlits : List Flit :=
  Ports.sent 1 (RtphParse.step.trace ack (Ports.sent 1 (NthParse.step.trace kept q.flits)))

/-- The flits of a packet that go to `UB_Completion_Stream` directly. -/
def ackFlits : List Flit :=
  Ports.sent 2 (RtphParse.step.trace ack (Ports.sent 1 (NthParse.step.trace kept q.flits)))

theorem filter_sop_rest : q.rest.filter (·.sop) = [] := by
  rw [filter_eq_nil_iff]
  intro f member
  rw [q.sop_rest f member]
  exact false_ne_true

theorem heads_flits : q.flits.filter (·.sop) = [q.head] := by
  rw [Packet.flits, filter_cons_of_pos q.sop_head, filter_sop_rest]

theorem heads_forwarded : (forwarded rx q).filter (·.sop) =
    if (checkMeta rx q.head).2.inWindow then [passedMeta (checkMeta rx q.head).1 q.head]
    else [] := by
  have first : (passedMeta (checkMeta rx q.head).1 q.head).sop = true := by
    rw [passedMeta]
    split
    · exact (Field.sop_set _ _ _).trans q.sop_head
    · exact q.sop_head
  rw [forwarded_eq]
  split
  · rw [filter_cons_of_pos first, filter_sop_rest]
  · rfl

theorem sent_control : Ports.sent 2 (CongEcho.step.trace station.echo q.flits) ++
        Ports.sent 1 (TpackGen.step.trace station.tpack (Ports.sent 2 (TpChannelRx.step.trace rx
            (Ports.sent 1 (CongEcho.step.trace station.echo q.flits))))) =
      (station.notice q.head ++ [station.acknowledgement rx q.head]).flatMap Packet.flits := by
  obtain ⟨passed, marked⟩ := CongEcho.sent_packet station.echo q
  have answered := acknowledged_eq rx q
  rw [acknowledged] at answered
  rw [passed, marked, answered, flatMap_append, Station.notice]
  cases fFlag.get q.head with
  | true => rfl
  | false => rfl

/-- Flit by flit, the elements from `UB_NTH_Parse` to `UB_TPChannel_RX`, and those that answer,
do with any packet what `receive` says of its metadata. -/
theorem receive_refines : (ackFlits kept ack q).filter (·.sop) = (station.receive rx q.head).acks ∧
    let echoed := CongEcho.step.trace station.echo (dataFlits kept ack q)
    let checked := TpChannelRx.step.trace rx (Ports.sent 1 echoed)
    let got := station.receive rx q.head
    TpChannelRx.step.final rx (Ports.sent 1 echoed) = got.rx ∧
      Ports.sent 1 ((NthBuild.step station.nth).trace () (Ports.sent 2 echoed ++
        Ports.sent 1 (TpackGen.step.trace station.tpack (Ports.sent 2 checked)))) =
          got.replies.flatMap Packet.flits ∧
      (Ports.sent 1 (UtphParse.step.trace () (Ports.sent 2 (NthParse.step.trace kept q.flits))) ++
        Ports.sent 1 checked).filter (·.sop) = got.passed := by
  simp only [dataFlits, sent_toChannel, sent_utph, Station.receive]
  rw [ackFlits, NthParse.step, sent_route_first]
  cases goUtp q.head with
  | true =>
    have stamped := heads_flits (UtphParse.stamp.packet q)
    rw [← append_nil (UtphParse.stamp.packet q).flits] at stamped
    exact ⟨rfl, rfl, rfl, stamped⟩
  | false =>
    simp only [false_eq_true, if_false, Bool.false_or]
    rw [RtphParse.step, sent_route_second]
    cases isAck q.head with
    | true => exact ⟨heads_flits q, rfl, rfl, rfl⟩
    | false =>
      simp only [false_eq_true, if_false]
      rw [sent_control, NthBuild.step, Stamp.sent_packets, (CongEcho.sent_packet station.echo q).1]
      exact ⟨rfl, deliver_eq rx q, rfl, heads_forwarded rx q⟩

end

section

variable {m : Flit} (rtph : nthNlp.get m = nthNlpRtph) (nth : NthBuild.State)
include rtph

theorem get_framed {α : Type} [FieldValue α] {field : Field α} (steady : field.toSlot ∈ steadySlots)
    (other : UbMeta.sl.Disjoint field.toSlot ∧ scna.Disjoint field.toSlot) :
    field.get (arrival (NthBuild.build nth m)) = field.get m := by
  have known : nthNlp.get m ≠ 0 := by
    rw [rtph]
    decide
  have kept : nthNlp.get (NthBuild.build nth m) = nthNlpRtph :=
    (NthBuild.get_build known (by decide) nth).trans rtph
  have reliable : nthNlp.get (NthBuild.build nth m) ≠ nthNlpUtph := by
    rw [kept]
    decide
  rw [EthDecap.get_arrival reliable steady, NthBuild.get_build known other]

theorem routing_framed : goUtp (arrival (NthBuild.build nth m)) = false ∧
      isAck (arrival (NthBuild.build nth m)) = isAck m ∧
      isRtphData (arrival (NthBuild.build nth m)) = isRtphData m := by
  have nlp : nthNlp.get (arrival (NthBuild.build nth m)) = nthNlp.get m :=
    get_framed rtph nth (by simp [steadySlots]) (by decide)
  have opcode : tpOpcode.get (arrival (NthBuild.build nth m)) = tpOpcode.get m :=
    get_framed rtph nth (by simp [steadySlots]) (by decide)
  refine ⟨?_, ?_, ?_⟩
  · rw [goUtp, nlp, rtph]
    decide
  · rw [isAck, opcode, isAck]
  · rw [isRtphData, nlp, opcode, isRtphData]

end

/-- The frame of an acknowledgement of the transport, which names no request. -/
structure IsControl (p : Packet) : Prop where
  rtp : goUtp (arrival p.head) = false
  ack : isAck (arrival p.head) = true
  tassn : iniTassn.get (arrival p.head) = 0
  rcId : iniRcId.get (arrival p.head) = 0

variable {p : Packet}

theorem IsControl.not_data (control : IsControl p) : isRtphData (arrival p.head) = false := by
  rw [eq_false_iff]
  intro data
  have notAck := (routed_of_data data).2
  rw [control.ack] at notAck
  cases notAck

theorem isControl_frame (station : Station) (rtph : nthNlp.get p.head = nthNlpRtph)
    (ack : isAck p.head = true) (tassn : iniTassn.get p.head = 0)
    (rcId : iniRcId.get p.head = 0) :
    IsControl (station.frame p) := by
  obtain ⟨rtp, isAck, _⟩ := routing_framed rtph station.nth
  constructor
  · exact rtp
  · exact isAck.trans ack
  · exact (get_framed rtph station.nth (by simp [steadySlots]) (by decide)).trans tassn
  · exact (get_framed rtph station.nth (by simp [steadySlots]) (by decide)).trans rcId

theorem isControl_notice (station : Station) (m : Flit) :
    IsControl (station.frame (CongEcho.packet station.echo m)) := by
  have read : ∀ {α : Type} [FieldValue α] (field : Field α),
      field.get (CongEcho.build station.echo m) =
        field.get (Write.apply (CongEcho.writes station.echo m) {}) := by
    intro α _ field
    rw [CongEcho.build, Field.get_setEop, Field.get_setSop]
  have separate := CongEcho.writes_separate station.echo m
  have slots : (CongEcho.writes station.echo m).map Write.slot =
      (CongEcho.writes ⟨0⟩ {}).map Write.slot := rfl
  apply isControl_frame
  · exact (read _).trans (field_get_apply_of_fits separate (by simp [CongEcho.writes])
      (by decide) _)
  · have opcode : tpOpcode.get (CongEcho.packet station.echo m).head = tpopCnp :=
      (read _).trans (field_get_apply_of_fits separate (by simp [CongEcho.writes])
        (by decide) _)
    rw [isAck, opcode]
    decide
  · exact (read _).trans (field_get_apply_other slots (by decide) _)
  · exact (read _).trans (field_get_apply_other slots (by decide) _)

theorem lane2_descriptor (c : RxChan) (flags : Flags) (scna : U32) :
    (descriptor c flags scna).lane2 = tpopTpsack.setWidth 64 ∨
      (descriptor c flags scna).lane2 = tpopTpack.setWidth 64 := by
  unfold descriptor
  split
  · exact .inl rfl
  · split
    · exact .inr rfl
    · exact .inr rfl

theorem isControl_acknowledgement (station : Station) (rx : TpChannelRx.State) (m : Flit) :
    IsControl (station.frame (station.acknowledgement rx m)) := by
  let checked := checkMeta rx m
  let a := descriptor checked.1 checked.2 (scna.get m)
  apply isControl_frame
  · exact (TpackGen.get_build (v := nthNlpRtph) (by simp [TpackGen.writes])).trans (by decide)
  · change isAck (TpackGen.build station.tpack a) = true
    rcases lane2_descriptor checked.1 checked.2 (scna.get m) with selective | cumulative
    · rw [isAck, (TpackGen.build_spec station.tpack (a := a) rfl selective).1]
      decide
    · rw [isAck, (TpackGen.build_spec station.tpack (a := a) rfl cumulative).1]
      decide
  · exact (TpackGen.get_build_other (by decide) station.tpack a).trans (by decide)
  · exact (TpackGen.get_build_other (by decide) station.tpack a).trans (by decide)

structure Request where
  packet : Packet
  write : isWriteClass (taOpcode.get packet.head) = true
  service : svcMode.get packet.head = svcRoi ∨ svcMode.get packet.head = svcRot ∨
    svcMode.get packet.head = svcRol
  finishes : EthEncap.Finishes packet

namespace Request

def ids (r : Request) : U16 × U32 :=
  (iniTassn.get r.packet.head, iniRcId.get r.packet.head)

def isRol (r : Request) : Bool := svcMode.get r.packet.head == svcRol

theorem reliable (r : Request) : svcMode.get r.packet.head ≠ svcUno := by
  rcases r.service with mode | mode | mode <;> rw [mode] <;> decide

structure Arrives (r : Request) (m : Flit) : Prop where
  data : isRtphData m = true
  unmarked : fFlag.get m = false
  request : isResponse.get m = false
  service : svcMode.get m = svcMode.get r.packet.head

theorem arrives (r : Request) (nth : NthBuild.State) (tx : TpChannelTx.State) :
    r.Arrives (arrival (TransmitPath.transmit nth tx r.packet).head) := by
  obtain ⟨marked, mode⟩ := TransmitPath.marked_stamp (s := tx) r.reliable
  have data := RtphBuild.data_build marked mode
  have flag : fFlag.get (RtphBuild.build
      (TpChannelTx.stampPacket tx (BtahBuild.stamp.packet r.packet)).head) = false := by
    rw [RtphBuild.build_reliable marked mode]
    exact field_get_apply_of_fits (RtphBuild.writes_separate _) (by simp [RtphBuild.writes])
      (by decide) _
  have keeps := TransmitPath.keeps_transmit nth tx r.reliable
  have nlp : nthNlp.get (TransmitPath.transmit nth tx r.packet).head ≠ nthNlpUtph := by
    have known : nthNlp.get (RtphBuild.build
        (TpChannelTx.stampPacket tx (BtahBuild.stamp.packet r.packet)).head) ≠ 0 := by
      rw [data.1]
      decide
    have kept : nthNlp.get (TransmitPath.transmit nth tx r.packet).head = nthNlpRtph :=
      (NthBuild.get_build known (by decide) nth).trans data.1
    rw [kept]
    decide
  constructor
  · exact (routing_framed data.1 nth).2.2.trans (isRtphData_iff.mpr data)
  · exact (get_framed data.1 nth (by simp [steadySlots]) (by decide)).trans flag
  · rw [EthDecap.isResponse_arrival, keeps.taOpcode]
    exact (isWriteClass_spec r.write).1
  · rw [EthDecap.get_arrival nlp (by simp [steadySlots]), keeps.svcMode]

end Request

structure Setup where
  initiator : Station
  responder : Station

/-- Both nodes and the links between them. -/
structure Net where
  tx : TpChannelTx.State
  rx : TpChannelRx.State
  target : TpChannelRx.State
  pending : List Request
  outbound : List Packet
  inbound : List Packet
  requests : List Flit
  responses : List Flit
  transport : List Flit
  transaction : List Flit

/-- Nothing under way, and channels in any state. -/
def Net.start (tx : TpChannelTx.State) (rx target : TpChannelRx.State) : Net where
  tx
  rx
  target
  pending := []
  outbound := []
  inbound := []
  requests := []
  responses := []
  transport := []
  transaction := []

/-- What can happen.  The schedulers, the target stages and `UB_PSN_Reorder` may hold back what
they have, and let it go in any order. -/
inductive Event where
  | post (r : Request)
  | transmit (k : ℕ)
  | arrive
  | respond (k : ℕ) (reply : Packet)
  | comeBack
  | surface (k : ℕ)

def step (setup : Setup) (net : Net) : Event → Net
  | .post r => { net with pending := net.pending ++ [r] }
  | .transmit k =>
    match net.pending[k]? with
    | none => net
    | some r =>
      { net with
        tx := (TpChannelTx.stamp net.tx (BtahBuild.build r.packet.head)).1
        pending := net.pending.eraseIdx k
        outbound := net.outbound ++
          [TransmitPath.transmit setup.initiator.nth net.tx r.packet] }
  | .arrive =>
    match net.outbound with
    | [] => net
    | p :: frames =>
      -- acknowledgements end at the responder's own host
      let got := setup.responder.receive net.target (arrival p.head)
      { net with
        target := got.rx
        outbound := frames
        inbound := net.inbound ++ got.replies
        requests := net.requests ++ got.passed.filter fun m => !BtahParse.isResp m }
  | .respond k reply =>
    if net.requests[k]? = some reply.head then
      { net with
        requests := net.requests.eraseIdx k
        inbound := net.inbound ++ (responseFrame setup.responder.nth reply).toList }
    else net
  | .comeBack =>
    match net.inbound with
    | [] => net
    | p :: frames =>
      let got := setup.initiator.receive net.rx (arrival p.head)
      { net with
        rx := got.rx
        inbound := frames
        outbound := net.outbound ++ got.replies
        responses := net.responses ++ got.passed
        transport := net.transport ++ got.acks.map record }
  | .surface k =>
    match net.responses[k]? with
    | none => net
    | some m =>
      { net with
        responses := net.responses.eraseIdx k
        transaction := net.transaction ++
          if BtahParse.isResp m then [record m] else [] }

def run (setup : Setup) (net : Net) (events : List Event) : Net := events.foldl (step setup) net

def Event.posts : Event → List Request
  | .post r => [r]
  | _ => []

def posted (events : List Event) : List Request := events.flatMap Event.posts

/-- Every request is past the schedulers, and no frame is under way. -/
structure Settled (net : Net) : Prop where
  pending : net.pending = []
  outbound : net.outbound = []
  inbound : net.inbound = []

def recordIds (cqe : Flit) : U16 × U32 := (tassn cqe, rcId cqe)

/-- Each request is completed once and by its name: ROL requests by the transport, the others by
the transaction. -/
structure OneEach (requests : List Request) (net : Net) : Prop where
  transport : (net.transport.map recordIds).Perm ((requests.filter Request.isRol).map Request.ids)
  transaction : (net.transaction.map recordIds).Perm
    ((requests.filter fun r => !r.isRol).map Request.ids)

section

variable (station : Station) (rx : TpChannelRx.State)

theorem receive_control (control : IsControl p) :
    station.receive rx (arrival p.head) = ⟨rx, [], [arrival p.head], []⟩ := by
  rw [Station.receive, control.rtp, control.ack]
  rfl

variable {m : Flit} (data : isRtphData m = true)
include data

theorem acks_data : (station.receive rx m).acks = [] := by
  obtain ⟨rtp, notAck⟩ := routed_of_data data
  rw [Station.receive, rtp, notAck]
  rfl

theorem replies_data : (station.receive rx m).replies =
      (station.notice m ++ [station.acknowledgement rx m]).map station.frame := by
  obtain ⟨rtp, notAck⟩ := routed_of_data data
  rw [Station.receive, rtp, notAck]
  rfl

theorem isControl_replies : ∀ p ∈ (station.receive rx m).replies, IsControl p := by
  rw [replies_data station rx data, map_append, forall_mem_append]
  refine ⟨?_, forall_mem_singleton.mpr (isControl_acknowledgement station rx m)⟩
  rw [Station.notice]
  split
  · exact forall_mem_singleton.mpr (isControl_notice station m)
  · exact forall_mem_nil _

theorem passed_data : ∀ m' ∈ (station.receive rx m).passed, isRtphData m' = true ∧
      (svcMode.get m' = svcMode.get m ∨ svcMode.get m' = svcRol) := by
  obtain ⟨rtp, notAck⟩ := routed_of_data data
  intro m' member
  rw [Station.receive, rtp, notAck] at member
  change m' ∈ (if (checkMeta rx m).2.inWindow then
    [passedMeta (checkMeta rx m).1 m] else []) at member
  split at member
  · rw [mem_singleton.mp member, passedMeta]
    split
    · constructor
      · rw [isRtphData, Field.get_set_disjoint (by decide), Field.get_set_disjoint (by decide)]
        exact data
      · right
        rw [Field.get_set_same]
        decide
    · exact ⟨data, .inl rfl⟩
  · cases member

end

theorem isRtphData_responseFrame (nth : NthBuild.State) {reply frame : Packet}
    (data : isRtphData reply.head = true) (sent : responseFrame nth reply = some frame) :
    isRtphData (arrival frame.head) = true := by
  rw [responseFrame] at sent
  split at sent
  · cases sent
  · cases sent
    obtain ⟨nlp, opcode⟩ := isRtphData_iff.mp data
    have kept : ∀ {α : Type} [FieldValue α] (field : Field α),
        (∀ slot ∈ (CompletionGen.writes {}).map Write.slot, slot.Disjoint field.toSlot) →
        taOpcode.Disjoint field.toSlot →
        field.get (TaackGen.build (CompletionGen.build reply.head)) = field.get reply.head := by
      intro α _ field turned opcode
      rw [TaackGen.get_build opcode, CompletionGen.get_build turned]
    have rtph := (kept nthNlp (by decide) (by decide)).trans nlp
    refine (routing_framed rtph nth).2.2.trans (isRtphData_iff.mpr ⟨rtph, ?_⟩)
    rw [kept tpOpcode (by decide) (by decide)]
    exact opcode

/-- The acknowledgements of the transport among some frames. -/
def ackFrames (frames : List Packet) : ℕ := frames.countP fun p => isAck (arrival p.head)

def dataFrames (frames : List Packet) : ℕ := frames.countP fun p => isRtphData (arrival p.head)

theorem ackFrames_append (first second : List Packet) :
    ackFrames (first ++ second) = ackFrames first + ackFrames second := countP_append

theorem dataFrames_append (first second : List Packet) :
    dataFrames (first ++ second) = dataFrames first + dataFrames second := countP_append

section

variable {frames : List Packet} (control : ∀ p ∈ frames, IsControl p)
include control

theorem ackFrames_control : ackFrames frames = frames.length :=
  countP_eq_length.mpr fun p member => (control p member).ack

theorem dataFrames_control : dataFrames frames = 0 :=
  countP_eq_zero.mpr fun p member => by simp [(control p member).not_data]

end

theorem ackFrames_cons_data (data : isRtphData (arrival p.head) = true) (frames : List Packet) :
    ackFrames (p :: frames) = ackFrames frames :=
  countP_cons_of_neg (by simp [(routed_of_data data).2])

/-- Every posted request is accounted for by a completion record or by what will become one; only
requests in other modes than ROL are answered by the transaction. -/
structure Accounts (allowed : Request → Prop) (posts : ℕ) (net : Net) : Prop where
  pending : ∀ r ∈ net.pending, allowed r
  outbound : ∀ p ∈ net.outbound, IsControl p ∨ ∃ r, allowed r ∧ r.Arrives (arrival p.head)
  inbound : ∀ p ∈ net.inbound, IsControl p ∨
    isRtphData (arrival p.head) = true ∧ ∃ r, allowed r ∧ r.isRol = false
  requests : ∀ m ∈ net.requests, isRtphData m = true ∧ (svcMode.get m = svcRol ∨
    ∃ r, allowed r ∧ svcMode.get m = svcMode.get r.packet.head)
  answered : net.responses ≠ [] ∨ net.transaction ≠ [] → ∃ r, allowed r ∧ r.isRol = false
  transport : ∀ cqe ∈ net.transport, recordIds cqe = (0, 0)
  balance : net.transport.length + ackFrames net.inbound + dataFrames net.outbound +
    net.pending.length = posts

namespace Accounts

variable {allowed : Request → Prop} {posts : ℕ} {net : Net} (setup : Setup)

theorem start (tx : TpChannelTx.State) (rx target : TpChannelRx.State) :
    Accounts allowed 0 (.start tx rx target) where
  pending _ impossible := by cases impossible
  outbound _ impossible := by cases impossible
  inbound _ impossible := by cases impossible
  requests _ impossible := by cases impossible
  answered some := by
    rcases some with some | some
    · exact (some rfl).elim
    · exact (some rfl).elim
  transport _ impossible := by cases impossible
  balance := rfl

section

variable (accounts : Accounts allowed posts net)
include accounts

theorem post {r : Request} (fine : allowed r) :
    Accounts allowed (posts + 1) (step setup net (.post r)) where
  pending := forall_mem_append.mpr ⟨accounts.pending, forall_mem_singleton.mpr fine⟩
  outbound := accounts.outbound
  inbound := accounts.inbound
  requests := accounts.requests
  answered := accounts.answered
  transport := accounts.transport
  balance := by
    have balance := accounts.balance
    simp only [step, length_append, length_singleton]
    omega

theorem transmit (k : ℕ) : Accounts allowed posts (step setup net (.transmit k)) := by
  rw [step]
  cases found : net.pending[k]? with
  | none => exact accounts
  | some r =>
    obtain ⟨inside, here⟩ := List.getElem?_eq_some_iff.mp found
    have member : r ∈ net.pending := here ▸ getElem_mem inside
    have arrives := r.arrives setup.initiator.nth net.tx
    refine ⟨fun q kept => accounts.pending q (mem_of_mem_eraseIdx kept), ?_,
      accounts.inbound, accounts.requests, accounts.answered, accounts.transport, ?_⟩
    · refine forall_mem_append.mpr ⟨accounts.outbound, forall_mem_singleton.mpr ?_⟩
      exact .inr ⟨r, accounts.pending r member, arrives⟩
    · have one : dataFrames [TransmitPath.transmit setup.initiator.nth net.tx r.packet] = 1 :=
        countP_eq_length.mpr fun p only => by
          rw [mem_singleton.mp only]
          exact arrives.data
      have balance := accounts.balance
      simp only [dataFrames_append, one, length_eraseIdx_of_lt inside]
      omega

theorem arrive : Accounts allowed posts (step setup net .arrive) := by
  rw [step]
  cases link : net.outbound with
  | nil => exact accounts
  | cons p frames =>
    have outbound := accounts.outbound
    have balance := accounts.balance
    rw [link] at outbound balance
    have later : ∀ q ∈ frames, IsControl q ∨ ∃ r, allowed r ∧ r.Arrives (arrival q.head) :=
      fun q member => outbound q (mem_cons_of_mem p member)
    dsimp only
    rcases outbound p mem_cons_self with control | ⟨r, fine, arrives⟩
    · rw [receive_control setup.responder net.target control]
      refine ⟨accounts.pending, later, ?_, ?_, accounts.answered, accounts.transport, ?_⟩
      · simpa using accounts.inbound
      · simpa using accounts.requests
      · have none : dataFrames (p :: frames) = dataFrames frames :=
          countP_cons_of_neg (by simp [control.not_data])
        rw [none] at balance
        simpa using balance
    · have replies : (setup.responder.receive net.target (arrival p.head)).replies =
          [setup.responder.frame
            (setup.responder.acknowledgement net.target (arrival p.head))] := by
        rw [replies_data _ _ arrives.data, Station.notice, arrives.unmarked]
        rfl
      have controls := isControl_replies setup.responder net.target arrives.data
      have answered :
          ackFrames (setup.responder.receive net.target (arrival p.head)).replies = 1 := by
        rw [ackFrames_control controls, replies]
        rfl
      refine ⟨accounts.pending, later, ?_, ?_, accounts.answered, accounts.transport, ?_⟩
      · exact forall_mem_append.mpr ⟨accounts.inbound, fun q new => .inl (controls q new)⟩
      · refine forall_mem_append.mpr ⟨accounts.requests, fun m new => ?_⟩
        rcases passed_data setup.responder net.target arrives.data m
          (mem_filter.mp new).1 with ⟨data, same | rol⟩
        · exact ⟨data, .inr ⟨r, fine, same.trans arrives.service⟩⟩
        · exact ⟨data, .inl rol⟩
      · have one : dataFrames (p :: frames) = dataFrames frames + 1 :=
          countP_cons_of_pos arrives.data
        rw [one] at balance
        simp only [ackFrames_append, answered]
        omega

theorem respond (k : ℕ) (reply : Packet) :
    Accounts allowed posts (step setup net (.respond k reply)) := by
  rw [step]
  split
  · rename_i found
    obtain ⟨data, mode⟩ := accounts.requests _ (mem_of_getElem? found)
    have data' : ∀ p ∈ (responseFrame setup.responder.nth reply).toList,
        isRtphData (arrival p.head) = true ∧ ∃ r, allowed r ∧ r.isRol = false := by
      intro p member
      have sent : responseFrame setup.responder.nth reply = some p := Option.mem_toList.mp member
      refine ⟨isRtphData_responseFrame _ data sent, ?_⟩
      cases drops : TaackGen.drops reply.head with
      | true => rw [responseFrame_dropped _ drops] at sent; cases sent
      | false =>
        rw [TaackGen.drops, or_eq_false_iff, beq_eq_false_iff_ne, beq_eq_false_iff_ne]
          at drops
        rcases mode with rol | ⟨r, fine, same⟩
        · exact (drops.2 rol).elim
        · refine ⟨r, fine, ?_⟩
          rw [Request.isRol, beq_eq_false_iff_ne, ← same]
          exact drops.2
    refine ⟨accounts.pending, accounts.outbound, ?_,
      fun m kept => accounts.requests m (mem_of_mem_eraseIdx kept), accounts.answered,
      accounts.transport, ?_⟩
    · exact forall_mem_append.mpr ⟨accounts.inbound, fun p new => .inr (data' p new)⟩
    · have none : ackFrames (responseFrame setup.responder.nth reply).toList = 0 :=
        countP_eq_zero.mpr fun p member => by
          simp [(routed_of_data (data' p member).1).2]
      have balance := accounts.balance
      simp only [ackFrames_append, none]
      omega
  · exact accounts

theorem comeBack : Accounts allowed posts (step setup net .comeBack) := by
  rw [step]
  cases link : net.inbound with
  | nil => exact accounts
  | cons p frames =>
    have inbound := accounts.inbound
    have balance := accounts.balance
    rw [link] at inbound balance
    have later : ∀ q ∈ frames, IsControl q ∨
        isRtphData (arrival q.head) = true ∧ ∃ r, allowed r ∧ r.isRol = false :=
      fun q member => inbound q (mem_cons_of_mem p member)
    dsimp only
    rcases inbound p mem_cons_self with control | ⟨data, other⟩
    · rw [receive_control setup.initiator net.rx control]
      refine ⟨accounts.pending, ?_, later, accounts.requests, ?_, ?_, ?_⟩
      · simpa using accounts.outbound
      · simpa using accounts.answered
      · refine forall_mem_append.mpr ⟨accounts.transport, forall_mem_singleton.mpr ?_⟩
        rw [recordIds, tassn_record, rcId_record, control.tassn, control.rcId]
      · have one : ackFrames (p :: frames) = ackFrames frames + 1 :=
          countP_cons_of_pos control.ack
        rw [one] at balance
        simp only [append_nil, length_append, map_cons, map_nil,
          length_singleton]
        omega
    · have controls := isControl_replies setup.initiator net.rx data
      refine ⟨accounts.pending, ?_, later, accounts.requests, fun _ => other, ?_, ?_⟩
      · exact forall_mem_append.mpr ⟨accounts.outbound, fun q new => .inl (controls q new)⟩
      · rw [acks_data setup.initiator net.rx data]
        simpa using accounts.transport
      · rw [ackFrames_cons_data data] at balance
        simp only [acks_data setup.initiator net.rx data, dataFrames_append,
          dataFrames_control controls, map_nil, append_nil]
        omega

theorem surface (k : ℕ) : Accounts allowed posts (step setup net (.surface k)) := by
  rw [step]
  cases found : net.responses[k]? with
  | none => exact accounts
  | some m =>
    have some : net.responses ≠ [] := ne_nil_of_mem (mem_of_getElem? found)
    exact ⟨accounts.pending, accounts.outbound, accounts.inbound, accounts.requests,
      fun _ => accounts.answered (.inl some), accounts.transport, accounts.balance⟩

theorem step (event : Event) (fine : ∀ r ∈ event.posts, allowed r) :
    Accounts allowed (posts + event.posts.length) (Completions.step setup net event) := by
  cases event with
  | post r => exact accounts.post setup (fine r mem_cons_self)
  | transmit k => exact accounts.transmit setup k
  | arrive => exact accounts.arrive setup
  | respond k reply => exact accounts.respond setup k reply
  | comeBack => exact accounts.comeBack setup
  | surface k => exact accounts.surface setup k

end

theorem run (accounts : Accounts allowed posts net) (events : List Event)
    (fine : ∀ r ∈ posted events, allowed r) :
    Accounts allowed (posts + (posted events).length) (Completions.run setup net events) := by
  induction events generalizing net posts with
  | nil => exact accounts
  | cons event events ih =>
    rw [posted, flatMap_cons, forall_mem_append] at fine
    have rest := ih (accounts.step setup event fine.1) fine.2
    rw [Nat.add_assoc] at rest
    rw [posted, flatMap_cons, length_append]
    exact rest

end Accounts

section

variable (setup : Setup) (tx : TpChannelTx.State) (rx target : TpChannelRx.State)
variable (events : List Event) (settled : Settled (run setup (.start tx rx target) events))
include settled

theorem transport_eq : (run setup (.start tx rx target) events).transport.map recordIds =
      replicate (posted events).length (0, 0) := by
  have begin : Accounts (fun _ => True) 0 (.start tx rx target) := .start tx rx target
  have accounts := begin.run setup events fun _ _ => trivial
  have balance := accounts.balance
  rw [settled.pending, settled.outbound, settled.inbound] at balance
  rw [eq_replicate_iff]
  constructor
  · rw [length_map]
    exact balance.trans (Nat.zero_add _)
  · intro ids member
    obtain ⟨cqe, recorded, rfl⟩ := mem_map.mp member
    exact accounts.transport cqe recorded

omit settled in
theorem transaction_eq (rol : ∀ r ∈ posted events, r.isRol = true) :
    (run setup (.start tx rx target) events).transaction = [] := by
  have begin : Accounts (· ∈ posted events) 0 (.start tx rx target) := .start tx rx target
  have accounts := begin.run setup events fun _ member => member
  by_contra some
  obtain ⟨r, member, other⟩ := accounts.answered (.inr some)
  rw [rol r member] at other
  cases other

/-- Each request is completed once and by its name exactly if all are in the mode ROL and have
the name that a blank header has. -/
theorem oneEach_iff : OneEach (posted events) (run setup (.start tx rx target) events) ↔
      ∀ r ∈ posted events, r.isRol = true ∧ r.ids = (0, 0) := by
  have transport := transport_eq setup tx rx target events settled
  constructor
  · intro oneEach
    have perm := oneEach.transport
    rw [transport] at perm
    have count := perm.length_eq
    rw [length_replicate, length_map] at count
    have rol : ∀ r ∈ posted events, r.isRol = true := length_filter_eq_length_iff.mp count.symm
    rw [filter_eq_self.mpr rol] at perm
    intro r member
    refine ⟨rol r member, ?_⟩
    exact eq_of_mem_replicate (perm.mem_iff.mpr (mem_map_of_mem member))
  · intro every
    have rol : ∀ r ∈ posted events, r.isRol = true := fun r member => (every r member).1
    have blank : (posted events).map Request.ids =
        replicate (posted events).length (0, 0) := by
      rw [eq_replicate_iff, length_map]
      refine ⟨rfl, fun ids member => ?_⟩
      obtain ⟨r, found, rfl⟩ := mem_map.mp member
      exact (every r found).2
    constructor
    · rw [transport, filter_eq_self.mpr rol, blank]
    · have none : (posted events).filter (fun r => !r.isRol) = [] := by
        rw [filter_eq_nil_iff]
        intro r member
        simp [rol r member]
      rw [transaction_eq setup tx rx target events rol, none]
      exact .refl _

end

instance (net : Net) : Decidable (Settled net) :=
  decidable_of_iff (net.pending.length = 0 ∧ net.outbound.length = 0 ∧ net.inbound.length = 0)
    ⟨fun ⟨pending, outbound, inbound⟩ => ⟨length_eq_zero_iff.mp pending,
        length_eq_zero_iff.mp outbound, length_eq_zero_iff.mp inbound⟩,
      fun settled => by simp [settled.pending, settled.outbound, settled.inbound]⟩

/-- A Write in the mode ROL to node 7 with the given last lane of metadata. -/
def rolPacket (lane3 : U64) : Packet where
  head := { lane0 := 7, lane2 := 2 <<< 58, lane3, sop := true }
  rest := [{ eop := true }]
  sop_head := rfl
  sop_rest := sop_end
  eop_last := ⟨rfl, rfl⟩

theorem finishes_rolPacket (lane3 : U64) : EthEncap.Finishes (rolPacket lane3) := by
  intro e shape _
  cases shape
  decide

def blankWrite : Request := ⟨rolPacket 3, by decide, by decide, finishes_rolPacket 3⟩

def namedWrite : Request :=
  ⟨rolPacket ((9 <<< 43) + (5 <<< 16) + 3), by decide, by decide, finishes_rolPacket _⟩

def quietStation : Station := ⟨⟨1, 0, 2⟩, ⟨1⟩, ⟨1⟩⟩

def rolChannels : TpChannelRx.State :=
  { TpChannelRx.init (fun _ => 0) with
    rxchan := fun i => { (TpChannelRx.init fun _ => 0).rxchan i with rolMode := 1 } }

/-- The host posts a Write, the Write arrives, and the acknowledgement comes back. -/
def exchange (r : Request) : List Event := [.post r, .transmit 0, .arrive, .comeBack]

def exchanged (r : Request) : Net :=
  run ⟨quietStation, quietStation⟩
    (.start (TpChannelTx.init fun _ => default) (TpChannelRx.init fun _ => 0) rolChannels)
    (exchange r)

theorem oneEach_blankWrite : OneEach [blankWrite] (exchanged blankWrite) :=
  (oneEach_iff ⟨quietStation, quietStation⟩ _ _ _ (exchange blankWrite) (by decide +kernel)).mpr
    (by
      intro r member
      rw [mem_singleton.mp member]
      decide)

/-- The only completion record for a Write with TASSN 5 and rc_id 9 has TASSN 0 and rc_id 0. -/
theorem not_oneEach_namedWrite :
    Settled (exchanged namedWrite) ∧ ¬OneEach [namedWrite] (exchanged namedWrite) := by
  have settled : Settled (exchanged namedWrite) := by decide +kernel
  refine ⟨settled, fun oneEach => ?_⟩
  have named := oneEach.transport
  rw [exchanged, transport_eq _ _ _ _ _ settled] at named
  have other : ¬([(0, 0)] : List (U16 × U32)).Perm [(5, 9)] := by decide
  exact other named

end Completions

end OpenURMA
