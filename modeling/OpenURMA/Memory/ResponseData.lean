import OpenURMA.Codec.Responses
import OpenURMA.Memory.HbmRead
import OpenURMA.Ordering.CompletionReorder
import OpenURMA.Transport.Pipeline

/-!
# The data of a response

`UB_HBM_Read` and `UB_Atomic_CAS` return a word in the operand field of the extension flit. The
encoder writes that field for atomic requests only, so `UB_Completion_Stream` hands to the host what
the frame of the response has at that place: the MTETAH, payload or padding.
-/

namespace OpenURMA

open Library UbMeta UbExt CompletionGen EthDecap Flit Ports List

namespace EthEncap

/-- What the encoder writes behind the fixed headers of a response. -/
def responseTail (m e : Flit) (payload : List Flit) : List Byte :=
  (if mtEn.get m then mtetahBytes e else []) ++ payload.flatMap (·.getData 32)

theorem extBytes_response {m : Flit} (response : isResp (taOpcode.get m) = true) (e : Flit) :
    extBytes m e = if mtEn.get m then mtetahBytes e else [] := by
  obtain ⟨mae, atomic, send, _⟩ := isResp_spec response
  simp [extBytes, mae, atomic, send]

theorem laneOfData_response {m : Flit} (response : isResp (taOpcode.get m) = true)
    (e : Flit) (payload : List Flit) {lane : Nat} (inside : lane < 4) :
    laneOfData ((padded (encode m (e :: payload))).drop 58) lane =
      laneOfData (responseTail m e payload) lane := by
  apply laneOfData_congr
  intro index low
  have position : 58 + (8 * lane + index) < wireMax := by
    simp only [wireMax]
    omega
  have header := headerBytes_length m
  rw [getD_eq_getElem?_getD, getElem?_drop, ← getD_eq_getElem?_getD,
    getD_padded_zero, encode, getD_eq_getElem?_getD, getElem?_take_of_lt position,
    append_assoc, getElem?_append_right (by omega), header, Nat.add_sub_cancel_left,
    extBytes_response response, ← getD_eq_getElem?_getD, responseTail]

theorem responseTail_nil (m e : Flit) : laneOfData (responseTail m e []) 3 = 0 := by
  have short : (responseTail m e []).length ≤ 24 := by
    simp only [responseTail, flatMap_nil, append_nil]
    split <;> simp [mtetahBytes]
  have blank : laneOfData (responseTail m e []) 3 = laneOfData [] 3 := by
    apply laneOfData_congr
    intro index _
    rw [getD_eq_default _ _ (by omega), getD_nil]
  rw [blank]
  decide

end EthEncap

/-- What the target sends of a packet that a memory unit has executed. -/
def respond (haveMeta : Bool) (r : CompletionReorder.State) (dropPkt : Bool)
    (executed : List Flit) : List Flit :=
  Ports.sent 1 (TaackGen.step.trace dropPkt (Ports.sent 1 (CompletionReorder.step.trace r
    ((Ports.sent 1 (CompletionGen.step.trace haveMeta executed)).map some))))

def Packet.response (p : Packet) : Packet := TaackGen.stamp.packet (CompletionGen.stamp.packet p)

structure Returns (m : Flit) : Prop where
  opcode : taOpcode.get m = taopRead ∨ isAtomic (taOpcode.get m) = true
  service : svcMode.get m = svcRoi ∨ svcMode.get m = svcRot
  bypass : odrCompl.get m = false

instance (m : Flit) : Decidable (Returns m) :=
  decidable_of_iff ((taOpcode.get m = taopRead ∨ isAtomic (taOpcode.get m) = true) ∧
      (svcMode.get m = svcRoi ∨ svcMode.get m = svcRot) ∧
      odrCompl.get m = false)
    ⟨fun ⟨opcode, service, bypass⟩ => ⟨opcode, service, bypass⟩,
      fun returns => ⟨returns.opcode, returns.service, returns.bypass⟩⟩

namespace Returns

variable {p : Packet} (returns : Returns p.head)
include returns

theorem responseOpcode_eq : responseOpcode (taOpcode.get p.head) = taopReadResp ∨
      responseOpcode (taOpcode.get p.head) = taopAtomicResp := by
  rcases returns.opcode with read | atomic
  · exact .inl (by rw [read]; rfl)
  · refine .inr ?_
    rw [responseOpcode, if_neg (by simpa using (isAtomic_spec atomic).2.2.2.1), if_pos atomic]

theorem taOpcode_turned :
    taOpcode.get (CompletionGen.build p.head) = responseOpcode (taOpcode.get p.head) := by
  refine Write.field_get_apply_of_fits (writes_separate p.head)
    (by simp [writes]) ?_ p.head
  rcases returns.responseOpcode_eq with read | atomic
  · rw [read]
    decide
  · rw [atomic]
    decide

theorem head_response : p.response.head = CompletionGen.build p.head := by
  change TaackGen.build (CompletionGen.build p.head) = CompletionGen.build p.head
  rw [TaackGen.build, returns.taOpcode_turned, if_neg]
  rcases returns.responseOpcode_eq with read | atomic
  · rw [read]
    decide
  · rw [atomic]
    decide

theorem isResp_response : isResp (taOpcode.get p.response.head) = true := by
  rw [returns.head_response, returns.taOpcode_turned]
  rcases returns.responseOpcode_eq with read | atomic
  · rw [read]
    decide
  · rw [atomic]
    decide

theorem statusByte_response : statusByte p.response.head = 0 := by
  have info : rspinfo.get (CompletionGen.build p.head) = 0 :=
    Write.field_get_apply_of_fits (writes_separate p.head)
      (by simp [writes]) (by decide) p.head
  rw [returns.head_response, statusByte, rspst_build, info]
  decide

theorem mtEn_response : mtEn.get p.response.head = mtEn.get p.head := by
  rw [returns.head_response]
  exact get_build (by decide) p.head

theorem respond_eq (haveMeta : Bool) (r : CompletionReorder.State) (dropPkt : Bool) :
    respond haveMeta r dropPkt p.flits = p.response.flits := by
  have turned : Ports.sent 1 (CompletionGen.step.trace haveMeta p.flits) =
      (CompletionGen.stamp.packet p).flits := by
    rw [trace_packet, sent_map_emit]
  have odr : odrCompl.get (CompletionGen.stamp.packet p).head = false :=
    (get_build (by decide) p.head).trans returns.bypass
  have service : svcMode.get (CompletionGen.stamp.packet p).head =
      svcMode.get p.head := get_build (by decide) p.head
  have kept : TaackGen.drops (CompletionGen.stamp.packet p).head = false := by
    rw [TaackGen.drops, service]
    rcases returns.service with roi | rot
    · rw [roi]
      decide
    · rw [rot]
      decide
  rw [respond, turned, CompletionReorder.sent_bypass r _ odr, TaackGen.sent_packet, kept]
  rfl

end Returns

/-- The operand field after execution is in lane 3 of the first data record that the initiator's
host gets. -/
def DeliversData (p : Packet) (value : U64) (haveMeta : Bool) (r : CompletionReorder.State)
    (dropPkt : Bool) (s : EthEncap.State) (d : EthDecap.State) (inPacket : Bool) : Prop :=
  ∃ wire s' decoded d' completion data more,
    EthEncap.handler.Produces s (respond haveMeta r dropPkt p.flits) s' wire ∧
    EthDecap.handler.Produces d wire d' decoded ∧
    Ports.sent 1 (CompletionStream.step.trace inPacket decoded) = completion :: data :: more ∧
    data.lane3 = value

section

variable {p : Packet} (returns : Returns p.head) {e : Flit} {payload : List Flit}
variable (shape : p.rest = e :: payload)
variable (haveMeta : Bool) (r : CompletionReorder.State) (dropPkt : Bool)
variable {s : EthEncap.State} (encap : EthEncap.Idle s)
variable {d : EthDecap.State} (decap : EthDecap.Idle d) (inPacket : Bool)
include returns shape encap decap

theorem records_response : ∃ wire s' decoded d' completion data more,
      EthEncap.handler.Produces s (respond haveMeta r dropPkt p.flits) s' wire ∧
      EthDecap.handler.Produces d wire d' decoded ∧
      Ports.sent 1 (CompletionStream.step.trace inPacket decoded) = completion :: data :: more ∧
      data.lane3 = laneOfData (EthEncap.responseTail p.head e payload) 3 := by
  have response := returns.isResp_response
  have finishes : EthEncap.Finishes p.response := by
    intro _ _ write
    rw [(isResp_spec response).2.2.2] at write
    cases write
  obtain ⟨wire, s', d₁, d', sent, _, received, _, contents⟩ :=
      codec_delivers p.response finishes encap.1 decap.1
  have rest : p.response.rest = e :: payload := shape
  rw [rest] at contents
  have unflagged : statusByte p.response.head &&& 0x08 = 0 := by
    rw [returns.statusByte_response]
    decide
  have emission := emission_response contents response unflagged
  let behind := (padded (EthEncap.encode p.response.head (e :: payload))).drop 58
  obtain ⟨f, chunks, cut, lanes⟩ := lanes_chunks false behind
  have inner : f.sop = false := sop_chunks behind f (by rw [cut]; exact mem_cons_self)
  have lane : f.get 3 = laneOfData behind 3 := lanes 3
  have word : opData f = laneOfData (EthEncap.responseTail p.head e payload) 3 := by
    rw [opData, lane, EthEncap.laneOfData_response response e payload (by decide),
      EthEncap.responseTail, EthEncap.responseTail, returns.mtEn_response]
  rcases CompletionStream.sent_response inPacket
    (m := metaFlit (parse d₁)) rfl inner chunks with ⟨more, records⟩
  rw [emission, cut] at received
  rw [← returns.respond_eq haveMeta r dropPkt] at sent
  exact ⟨wire, s', _, d', _, _, more, sent, received, records, word⟩

/-- The host gets the word exactly if the frame happens to have it behind the headers. -/
theorem deliversData_iff : DeliversData p (opData e) haveMeta r dropPkt s d inPacket ↔
      opData e = laneOfData (EthEncap.responseTail p.head e payload) 3 := by
  obtain ⟨wire, s', decoded, d', completion, data, more, sent, received, records, word⟩ :=
      records_response returns shape haveMeta r dropPkt encap decap inPacket
  constructor
  · rintro ⟨wire', s'', decoded', d'', completion', data', more', sent', received', records', same⟩
    obtain ⟨_, rfl⟩ := sent.unique sent'
    obtain ⟨_, rfl⟩ := received.unique received'
    rw [records, cons.injEq, cons.injEq] at records'
    rw [← same, ← records'.2.1, word]
  · intro same
    exact ⟨wire, s', decoded, d', completion, data, more, sent, received, records,
      word.trans same.symm⟩

end

def readExt : Flit := { lane1 := 0x800000000, eop := true }

def sampleRead : Packet where
  head := { lane3 := 0x06, sop := true }
  rest := [readExt]
  sop_head := Eq.refl true
  sop_rest := by decide
  eop_last := by decide

/-- The word 0 arrives. -/
theorem deliversData_iff_sampleRead :
    DeliversData sampleRead 0 false (CompletionReorder.init fun _ _ => {}) false
      (EthEncap.init fun _ => 0) (EthDecap.init fun _ => 0) false :=
  (deliversData_iff (p := sampleRead) (e := readExt) (by decide) rfl false _ false ⟨rfl, rfl⟩
    ⟨rfl, rfl, rfl, rfl⟩ false).mpr (EthEncap.responseTail_nil _ _).symm

def sampleReturn : Packet where
  head := { lane3 := 0x06, sop := true }
  rest := [{ readExt with lane3 := 5 }]
  sop_head := Eq.refl true
  sop_rest := by decide
  eop_last := by decide

/-- The word 5 that `UB_HBM_Read` returns does not arrive. -/
theorem not_deliversData_sampleReturn :
    Ports.sent 1 (HbmRead.step.trace { HbmRead.init with hbm := fun _ => 5 } sampleRead.flits) =
        sampleReturn.flits ∧
      ¬DeliversData sampleReturn 5 false (CompletionReorder.init fun _ _ => {}) false
        (EthEncap.init fun _ => 0) (EthDecap.init fun _ => 0) false := by
  refine ⟨by decide, ?_⟩
  rcases records_response (p := sampleReturn) (by decide) rfl false
    (CompletionReorder.init fun _ _ => {}) false (s := EthEncap.init fun _ => 0) ⟨rfl, rfl⟩
    (d := EthDecap.init fun _ => 0) ⟨rfl, rfl, rfl, rfl⟩ false with
    ⟨wire, s', decoded, d', completion, data, more, sent, received, records, word⟩
  rintro ⟨wire', s'', decoded', d'', completion', data', more', sent', received', records', same⟩
  obtain ⟨_, rfl⟩ := sent.unique sent'
  obtain ⟨_, rfl⟩ := received.unique received'
  rw [records, cons.injEq, cons.injEq] at records'
  rw [← records'.2.1, word, EthEncap.responseTail_nil] at same
  exact absurd same (by decide)

end OpenURMA
