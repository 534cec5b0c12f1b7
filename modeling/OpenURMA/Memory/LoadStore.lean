import OpenURMA.Codec.Responses
import OpenURMA.Memory.RemoteWrite
import OpenURMA.Transport.Pipeline

/-!
# Loads and stores over the wire

In the load/store topology the requests of `UB_LoadStore_Engine` go through `UB_BTAH_Build`,
`UB_NTH_Build` and the codec elements, and replies come back through the codec elements,
`UB_NTH_Parse` and `UB_BTAH_Parse`. By none of the codec elements' lists does the opcode of a load
or store carry anything or mark a response.
-/

namespace OpenURMA

open Library UbMeta UbExt Ports

namespace LoadStoreEngine

structure Entry where
  valid : Bool
  op : U8

structure State where
  outstanding : Fin 64 → Entry
  nextTassn : U16
  pendingExt : Bool

def init : State where
  outstanding _ := ⟨false, 0⟩
  nextTassn := 0
  pendingExt := false

/-- What a call finds at the two input ports. -/
structure Input where
  host : Option Flit := none
  reply : Option Flit := none

def idx (tassn : U16) : Fin 64 :=
  ⟨(tassn &&& 0x3F).toNat, by
    rw [BitVec.toNat_and]
    exact Nat.lt_succ_of_le Nat.and_le_right⟩

def isRequest (op : U8) : Bool := op == taopLdstLoad || op == taopLdstStore

def isReply (op : U8) : Bool := op == taopLdstLoadResp || op == taopLdstStoreAck

def stamp (tassn : U16) (m : Flit) : Flit :=
  UbMeta.valid.set true (nthNlp.set nthNlpTpbypass (iniTassn.set tassn m))

theorem nthNlp_stamp (tassn : U16) (m : Flit) : nthNlp.get (stamp tassn m) = nthNlpTpbypass := by
  rw [stamp, Field.get_set_disjoint (by decide), Field.get_set_same]
  decide

theorem taOpcode_stamp (tassn : U16) (m : Flit) :
    taOpcode.get (stamp tassn m) = taOpcode.get m := by
  rw [stamp, Field.get_set_disjoint (by decide), Field.get_set_disjoint (by decide),
    Field.get_set_disjoint (by decide)]

def forward (s : State) (f : Flit) : State × Flit :=
  if f.sop then
    let op := taOpcode.get f
    if isRequest op then
      let tassn := s.nextTassn
      ({ outstanding := Function.update s.outstanding (idx tassn) ⟨true, op⟩
         nextTassn := tassn + 1
         pendingExt := true }, stamp tassn f)
    else (s, f)
  else if s.pendingExt then ({ s with pendingExt := false }, f)
  else (s, f)

def complete (s : State) (f : Flit) : State :=
  if f.sop && isReply (taOpcode.get f) then
    let i := idx (iniTassn.get f)
    if (s.outstanding i).valid then
      { s with
        outstanding := Function.update s.outstanding i { s.outstanding i with valid := false } }
    else s
  else s

def step : Mealy State Input (Ports Flit) := fun s input =>
  let (s₁, out) := match input.host with
    | none => (s, silent)
    | some f => ((forward s f).1, emit 1 (forward s f).2)
  match input.reply with
  | none => (s₁, out)
  | some f => (complete s₁ f, put 2 f out)

/-- What leaves of the flits of the host, if the next request gets the given number. -/
def forwarded : U16 → List Flit → List Flit
  | _, [] => []
  | tassn, f :: flits =>
    if f.sop && isRequest (taOpcode.get f) then stamp tassn f :: forwarded (tassn + 1) flits
    else f :: forwarded tassn flits

theorem nextTassn_complete (s : State) (f : Flit) : (complete s f).nextTassn = s.nextTassn := by
  unfold complete
  split
  · dsimp only
    split <;> rfl
  · rfl

theorem step_host (s : State) (input : Input) :
    (step s input).2 1 = input.host.map (fun f => (forward s f).2) ∧ (step s input).1.nextTassn =
        (input.host.map fun f => (forward s f).1.nextTassn).getD s.nextTassn := by
  unfold step
  cases input.host <;> cases input.reply <;> simp [nextTassn_complete]

theorem forwarded_cons (s : State) (f : Flit) (flits : List Flit) :
    forwarded s.nextTassn (f :: flits) =
      (forward s f).2 :: forwarded (forward s f).1.nextTassn flits := by
  rw [forwarded, forward]
  dsimp only
  cases f.sop with
  | false => cases s.pendingExt <;> rfl
  | true => cases isRequest (taOpcode.get f) <;> rfl

/-- The requests of a run leave in their order, whatever comes from the wire in between. -/
theorem sent_host (s : State) (inputs : List Input) :
    Ports.sent 1 (step.trace s inputs) = forwarded s.nextTassn (inputs.filterMap Input.host) := by
  induction inputs generalizing s with
  | nil => rfl
  | cons input inputs ih =>
    obtain ⟨out, next⟩ := step_host s input
    rw [Mealy.trace_cons, Ports.sent_cons, ih, out, next]
    cases host : input.host with
    | none =>
      rw [List.filterMap_cons_none host]
      rfl
    | some f =>
      rw [List.filterMap_cons_some host, forwarded_cons]
      rfl

theorem unlisted {op : U8} (known : (isRequest op || isReply op) = true) :
    isResp op = false ∧ needsMae op = false ∧ isSend op = false ∧ isAtomic op = false ∧
      isWriteClass op = false := by
  revert op
  decide +kernel

end LoadStoreEngine

structure Blank (g : Flit) : Prop where
  address : address g = 0
  tokenId : tokenId g = 0
  tokenValue : tokenValue g = 0
  length : UbExt.length g = 0
  opData : opData g = 0

theorem blank_zeros : Blank { eop := true } := ⟨rfl, rfl, rfl, rfl, rfl⟩

theorem blank_mtetah (e : Flit) (sop eop : Bool) :
    Blank (((Write.apply [mtHintField.write (mtHint e), mtTcTypeField.write (mtTcType e),
      mtTcIdField.write (mtTcId e)] {}).setSop sop).setEop eop) := by
  let g := ((Write.apply [mtHintField.write (mtHint e), mtTcTypeField.write (mtTcType e),
    mtTcIdField.write (mtTcId e)] {}).setSop sop).setEop eop
  have unset : ∀ {n : Nat} (field : Field (BitVec n)),
      (∀ slot ∈ [mtHintField.toSlot, mtTcTypeField.toSlot, mtTcIdField.toSlot],
        slot.Disjoint field.toSlot) → field.get g = field.get {} := by
    intro n field other
    rw [Field.get_setEop, Field.get_setSop]
    have slots : [mtHintField.write (mtHint e), mtTcTypeField.write (mtTcType e),
        mtTcIdField.write (mtTcId e)].map Write.slot =
          [mtHintField.toSlot, mtTcTypeField.toSlot, mtTcIdField.toSlot] := rfl
    exact Write.field_get_apply_other slots other {}
  constructor
  · exact (address_eq g).trans (unset _ (by decide))
  · exact (tokenId_eq g).trans (unset _ (by decide))
  · exact (tokenValue_eq g).trans (unset _ (by decide))
  · exact (length_eq g).trans (unset _ (by decide))
  · exact (opData_eq g).trans (unset _ (by decide))

namespace EthDecap

open EthEncap (headerBytes extBytes)

variable {d : State} {m e : Flit} (contents : d.contents = padded (EthEncap.encode m [e]))
variable (request : LoadStoreEngine.isRequest (taOpcode.get m) = true)
include contents request

theorem emission_bare (bare : mtEn.get m = false) :
    emission (parse d) = [metaFlit (parse d), { eop := true }] := by
  obtain ⟨resp, mae, send, atomic, _⟩ := LoadStoreEngine.unlisted (by rw [request]; rfl)
  obtain ⟨header, _, padding, count⟩ := holds_unpadded contents
  have none : (extBytes m e).length = 0 := by
    rw [EthEncap.length_extBytes, mae, send, atomic, bare]
    rfl
  rw [none] at padding count
  have btah := parseBtah_frame header resp
  have mt : ((Btah.ofMeta m).mten || isSend (Btah.ofMeta m).taop) = false := by
    change (mtEn.get m || isSend (taOpcode.get m)) = false
    rw [bare, send]
    rfl
  obtain ⟨needs, start, total, present⟩ := parse_bare btah mae mt (by omega)
  have zeros : d.hdrbuf.slice 58 (d.hdrbytes - 58) = List.replicate (d.hdrbytes - 58) 0 :=
    Buffer.slice_of_holds_zeros padding (by omega)
  have blank : chunks false (List.replicate (d.hdrbytes - 58) 0) = [{ eop := true }] := by
    rw [chunks_short (by simp; omega), Flit.ofData_zeros]
    rfl
  rw [emission, needs, present, start, total, ← blank, ← zeros]
  rfl

theorem emission_flagged (flagged : mtEn.get m = true) :
    ∃ rest, emission (parse d) = metaFlit (parse d) :: extFlit (parse d) :: rest ∧
      Blank (extFlit (parse d)) := by
  obtain ⟨resp, mae, send, atomic, _⟩ := LoadStoreEngine.unlisted (by rw [request]; rfl)
  obtain ⟨header, ext, _, _⟩ := holds_unpadded contents
  have needs : (parse d).needsExt = true := by
    rw [needsExt_frame header resp, carriesExt, flagged]
    simp
  have writes : extWrites m e = [mtHintField.write (mtHint e),
      mtTcTypeField.write (mtTcType e), mtTcIdField.write (mtTcId e)] := by
    simp [extWrites, mae, atomic, flagged]
  have fields : extFlit (parse d) =
      ((Write.apply (extWrites m e) {}).setSop false).setEop (!(parse d).hasPayload) := by
    rw [extFlit, cachedExt_frame header resp ext]
  have blank : Blank (extFlit (parse d)) := by
    rw [fields, writes]
    exact blank_mtetah e _ _
  rw [emission, needs]
  exact ⟨_, rfl, blank⟩

theorem emission_request_blank :
    ∃ g rest, emission (parse d) = metaFlit (parse d) :: g :: rest ∧ Blank g := by
  cases flagged : mtEn.get m with
  | false => exact ⟨_, _, emission_bare contents request flagged, blank_zeros⟩
  | true =>
    obtain ⟨rest, emitted, blank⟩ := emission_flagged contents request flagged
    exact ⟨_, rest, emitted, blank⟩

end EthDecap

/-- The elements between the engine and the wire. -/
def outbound (n : NthBuild.State) (flits : List Flit) : List Flit :=
  Ports.sent 1 ((NthBuild.step n).trace () (Ports.sent 1 (BtahBuild.step.trace () flits)))

/-- The elements between the wire and the engine's reply port. -/
def inbound (goUtp isResp : Bool) (decoded : List Flit) : List Flit :=
  Ports.sent 2 (BtahParse.step.trace isResp (Ports.sent 1 (NthParse.step.trace goUtp decoded)))

/-- The request that the host gives to the engine among `inputs` arrives behind the metadata flit
that the decoder at the target emits. -/
def RequestArrives (p : Packet) (e : Flit) (inputs : List LoadStoreEngine.Input)
    (l : LoadStoreEngine.State) (n : NthBuild.State) (s : EthEncap.State)
    (d : EthDecap.State) : Prop :=
  ∃ wire s' decoded d' g,
    EthEncap.handler.Produces s
      (outbound n (Ports.sent 1 (LoadStoreEngine.step.trace l inputs))) s' wire ∧
    EthDecap.handler.Produces d wire d' decoded ∧
    decoded[1]? = some g ∧ address g = address e ∧
    tokenId g = tokenId e ∧ tokenValue g = tokenValue e ∧
    UbExt.length g = UbExt.length e ∧
    (taOpcode.get p.head = taopLdstStore → opData g = opData e)

def ReplyDelivered (p : Packet) (s : EthEncap.State) (d : EthDecap.State) (goUtp isResp : Bool)
    (l : LoadStoreEngine.State) : Prop :=
  ∃ wire s' decoded d' m rest,
    EthEncap.handler.Produces s p.flits s' wire ∧
    EthDecap.handler.Produces d wire d' decoded ∧
    Ports.sent 2 (LoadStoreEngine.step.trace l
      ((inbound goUtp isResp decoded).map fun f => { reply := some f })) = m :: rest ∧
    taOpcode.get m = taOpcode.get p.head ∧
    iniTassn.get m = iniTassn.get p.head ∧
    ∀ e ∈ p.rest.head?, ∃ g ∈ rest.head?, opData g = opData e

/-- The packet that the elements before the encoder make of a request. -/
def outboundPacket (n : NthBuild.State) (tassn : U16) (p : Packet) : Packet :=
  (NthBuild.stamp n).packet (BtahBuild.stamp.packet
    (p.withHead (LoadStoreEngine.stamp tassn p.head) (by simp [LoadStoreEngine.stamp])
      (by simp [LoadStoreEngine.stamp])))

variable {inputs : List LoadStoreEngine.Input}

theorem outbound_request (n : NthBuild.State) (l : LoadStoreEngine.State) (p : Packet) {e : Flit}
    (shape : p.rest = [e]) (request : LoadStoreEngine.isRequest (taOpcode.get p.head) = true)
    (given : inputs.filterMap LoadStoreEngine.Input.host = p.flits) :
    outbound n (Ports.sent 1 (LoadStoreEngine.step.trace l inputs)) =
      (outboundPacket n l.nextTassn p).flits := by
  have inner : e.sop = false := p.sop_rest e (by simp [shape])
  have stamped : Ports.sent 1 (LoadStoreEngine.step.trace l inputs) =
      (p.withHead (LoadStoreEngine.stamp l.nextTassn p.head) (by simp [LoadStoreEngine.stamp])
        (by simp [LoadStoreEngine.stamp])).flits := by
    rw [LoadStoreEngine.sent_host, given, Packet.flits, Packet.flits, shape]
    simp [LoadStoreEngine.forwarded, p.sop_head, request, inner, Packet.withHead, shape]
  rw [outbound, stamped, BtahBuild.step, Stamp.trace_packet, sent_map_emit, NthBuild.step,
    Stamp.trace_packet, sent_map_emit]
  rfl

theorem taOpcode_outboundPacket (n : NthBuild.State) (tassn : U16) (p : Packet) :
    taOpcode.get (outboundPacket n tassn p).head = taOpcode.get p.head := by
  let m := LoadStoreEngine.stamp tassn p.head
  have nlp : nthNlp.get (BtahBuild.build m) = nthNlpTpbypass := by
    rw [BtahBuild.get_build (by decide)]
    exact LoadStoreEngine.nthNlp_stamp tassn p.head
  have known : nthNlp.get (BtahBuild.build m) ≠ 0 := by
    rw [nlp]
    decide
  calc
    taOpcode.get (NthBuild.build n (BtahBuild.build m)) =
        taOpcode.get (BtahBuild.build m) := NthBuild.get_build known (by decide) n
    _ = taOpcode.get m := BtahBuild.get_build (by decide) m
    _ = taOpcode.get p.head := LoadStoreEngine.taOpcode_stamp tassn p.head

theorem requestArrives_iff (n : NthBuild.State) (l : LoadStoreEngine.State) (p : Packet) {e : Flit}
    (shape : p.rest = [e]) (request : LoadStoreEngine.isRequest (taOpcode.get p.head) = true)
    (given : inputs.filterMap LoadStoreEngine.Input.host = p.flits) {s : EthEncap.State}
    (encap : EthEncap.Idle s) {d : EthDecap.State} (decap : EthDecap.Idle d) :
    RequestArrives p e inputs l n s d ↔
      address e = 0 ∧ tokenId e = 0 ∧ tokenValue e = 0 ∧ UbExt.length e = 0 ∧
        (taOpcode.get p.head = taopLdstStore → opData e = 0) := by
  let q := outboundPacket n l.nextTassn p
  have opcode : taOpcode.get q.head = taOpcode.get p.head :=
    taOpcode_outboundPacket n l.nextTassn p
  have request' : LoadStoreEngine.isRequest (taOpcode.get q.head) = true := by
    rw [opcode]
    exact request
  have finishes : EthEncap.Finishes q := by
    intro _ _ write
    rw [(LoadStoreEngine.unlisted (by rw [request']; rfl)).2.2.2.2] at write
    cases write
  obtain ⟨wire, s', d₁, d', sent, _, received, _, contents⟩ :=
      codec_delivers q finishes encap.1 decap.1
  have rest : q.rest = [e] := shape
  rw [rest] at contents
  obtain ⟨g, tail, emitted, blank⟩ := EthDecap.emission_request_blank contents request'
  rw [emitted] at received
  rw [← outbound_request n l p shape request given] at sent
  constructor
  · rintro ⟨wire', s'', decoded, d'', g', sent', received', second, fields⟩
    obtain ⟨_, rfl⟩ := sent.unique sent'
    obtain ⟨_, rfl⟩ := received.unique received'
    cases second
    rw [blank.address, blank.tokenId, blank.tokenValue, blank.length, blank.opData] at fields
    simpa only [eq_comm] using fields
  · intro fields
    refine ⟨wire, s', _, d', g, sent, received, rfl, ?_⟩
    rw [blank.address, blank.tokenId, blank.tokenValue, blank.length, blank.opData]
    simpa only [eq_comm] using fields

theorem not_replyDelivered (p : Packet)
    (reply : LoadStoreEngine.isReply (taOpcode.get p.head) = true)
    {s : EthEncap.State} (encap : EthEncap.Idle s) {d : EthDecap.State} (decap : EthDecap.Idle d)
    (goUtp isResp : Bool) (l : LoadStoreEngine.State) : ¬ReplyDelivered p s d goUtp isResp l := by
  obtain ⟨request, _, _, _, notWrite⟩ := LoadStoreEngine.unlisted (by rw [reply, Bool.or_true])
  have finishes : EthEncap.Finishes p := by
    intro _ _ write
    rw [notWrite] at write
    cases write
  obtain ⟨wire, s', d', q, sent, _, received, _, head⟩ := codec_arrival p finishes encap decap
  rintro ⟨wire', s'', decoded, d'', m, rest, sent', received', delivered, _⟩
  obtain ⟨_, rfl⟩ := sent.unique sent'
  obtain ⟨_, rfl⟩ := received.unique received'
  have unresponsive : BtahParse.isResp q.head = false := by
    rw [BtahParse.isResp, head, EthDecap.isResponse_arrival, request]
  have nothing : inbound goUtp isResp q.flits = [] := by
    rw [inbound, NthParse.step, sent_route_first]
    split
    · rfl
    · rw [BtahParse.step, sent_route_second, unresponsive]
      rfl
  rw [nothing] at delivered
  cases delivered

/-- In the load/store topology a request arrives exactly if it has nothing to carry, and no reply
is delivered. -/
theorem loadStore_over_wire {s : EthEncap.State} (encap : EthEncap.Idle s) {d : EthDecap.State}
    (decap : EthDecap.Idle d) (l : LoadStoreEngine.State) :
    (∀ (n : NthBuild.State) (p : Packet) (e : Flit) (inputs : List LoadStoreEngine.Input),
      p.rest = [e] → LoadStoreEngine.isRequest (taOpcode.get p.head) = true →
      inputs.filterMap LoadStoreEngine.Input.host = p.flits → (RequestArrives p e inputs l n s d ↔
        address e = 0 ∧ tokenId e = 0 ∧ tokenValue e = 0 ∧ UbExt.length e = 0 ∧
          (taOpcode.get p.head = taopLdstStore → opData e = 0))) ∧
    ∀ (p : Packet) (goUtp isResp : Bool), LoadStoreEngine.isReply (taOpcode.get p.head) = true →
      ¬ReplyDelivered p s d goUtp isResp l := by
  constructor
  · intro n p e inputs shape request given
    exact requestArrives_iff n l p shape request given encap decap
  · intro p goUtp isResp reply
    exact not_replyDelivered p reply encap decap goUtp isResp l

def sampleLoad : Packet where
  head := { lane0 := 1 <<< 63, lane3 := 0x40, sop := true }
  rest := [{ lane0 := 0x1000, lane1 := 0x800000005, eop := true }]
  sop_head := rfl
  sop_rest := by decide
  eop_last := by decide

theorem sop_loaded : ∀ f ∈ [({ lane3 := 17, eop := true } : Flit)], f.sop = false := by decide

def sampleLoadResp : Packet where
  head := { lane0 := 1 <<< 63, lane3 := 0x42, sop := true }
  rest := [{ lane3 := 17, eop := true }]
  sop_head := rfl
  sop_rest := sop_loaded
  eop_last := by decide

def sampleInputs : List LoadStoreEngine.Input := sampleLoad.flits.map fun f => { host := some f }

/-- Neither the load nor its reply arrives. -/
theorem loadStore_over_wire_sampleLoad :
    ¬RequestArrives sampleLoad { lane0 := 0x1000, lane1 := 0x800000005, eop := true } sampleInputs
        LoadStoreEngine.init ⟨0, 0, nthNlpRtph⟩ (EthEncap.init fun _ => 0)
        (EthDecap.init fun _ => 0) ∧
      ¬ReplyDelivered sampleLoadResp (EthEncap.init fun _ => 0) (EthDecap.init fun _ => 0) false
        false LoadStoreEngine.init := by
  have wire := loadStore_over_wire (s := EthEncap.init fun _ => 0) ⟨rfl, rfl⟩
    (d := EthDecap.init fun _ => 0) ⟨rfl, rfl, rfl, rfl⟩ LoadStoreEngine.init
  constructor
  · rw [wire.1 _ _ _ _ rfl (by decide) rfl]
    decide
  · exact wire.2 _ _ _ (by decide)

theorem sampleLoad_lost :
    ¬RequestArrives sampleLoad { lane0 := 0x1000, lane1 := 0x800000005, eop := true } sampleInputs
        LoadStoreEngine.init ⟨0, 0, nthNlpRtph⟩ (EthEncap.init fun _ => 0)
        (EthDecap.init fun _ => 0) ∧
      ¬ReplyDelivered sampleLoadResp (EthEncap.init fun _ => 0) (EthDecap.init fun _ => 0) false
        false LoadStoreEngine.init := by
  constructor
  · rw [requestArrives_iff _ _ _ rfl (by decide) rfl ⟨rfl, rfl⟩ ⟨rfl, rfl, rfl, rfl⟩]
    decide
  · exact not_replyDelivered _ (by decide) ⟨rfl, rfl⟩ ⟨rfl, rfl, rfl, rfl⟩ _ _ _

end OpenURMA
