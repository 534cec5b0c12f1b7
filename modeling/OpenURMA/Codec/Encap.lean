import OpenURMA.Opcode
import OpenURMA.Codec.Chunks

/-!
# `UB_Eth_Encap`

The encoder collects one packet (metadata flit, extension flit, payload flits) in a
384-byte wire buffer and then drains the buffer in 32-byte flits.  `handler` follows
the element; `encode` is the frame it builds, and `delivers_packet` says that the state
machine emits exactly that frame.
-/

namespace OpenURMA.EthEncap

open Library UbMeta UbExt List

/-- `WIRE_MAX`. -/
def wireMax : Nat := 384

/-- `emit_mode`: 0 builds headers, 1 collects payload, 2 drains the buffer. -/
inductive Mode where
  | build
  | payload
  | drain
  deriving DecidableEq

structure State where
  wire : Buffer
  wireLen : Nat
  emitOffset : Nat
  emitMode : Mode
  inPacket : Bool
  taopCache : U8
  needsMae : Bool
  needsMt : Bool
  tvEnCache : Bool

def init (wire : Buffer) : State where
  wire
  wireLen := 0
  emitOffset := 0
  emitMode := .build
  inPacket := false
  taopCache := 0
  needsMae := false
  needsMt := false
  tvEnCache := false

def flagByte (b : Bool) (v : Byte) : Byte := if b then v else 0

/-- Broadcast destination, zero source, UB Ethertype. -/
def ethBytes : List Byte :=
  List.replicate 6 0xFF ++ List.replicate 6 0x00 ++
    [octet 8 ubEthertype, octet 0 ubEthertype]

section

variable (m : Flit)

/-- The network header. -/
def nthBytes : List Byte :=
  let scna := UbMeta.scna.get m
  let dcna := UbMeta.dcna.get m
  [0x00, octet 16 scna, octet 8 scna, octet 0 scna,
    octet 16 dcna, octet 8 dcna, octet 0 dcna, 0x00, 0x00, lbf.get m,
    ((UbMeta.sl.get m &&& 0xF) <<< 4) ||| (nthNlp.get m &&& 0x7), 0x00]

/-- An RTPH behind its first two bytes. -/
def rtphTail : List Byte :=
  let s := srcTpn.get m
  let d := dstTpn.get m
  let psn := UbMeta.psn.get m
  let tpmsn := UbMeta.tpmsn.get m
  [octet 16 s, octet 8 s, octet 0 s, octet 16 d, octet 8 d, octet 0 d,
    flagByte (aFlag.get m) 0x80 ||| flagByte (fFlag.get m) 0x40,
    octet 16 psn, octet 8 psn, octet 0 psn,
    ((rspst.get m &&& 0x7) <<< 5) ||| (rspinfo.get m &&& 0x1F),
    octet 16 tpmsn, octet 8 tpmsn, octet 0 tpmsn]

/-- The transport header; a UTPH is zero behind its first two bytes. -/
def tphBytes : List Byte :=
  [tpOpcode.get m, ((tpVer.get m &&& 0x3) <<< 6) ||| ((padding.get m &&& 0x3) <<< 4) |||
      (rtphNlp.get m &&& 0xF)] ++
    (if nthNlp.get m == nthNlpUtph then List.replicate 14 0 else rtphTail m)

/-- Bytes 4 and 5 of the BTAH (requests) or ATAH (responses). -/
def btahFlags : List Byte :=
  if isResp (taOpcode.get m) then
    [((rspst.get m &&& 0x7) <<< 5) ||| (rspinfo.get m &&& 0x1F),
      ((iniRcType.get m &&& 0x3) <<< 5) ||| (svcMode.get m &&& 0x3)]
  else
    [((odr.get m &&& 0x7) <<< 4) ||| flagByte (mtEn.get m) 0x08 |||
        flagByte (fce.get m) 0x04 ||| flagByte (retry.get m) 0x02 |||
        flagByte (alloc.get m) 0x01,
      flagByte (eBit.get m) 0x80 ||| ((iniRcType.get m &&& 0x3) <<< 5) |||
        (svcMode.get m &&& 0x3)]

/-- The base transaction header. -/
def btahBytes : List Byte :=
  let ts := iniTassn.get m
  let rcid := iniRcId.get m
  [taOpcode.get m, ((taVer.get m &&& 0x3) <<< 6) ||| ((eeBits.get m &&& 0x3) <<< 4) |||
      flagByte (tvEn.get m) 0x08 ||| flagByte (poison.get m) 0x04 |||
      flagByte (targetHint.get m) 0x02 ||| flagByte (udFlag.get m) 0x01,
    octet 8 ts, octet 0 ts] ++ btahFlags m ++
    [0, 0, octet 16 rcid, octet 8 rcid, octet 0 rcid] ++ List.replicate 5 0

/-- The 58 fixed bytes of a frame. -/
def headerBytes : List Byte :=
  ethBytes ++ nthBytes m ++ tphBytes m ++ btahBytes m

end

def maetahBytes (e : Flit) : List Byte :=
  let tid := tokenId e
  let len := UbExt.length e
  ((List.range 8).map fun i => octet (56 - i * 8) (address e)) ++
    [0, octet 16 tid, octet 8 tid, octet 0 tid,
      octet 24 len, octet 16 len, octet 8 len, octet 0 len]

def tvetahBytes (e : Flit) : List Byte :=
  let tv := tokenValue e
  [octet 24 tv, octet 16 tv, octet 8 tv, octet 0 tv]

def mtetahBytes (e : Flit) : List Byte :=
  let tcid := mtTcId e
  [mtHint e, ((mtTcType e &&& 0x3) <<< 6) ||| (octet 16 tcid &&& 0xF), octet 8 tcid, octet 0 tcid]

def opDataBytes (e : Flit) : List Byte :=
  (List.range 8).map fun i => octet (56 - i * 8) (opData e)

section

variable (s : State)

def State.append (octets : List Byte) : State :=
  { s with wire := s.wire.blit s.wireLen octets, wireLen := s.wireLen + octets.length }

def State.appendIf (present : Bool) (octets : List Byte) : State :=
  if present then s.append octets else s

/-- A metadata flit starts a frame. -/
def buildHeaders (f : Flit) : State :=
  let taop := taOpcode.get f
  { s with
    wire := s.wire.blit 0 (headerBytes f)
    wireLen := 58
    inPacket := true
    taopCache := taop
    tvEnCache := tvEn.get f
    needsMae := OpenURMA.needsMae taop
    needsMt := mtEn.get f || isSend taop
    -- a packet without further flits is emitted right away
    emitMode := if f.eop then .drain else .build
    emitOffset := if f.eop then 0 else s.emitOffset }

/-- The extension headers that the opcode calls for. -/
def appendExtension (f : Flit) : State :=
  let s₁ := s.appendIf s.needsMae (maetahBytes f)
  let s₂ := s₁.appendIf (s.needsMae && s.tvEnCache) (tvetahBytes f)
  let s₃ := s₂.appendIf s.needsMt (mtetahBytes f)
  s₃.appendIf (isAtomic s.taopCache) (opDataBytes f)

/-- A Write or Send of more than 8 bytes, or a flit that is not the last, asks for payload. -/
def wantsPayload (f : Flit) : Bool :=
  let lengthField : U32 := if s.needsMae then UbExt.length f else 0
  let isWrite := isWriteClass s.taopCache || isSend s.taopCache
  (isWrite && 8 < lengthField) || !f.eop

def buildExtension (f : Flit) : State :=
  if wantsPayload s f then
    { appendExtension s f with emitMode := .payload }
  else
    { appendExtension s f with emitMode := .drain, emitOffset := 0 }

/-- A payload flit, cut off at `WIRE_MAX`. -/
def collectPayload (f : Flit) : State :=
  let copy := if s.wireLen + 32 > wireMax then wireMax - s.wireLen else 32
  let s₁ : State :=
    { s with
      wire := s.wire.blit s.wireLen ((f.getData 32).take copy)
      wireLen := s.wireLen + copy }
  if f.eop then { s₁ with emitMode := .drain, emitOffset := 0 } else s₁

/-- The next 32 bytes of the frame, or what is left. -/
def drainFlit : Flit :=
  let off := s.emitOffset
  let take := if s.wireLen - off > 32 then 32 else s.wireLen - off
  ((Flit.ofData (s.wire.slice off take)).setSop (off == 0)).setEop
    (decide (off + take ≥ s.wireLen))

/-- The state after `drainFlit`. -/
def drainNext : State :=
  let off := s.emitOffset
  let take := if s.wireLen - off > 32 then 32 else s.wireLen - off
  if off + take ≥ s.wireLen then
    { s with emitMode := .build, emitOffset := 0, wireLen := 0, inPacket := false }
  else
    { s with emitOffset := off + take }

end

/-- One call; a frame that is being drained blocks the input. -/
def handler : Handler State Flit Flit := fun s offered =>
  match s.emitMode, offered with
  | .drain, _ => ⟨drainNext s, false, some (drainFlit s)⟩
  | _, none => ⟨s, false, none⟩
  | .payload, some f => ⟨collectPayload s f, true, none⟩
  | .build, some f =>
    if f.sop then ⟨buildHeaders s f, true, none⟩
    else if s.inPacket then ⟨buildExtension s f, true, none⟩
    else ⟨s, true, none⟩

section

variable (s : State)

/-- Between packets. -/
def Idle : Prop := s.emitMode = .build ∧ s.inPacket = false

/-- The extension headers of a packet with metadata `m` and extension flit `e`. -/
def extBytes (m e : Flit) : List Byte :=
  let taop := taOpcode.get m
  (if needsMae taop then maetahBytes e else []) ++
    (if needsMae taop && tvEn.get m then tvetahBytes e else []) ++
    (if mtEn.get m || isSend taop then mtetahBytes e else []) ++
    (if isAtomic taop then opDataBytes e else [])

/-- The frame of the packet `m :: rest`, at most `WIRE_MAX` bytes. -/
def encode (m : Flit) : List Flit → List Byte
  | [] => headerBytes m
  | e :: payload =>
    (headerBytes m ++ extBytes m e ++ payload.flatMap (·.getData 32)).take wireMax

/-- The encoder can finish the packet: payload follows where the length field of a
Write announces it. -/
def Finishes (p : Packet) : Prop :=
  ∀ e, p.rest = [e] → isWriteClass (taOpcode.get p.head) = true →
    UbExt.length e ≤ 8

/-- The bytes of the frame built so far. -/
def State.contents : List Byte := s.wire.slice 0 s.wireLen

@[simp] theorem contents_length : s.contents.length = s.wireLen := by
  simp [State.contents]

theorem contents_append (octets : List Byte) :
    (s.append octets).contents = s.contents ++ octets := by
  simp only [State.contents, State.append, Buffer.slice_blit_append]

theorem contents_appendIf (present : Bool) (octets : List Byte) :
    (s.appendIf present octets).contents = s.contents ++ if present then octets else [] := by
  cases present with
  | true => exact contents_append s octets
  | false => simp [State.appendIf]

theorem tphBytes_length (m : Flit) : (tphBytes m).length = 16 := by
  unfold tphBytes
  split <;> rfl

theorem btahBytes_length (m : Flit) : (btahBytes m).length = 16 := by
  unfold btahBytes btahFlags
  split <;> rfl

theorem headerBytes_length (m : Flit) : (headerBytes m).length = 58 := by
  simp [headerBytes, ethBytes, nthBytes, tphBytes_length, btahBytes_length]

theorem maetahBytes_length (e : Flit) : (maetahBytes e).length = 16 := by simp [maetahBytes]

theorem tvetahBytes_length (e : Flit) : (tvetahBytes e).length = 4 := rfl

theorem mtetahBytes_length (e : Flit) : (mtetahBytes e).length = 4 := rfl

theorem opDataBytes_length (e : Flit) : (opDataBytes e).length = 8 := by simp [opDataBytes]

theorem length_extBytes (m e : Flit) :
    (extBytes m e).length = (if needsMae (taOpcode.get m) then 16 else 0) +
        (if needsMae (taOpcode.get m) && tvEn.get m then 4 else 0) +
        (if mtEn.get m || isSend (taOpcode.get m) then 4 else 0) +
        (if isAtomic (taOpcode.get m) then 8 else 0) := by
  simp only [extBytes, length_append, apply_ite List.length, maetahBytes_length,
    tvetahBytes_length, mtetahBytes_length, opDataBytes_length, length_nil]

theorem extBytes_length_le (m e : Flit) : (extBytes m e).length ≤ 32 := by
  rw [length_extBytes]
  split <;> split <;> split <;> split <;> omega

theorem contents_buildHeaders (f : Flit) : (buildHeaders s f).contents = headerBytes f := by
  have fill := Buffer.slice_blit s.wire 0 (headerBytes f)
  rw [headerBytes_length] at fill
  exact fill

end

variable {s : State}

theorem waits_of_not_drain (notDraining : s.emitMode ≠ .drain) : handler.Waits s := by
  unfold Handler.Waits handler
  cases mode : s.emitMode with
  | drain => exact (notDraining mode).elim
  | build | payload => rfl

def drained (s : State) : State :=
  { s with emitMode := .build, emitOffset := 0, wireLen := 0, inPacket := false }

theorem idle_drained (s : State) : Idle (drained s) := ⟨rfl, rfl⟩

theorem handler_drain (draining : s.emitMode = .drain) (offered : Option Flit) :
    handler s offered = ⟨drainNext s, false, some (drainFlit s)⟩ := by
  simp only [handler, draining]

theorem delivers_drain {t : State} {queue outs : List Flit} (draining : s.emitMode = .drain)
    (start : s.emitOffset = 0) (rest : handler.Delivers (drained s) queue t outs) :
    handler.Delivers s queue t (chunks true s.contents ++ outs) := by
  have drains : Drains handler s.wire s.wireLen (· == 0)
      (fun off => { s with emitOffset := off }) (drained s) := by
    refine ⟨fun _ => rfl, fun off more offered => ?_, fun off inside last offered => ?_⟩
    · have next : drainNext { s with emitOffset := off } =
          { s with emitOffset := off + 32 } := by
        simp only [drainNext, if_pos (show s.wireLen - off > 32 by omega)]
        rw [if_neg (by omega)]
      rw [handler_drain (s := { s with emitOffset := off }) draining, next]
      rfl
    · have next : drainNext { s with emitOffset := off } = drained s := by
        simp only [drainNext, if_neg (show ¬ s.wireLen - off > 32 by omega)]
        rw [if_pos (by omega)]
        rfl
      rw [handler_drain (s := { s with emitOffset := off }) draining, next]
      rfl
  have emitted := drains.delivers rest 0 (by omega)
  have same : { s with emitOffset := 0 } = s := by rw [← start]
  rw [same] at emitted
  exact emitted

theorem contents_collectPayload (bound : s.wireLen ≤ wireMax) (f : Flit) :
    (collectPayload s f).contents = (s.contents ++ f.getData 32).take wireMax := by
  have appended := slice_blit_flit s.wire f bound rfl
  unfold collectPayload
  cases f.eop <;> exact appended

theorem absorbs_payload (payload : List Flit) :
    ∀ s : State, s.emitMode = .payload → s.wireLen ≤ wireMax → EopLast payload →
      ∃ t, handler.Absorbs s payload t ∧ t.emitMode = .drain ∧ t.emitOffset = 0 ∧
        t.contents = (s.contents ++ payload.flatMap (·.getData 32)).take wireMax := by
  induction payload with
  | nil => intro s _ _ framed; exact framed.elim
  | cons f payload ih =>
    intro s collecting bound framed
    have waits : handler.Waits s := waits_of_not_drain (by simp [collecting])
    have reads : handler s (some f) = ⟨collectPayload s f, true, none⟩ := by
      simp only [handler, collecting]
    have contentsEq := contents_collectPayload bound f
    cases payload with
    | nil =>
      have last : f.eop = true := framed
      refine ⟨collectPayload s f, .cons waits reads .nil, ?_, ?_, ?_⟩
      · simp [collectPayload, last]
      · simp [collectPayload, last]
      · simpa using contentsEq
    | cons g payload =>
      have more : f.eop = false := framed.1
      have bound' : (collectPayload s f).wireLen ≤ wireMax := by
        rw [← contents_length, contentsEq]
        simp
      have collecting' : (collectPayload s f).emitMode = .payload := by
        simp [collectPayload, more, collecting]
      obtain ⟨t, absorbs, draining, offset, contents⟩ :=
          ih (collectPayload s f) collecting' bound' framed.2
      refine ⟨t, .cons waits reads absorbs, draining, offset, ?_⟩
      rw [contents, contentsEq, Buffer.take_append_take, append_assoc]
      rfl

theorem contents_appendExtension {m : Flit} (e : Flit) (taop : s.taopCache = taOpcode.get m)
    (mae : s.needsMae = OpenURMA.needsMae (taOpcode.get m)) (tv : s.tvEnCache = tvEn.get m)
    (mt : s.needsMt = (mtEn.get m || isSend (taOpcode.get m))) :
    (appendExtension s e).contents = s.contents ++ extBytes m e := by
  simp only [appendExtension, contents_appendIf, extBytes, taop, mae, tv, mt, append_assoc]

theorem wantsPayload_of_more {f : Flit} (more : f.eop = false) : wantsPayload s f = true := by
  simp [wantsPayload, more]

theorem wantsPayload_of_last {f : Flit} (last : f.eop = true)
    (mae : s.needsMae = OpenURMA.needsMae s.taopCache)
    (inline : isWriteClass s.taopCache = true → UbExt.length f ≤ 8) :
    wantsPayload s f = false := by
  have sendHasNone : isSend s.taopCache = true → s.needsMae = false := by
    intro send
    rw [mae]
    simp only [isSend, Bool.or_eq_true, beq_iff_eq] at send
    rcases send with send | send <;> rw [send] <;> decide
  simp only [wantsPayload, last, Bool.not_true, Bool.or_false]
  cases write : isWriteClass s.taopCache with
  | true =>
    have short := inline write
    have bound : (if s.needsMae then UbExt.length f else 0) ≤ 8 := by
      split
      · exact short
      · decide
    simpa using bound
  | false =>
    cases send : isSend s.taopCache with
    | true => simp [sendHasNone send]
    | false => simp

section

variable (s : State) (m e : Flit)

theorem contents_extension :
    (appendExtension (buildHeaders s m) e).contents = headerBytes m ++ extBytes m e := by
  have appended : (appendExtension (buildHeaders s m) e).contents =
      (buildHeaders s m).contents ++ extBytes m e :=
    contents_appendExtension e rfl rfl rfl rfl
  rw [appended, contents_buildHeaders]

theorem headers_length_le : (headerBytes m ++ extBytes m e).length ≤ wireMax := by
  have bound := extBytes_length_le m e
  simp only [length_append, headerBytes_length, wireMax]
  omega

variable {s m e}

theorem absorbs_extension (idle : s.emitMode = .build) (first : m.sop = true)
    (more : m.eop = false) (inner : e.sop = false) {payload : List Flit} {t : State}
    (rest : handler.Absorbs (buildExtension (buildHeaders s m) e) payload t) :
    handler.Absorbs s (m :: e :: payload) t := by
  have reads : handler s (some m) = ⟨buildHeaders s m, true, none⟩ := by
    simp [handler, idle, first]
  have readsExt : handler (buildHeaders s m) (some e) =
      ⟨buildExtension (buildHeaders s m) e, true, none⟩ := by
    simp [handler, buildHeaders, more, inner]
  have waiting : (buildHeaders s m).emitMode ≠ .drain := by simp [buildHeaders, more]
  exact .cons (waits_of_not_drain (by simp [idle])) reads
    (.cons (waits_of_not_drain waiting) readsExt rest)

theorem buildExtension_last (last : e.eop = true)
    (inline : isWriteClass (taOpcode.get m) = true → UbExt.length e ≤ 8) :
    (buildExtension (buildHeaders s m) e).emitMode = .drain ∧
      (buildExtension (buildHeaders s m) e).emitOffset = 0 ∧
      (buildExtension (buildHeaders s m) e).contents = encode m [e] := by
  have drains : buildExtension (buildHeaders s m) e =
      { appendExtension (buildHeaders s m) e with emitMode := .drain, emitOffset := 0 } := by
    have none : wantsPayload (buildHeaders s m) e = false := wantsPayload_of_last last rfl inline
    rw [buildExtension, none]
    rfl
  rw [drains]
  refine ⟨rfl, rfl, (contents_extension s m e).trans ?_⟩
  rw [encode, flatMap_nil, append_nil, take_of_length_le (headers_length_le m e)]

theorem buildExtension_more (more : e.eop = false) :
    (buildExtension (buildHeaders s m) e).emitMode = .payload ∧
      (buildExtension (buildHeaders s m) e).wireLen ≤ wireMax ∧
      (buildExtension (buildHeaders s m) e).contents = headerBytes m ++ extBytes m e := by
  have collects : buildExtension (buildHeaders s m) e =
      { appendExtension (buildHeaders s m) e with emitMode := .payload } := by
    rw [buildExtension, wantsPayload_of_more more]
    rfl
  have contents := contents_extension s m e
  rw [collects]
  refine ⟨rfl, ?_, contents⟩
  calc (appendExtension (buildHeaders s m) e).wireLen
      = (appendExtension (buildHeaders s m) e).contents.length := (contents_length _).symm
    _ ≤ wireMax := by rw [contents]; exact headers_length_le m e

end

theorem absorbs_packet (idle : s.emitMode = .build) (p : Packet) (finishes : Finishes p) :
    ∃ t, handler.Absorbs s p.flits t ∧ t.emitMode = .drain ∧ t.emitOffset = 0 ∧
      t.contents = encode p.head p.rest := by
  have framed := p.eop_last
  rw [Packet.flits]
  cases shape : p.rest with
  | nil =>
    rw [shape] at framed
    have last : p.head.eop = true := framed
    have waits : handler.Waits s := waits_of_not_drain (by simp [idle])
    refine ⟨buildHeaders s p.head, .cons waits ?_ .nil, ?_, ?_, contents_buildHeaders s p.head⟩
    · simp [handler, idle, p.sop_head]
    · simp [buildHeaders, last]
    · simp [buildHeaders, last]
  | cons e payload =>
    rw [shape] at framed
    have inner : e.sop = false := p.sop_rest e (by simp [shape])
    cases payload with
    | nil =>
      obtain ⟨draining, offset, contents⟩ :=
          buildExtension_last (s := s) framed.2 (finishes e shape)
      exact ⟨_, absorbs_extension idle p.sop_head framed.1 inner .nil, draining, offset, contents⟩
    | cons f payload =>
      obtain ⟨collecting, room, collected⟩ := buildExtension_more (s := s) (m := p.head) framed.2.1
      obtain ⟨t, absorbs, draining, offset, contents⟩ :=
          absorbs_payload (f :: payload) _ collecting room framed.2.2
      refine ⟨t, absorbs_extension idle p.sop_head framed.1 inner absorbs, draining, offset, ?_⟩
      rw [contents, collected, encode]

/-- From an idle state the element turns a packet into the chunks of its frame and is idle again. -/
theorem delivers_packet (idle : s.emitMode = .build) (p : Packet) (finishes : Finishes p) :
    ∃ t, Idle t ∧ ∀ {u : State} {queue outs : List Flit}, handler.Delivers t queue u outs →
        handler.Delivers s (p.flits ++ queue) u (chunks true (encode p.head p.rest) ++ outs) := by
  obtain ⟨t, absorbs, draining, offset, contents⟩ := absorbs_packet idle p finishes
  refine ⟨drained t, idle_drained t, fun rest => absorbs.delivers ?_⟩
  rw [← contents]
  exact delivers_drain draining offset rest

end OpenURMA.EthEncap
