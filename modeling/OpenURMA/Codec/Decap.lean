import OpenURMA.Opcode
import OpenURMA.Codec.Chunks

/-!
# `UB_Eth_Decap`

The decoder collects a frame in a 384-byte buffer, parses it when its last flit has
arrived, and then emits one metadata flit, the extension flit if the opcode has one,
and the remaining bytes as payload flits.  `handler` follows the element; `emission`
is what it emits for a parsed frame.
-/

namespace OpenURMA.EthDecap

open Library UbMeta UbExt List

/-- The size of `hdrbuf`. -/
def wireMax : Nat := 384

/-- `phase`: 0 collects the frame, 1 to 3 emit metadata, extension and payload. -/
inductive Phase where
  | accumulate
  | emitMeta
  | emitExt
  | emitPayload
  deriving DecidableEq

structure State where
  hdrbuf : Buffer
  hdrbytes : Nat
  hdrEnd : Nat
  payloadOff : Nat
  payloadTotal : Nat
  inPacket : Bool
  phase : Phase
  needsExt : Bool
  hasPayload : Bool
  cachedMeta : Flit
  cachedExt : Flit
  sawEop : Bool

section

variable (hdrbuf : Buffer)

def init : State where
  hdrbuf
  hdrbytes := 0
  hdrEnd := 0
  payloadOff := 0
  payloadTotal := 0
  inPacket := false
  phase := .accumulate
  needsExt := false
  hasPayload := false
  cachedMeta := {}
  cachedExt := {}
  sawEop := false

structure Nth where
  scna : U32
  dcna : U32
  lbf : U8
  sl : U8
  nlp : U8

def parseNth (n : Buffer) : Nth where
  scna := be24 (n 1) (n 2) (n 3)
  dcna := be24 (n 4) (n 5) (n 6)
  lbf := n 9
  sl := (n 10 >>> 4) &&& 0xF
  nlp := n 10 &&& 0x7

structure Tph where
  tpop : U8
  tpver : U8
  pad : U8
  rtphNlp : U8
  srctpn : U32
  dsttpn : U32
  aflag : Bool
  fflag : Bool
  psn : U32
  rspst : U8
  rspinfo : U8
  tpmsn : U32

def parseTph (t : Buffer) : Tph where
  tpop := t 0
  tpver := (t 1 >>> 6) &&& 0x3
  pad := (t 1 >>> 4) &&& 0x3
  rtphNlp := t 1 &&& 0xF
  srctpn := be24 (t 2) (t 3) (t 4)
  dsttpn := be24 (t 5) (t 6) (t 7)
  aflag := t 8 &&& 0x80 != 0
  fflag := t 8 &&& 0x40 != 0
  psn := be24 (t 9) (t 10) (t 11)
  rspst := (t 12 >>> 5) &&& 0x7
  rspinfo := t 12 &&& 0x1F
  tpmsn := be24 (t 13) (t 14) (t 15)

structure Btah where
  taop : U8
  tav : U8
  ee : U8
  tven : Bool
  poison : Bool
  thint : Bool
  udflag : Bool
  tassn : U16
  odr : U8
  mten : Bool
  fce : Bool
  retry : Bool
  alloc : Bool
  ebit : Bool
  rctype : U8
  svcWire : U8
  rcid : U32

def parseBtah (b : Buffer) : Btah where
  taop := b 0
  tav := (b 1 >>> 6) &&& 0x3
  ee := (b 1 >>> 4) &&& 0x3
  tven := b 1 &&& 0x08 != 0
  poison := b 1 &&& 0x04 != 0
  thint := b 1 &&& 0x02 != 0
  udflag := b 1 &&& 0x01 != 0
  tassn := be16 (b 2) (b 3)
  odr := (b 4 >>> 4) &&& 0x7
  mten := b 4 &&& 0x08 != 0
  fce := b 4 &&& 0x04 != 0
  retry := b 4 &&& 0x02 != 0
  alloc := b 4 &&& 0x01 != 0
  ebit := b 5 &&& 0x80 != 0
  rctype := (b 5 >>> 5) &&& 0x3
  svcWire := b 5 &&& 0x3
  rcid := be24 (b 8) (b 9) (b 10) &&& 0xFFFFF

/-- The setter calls that fill the metadata flit, in order. -/
def metaWrites (n : Nth) (t : Tph) (b : Btah) : List Write :=
  [UbMeta.dcna.write n.dcna, UbMeta.scna.write n.scna, UbMeta.lbf.write n.lbf,
    UbMeta.sl.write n.sl, nthNlp.write n.nlp, valid.write true,
    tpOpcode.write t.tpop, tpVer.write t.tpver, padding.write t.pad, UbMeta.rtphNlp.write t.rtphNlp,
    srcTpn.write t.srctpn, dstTpn.write t.dsttpn,
    UbMeta.psn.write t.psn, UbMeta.tpmsn.write t.tpmsn, UbMeta.rspst.write t.rspst,
    UbMeta.rspinfo.write t.rspinfo, aFlag.write t.aflag, fFlag.write t.fflag,
    -- a UTPH frame carries no service mode of its own
    svcMode.write (if n.nlp == nthNlpUtph then svcUno else b.svcWire),
    isResponse.write (isResp b.taop), lastPkt.write (t.tpop &&& tpopLastBit != 0),
    taOpcode.write b.taop, taVer.write b.tav, eeBits.write b.ee,
    tvEn.write b.tven, UbMeta.poison.write b.poison,
    targetHint.write b.thint, udFlag.write b.udflag,
    iniTassn.write b.tassn, UbMeta.odr.write b.odr, mtEn.write b.mten,
    UbMeta.fce.write b.fce, UbMeta.retry.write b.retry, UbMeta.alloc.write b.alloc,
    iniRcType.write b.rctype, eBit.write b.ebit, iniRcId.write b.rcid]

/-- The metadata flit of a parsed frame. -/
def buildMeta (n : Nth) (t : Tph) (b : Btah) : Flit := Write.apply (metaWrites n t b) {}

/-- The extension flit under construction and the offset of the next header. -/
structure ExtCursor where
  ext : Flit
  extOff : Nat

section

variable (c : ExtCursor)

/-- Address, TokenID and length of a memory access. -/
def readMaetah : ExtCursor :=
  let mh := fun i => hdrbuf (c.extOff + i)
  let addr := joinOctets ((List.range 8).map mh) 0
  let tokid := be24 (mh 9) (mh 10) (mh 11) &&& 0xFFFFF
  let len := be32 (mh 12) (mh 13) (mh 14) (mh 15)
  ⟨setLength len (setTokenId tokid (setAddress addr c.ext)), c.extOff + 16⟩

/-- The TokenValue. -/
def readTvetah : ExtCursor :=
  let tv := fun i => hdrbuf (c.extOff + i)
  ⟨setTokenValue (be32 (tv 0) (tv 1) (tv 2) (tv 3)) c.ext, c.extOff + 4⟩

/-- The target of a Send. -/
def readMtetah : ExtCursor :=
  let mt := fun i => hdrbuf (c.extOff + i)
  let tcid := be24 (mt 1 &&& 0xF) (mt 2) (mt 3) &&& 0xFFFFF
  ⟨setMtTcId tcid
      (setMtTcType ((mt 1 >>> 6) &&& 0x3) (setMtHint (mt 0) c.ext)), c.extOff + 4⟩

/-- The operand of an atomic. -/
def readOpData : ExtCursor :=
  let od := fun i => hdrbuf (c.extOff + i)
  ⟨setOpData (joinOctets ((List.range 8).map od) 0) c.ext, c.extOff + 8⟩

def ExtCursor.readIf (present : Bool) (reader : ExtCursor → ExtCursor) : ExtCursor :=
  if present then reader c else c

end

/-- The extension headers after the 58 fixed bytes. -/
def parseExt (b : Btah) : ExtCursor :=
  let mae := needsMae b.taop
  ((((ExtCursor.mk {} 58).readIf mae (readMaetah hdrbuf)).readIf
    (mae && b.tven) (readTvetah hdrbuf)).readIf
      (b.mten || isSend b.taop) (readMtetah hdrbuf)).readIf
        (isAtomic b.taop) (readOpData hdrbuf)

/-- The length in the MAETAH, at its fixed place. -/
def lengthField (b : Btah) : U32 :=
  if needsMae b.taop then be32 (hdrbuf 70) (hdrbuf 71) (hdrbuf 72) (hdrbuf 73) else 0

end

section

variable (s : State)

/-- Parse the collected frame and go on to phase 1. -/
def parse : State :=
  let n := parseNth fun i => s.hdrbuf (14 + i)
  let t := parseTph fun i => s.hdrbuf (26 + i)
  let b := parseBtah fun i => s.hdrbuf (42 + i)
  let c := parseExt s.hdrbuf b
  let lengthField := lengthField s.hdrbuf b
  let available := if s.hdrbytes > c.extOff then s.hdrbytes - c.extOff else 0
  -- the encoder pads payload to whole flits; the length field has the true size
  let payloadBytes :=
    if 0 < lengthField ∧ available > lengthField.toNat then lengthField.toNat
    else available
  { s with
    cachedMeta := buildMeta n t b
    cachedExt := c.ext
    needsExt := needsMae b.taop || (b.mten || isSend b.taop)
    hdrEnd := c.extOff
    hasPayload := decide (payloadBytes > 0)
    payloadTotal := payloadBytes
    payloadOff := if payloadBytes > 0 then c.extOff else s.payloadOff
    phase := .emitMeta }

/-- Phase 0: append the flit's bytes to the frame, as far as they fit. -/
def collect (f : Flit) : State :=
  let s₀ := if f.sop then { s with hdrbytes := 0, inPacket := true, sawEop := false } else s
  let copy := if s₀.hdrbytes + 32 > wireMax then wireMax - s₀.hdrbytes else 32
  { s₀ with
    hdrbuf := s₀.hdrbuf.blit s₀.hdrbytes ((f.getData 32).take copy)
    hdrbytes := s₀.hdrbytes + copy
    sawEop := f.eop || s₀.sawEop }

/-- Phase 0 after the last flit of a frame. -/
def complete : State :=
  if s.hdrbytes < 58 then s
  else if be16 (s.hdrbuf 12) (s.hdrbuf 13) != ubEthertype then
    { s with inPacket := false, hdrbytes := 0 }
  else parse s

def accumulate (f : Flit) : State :=
  let s₁ := collect s f
  if !s₁.sawEop then s₁ else complete s₁

/-- The state after the last flit of a packet. -/
def finish : State :=
  { s with phase := .accumulate, inPacket := false, hdrbytes := 0, sawEop := false }

/-- Phase 1: the metadata flit, the last one if nothing follows. -/
def metaFlit : Flit :=
  (s.cachedMeta.setSop true).setEop (!s.needsExt && !s.hasPayload)

def metaNext : State :=
  if s.needsExt then { s with phase := .emitExt }
  else if s.hasPayload then { s with phase := .emitPayload }
  else finish s

/-- Phase 2: the extension flit. -/
def extFlit : Flit :=
  (s.cachedExt.setSop false).setEop (!s.hasPayload)

def extNext : State :=
  if s.hasPayload then { s with phase := .emitPayload } else finish s

/-- Phase 3: the next 32 bytes of payload, or what is left. -/
def payloadFlit : Flit :=
  let off := s.payloadOff
  let total := s.hdrEnd + s.payloadTotal
  let take := if total - off > 32 then 32 else total - off
  ((Flit.ofData (s.hdrbuf.slice off take)).setSop false).setEop
    (decide (off + take ≥ total))

def payloadDone : State :=
  { finish s with hasPayload := false, payloadOff := 0, payloadTotal := 0 }

def payloadNext : State :=
  let off := s.payloadOff
  let total := s.hdrEnd + s.payloadTotal
  let take := if total - off > 32 then 32 else total - off
  if off + take ≥ total then
    payloadDone s
  else
    { s with payloadOff := off + take }

end

/-- One call; only phase 0 reads. -/
def handler : Handler State Flit Flit := fun s offered =>
  match s.phase, offered with
  | .emitMeta, _ => ⟨metaNext s, false, some (metaFlit s)⟩
  | .emitExt, _ => ⟨extNext s, false, some (extFlit s)⟩
  | .emitPayload, _ => ⟨payloadNext s, false, some (payloadFlit s)⟩
  | .accumulate, none => ⟨s, false, none⟩
  | .accumulate, some f => ⟨accumulate s f, true, none⟩

/-- Between frames. -/
def Idle (s : State) : Prop :=
  s.phase = .accumulate ∧ s.hdrbytes = 0 ∧ s.inPacket = false ∧ s.sawEop = false

def State.contents (s : State) : List Byte := s.hdrbuf.slice 0 s.hdrbytes

@[simp] theorem contents_length (s : State) : s.contents.length = s.hdrbytes := by
  simp [State.contents]

/-- The bytes that a flit is appended to: none if it starts a frame. -/
def State.prior (s : State) (first : Bool) : List Byte :=
  if first then [] else s.contents

variable {s : State}

theorem contents_collect {f : Flit} (bound : (s.prior f.sop).length ≤ wireMax) :
    (collect s f).contents = (s.prior f.sop ++ f.getData 32).take wireMax := by
  unfold collect
  cases first : f.sop with
  | true => exact slice_blit_flit s.hdrbuf f (Nat.zero_le wireMax) rfl
  | false =>
    have fits : s.hdrbytes ≤ wireMax := by simpa [State.prior, first] using bound
    exact slice_blit_flit s.hdrbuf f fits rfl

theorem phase_collect (s : State) (f : Flit) : (collect s f).phase = s.phase := by
  unfold collect
  cases f.sop <;> rfl

theorem sawEop_collect (s : State) (f : Flit) :
    (collect s f).sawEop = (f.eop || (!f.sop && s.sawEop)) := by
  unfold collect
  cases f.sop <;> simp

theorem waits_accumulate (waiting : s.phase = .accumulate) : handler.Waits s := by
  simp only [Handler.Waits, handler, waiting]

theorem handler_accumulate (waiting : s.phase = .accumulate) (f : Flit) :
    handler s (some f) = ⟨accumulate s f, true, none⟩ := by
  simp only [handler, waiting]

theorem hdrbuf_collect {f : Flit} {index : Nat} (behind : (collect s f).hdrbytes ≤ index) :
    (collect s f).hdrbuf index = s.hdrbuf index := by
  have clip : ∀ copy, ((f.getData 32).take copy).length ≤ copy := fun copy => by simp
  revert behind
  unfold collect
  cases f.sop with
  | true => exact fun behind => Buffer.blit_after ((Nat.add_le_add_left (clip _) _).trans behind)
  | false => exact fun behind => Buffer.blit_after ((Nat.add_le_add_left (clip _) _).trans behind)

/-- Reading the flits of a frame from `f` on collects their bytes, as far as they fit, and leaves
the buffer behind them as it was. -/
theorem absorbs_flits {f : Flit} {rest : List Flit} (framed : EopLast (f :: rest))
    (inner : ∀ g ∈ rest, g.sop = false) (waiting : s.phase = .accumulate)
    (running : f.sop = false → s.sawEop = false) (room : (s.prior f.sop).length ≤ wireMax) :
    ∃ s₁, handler.Absorbs s (f :: rest) (complete s₁) ∧ s₁.phase = .accumulate ∧
      s₁.contents = (s.prior f.sop ++ (f :: rest).flatMap (·.getData 32)).take wireMax ∧
      ∀ index, s₁.hdrbytes ≤ index → s₁.hdrbuf index = s.hdrbuf index := by
  induction rest generalizing s f with
  | nil =>
    have last : f.eop = true := framed
    refine ⟨collect s f, .cons (waits_accumulate waiting) ?_ .nil,
      (phase_collect s f).trans waiting, ?_, fun _ => hdrbuf_collect⟩
    · rw [handler_accumulate waiting, accumulate, sawEop_collect, last]
      rfl
    · rw [contents_collect room, flatMap_singleton]
  | cons g rest ih =>
    have more : f.eop = false := framed.1
    have later : g.sop = false := inner g (by simp)
    have unfinished : (collect s f).sawEop = false := by
      rw [sawEop_collect, more, Bool.false_or, Bool.and_eq_false_iff]
      cases first : f.sop with
      | true => exact .inl rfl
      | false => exact .inr (running first)
    have collected := contents_collect room
    have room' : ((collect s f).prior g.sop).length ≤ wireMax := by
      simp [State.prior, later, collected]
    rcases ih framed.2 (fun h member => inner h (by simp [member]))
      ((phase_collect s f).trans waiting) (fun _ => unfinished) room' with
      ⟨s₁, absorbs, waiting', contents, behind⟩
    refine ⟨s₁, .cons (waits_accumulate waiting) ?_ absorbs, waiting', ?_,
      fun index outside => (behind index outside).trans (hdrbuf_collect ?_)⟩
    · rw [handler_accumulate waiting, accumulate, unfinished]
      rfl
    · rw [contents, later, State.prior, if_neg Bool.false_ne_true, collected,
        Buffer.take_append_take, append_assoc]
      rfl
    · -- the fill level only grows while a frame is collected
      have grows : (collect s f).hdrbytes ≤ s₁.hdrbytes := by
        rw [← contents_length, ← contents_length, contents, later, State.prior,
          if_neg Bool.false_ne_true, length_take, length_append]
        have fits : (collect s f).contents.length ≤ wireMax := by
          rw [collected]
          simp
        omega
      exact grows.trans outside

theorem absorbs_chunks (octets : List Byte) (nonempty : 0 < octets.length) (first : Bool)
    (waiting : s.phase = .accumulate) (running : first = false → s.sawEop = false)
    (room : (s.prior first).length + (padded octets).length ≤ wireMax) :
    ∃ s₁, handler.Absorbs s (chunks first octets) (complete s₁) ∧
      s₁.contents = s.prior first ++ padded octets := by
  obtain ⟨f, rest, shape, sop, inner⟩ := chunks_shape first octets
  have framed := eopLast_chunks first octets
  have data := getData_chunks octets nonempty first
  rw [shape] at framed data ⊢
  rw [← sop] at running room ⊢
  obtain ⟨s₁, absorbs, _, contents, _⟩ := absorbs_flits framed inner waiting running (by omega)
  refine ⟨s₁, absorbs, ?_⟩
  rw [contents, data, take_of_length_le (by simpa using room)]

/-- All flits that the element emits for the parsed frame. -/
def emission (s : State) : List Flit :=
  metaFlit s :: ((if s.needsExt then [extFlit s] else []) ++
    if s.hasPayload then chunks false (s.hdrbuf.slice s.hdrEnd s.payloadTotal) else [])

theorem idle_finish (s : State) : Idle (finish s) := ⟨rfl, rfl, rfl, rfl⟩

variable {queue outs : List Flit} {t : State}

theorem delivers_payload (emitting : s.phase = .emitPayload)
    (start : s.payloadOff = s.hdrEnd) (rest : handler.Delivers (payloadDone s) queue t outs) :
    handler.Delivers s queue t (chunks false (s.hdrbuf.slice s.hdrEnd s.payloadTotal) ++ outs) := by
  have call : ∀ off offered, handler { s with payloadOff := off } offered =
      ⟨payloadNext { s with payloadOff := off }, false,
        some (payloadFlit { s with payloadOff := off })⟩ := by
    intro off offered
    simp only [handler, emitting]
  have drains : Drains handler s.hdrbuf (s.hdrEnd + s.payloadTotal) (fun _ => false)
      (fun off => { s with payloadOff := off }) (payloadDone s) := by
    refine ⟨fun _ => rfl, fun off more offered => ?_, fun off inside last offered => ?_⟩
    · have next : payloadNext { s with payloadOff := off } =
          { s with payloadOff := off + 32 } := by
        simp only [payloadNext, if_pos (show s.hdrEnd + s.payloadTotal - off > 32 by omega)]
        rw [if_neg (by omega)]
      rw [call, next]
      rfl
    · have next : payloadNext { s with payloadOff := off } = payloadDone s := by
        simp only [payloadNext, if_neg (show ¬ s.hdrEnd + s.payloadTotal - off > 32 by omega)]
        rw [if_pos (by omega)]
        rfl
      rw [call, next]
      rfl
  have drained := drains.delivers rest s.hdrEnd (by omega)
  have same : { s with payloadOff := s.hdrEnd } = s :=
    congrArg (fun off => { s with payloadOff := off }) start.symm
  rw [same, Nat.add_sub_cancel_left] at drained
  exact drained

def emitted (s : State) : State := if s.hasPayload then payloadDone s else finish s

theorem idle_emitted (s : State) : Idle (emitted s) := by
  unfold emitted
  cases s.hasPayload <;> exact idle_finish s

section

variable (start : s.hasPayload = true → s.payloadOff = s.hdrEnd)
variable (rest : handler.Delivers (emitted s) queue t outs)
include start rest

theorem delivers_extNext : handler.Delivers (extNext s) queue t
      ((if s.hasPayload then chunks false (s.hdrbuf.slice s.hdrEnd s.payloadTotal)
        else []) ++ outs) := by
  unfold emitted at rest
  unfold extNext
  cases payload : s.hasPayload with
  | true =>
    rw [payload] at rest
    exact delivers_payload (s := { s with phase := .emitPayload, hasPayload := true })
      rfl (start payload) rest
  | false =>
    rw [payload] at rest
    exact rest

theorem delivers_emission (parsed : s.phase = .emitMeta) :
    handler.Delivers s queue t (emission s ++ outs) := by
  have emits : ∀ offered, handler s offered = ⟨metaNext s, false, some (metaFlit s)⟩ := by
    intro offered
    simp only [handler, parsed]
  have drains := delivers_extNext start rest
  rw [emission, cons_append, append_assoc]
  refine .emit emits ?_
  by_cases needs : s.needsExt = true
  · have emitsExt : ∀ offered, handler { s with phase := .emitExt } offered =
        ⟨extNext s, false, some (extFlit s)⟩ := by
      intro offered
      simp only [handler, extNext, finish, extFlit]
    rw [metaNext, if_pos needs, if_pos needs]
    exact .emit emitsExt drains
  · rw [metaNext, if_neg needs, if_neg needs]
    exact drains

end

/-- Offered the chunks of a UB frame, the decoder emits what it parses from the padded
bytes and is ready for the next frame. -/
theorem delivers_frame (waiting : s.phase = .accumulate) {octets : List Byte}
    (enough : 58 ≤ octets.length) (fits : octets.length ≤ wireMax)
    (ethertype : be16 (octets.getD 12 0) (octets.getD 13 0) = ubEthertype) :
    ∃ s₁ t, s₁.contents = padded octets ∧ Idle t ∧
      ∀ {u : State} {queue outs : List Flit}, handler.Delivers t queue u outs →
        handler.Delivers s (chunks true octets ++ queue) u (emission (parse s₁) ++ outs) := by
  have size := padded_length octets
  have fits' : octets.length ≤ 384 := fits
  rcases absorbs_chunks octets (by omega) true waiting (fun h => by cases h)
    (by simp only [State.prior, if_true, length_nil, wireMax]; omega)
    with ⟨s₁, absorbs, contents⟩
  have contents : s₁.contents = padded octets := by simpa [State.prior] using contents
  have count : s₁.hdrbytes = (padded octets).length := by
    rw [← contents, contents_length]
  have bytes : ∀ index, index < octets.length →
      s₁.hdrbuf index = octets.getD index 0 := by
    intro index inside
    rw [← getD_padded octets inside, ← contents, State.contents,
      Buffer.getD_slice (by omega), Nat.zero_add]
  have parsed : complete s₁ = parse s₁ := by
    rw [complete, if_neg (by omega), bytes 12 (by omega), bytes 13 (by omega), ethertype]
    rfl
  have start : (parse s₁).hasPayload = true → (parse s₁).payloadOff = (parse s₁).hdrEnd := by
    intro payload
    simp only [parse, if_pos (of_decide_eq_true payload)]
  refine ⟨s₁, emitted (parse s₁), contents, idle_emitted _, fun rest => absorbs.delivers ?_⟩
  rw [parsed]
  exact delivers_emission start rest rfl

end OpenURMA.EthDecap
