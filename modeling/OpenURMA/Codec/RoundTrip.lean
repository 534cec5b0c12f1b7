import OpenURMA.Codec.Headers

/-!
# Wire round trip

A request that goes through `UB_Eth_Encap` and `UB_Eth_Decap` comes out with the fields
it went in with.
-/

namespace OpenURMA

open Library UbMeta UbExt Write Buffer OpenURMA.Field List

/-- The metadata fields that a frame carries. -/
def wireSlots : List Slot :=
  [dcna.toSlot, scna.toSlot, lbf.toSlot, sl.toSlot, nthNlp.toSlot,
    tpOpcode.toSlot, tpVer.toSlot, padding.toSlot, rtphNlp.toSlot, srcTpn.toSlot,
    dstTpn.toSlot, psn.toSlot, tpmsn.toSlot, rspst.toSlot, rspinfo.toSlot, aFlag.toSlot,
    fFlag.toSlot, svcMode.toSlot, taOpcode.toSlot, taVer.toSlot, eeBits.toSlot,
    tvEn.toSlot, poison.toSlot, targetHint.toSlot, udFlag.toSlot, iniTassn.toSlot,
    odr.toSlot, mtEn.toSlot, fce.toSlot, retry.toSlot, alloc.toSlot, iniRcType.toSlot,
    eBit.toSlot, iniRcId.toSlot]

/-- The extension fields that the frame of a packet with metadata `m` carries. -/
structure SameExt (m e e' : Flit) : Prop where
  address : needsMae (taOpcode.get m) = true → address e' = address e
  tokenId : needsMae (taOpcode.get m) = true → tokenId e' = tokenId e
  length : needsMae (taOpcode.get m) = true → UbExt.length e' = UbExt.length e
  tokenValue : needsMae (taOpcode.get m) = true → UbMeta.tvEn.get m = true →
    tokenValue e' = tokenValue e
  mtHint : (mtEn.get m || isSend (taOpcode.get m)) = true →
    mtHint e' = mtHint e
  mtTcType : (mtEn.get m || isSend (taOpcode.get m)) = true →
    mtTcType e' = mtTcType e
  mtTcId : (mtEn.get m || isSend (taOpcode.get m)) = true →
    mtTcId e' = mtTcId e
  opData : isAtomic (taOpcode.get m) = true → opData e' = opData e

variable {e : Flit}

theorem SameExt.framed {m e' : Flit} (same : SameExt m e e') (sop eop : Bool) :
    SameExt m e ((e'.setSop sop).setEop eop) :=
  ⟨same.address, same.tokenId, same.length, same.tokenValue, same.mtHint, same.mtTcType,
    same.mtTcId, same.opData⟩

/-- The opcode or a flag of the metadata calls for an extension flit. -/
def carriesExt (m : Flit) : Bool :=
  needsMae (taOpcode.get m) ||
    (mtEn.get m || isSend (taOpcode.get m))

namespace EthDecap

open EthEncap (headerBytes extBytes encode)

theorem metaWrites_separate (n : Nth) (t : Tph) (b : Btah) : Separate (metaWrites n t b) :=
  separate_of_slots (metaWrites (Nth.ofMeta {}) (Tph.ofMeta {}) (Btah.ofMeta {})) rfl
    (by decide)

variable {m : Flit}

theorem slot_get_buildMeta {n : Nth} {t : Tph} {b : Btah} {slot : Slot}
    (member : ⟨slot, slot.get m⟩ ∈ metaWrites n t b) :
    slot.get (buildMeta n t b) = slot.get m := by
  rw [buildMeta, get_apply (metaWrites_separate n t b) member, Slot.get_and_mask]

/-- All fields on the wire are among those that the parser sets, in the same order. -/
theorem wireSlots_sublist (reliable : nthNlp.get m ≠ nthNlpUtph) :
    Sublist (wireSlots.map fun slot => ⟨slot, slot.get m⟩)
      (metaWrites (Nth.ofMeta m) (Tph.ofMeta m) (Btah.ofMeta m)) := by
  simp (disch := decide) only [metaWrites, Nth.ofMeta, Tph.ofMeta, Btah.ofMeta,
    Field.write, toWord_get, toWord_get_bool, beq_iff_eq, if_neg reliable,
    wireSlots, map_cons, map_nil]
  repeat first | exact Sublist.slnil | apply Sublist.cons_cons | apply Sublist.cons

theorem buildMeta_ofMeta (reliable : nthNlp.get m ≠ nthNlpUtph) : ∀ slot ∈ wireSlots,
      slot.get (buildMeta (Nth.ofMeta m) (Tph.ofMeta m) (Btah.ofMeta m)) = slot.get m := by
  intro slot member
  apply slot_get_buildMeta
  exact (wireSlots_sublist reliable).subset
    (mem_map_of_mem (f := fun slot => mk slot (slot.get m)) member)

/-- All extension fields at once; what a packet carries is a selection of these. -/
def extFields (e : Flit) : List Write :=
  [UbExt.addressField.write (address e), UbExt.tokenIdField.write (tokenId e),
    UbExt.lengthField.write (UbExt.length e)] ++
    [UbExt.tokenValueField.write (tokenValue e)] ++
    [UbExt.mtHintField.write (mtHint e), UbExt.mtTcTypeField.write (mtTcType e),
      mtTcIdField.write (mtTcId e)] ++
    [opDataField.write (opData e)]

theorem extFields_separate (e : Flit) : Separate (extFields e) :=
  separate_of_slots (extFields {}) rfl (by decide)

theorem ite_nil_sublist {α : Type} (present : Bool) (l : List α) :
    Sublist (if present then l else []) l := by
  cases present with
  | true => exact Sublist.refl l
  | false => exact nil_sublist l

theorem extWrites_separate (m e : Flit) : Separate (extWrites m e) := by
  have selection : Sublist (extWrites m e) (extFields e) :=
    (((ite_nil_sublist _ _).append (ite_nil_sublist _ _)).append
      (ite_nil_sublist _ _)).append (ite_nil_sublist _ _)
  exact (extFields_separate e).sublist selection

theorem field_get_extWrites {n : Nat} {field : Field (BitVec n)} (narrow : field.width ≤ n)
    (member : field.write (field.get e) ∈ extWrites m e) :
    field.get (Write.apply (extWrites m e) {}) = field.get e := by
  apply get_congr
  have read := get_apply (extWrites_separate m e) member {}
  rw [Field.write, toWord_get field narrow, Slot.get_and_mask] at read
  exact read

theorem sameExt_extWrites (m e : Flit) : SameExt m e (Write.apply (extWrites m e) {}) where
  address mae := by
    rw [address_eq, address_eq]
    exact field_get_extWrites (by decide) (by simp [extWrites, mae, address_eq])
  tokenId mae := by
    rw [tokenId_eq, tokenId_eq]
    exact field_get_extWrites (by decide) (by simp [extWrites, mae, tokenId_eq])
  length mae := by
    rw [length_eq, length_eq]
    exact field_get_extWrites (by decide) (by simp [extWrites, mae, length_eq])
  tokenValue mae tv := by
    rw [tokenValue_eq, tokenValue_eq]
    exact field_get_extWrites (by decide) (by simp [extWrites, mae, tv, tokenValue_eq])
  mtHint mt := by
    rw [mtHint_eq, mtHint_eq]
    refine field_get_extWrites (by decide) ?_
    simp only [extWrites, mt, if_true, mtHint_eq]
    simp
  mtTcType mt := by
    rw [mtTcType_eq, mtTcType_eq]
    refine field_get_extWrites (by decide) ?_
    simp only [extWrites, mt, if_true, mtTcType_eq]
    simp
  mtTcId mt := by
    rw [mtTcId_eq, mtTcId_eq]
    refine field_get_extWrites (by decide) ?_
    simp only [extWrites, mt, if_true, mtTcId_eq]
    simp
  opData atomic := by
    rw [opData_eq, opData_eq]
    exact field_get_extWrites (by decide) (by simp [extWrites, atomic, opData_eq])

variable {s : State} {m : Flit} (header : s.hdrbuf.Holds 0 (headerBytes m))
include header

theorem holds_headers :
    s.hdrbuf.Holds 14 (EthEncap.nthBytes m) ∧ s.hdrbuf.Holds 26 (EthEncap.tphBytes m) ∧
      s.hdrbuf.Holds 42 (EthEncap.btahBytes m) := by
  have tph : (EthEncap.tphBytes m).length = 16 := EthEncap.tphBytes_length m
  rw [headerBytes, holds_append, holds_append, holds_append] at header
  obtain ⟨⟨⟨_, atNth⟩, atTph⟩, atBtah⟩ := header
  refine ⟨atNth, atTph, ?_⟩
  simpa [EthEncap.ethBytes, EthEncap.nthBytes, tph] using atBtah

theorem parseBtah_frame (request : isResp (taOpcode.get m) = false) :
    parseBtah (fun i => s.hdrbuf (42 + i)) = Btah.ofMeta m := by
  have size : (EthEncap.btahBytes m).length = 16 := EthEncap.btahBytes_length m
  exact parseBtah_btahBytes request fun index inside =>
    (holds_headers header).2.2.apply (by omega)

theorem cachedMeta_of_btah {b : Btah} (btah : parseBtah (fun i => s.hdrbuf (42 + i)) = b)
    (reliable : nthNlp.get m ≠ nthNlpUtph) :
    (parse s).cachedMeta = buildMeta (Nth.ofMeta m) (Tph.ofMeta m) b := by
  obtain ⟨atNth, atTph, _⟩ := holds_headers header
  have tph : (EthEncap.tphBytes m).length = 16 := EthEncap.tphBytes_length m
  have nthEq : parseNth (fun i => s.hdrbuf (14 + i)) = Nth.ofMeta m :=
    parseNth_nthBytes fun index inside => atNth.apply inside
  have tphEq : parseTph (fun i => s.hdrbuf (26 + i)) = Tph.ofMeta m :=
    parseTph_rtphBytes reliable fun index inside => atTph.apply (by omega)
  simp only [parse, nthEq, tphEq, btah]

variable (request : isResp (taOpcode.get m) = false)
include request

theorem cachedMeta_frame (reliable : nthNlp.get m ≠ nthNlpUtph) :
    (parse s).cachedMeta = buildMeta (Nth.ofMeta m) (Tph.ofMeta m) (Btah.ofMeta m) :=
  cachedMeta_of_btah header (parseBtah_frame header request) reliable

theorem taOpcode_frame : taOpcode.get (parse s).cachedMeta = taOpcode.get m := by
  apply get_congr
  simp only [parse, parseBtah_frame header request]
  apply slot_get_buildMeta
  simp (disch := decide) only [metaWrites, Btah.ofMeta, Field.write, toWord_get]
  simp

theorem needsExt_frame : (parse s).needsExt = carriesExt m := by
  simp only [parse, parseBtah_frame header request]
  rfl

theorem cachedExt_frame (ext : s.hdrbuf.Holds 58 (extBytes m e)) :
    (parse s).cachedExt = Write.apply (extWrites m e) {} := by
  simp only [parse, parseBtah_frame header request, parseExt_extBytes ext]

theorem hdrEnd_frame (ext : s.hdrbuf.Holds 58 (extBytes m e)) :
    (parse s).hdrEnd = 58 + (extBytes m e).length := by
  simp only [parse, parseBtah_frame header request, parseExt_extBytes ext]

end EthDecap

namespace EthEncap

def payloadBytes (m e : Flit) (payload : List Flit) : List Byte :=
  (payload.flatMap (·.getData 32)).take (wireMax - (58 + (extBytes m e).length))

theorem encode_cons (m e : Flit) (payload : List Flit) :
    encode m (e :: payload) = headerBytes m ++ (extBytes m e ++ payloadBytes m e payload) := by
  have bound := extBytes_length_le m e
  rw [encode, take_append, take_of_length_le, append_assoc, payloadBytes,
    length_append, headerBytes_length]
  simp only [length_append, headerBytes_length, wireMax]
  omega

theorem encode_eq_headers (m : Flit) (rest : List Flit) :
    ∃ tail, encode m rest = headerBytes m ++ tail := by
  cases rest with
  | nil => exact ⟨[], by simp [encode]⟩
  | cons e payload => exact ⟨_, encode_cons m e payload⟩

theorem encode_length_le (m : Flit) (rest : List Flit) : (encode m rest).length ≤ wireMax := by
  cases rest with
  | nil => simp [encode, headerBytes_length, wireMax]
  | cons e payload => simp [encode]

end EthEncap

section

variable (p : Packet) (finishes : EthEncap.Finishes p) {s : EthEncap.State}
variable (encap : s.emitMode = .build) {d : EthDecap.State} (decap : d.phase = .accumulate)
include p finishes encap decap

/-- The packet becomes a frame and the frame is parsed, and both elements are ready for what
follows. -/
theorem codec_continues : ∃ frame s' d₁ d', EthEncap.Idle s' ∧ EthDecap.Idle d' ∧
      d₁.contents = padded (EthEncap.encode p.head p.rest) ∧
      (∀ {u queue outs}, EthEncap.handler.Delivers s' queue u outs →
        EthEncap.handler.Delivers s (p.flits ++ queue) u (frame ++ outs)) ∧
      ∀ {u queue outs}, EthDecap.handler.Delivers d' queue u outs →
        EthDecap.handler.Delivers d (frame ++ queue) u
          (EthDecap.emission (EthDecap.parse d₁) ++ outs) := by
  let frame := EthEncap.encode p.head p.rest
  obtain ⟨tail, layout⟩ := EthEncap.encode_eq_headers p.head p.rest
  have enough : 58 ≤ frame.length := by
    simp only [frame, layout, length_append, EthEncap.headerBytes_length]
    omega
  have ethertype : be16 (frame.getD 12 0) (frame.getD 13 0) = ubEthertype := by
    simp only [frame, layout]
    exact be16_octet ubEthertype
  obtain ⟨s', encapIdle, sends⟩ := EthEncap.delivers_packet encap p finishes
  obtain ⟨d₁, d', contents, decapIdle, receives⟩ :=
      EthDecap.delivers_frame decap enough (EthEncap.encode_length_le _ _) ethertype
  exact ⟨_, s', d₁, d', encapIdle, decapIdle, contents, sends, receives⟩

theorem codec_delivers :
    ∃ wire s' d₁ d', EthEncap.handler.Produces s p.flits s' wire ∧ EthEncap.Idle s' ∧
      EthDecap.handler.Produces d wire d' (EthDecap.emission (EthDecap.parse d₁)) ∧
      EthDecap.Idle d' ∧ d₁.contents = padded (EthEncap.encode p.head p.rest) := by
  obtain ⟨_, s', d₁, d', encapIdle, decapIdle, contents, sends, receives⟩ :=
    codec_continues p finishes encap decap
  have sent := sends (.settled (EthEncap.waits_of_not_drain (by simp [encapIdle.1])))
  have received := receives (.settled (EthDecap.waits_accumulate decapIdle.1))
  simp only [append_nil] at sent received
  exact ⟨_, s', d₁, d', sent.produces, encapIdle, received.produces, decapIdle, contents⟩

end

theorem EthDecap.holds_frame {d : EthDecap.State} {frame : List Byte}
    (contents : d.contents = padded frame) : d.hdrbuf.Holds 0 frame := by
  have whole : d.hdrbuf.Holds 0 (padded frame) := by
    rw [Holds, ← contents, EthDecap.contents_length]
    rfl
  exact (holds_append.mp whole).1

/-- `p` goes through both codec elements and comes out with the fields it carries. -/
def RoundTrips (p : Packet) (s : EthEncap.State) (d : EthDecap.State) : Prop :=
  ∃ wire s' d' m' rest, EthEncap.handler.Produces s p.flits s' wire ∧ EthEncap.Idle s' ∧
    EthDecap.handler.Produces d wire d' (m' :: rest) ∧ EthDecap.Idle d' ∧
    m'.sop = true ∧ (∀ slot ∈ wireSlots, slot.get m' = slot.get p.head) ∧
    ∀ e payload, p.rest = e :: payload →
      ∃ e' tail, rest = e' :: tail ∧ e'.sop = false ∧ SameExt p.head e e'

/-- Encoding and decoding a reliable request preserves every field of its metadata and
extension flits. -/
theorem wire_round_trip (p : Packet) (s : EthEncap.State) (d : EthDecap.State)
    (request : isResp (taOpcode.get p.head) = false) (reliable : nthNlp.get p.head ≠ nthNlpUtph)
    (extension : p.rest ≠ [] ↔ carriesExt p.head = true) (finishes : EthEncap.Finishes p)
    (encapIdle : EthEncap.Idle s) (decapIdle : EthDecap.Idle d) :
    RoundTrips p s d := by
  obtain ⟨wire, s', d₁, d', sent, encapIdle', received, decapIdle', contents⟩ :=
      codec_delivers p finishes encapIdle.1 decapIdle.1
  have holds := EthDecap.holds_frame contents
  obtain ⟨tail, layout⟩ := EthEncap.encode_eq_headers p.head p.rest
  have header : d₁.hdrbuf.Holds 0 (EthEncap.headerBytes p.head) := by
    rw [layout] at holds
    exact (holds_append.mp holds).1
  refine ⟨wire, s', d', EthDecap.metaFlit (EthDecap.parse d₁), _, sent, encapIdle', received,
    decapIdle', rfl, ?_, ?_⟩
  · intro slot member
    rw [EthDecap.metaFlit, EthDecap.cachedMeta_frame header request reliable,
      Slot.get_setEop, Slot.get_setSop]
    exact EthDecap.buildMeta_ofMeta reliable slot member
  · intro e payload shape
    have needs : (EthDecap.parse d₁).needsExt = true := by
      rw [EthDecap.needsExt_frame header request]
      exact extension.mp (by simp [shape])
    have ext : d₁.hdrbuf.Holds 58 (EthEncap.extBytes p.head e) := by
      rw [shape, EthEncap.encode_cons] at holds
      have rest := (holds_append.mp holds).2
      rw [EthEncap.headerBytes_length] at rest
      exact (holds_append.mp rest).1
    refine ⟨EthDecap.extFlit (EthDecap.parse d₁), _, by rw [needs]; rfl, rfl, ?_⟩
    rw [EthDecap.extFlit, EthDecap.cachedExt_frame header request ext]
    exact (EthDecap.sameExt_extWrites p.head e).framed false _

/-- A `Write` of 40 bytes with a token value and a payload of two flits. -/
def sampleWrite : Packet where
  head := { lane0 := 0x2000000100002A, lane1 := 1, lane2 := 7, lane3 := 0x1003, sop := true }
  rest := [{ lane0 := 0x1000, lane1 := 0x2800000005, lane2 := 0xABCD },
    { lane0 := 0x1122334455667788 }, { lane3 := 0x99, eop := true }]
  sop_head := rfl
  sop_rest := by decide
  eop_last := by decide

theorem wire_round_trip_sampleWrite :
    RoundTrips sampleWrite (EthEncap.init fun _ => 0) (EthDecap.init fun _ => 0) :=
  wire_round_trip sampleWrite _ _ (by decide) (by decide) (by decide)
    (fun _ shape => by simp [sampleWrite] at shape) ⟨rfl, rfl⟩ ⟨rfl, rfl, rfl, rfl⟩

end OpenURMA
