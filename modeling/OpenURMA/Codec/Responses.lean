import OpenURMA.Codec.Robustness
import OpenURMA.Codec.RoundTrip

/-!
# Responses on the wire

In the frame of a response the byte behind the TASSN holds the response status, where a request
has its flags.  The encoder writes no extension header but the MTETAH, and the decoder, which
looks for the MTETAH flag in the status byte, takes everything behind the fixed headers for
payload.
-/

namespace OpenURMA

open Library EthEncap UbMeta Nat List

variable {m : Flit}

namespace EthDecap

open EthEncap (headerBytes encode)

def readMeta (m : Flit) : Flit :=
  let header : Buffer := fun i => (headerBytes m).getD i 0
  buildMeta (parseNth fun i => header (14 + i)) (parseTph fun i => header (26 + i))
    (parseBtah fun i => header (42 + i))

variable {s : State}

theorem cachedMeta_eq (header : s.hdrbuf.Holds 0 (headerBytes m)) :
    (parse s).cachedMeta = readMeta m := by
  have size := headerBytes_length m
  have bytes : ∀ index < 58, s.hdrbuf index = (headerBytes m).getD index 0 := by
    intro index inside
    have byte : s.hdrbuf (0 + index) = (headerBytes m).getD index 0 := header.apply (by omega)
    rwa [zero_add] at byte
  simp (disch := omega) only [parse, readMeta, parseNth, parseTph, parseBtah, bytes]

def statusByte (m : Flit) : Byte :=
  ((UbMeta.rspst.get m &&& 0x7) <<< 5) ||| (UbMeta.rspinfo.get m &&& 0x1F)

def Btah.ofResponse (m : Flit) : Btah :=
  { Btah.ofMeta m with
    odr := (statusByte m >>> 4) &&& 0x7
    mten := statusByte m &&& 0x08 != 0
    fce := statusByte m &&& 0x04 != 0
    retry := statusByte m &&& 0x02 != 0
    alloc := statusByte m &&& 0x01 != 0
    ebit := false }

theorem parseBtah_response {b : Buffer} (response : isResp (taOpcode.get m) = true)
    (bytes : ∀ index < 16, b index = (btahBytes m).getD index 0) :
    parseBtah b = Btah.ofResponse m := by
  have status := bytes 4 (by omega)
  have service := bytes 5 (by omega)
  simp only [btahBytes, btahFlags, response] at status service
  rw [parseBtah_eq (e := false) (service.trans (by simp [flagByte])) bytes, status]
  rfl

section

variable {s : State} (header : s.hdrbuf.Holds 0 (headerBytes m))
variable (response : isResp (taOpcode.get m) = true)
include header response

theorem parseBtah_atResponse : parseBtah (fun i => s.hdrbuf (42 + i)) = Btah.ofResponse m := by
  have size : (btahBytes m).length = 16 := btahBytes_length m
  exact parseBtah_response response fun index inside =>
    (holds_headers header).2.2.apply (by omega)

end

theorem parse_bare {b : Btah} (btah : parseBtah (fun i => s.hdrbuf (42 + i)) = b)
    (mae : needsMae b.taop = false) (mt : (b.mten || isSend b.taop) = false)
    (count : 58 < s.hdrbytes) :
    (parse s).needsExt = false ∧ (parse s).hdrEnd = 58 ∧
      (parse s).payloadTotal = s.hdrbytes - 58 ∧ (parse s).hasPayload = true := by
  have atomic : isAtomic b.taop = false := by
    cases atomic : isAtomic b.taop with
    | false => rfl
    | true => rw [(isAtomic_spec atomic).2.1] at mae; cases mae
  have cursor : parseExt s.hdrbuf b = ⟨{}, 58⟩ := by
    simp only [parseExt, mae, mt, atomic, ExtCursor.readIf, Bool.false_and, Bool.false_eq_true,
      if_false]
  have length : lengthField s.hdrbuf b = 0 := by
    simp [lengthField, mae]
  have total : (parse s).payloadTotal = s.hdrbytes - 58 := by
    simp only [parse, btah, cursor, length, if_pos count]
    rw [if_neg (by simp)]
  refine ⟨?_, ?_, total, ?_⟩
  · simp only [parse, btah, mae, mt, Bool.or_self]
  · simp only [parse, btah, cursor]
  · change decide ((parse s).payloadTotal > 0) = true
    rw [total]
    exact decide_eq_true (by omega)

/-- What is behind the fixed headers of a response is taken for payload, unless its status byte has
the bit that means MTETAH in a request. -/
theorem emission_response {rest : List Flit} (contents : s.contents = padded (encode m rest))
    (response : isResp (taOpcode.get m) = true) (unflagged : statusByte m &&& 0x08 = 0) :
    emission (parse s) = metaFlit (parse s) :: chunks false ((padded (encode m rest)).drop 58) := by
  obtain ⟨tail, layout⟩ := encode_eq_headers m rest
  have holds := holds_frame contents
  rw [layout] at holds
  have btah := parseBtah_atResponse (Buffer.holds_append.mp holds).1 response
  have count : 58 < s.hdrbytes := by
    rw [← contents_length, contents, padded_length, layout, length_append, headerBytes_length]
    omega
  obtain ⟨mae, _, send, _⟩ := isResp_spec response
  have mten : (Btah.ofResponse m).mten = false := by
    change (statusByte m &&& 0x08 != 0) = false
    rw [unflagged]
    rfl
  have mt : ((Btah.ofResponse m).mten || isSend (Btah.ofResponse m).taop) = false := by
    rw [mten]
    exact send
  obtain ⟨needs, start, total, present⟩ := parse_bare btah mae mt count
  have behind : s.hdrbuf.slice 58 (s.hdrbytes - 58) = (padded (encode m rest)).drop 58 := by
    have split := s.hdrbuf.slice_add 0 58 (s.hdrbytes - 58)
    rw [Nat.add_sub_cancel' (by omega)] at split
    rw [← contents, State.contents, split, drop_left' (by simp), zero_add]
  rw [emission, needs, present, start, total]
  exact congrArg (fun octets => metaFlit (parse s) :: chunks false octets) behind

/-- The metadata flit that leaves the decoder if `m` goes into the encoder. -/
def arrival (m : Flit) : Flit := (readMeta m).setSop true

/-- There is always something behind the metadata: an extension header or padding. -/
theorem metaFlit_eq {s : State} (header : s.hdrbuf.Holds 0 (headerBytes m))
    (count : 58 < s.hdrbytes) : metaFlit (parse s) = arrival m := by
  have more : (!(parse s).needsExt && !(parse s).hasPayload) = false := by
    let b := parseBtah fun i => s.hdrbuf (42 + i)
    have needs : (parse s).needsExt = (needsMae b.taop || (b.mten || isSend b.taop)) := rfl
    cases bare : needsMae b.taop || (b.mten || isSend b.taop) with
    | true => rw [needs, bare]; rfl
    | false =>
      rw [Bool.or_eq_false_iff] at bare
      rw [(parse_bare (b := b) rfl bare.1 bare.2 count).2.2.2, Bool.not_true, Bool.and_false]
  have unmarked : (readMeta m).eop = false := (Write.framing_apply _ _).2
  rw [metaFlit, more, cachedMeta_eq header, arrival]
  cases equal : readMeta m with
  | mk lane0 lane1 lane2 lane3 sop eop =>
    rw [equal] at unmarked
    cases unmarked
    rfl

theorem emission_eq_packetOf (s : State) : emission (parse s) = (packetOf (parse s)).flits := by
  have start : (parse s).hasPayload = true → (parse s).payloadOff = (parse s).hdrEnd := by
    intro payload
    simp only [parse, if_pos (of_decide_eq_true payload)]
  change emission (parse s) = metaFlit (parse s) :: extLeft (parse s)
  rw [emission, extLeft, payloadLeft]
  cases payload : (parse s).hasPayload with
  | false => rfl
  | true => rw [start payload, Nat.add_sub_cancel_left]

end EthDecap

/-- The fields that a frame carries whether it is a request or a response. -/
def steadySlots : List Slot :=
  [dcna.toSlot, scna.toSlot, lbf.toSlot, sl.toSlot, nthNlp.toSlot,
    tpOpcode.toSlot, tpVer.toSlot, padding.toSlot, rtphNlp.toSlot, srcTpn.toSlot,
    dstTpn.toSlot, psn.toSlot, tpmsn.toSlot, rspst.toSlot, rspinfo.toSlot, aFlag.toSlot,
    fFlag.toSlot, svcMode.toSlot, taOpcode.toSlot, taVer.toSlot, eeBits.toSlot,
    tvEn.toSlot, poison.toSlot, targetHint.toSlot, udFlag.toSlot, iniTassn.toSlot,
    iniRcType.toSlot, iniRcId.toSlot]

namespace EthDecap

open EthEncap (headerBytes encode)

theorem steadySlots_sublist_wireSlots : List.Sublist steadySlots wireSlots := by
  rw [steadySlots, wireSlots]
  repeat first | exact List.Sublist.slnil | apply List.Sublist.cons_cons | apply List.Sublist.cons

theorem steadySlots_sublist (reliable : nthNlp.get m ≠ nthNlpUtph) :
    List.Sublist (steadySlots.map fun slot => ⟨slot, slot.get m⟩)
      (metaWrites (Nth.ofMeta m) (Tph.ofMeta m) (Btah.ofResponse m)) := by
  simp (disch := decide) only [metaWrites, Nth.ofMeta, Tph.ofMeta, Btah.ofResponse, Btah.ofMeta,
    Field.write, Field.toWord_get, Field.toWord_get_bool, beq_iff_eq, if_neg reliable,
    steadySlots, map_cons, map_nil]
  repeat first | exact List.Sublist.slnil | apply List.Sublist.cons_cons | apply List.Sublist.cons

def holdingHeaders (m : Flit) : State := init fun i => (headerBytes m).getD i 0

theorem holds_holdingHeaders (m : Flit) : (holdingHeaders m).hdrbuf.Holds 0 (headerBytes m) := by
  apply Buffer.slice_eq_of_agree
  intro index _
  rw [zero_add]
  rfl

/-- The wire keeps the fields of reliable packets that do not depend on the direction. -/
theorem slot_get_readMeta (reliable : nthNlp.get m ≠ nthNlpUtph) {slot : Slot}
    (steady : slot ∈ steadySlots) : slot.get (readMeta m) = slot.get m := by
  have header := holds_holdingHeaders m
  rw [← cachedMeta_eq header]
  cases direction : isResp (taOpcode.get m) with
  | false =>
    rw [cachedMeta_frame header direction reliable]
    exact buildMeta_ofMeta reliable slot (steadySlots_sublist_wireSlots.subset steady)
  | true =>
    rw [cachedMeta_of_btah header (parseBtah_atResponse header direction) reliable]
    apply slot_get_buildMeta
    exact (steadySlots_sublist reliable).subset
      (mem_map_of_mem (f := fun slot => Write.mk slot (slot.get m)) steady)

theorem get_arrival {α : Type} [FieldValue α] {field : Field α}
    (reliable : nthNlp.get m ≠ nthNlpUtph) (steady : field.toSlot ∈ steadySlots) :
    field.get (arrival m) = field.get m := by
  rw [arrival, Field.get_setSop]
  exact field.get_congr (slot_get_readMeta reliable steady)

theorem isResponse_arrival (m : Flit) : isResponse.get (arrival m) = isResp (taOpcode.get m) := by
  have opcode : (parseBtah fun i => (headerBytes m).getD (42 + i) 0).taop =
      taOpcode.get m := by
    have size : (btahBytes m).length = 16 := btahBytes_length m
    have first : (holdingHeaders m).hdrbuf (42 + 0) = (btahBytes m).getD 0 0 :=
      (holds_headers (holds_holdingHeaders m)).2.2.apply (by omega)
    exact first
  rw [arrival, Field.get_setSop, ← opcode]
  refine Write.field_get_apply_of_fits (metaWrites_separate _ _ _) (by simp [metaWrites]) ?_ _
  generalize isResp (parseBtah fun i => (headerBytes m).getD (42 + i) 0).taop = direction
  cases direction <;> decide

end EthDecap

theorem EthDecap.head_packetOf {p : Packet} {d : EthDecap.State}
    (contents : d.contents = padded (encode p.head p.rest)) :
    (packetOf (parse d)).head = EthDecap.arrival p.head := by
  obtain ⟨tail, layout⟩ := encode_eq_headers p.head p.rest
  have holds := EthDecap.holds_frame contents
  rw [layout] at holds
  have count : 58 < d.hdrbytes := by
    rw [← EthDecap.contents_length, contents, padded_length, layout, length_append,
      headerBytes_length]
    omega
  exact EthDecap.metaFlit_eq (Buffer.holds_append.mp holds).1 count

theorem codec_arrival (p : Packet) (finishes : Finishes p)
    {s : EthEncap.State} (encap : EthEncap.Idle s) {d : EthDecap.State} (decap : EthDecap.Idle d) :
    ∃ wire s' d', ∃ q : Packet, EthEncap.handler.Produces s p.flits s' wire ∧ EthEncap.Idle s' ∧
      EthDecap.handler.Produces d wire d' q.flits ∧ EthDecap.Idle d' ∧
      q.head = EthDecap.arrival p.head := by
  obtain ⟨wire, s', d₁, d', sent, encapIdle, received, decapIdle, contents⟩ :=
      codec_delivers p finishes encap.1 decap.1
  rw [EthDecap.emission_eq_packetOf] at received
  exact ⟨wire, s', d', _, sent, encapIdle, received, decapIdle, EthDecap.head_packetOf contents⟩

end OpenURMA
