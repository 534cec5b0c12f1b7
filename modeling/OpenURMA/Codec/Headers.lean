import OpenURMA.Codec.Encap
import OpenURMA.Codec.Decap
import Mathlib.Tactic.IntervalCases

/-!
# Headers survive the wire

The decoder's parsers applied to the encoder's header bytes give back the fields of the
metadata flit.  Fields that share a byte are read back bit by bit; the others are
big-endian words.
-/

namespace OpenURMA

open Library EthEncap EthDecap UbMeta UbExt List BitVec

theorem read_field {x : Byte} {m : Flit} (lo width : Nat) (field : Field U8)
    (sameWidth : field.width = width)
    (bits : ∀ index < width, x.getLsbD (lo + index) = (field.get m).getLsbD index) :
    BitField.get lo width x = field.get m := by
  apply eq_of_getLsbD_eq
  intro index inside
  rw [BitField.getLsbD_get]
  by_cases low : index < width
  · rw [bits index low]
    simp [low, inside]
  · rw [Field.getLsbD_get]
    simp [low, sameWidth]

theorem read_flag {x mask : Byte} {flag : Bool} (position : Nat)
    (single : BitVec.twoPow 8 position = mask) (nonzero : mask ≠ 0)
    (bit : x.getLsbD position = flag) : (x &&& mask != 0) = flag := by
  rw [← single] at nonzero ⊢
  rw [and_twoPow, bit]
  cases flag with
  | true => simpa using nonzero
  | false => rfl

@[simp] theorem getElem_flagByte (b : Bool) (v : Byte) (index : Nat) (inside : index < 8) :
    (flagByte b v)[index] = (b && v[index]) := by
  cases b <;> simp [flagByte]

theorem be24_field (field : Field U32) (narrow : field.width ≤ 24) (m : Flit) :
    be24 (octet 16 (field.get m)) (octet 8 (field.get m)) (octet 0 (field.get m)) =
      field.get m := by
  rw [be24_octet, field.get_and_mask narrow]

namespace EthDecap

def Nth.ofMeta (m : Flit) : Nth where
  scna := UbMeta.scna.get m
  dcna := UbMeta.dcna.get m
  lbf := UbMeta.lbf.get m
  sl := UbMeta.sl.get m
  nlp := nthNlp.get m

def Tph.ofMeta (m : Flit) : Tph where
  tpop := tpOpcode.get m
  tpver := tpVer.get m
  pad := padding.get m
  rtphNlp := UbMeta.rtphNlp.get m
  srctpn := srcTpn.get m
  dsttpn := dstTpn.get m
  aflag := aFlag.get m
  fflag := fFlag.get m
  psn := UbMeta.psn.get m
  rspst := UbMeta.rspst.get m
  rspinfo := UbMeta.rspinfo.get m
  tpmsn := UbMeta.tpmsn.get m

def Btah.ofMeta (m : Flit) : Btah where
  taop := taOpcode.get m
  tav := taVer.get m
  ee := eeBits.get m
  tven := tvEn.get m
  poison := UbMeta.poison.get m
  thint := targetHint.get m
  udflag := udFlag.get m
  tassn := iniTassn.get m
  odr := UbMeta.odr.get m
  mten := mtEn.get m
  fce := UbMeta.fce.get m
  retry := UbMeta.retry.get m
  alloc := UbMeta.alloc.get m
  ebit := eBit.get m
  rctype := iniRcType.get m
  svcWire := svcMode.get m
  rcid := iniRcId.get m

variable {m : Flit}

theorem parseNth_nthBytes {n : Buffer} (bytes : ∀ index < 12, n index = (nthBytes m).getD index 0) :
    parseNth n = Nth.ofMeta m := by
  have scna : be24 (n 1) (n 2) (n 3) = UbMeta.scna.get m := by
    rw [bytes 1 (by omega), bytes 2 (by omega), bytes 3 (by omega)]
    exact be24_field _ (by decide) m
  have dcna : be24 (n 4) (n 5) (n 6) = UbMeta.dcna.get m := by
    rw [bytes 4 (by omega), bytes 5 (by omega), bytes 6 (by omega)]
    exact be24_field _ (by decide) m
  have shared : n 10 =
      ((sl.get m &&& 0xF) <<< 4) ||| (nthNlp.get m &&& 0x7) :=
    bytes 10 (by omega)
  have sl : (n 10 >>> 4) &&& 0xF = sl.get m := by
    refine read_field 4 4 sl rfl fun index inside => ?_
    rw [shared]
    interval_cases index <;> simp
  have nlp : n 10 &&& 0x7 = nthNlp.get m := by
    refine read_field 0 3 nthNlp rfl fun index inside => ?_
    rw [shared]
    interval_cases index <;> simp
  rw [parseNth, scna, dcna, sl, nlp, bytes 9 (by omega)]
  rfl

/-! Bytes that several fields share, read back field by field. -/

section

variable {x : Byte} {m : Flit}

theorem read_tphVersion (version : x = ((tpVer.get m &&& 0x3) <<< 6) |||
      ((padding.get m &&& 0x3) <<< 4) ||| (rtphNlp.get m &&& 0xF)) :
    (x >>> 6) &&& 0x3 = tpVer.get m ∧ (x >>> 4) &&& 0x3 = padding.get m ∧
      x &&& 0xF = rtphNlp.get m := by
  refine ⟨read_field 6 2 tpVer rfl fun index inside => ?_,
    read_field 4 2 padding rfl fun index inside => ?_,
    read_field 0 4 rtphNlp rfl fun index inside => ?_⟩
  all_goals
    rw [version]
    interval_cases index <;> simp

theorem read_tphFlags (flags : x = flagByte (aFlag.get m) 0x80 ||| flagByte (fFlag.get m) 0x40) :
    (x &&& 0x80 != 0) = aFlag.get m ∧ (x &&& 0x40 != 0) = fFlag.get m := by
  exact ⟨read_flag 7 rfl (by decide) (by rw [flags]; simp),
    read_flag 6 rfl (by decide) (by rw [flags]; simp)⟩

theorem read_response (response : x = ((rspst.get m &&& 0x7) <<< 5) ||| (rspinfo.get m &&& 0x1F)) :
    (x >>> 5) &&& 0x7 = rspst.get m ∧ x &&& 0x1F = rspinfo.get m := by
  refine ⟨read_field 5 3 rspst rfl fun index inside => ?_,
    read_field 0 5 rspinfo rfl fun index inside => ?_⟩
  all_goals
    rw [response]
    interval_cases index <;> simp

theorem read_btahVersion (control : x = ((taVer.get m &&& 0x3) <<< 6) |||
      ((eeBits.get m &&& 0x3) <<< 4) |||
      flagByte (tvEn.get m) 0x08 ||| flagByte (poison.get m) 0x04 |||
      flagByte (targetHint.get m) 0x02 ||| flagByte (udFlag.get m) 0x01) :
    (x >>> 6) &&& 0x3 = taVer.get m ∧ (x >>> 4) &&& 0x3 = eeBits.get m ∧
      (x &&& 0x08 != 0) = tvEn.get m ∧ (x &&& 0x04 != 0) = poison.get m ∧
      (x &&& 0x02 != 0) = targetHint.get m ∧ (x &&& 0x01 != 0) = udFlag.get m := by
  refine ⟨read_field 6 2 taVer rfl fun index inside => ?_,
    read_field 4 2 eeBits rfl fun index inside => ?_,
    read_flag 3 rfl (by decide) (by rw [control]; simp),
    read_flag 2 rfl (by decide) (by rw [control]; simp),
    read_flag 1 rfl (by decide) (by rw [control]; simp),
    read_flag 0 rfl (by decide) (by rw [control]; simp)⟩
  all_goals
    rw [control]
    interval_cases index <;> simp

theorem read_btahOrdering
    (ordering : x = ((odr.get m &&& 0x7) <<< 4) ||| flagByte (mtEn.get m) 0x08 |||
      flagByte (fce.get m) 0x04 ||| flagByte (retry.get m) 0x02 ||| flagByte (alloc.get m) 0x01) :
    (x >>> 4) &&& 0x7 = odr.get m ∧ (x &&& 0x08 != 0) = mtEn.get m ∧
      (x &&& 0x04 != 0) = fce.get m ∧ (x &&& 0x02 != 0) = retry.get m ∧
      (x &&& 0x01 != 0) = alloc.get m := by
  refine ⟨read_field 4 3 odr rfl fun index inside => ?_,
    read_flag 3 rfl (by decide) (by rw [ordering]; simp),
    read_flag 2 rfl (by decide) (by rw [ordering]; simp),
    read_flag 1 rfl (by decide) (by rw [ordering]; simp),
    read_flag 0 rfl (by decide) (by rw [ordering]; simp)⟩
  rw [ordering]
  interval_cases index <;> simp

theorem read_btahService {e : Bool}
    (service : x = flagByte e 0x80 ||| ((iniRcType.get m &&& 0x3) <<< 5) |||
      (svcMode.get m &&& 0x3)) :
    (x &&& 0x80 != 0) = e ∧ (x >>> 5) &&& 0x3 = iniRcType.get m ∧ x &&& 0x3 = svcMode.get m := by
  refine ⟨read_flag 7 rfl (by decide) (by rw [service]; simp),
    read_field 5 2 iniRcType rfl fun index inside => ?_,
    read_field 0 2 svcMode rfl fun index inside => ?_⟩
  all_goals
    rw [service]
    interval_cases index <;> simp

end

theorem parseTph_rtphBytes {t : Buffer} (reliable : nthNlp.get m ≠ nthNlpUtph)
    (bytes : ∀ index < 16, t index = (tphBytes m).getD index 0) :
    parseTph t = Tph.ofMeta m := by
  have layout : tphBytes m = tpOpcode.get m ::
      (((tpVer.get m &&& 0x3) <<< 6) ||| ((padding.get m &&& 0x3) <<< 4) |||
        (rtphNlp.get m &&& 0xF)) :: rtphTail m := by
    simp [tphBytes, reliable]
  rw [layout] at bytes
  have srctpn : be24 (t 2) (t 3) (t 4) = srcTpn.get m := by
    rw [bytes 2 (by omega), bytes 3 (by omega), bytes 4 (by omega)]
    exact be24_field _ (by decide) m
  have dsttpn : be24 (t 5) (t 6) (t 7) = dstTpn.get m := by
    rw [bytes 5 (by omega), bytes 6 (by omega), bytes 7 (by omega)]
    exact be24_field _ (by decide) m
  have psn : be24 (t 9) (t 10) (t 11) = UbMeta.psn.get m := by
    rw [bytes 9 (by omega), bytes 10 (by omega), bytes 11 (by omega)]
    exact be24_field _ (by decide) m
  have tpmsn : be24 (t 13) (t 14) (t 15) = UbMeta.tpmsn.get m := by
    rw [bytes 13 (by omega), bytes 14 (by omega), bytes 15 (by omega)]
    exact be24_field _ (by decide) m
  obtain ⟨tpver, pad, rtphNlp⟩ := read_tphVersion (bytes 1 (by omega))
  obtain ⟨aflag, fflag⟩ := read_tphFlags (bytes 8 (by omega))
  obtain ⟨rspst, rspinfo⟩ := read_response (bytes 12 (by omega))
  rw [parseTph, srctpn, dsttpn, psn, tpmsn, tpver, pad, rtphNlp, aflag, fflag, rspst,
    rspinfo, bytes 0 (by omega)]
  rfl

/-- The byte behind the TASSN holds the flags of a request or the status of a response, and only
a request has the E bit. -/
theorem parseBtah_eq {b : Buffer} {m : Flit} {e : Bool}
    (service : b 5 = flagByte e 0x80 ||| ((iniRcType.get m &&& 0x3) <<< 5) |||
      (svcMode.get m &&& 0x3))
    (bytes : ∀ index < 16, b index = (btahBytes m).getD index 0) :
    parseBtah b = { Btah.ofMeta m with
      odr := (b 4 >>> 4) &&& 0x7
      mten := b 4 &&& 0x08 != 0
      fce := b 4 &&& 0x04 != 0
      retry := b 4 &&& 0x02 != 0
      alloc := b 4 &&& 0x01 != 0
      ebit := e } := by
  have pair : ∃ x y, btahFlags m = [x, y] := by
    unfold btahFlags
    split <;> exact ⟨_, _, rfl⟩
  obtain ⟨x, y, pair⟩ := pair
  simp only [btahBytes, pair] at bytes
  have rcid : be24 (b 8) (b 9) (b 10) &&& 0xFFFFF = iniRcId.get m := by
    rw [bytes 8 (by omega), bytes 9 (by omega), bytes 10 (by omega)]
    refine Eq.trans (congrArg (· &&& 0xFFFFF)
      (be24_field iniRcId (by decide) m)) ?_
    exact iniRcId.get_and_mask (show iniRcId.width ≤ 20 by decide) m
  have tassn : be16 (b 2) (b 3) = iniTassn.get m := by
    rw [bytes 2 (by omega), bytes 3 (by omega)]
    exact be16_octet _
  obtain ⟨tav, ee, tven, poison, thint, udflag⟩ := read_btahVersion (bytes 1 (by omega))
  obtain ⟨ebit, rctype, svc⟩ := read_btahService service
  rw [parseBtah, rcid, tassn, tav, ee, tven, poison, thint, udflag, ebit, rctype, svc,
    bytes 0 (by omega)]
  rfl

theorem parseBtah_btahBytes {b : Buffer} (request : isResp (taOpcode.get m) = false)
    (bytes : ∀ index < 16, b index = (btahBytes m).getD index 0) :
    parseBtah b = Btah.ofMeta m := by
  have flags := bytes 4 (by omega)
  have service := bytes 5 (by omega)
  simp only [btahBytes, btahFlags, request] at flags service
  obtain ⟨odr, mten, fce, retry, alloc⟩ := read_btahOrdering flags
  rw [parseBtah_eq service bytes, odr, mten, fce, retry, alloc]
  rfl

/-- The setter calls that copy the extension fields carried for metadata `m`. -/
def extWrites (m e : Flit) : List Write :=
  let taop := taOpcode.get m
  (if needsMae taop then
    [UbExt.addressField.write (address e), tokenIdField.write (tokenId e),
      UbExt.lengthField.write (UbExt.length e)] else []) ++
    (if needsMae taop && tvEn.get m then
      [UbExt.tokenValueField.write (tokenValue e)] else []) ++
    (if mtEn.get m || isSend taop then
      [mtHintField.write (mtHint e), mtTcTypeField.write (mtTcType e),
        mtTcIdField.write (mtTcId e)] else []) ++
    (if isAtomic taop then [opDataField.write (opData e)] else [])

variable {hdrbuf : Buffer}

theorem join_slice {off : Nat} {word : U64} {tail : List Byte}
    (holds : hdrbuf.Holds off (((List.range 8).map fun i => octet (56 - i * 8) word) ++ tail)) :
    joinOctets ((List.range 8).map fun i => hdrbuf (off + i)) 0 = word := by
  have first := (Buffer.holds_append.mp holds).1
  rw [Buffer.Holds, length_map, length_range, Buffer.slice] at first
  rw [first, joinOctets_octets]

section

variable {e : Flit} (c : ExtCursor)

theorem readMaetah_maetahBytes (holds : hdrbuf.Holds c.extOff (maetahBytes e)) :
    readMaetah hdrbuf c = ⟨Write.apply [UbExt.addressField.write (address e),
        tokenIdField.write (tokenId e), UbExt.lengthField.write (UbExt.length e)] c.ext,
        c.extOff + (maetahBytes e).length⟩ := by
  have bytes : ∀ index < 16, hdrbuf (c.extOff + index) = (maetahBytes e).getD index 0 :=
    fun index inside => holds.apply (by simpa [maetahBytes] using inside)
  have addr : joinOctets ((List.range 8).map fun i => hdrbuf (c.extOff + i)) 0 =
      address e := join_slice holds
  have tokid : be24 (hdrbuf (c.extOff + 9)) (hdrbuf (c.extOff + 10))
      (hdrbuf (c.extOff + 11)) &&& 0xFFFFF = tokenId e := by
    rw [bytes 9 (by omega), bytes 10 (by omega), bytes 11 (by omega)]
    change be24 (octet 16 (tokenId e)) (octet 8 (tokenId e))
      (octet 0 (tokenId e)) &&& 0xFFFFF = tokenId e
    rw [tokenId_eq, be24_field _ (by decide)]
    exact tokenIdField.get_and_mask (show tokenIdField.width ≤ 20 by decide) e
  have len : be32 (hdrbuf (c.extOff + 12)) (hdrbuf (c.extOff + 13))
      (hdrbuf (c.extOff + 14)) (hdrbuf (c.extOff + 15)) = UbExt.length e := by
    rw [bytes 12 (by omega), bytes 13 (by omega), bytes 14 (by omega), bytes 15 (by omega)]
    exact be32_octet _
  simp only [readMaetah, addr, tokid, len, setAddress_eq, setTokenId_eq, setLength_eq]
  rfl

theorem readTvetah_tvetahBytes (holds : hdrbuf.Holds c.extOff (tvetahBytes e)) :
    readTvetah hdrbuf c = ⟨Write.apply [UbExt.tokenValueField.write (tokenValue e)] c.ext,
        c.extOff + (tvetahBytes e).length⟩ := by
  have bytes : ∀ index < 4, hdrbuf (c.extOff + index) = (tvetahBytes e).getD index 0 :=
    fun index inside => holds.apply inside
  have tval : be32 (hdrbuf (c.extOff + 0)) (hdrbuf (c.extOff + 1))
      (hdrbuf (c.extOff + 2)) (hdrbuf (c.extOff + 3)) = tokenValue e := by
    rw [bytes 0 (by omega), bytes 1 (by omega), bytes 2 (by omega), bytes 3 (by omega)]
    exact be32_octet _
  simp only [readTvetah, tval, setTokenValue_eq]
  rfl

theorem readMtetah_mtetahBytes (holds : hdrbuf.Holds c.extOff (mtetahBytes e)) :
    readMtetah hdrbuf c = ⟨Write.apply [mtHintField.write (mtHint e),
        mtTcTypeField.write (mtTcType e), mtTcIdField.write (mtTcId e)] c.ext,
        c.extOff + (mtetahBytes e).length⟩ := by
  have bytes : ∀ index < 4, hdrbuf (c.extOff + index) = (mtetahBytes e).getD index 0 :=
    fun index inside => holds.apply inside
  have hint : hdrbuf (c.extOff + 0) = mtHint e := bytes 0 (by omega)
  have shared : hdrbuf (c.extOff + 1) =
      ((mtTcType e &&& 0x3) <<< 6) ||| (octet 16 (mtTcId e) &&& 0xF) :=
    bytes 1 (by omega)
  have tctype : (hdrbuf (c.extOff + 1) >>> 6) &&& 0x3 = mtTcType e := by
    rw [mtTcType_eq] at shared ⊢
    refine read_field 6 2 mtTcTypeField rfl fun index inside => ?_
    rw [shared]
    interval_cases index <;> simp
  have tcid : be24 (hdrbuf (c.extOff + 1) &&& 0xF) (hdrbuf (c.extOff + 2))
      (hdrbuf (c.extOff + 3)) &&& 0xFFFFF = mtTcId e := by
    have low : hdrbuf (c.extOff + 1) &&& 0xF = octet 16 (mtTcId e) := by
      rw [shared]
      apply eq_of_getLsbD_eq
      intro index inside
      have high : 4 ≤ index → (octet 16 (mtTcId e)).getLsbD index = false := by
        intro above
        rw [getLsbD_octet (by omega), mtTcId_eq, Field.getLsbD_get]
        simp [mtTcIdField, show ¬ 16 + index < 20 by omega]
      interval_cases index <;> simp_all
    rw [low, bytes 2 (by omega), bytes 3 (by omega)]
    change be24 (octet 16 (mtTcId e)) (octet 8 (mtTcId e))
      (octet 0 (mtTcId e)) &&& 0xFFFFF = mtTcId e
    rw [mtTcId_eq, be24_field _ (by decide)]
    exact mtTcIdField.get_and_mask (show mtTcIdField.width ≤ 20 by decide) e
  simp only [readMtetah, hint, tctype, tcid, setMtHint_eq, setMtTcType_eq, setMtTcId_eq]
  rfl

theorem readOpData_opDataBytes (holds : hdrbuf.Holds c.extOff (opDataBytes e)) :
    readOpData hdrbuf c = ⟨Write.apply [opDataField.write (opData e)] c.ext,
        c.extOff + (opDataBytes e).length⟩ := by
  have op : joinOctets ((List.range 8).map fun i => hdrbuf (c.extOff + i)) 0 =
      opData e := by
    rw [← append_nil (opDataBytes e)] at holds
    exact join_slice holds
  simp only [readOpData, op, setOpData_eq]
  rfl

theorem readIf_eq {reader : ExtCursor → ExtCursor} {octets : List Byte}
    {writes : List Write} {present : Bool} (reads : hdrbuf.Holds c.extOff octets →
      reader c = ⟨Write.apply writes c.ext, c.extOff + octets.length⟩)
    (holds : hdrbuf.Holds c.extOff (if present then octets else [])) :
    c.readIf present reader = ⟨Write.apply (if present then writes else []) c.ext,
        c.extOff + (if present then octets else []).length⟩ := by
  cases present with
  | true => exact reads holds
  | false => rfl

end

theorem parseExt_extBytes {e : Flit} (holds : hdrbuf.Holds 58 (extBytes m e)) :
    parseExt hdrbuf (Btah.ofMeta m) =
      ⟨Write.apply (extWrites m e) {}, 58 + (extBytes m e).length⟩ := by
  unfold extBytes at holds
  rw [Buffer.holds_append, Buffer.holds_append, Buffer.holds_append] at holds
  obtain ⟨⟨⟨mae, tv⟩, mt⟩, op⟩ := holds
  simp only [length_append, ← Nat.add_assoc] at tv mt op
  simp only [parseExt, Btah.ofMeta]
  rw [readIf_eq _ (readMaetah_maetahBytes _) mae, readIf_eq _ (readTvetah_tvetahBytes _) tv,
    readIf_eq _ (readMtetah_mtetahBytes _) mt, readIf_eq _ (readOpData_opDataBytes _) op]
  simp only [extWrites, extBytes, Write.apply_append, length_append, Nat.add_assoc]

end EthDecap

end OpenURMA
