import OpenURMA.Codec.RoundTrip
import OpenURMA.Memory.HbmWrite
import OpenURMA.Memory.MrTable

/-!
# A remote write, end to end

The payload of a Write goes through `UB_Eth_Encap`, `UB_Eth_Decap`, `UB_MR_Table`,
`UB_Txn_Dispatch` and `UB_HBM_Write`.  On the way it is padded to whole flits, cut behind
headers of varying size, trimmed to the length field and cut into flits again.
-/

namespace OpenURMA

open Library EthEncap UbMeta UbExt Buffer List Nat

theorem Library.Buffer.slice_of_holds_zeros {buffer : Buffer} {offset total count : Nat}
    (zeros : buffer.Holds offset (replicate total 0)) (inside : count ≤ total) :
    buffer.slice offset count = replicate count 0 := by
  rw [Holds, length_replicate] at zeros
  have cut := congrArg (take count) zeros
  rwa [take_slice inside, take_replicate, min_eq_left inside] at cut

namespace EthDecap

open EthEncap (headerBytes extBytes payloadBytes)

theorem lengthField_frame {hdrbuf : Buffer} {m e : Flit} (mae : needsMae (taOpcode.get m) = true)
    (ext : hdrbuf.Holds 58 (extBytes m e)) :
    lengthField hdrbuf (Btah.ofMeta m) = UbExt.length e := by
  have maetah : hdrbuf.Holds 58 (maetahBytes e) := by
    rw [extBytes, holds_append, holds_append, holds_append] at ext
    obtain ⟨⟨⟨present, _⟩, _⟩, _⟩ := ext
    simpa [mae] using present
  have size : (maetahBytes e).length = 16 := by simp [maetahBytes]
  have bytes : ∀ index < 16, hdrbuf (58 + index) = (maetahBytes e).getD index 0 :=
    fun index inside => maetah.apply (by omega)
  rw [lengthField, Btah.ofMeta, if_pos mae, bytes 12 (by omega), bytes 13 (by omega),
    bytes 14 (by omega), bytes 15 (by omega)]
  exact be32_octet _

variable {d : State} {m e : Flit} {payload : List Flit}

/-- The frame of a packet without payload flits: headers, and zeros up to the end of a flit. -/
theorem holds_unpadded (contents : d.contents = padded (encode m [e])) :
    d.hdrbuf.Holds 0 (headerBytes m) ∧ d.hdrbuf.Holds 58 (extBytes m e) ∧
      d.hdrbuf.Holds (58 + (extBytes m e).length)
        (replicate ((32 - (58 + (extBytes m e).length) % 32) % 32) 0) ∧
      d.hdrbytes = 58 + (extBytes m e).length + (32 - (58 + (extBytes m e).length) % 32) % 32 := by
  have small := extBytes_length_le m e
  have frame : encode m [e] = headerBytes m ++ extBytes m e := by
    rw [encode_cons]
    simp [payloadBytes]
  have total : (headerBytes m ++ extBytes m e).length = 58 + (extBytes m e).length := by
    rw [length_append, headerBytes_length]
  have count : d.hdrbytes =
      58 + (extBytes m e).length + (32 - (58 + (extBytes m e).length) % 32) % 32 := by
    rw [← contents_length, contents, padded_length, frame, total]
    omega
  have whole : d.hdrbuf.Holds 0 (padded (headerBytes m ++ extBytes m e)) := by
    rw [Holds, ← frame, ← contents, contents_length]
    rfl
  rw [padded, total, holds_append, holds_append, headerBytes_length, total]
    at whole
  obtain ⟨⟨header, ext⟩, padding⟩ := whole
  rw [zero_add] at ext padding
  exact ⟨header, ext, padding, count⟩

theorem emission_request (header : d.hdrbuf.Holds 0 (headerBytes m))
    (ext : d.hdrbuf.Holds 58 (extBytes m e)) (request : isResp (taOpcode.get m) = false)
    (mae : needsMae (taOpcode.get m) = true) (pending : 0 < (parse d).payloadTotal) :
    ∃ m' e', emission (parse d) = m' :: e' :: chunks false
        (d.hdrbuf.slice (58 + (extBytes m e).length) (parse d).payloadTotal) ∧
      m'.sop = true ∧ m'.eop = false ∧ e'.sop = false ∧ e'.eop = false ∧
      taOpcode.get m' = taOpcode.get m ∧ SameExt m e e' := by
  have present : (parse d).hasPayload = true := decide_eq_true pending
  have needs : (parse d).needsExt = true := by
    rw [needsExt_frame header request, carriesExt, mae]
    rfl
  refine ⟨metaFlit (parse d), extFlit (parse d), ?_, rfl, ?_, rfl, ?_, ?_, ?_⟩
  · rw [emission, needs, present, hdrEnd_frame header request ext]
    rfl
  · simp [metaFlit, needs]
  · simp [extFlit, present]
  · rw [metaFlit, Field.get_setEop, Field.get_setSop, taOpcode_frame header request]
  · rw [extFlit, cachedExt_frame header request ext]
    exact (sameExt_extWrites m e).framed false _

variable (contents : d.contents = padded (encode m (e :: payload)))
variable (write : isWriteClass (taOpcode.get m) = true) (pending : 0 < (UbExt.length e).toNat)
variable (fits : 58 + (extBytes m e).length + (UbExt.length e).toNat ≤ 384)
variable (enough : (UbExt.length e).toNat ≤ 32 * payload.length)
include contents write pending fits enough

theorem payloadTotal_write
    (header : d.hdrbuf.Holds 0 (headerBytes m)) (ext : d.hdrbuf.Holds 58 (extBytes m e)) :
    (parse d).payloadTotal = (UbExt.length e).toNat := by
  obtain ⟨request, mae, _⟩ := isWriteClass_spec write
  have collected : 58 + (extBytes m e).length + (UbExt.length e).toNat ≤ d.hdrbytes := by
    have padding := length_le_padded (encode m (e :: payload))
    rw [← contents, contents_length, encode_cons, length_append,
      length_append, headerBytes_length, payloadBytes, length_take,
      flatMap_getData_length] at padding
    simp only [EthEncap.wireMax] at padding
    omega
  have positive : (0 : U32) < UbExt.length e := by
    rw [BitVec.lt_def]
    exact pending
  simp only [parse, parseBtah_frame header request, parseExt_extBytes ext,
    lengthField_frame mae ext]
  rw [if_pos (show d.hdrbytes > 58 + (extBytes m e).length by omega)]
  split
  · rfl
  · rename_i noExcess
    have atMost := not_lt.mp fun excess => noExcess ⟨positive, excess⟩
    omega

theorem emission_write : ∃ m' e', emission (parse d) = m' :: e' :: chunks false
        ((payload.flatMap (·.getData 32)).take (UbExt.length e).toNat) ∧
      m'.sop = true ∧ m'.eop = false ∧ e'.sop = false ∧ e'.eop = false ∧
      taOpcode.get m' = taOpcode.get m ∧ SameExt m e e' := by
  obtain ⟨request, mae, _⟩ := isWriteClass_spec write
  have holds := holds_frame contents
  rw [encode_cons, holds_append, headerBytes_length, holds_append] at holds
  obtain ⟨header, ext, data⟩ := holds
  have total := payloadTotal_write contents write pending fits enough header ext
  have slice : d.hdrbuf.slice (58 + (extBytes m e).length) (UbExt.length e).toNat =
      (payload.flatMap (·.getData 32)).take (UbExt.length e).toNat := by
    have whole : d.hdrbuf.Holds (58 + (extBytes m e).length) (payloadBytes m e payload) := by
      simpa using data
    rw [Holds] at whole
    have size : (payloadBytes m e payload).length =
        min (384 - (58 + (extBytes m e).length)) (32 * payload.length) := by
      rw [payloadBytes, length_take, flatMap_getData_length]
      rfl
    have cut := congrArg (take (UbExt.length e).toNat) whole
    rw [take_slice (by omega)] at cut
    rw [cut, payloadBytes, take_take, min_eq_left (by simp only [EthEncap.wireMax]; omega)]
  have emitted := emission_request header ext request mae (total ▸ pending)
  rwa [total, slice] at emitted

end EthDecap

namespace MrTable

/-- The access `[va, va + len)` lies in the region, and neither end wraps around. -/
structure Inside (mr : MR) (va : U64) (len : U32) : Prop where
  above : mr.vaBase.toNat ≤ va.toNat
  below : va.toNat + len.toNat ≤ mr.vaBase.toNat + mr.length.toNat
  noWrap : mr.vaBase.toNat + mr.length.toNat < 2 ^ 64

theorem inRange_of_inside {mr : MR} {va : U64} {len : U32} (inside : Inside mr va len) :
    inRange mr va len = true := by
  have above := inside.above
  have below := inside.below
  have noWrap := inside.noWrap
  have small := len.isLt
  have small' := mr.length.isLt
  simp only [inRange, gt_iff_lt, Bool.not_eq_true', Bool.or_eq_false_iff,
    decide_eq_false_iff_not, BitVec.lt_def, BitVec.toNat_add, BitVec.toNat_setWidth]
  omega

theorem toNat_translate {mr : MR} {va : U64} {len : U32} (inside : Inside mr va len)
    (bound : va.toNat - mr.vaBase.toNat + mr.hbmOffset.toNat < 2 ^ 64) :
    (translate mr va).toNat = va.toNat - mr.vaBase.toNat + mr.hbmOffset.toNat := by
  rw [toNat_translate_of_le inside.above]
  exact mod_eq_of_lt bound

end MrTable

/-- The packet that a metadata flit, an extension flit and payload chunks form. -/
def Packet.ofChunks (m e : Flit) (octets : List Byte) (sop : m.sop = true)
    (more : m.eop = false) (inner : e.sop = false) (more' : e.eop = false) : Packet where
  head := m
  rest := e :: chunks false octets
  sop_head := sop
  sop_rest f member := by
    rcases mem_cons.mp member with rfl | member
    · exact inner
    · exact sop_chunks octets f member
  eop_last := by
    have framed := eopLast_chunks false octets
    cases shape : chunks false octets with
    | nil => exact (chunks_ne_nil _ _ shape).elim
    | cons f flits =>
      rw [shape] at framed
      exact ⟨more, more', framed⟩

/-- Sent through the table, the dispatcher and the write handler, the flits store `data` at `off`
and nothing else, and leave the elements between packets. -/
def Stores (decoded : List Flit) (off : Nat) (data : List Byte) (t : MrTable.State)
    (c : TxnDispatch.State) (h : HbmWrite.State) : Prop :=
  let checked := Ports.sent 1 (MrTable.step.trace t decoded)
  let dispatched := Ports.sent 2 (TxnDispatch.step.trace c checked)
  let h' := HbmWrite.step.final h dispatched
  (∀ i < data.length, h'.hbm (off + i) = data.getD i 0) ∧
    (∀ index, index < off ∨ off + data.length ≤ index → h'.hbm index = h.hbm index) ∧
    MrTable.Idle (MrTable.step.final t decoded) ∧
    TxnDispatch.Idle (TxnDispatch.step.final c checked) ∧ HbmWrite.Idle h'

section

variable {m e : Flit} {data : List Byte} {t : MrTable.State} {mr : MrTable.MR}

theorem stores_chunks (c : TxnDispatch.State) (h : HbmWrite.State) (sop : m.sop = true)
    (more : m.eop = false) (inner : e.sop = false) (more' : e.eop = false)
    (write : isWriteClass (taOpcode.get m) = true) (slot : t.table (MrTable.idx (tokenId e)) = mr)
    (registered : MrTable.hit mr (tokenId e) = true)
    (inside : MrTable.Inside mr (address e) (UbExt.length e))
    (size : data.length = (UbExt.length e).toNat) (pending : 0 < data.length)
    (bound : (address e).toNat - mr.vaBase.toNat + mr.hbmOffset.toNat + data.length ≤ 65536) :
    Stores (m :: e :: chunks false data)
      ((address e).toNat - mr.vaBase.toNat + mr.hbmOffset.toNat) data t c h := by
  have notSend := (isWriteClass_spec write).2.2.1
  have admits : MrTable.Admits t.table e := by
    rw [MrTable.Admits, slot]
    exact ⟨registered, MrTable.inRange_of_inside inside⟩
  -- the table translates the address and changes nothing else
  let e' := MrTable.translated t.table e
  have inner' : e'.sop = false := (Flit.sop_set _ _ _).trans inner
  have more'' : e'.eop = false := (Flit.eop_set _ _ _).trans more'
  have address : (address e').toNat =
      (address e).toNat - mr.vaBase.toNat + mr.hbmOffset.toNat := by
    rw [← MrTable.toNat_translate inside (by omega), ← slot]
    rfl
  rcases MrTable.run_admitted t (Packet.ofChunks m e data sop more inner more') rfl notSend
    admits with ⟨tableIdle, _, checked⟩
  -- the dispatcher passes the packet on port 2
  let written := Packet.ofChunks m e' data sop more inner' more''
  have dispatchIdle := (TxnDispatch.run_packet c written).1
  have dispatched : Ports.sent 2 (TxnDispatch.step.trace c (m :: e' :: chunks false data)) =
      m :: e' :: chunks false data :=
    (TxnDispatch.sent_packet c written 2).trans (if_pos (TxnDispatch.route_eq_two.mpr write))
  have length : (UbExt.length e').toNat = data.length := size.symm
  have octets : ((chunks false data).flatMap (·.getData 32)).take (UbExt.length e').toNat =
      data := by
    rw [getData_chunks data pending, length]
    exact take_left
  rcases HbmWrite.run_write h sop written.sop_rest written.eop_last.2 (by omega)
    (by rw [length_chunks pending, length]) (by omega) with ⟨writeIdle, stored⟩
  rw [octets, address] at stored
  have checked' : Ports.sent 1 (MrTable.step.trace t (m :: e :: chunks false data)) =
      m :: e' :: chunks false data := checked
  simp only [Stores, checked', dispatched, stored]
  exact ⟨fun i inside => blit_inside inside,
    fun index outside => outside.elim blit_before blit_after, tableIdle, dispatchIdle, writeIdle⟩

end

/-- Sent through the five elements, `p` stores `data` at `off` and nothing else, and leaves every
element ready for the next packet. -/
def Lands (p : Packet) (off : Nat) (data : List Byte) (s : EthEncap.State)
    (d : EthDecap.State) (t : MrTable.State) (c : TxnDispatch.State)
    (h : HbmWrite.State) : Prop :=
  ∃ wire s' decoded d',
    EthEncap.handler.Produces s p.flits s' wire ∧ EthEncap.Idle s' ∧
    EthDecap.handler.Produces d wire d' decoded ∧ EthDecap.Idle d' ∧
    Stores decoded off data t c h

/-- A remote write with payload flits stores exactly its payload. -/
theorem remote_write_lands (p : Packet) {e : Flit} {payload : List Flit}
    (shape : p.rest = e :: payload) (write : isWriteClass (taOpcode.get p.head) = true)
    (pending : 1 ≤ (UbExt.length e).toNat)
    (flits : payload.length = ((UbExt.length e).toNat + 31) / 32)
    (fits : 58 + (extBytes p.head e).length + (UbExt.length e).toNat ≤ 384)
    {s : EthEncap.State} (encap : EthEncap.Idle s) {d : EthDecap.State} (decap : EthDecap.Idle d)
    {t : MrTable.State} (c : TxnDispatch.State) (h : HbmWrite.State)
    {mr : MrTable.MR} (slot : t.table (MrTable.idx (tokenId e)) = mr)
    (registered : MrTable.hit mr (tokenId e) = true)
    (inside : MrTable.Inside mr (address e) (UbExt.length e))
    (bound : (address e).toNat - mr.vaBase.toNat + mr.hbmOffset.toNat +
      (UbExt.length e).toNat ≤ 65536) :
    Lands p ((address e).toNat - mr.vaBase.toNat + mr.hbmOffset.toNat)
      ((payload.flatMap (·.getData 32)).take (UbExt.length e).toNat) s d t c h := by
  have size : ((payload.flatMap (·.getData 32)).take (UbExt.length e).toNat).length =
      (UbExt.length e).toNat := by
    rw [length_take, flatMap_getData_length]
    omega
  have finishes : Finishes p := by
    intro e' alone
    rw [shape] at alone
    have none : payload = [] := by simpa using congrArg tail alone
    simp only [none, length_nil] at flits
    omega
  obtain ⟨wire, s', d₁, d', sent, encap', received, decap', contents⟩ :=
      codec_delivers p finishes encap.1 decap.1
  rw [shape] at contents
  obtain ⟨m', e', emission, sop, more, inner, more', opcode, same⟩ :=
      EthDecap.emission_write contents write pending fits (by omega)
  rw [emission] at received
  have mae := (isWriteClass_spec write).2.1
  have tokenId := same.tokenId mae
  have address := same.address mae
  have length := same.length mae
  refine ⟨wire, s', _, d', sent, encap', received, decap', ?_⟩
  rw [← opcode] at write
  rw [← tokenId] at slot registered
  rw [← address, ← length] at inside
  rw [← address] at bound ⊢
  exact stores_chunks c h sop more inner more' write slot registered inside
    (by rw [size, length]) (by omega) (by omega)

/-- A region of 4 KiB at address `0x1000`, stored from byte 64 of the memory on. -/
def sampleRegion : MrTable.MR where
  tokenId := 5
  tokenValue := 0xABCD
  vaBase := 0x1000
  hbmOffset := 64
  length := 0x1000
  perm := 7
  valid := true

def sampleRegions : MrTable.State :=
  { MrTable.init (fun _ => sampleRegion) with table := fun _ => sampleRegion }

theorem remote_write_lands_sampleWrite :
    Lands sampleWrite 64 ((sampleWrite.rest.tail.flatMap (·.getData 32)).take 40)
      (EthEncap.init fun _ => 0) (EthDecap.init fun _ => 0)
      { MrTable.init (fun _ => sampleRegion) with table := fun _ => sampleRegion }
      TxnDispatch.init HbmWrite.init :=
  remote_write_lands sampleWrite rfl (by decide) (by decide) (by decide) (by decide)
    ⟨rfl, rfl⟩ ⟨rfl, rfl, rfl, rfl⟩ _ _ rfl (by decide)
    ⟨by decide, by decide, by decide⟩ (by decide)

end OpenURMA
