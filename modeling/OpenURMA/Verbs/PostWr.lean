import OpenURMA.Opcode
import OpenURMA.Packet

/-!
# Posting with libopenurma

`urma_post_jetty_send_wr` turns a work request into a metadata flit and an extension flit and
writes them to the doorbell stream of the context.  A work request without a TASSN gets the next
one of a counter that all jetties of the context share.
-/

namespace OpenURMA.Verbs

open Library UbMeta UbExt Write

inductive Status where
  | ok
  | eInval
  | eNomem
  | eNotImplemented
  | eTimeout
  | eFault
  deriving DecidableEq

inductive Opc where
  | read
  | write
  | send
  | atomicCas
  | atomicFaa
  | other
  deriving DecidableEq

inductive SvcMode where
  | roi
  | rot
  | rol
  | uno
  | other
  deriving DecidableEq

inductive Order where
  | no
  | ro
  | so
  | other
  deriving DecidableEq

/-- `urma_jfs_wr_t`; of an `int` it matters only whether it is zero. -/
structure JfsWr where
  opc : Opc
  svc : SvcMode := .roi
  order : Order := .no
  completionInOrder : Bool := false
  fence : Bool := false
  fce : Bool := false
  tassn : U16 := 0
  rcId : U32 := 0
  remoteVa : U64 := 0
  length : U32 := 0
  tokenId : U32 := 0
  token : U32 := 0
  casCompare : U64 := 0
  casSwap : U64 := 0
  immediate : U64 := 0
  deriving DecidableEq

structure Context where
  localCna : U32
  doorbellIn : Bool
  nextTassn : U16 := 0

def taop : Opc → Option U8
  | .read => some taopRead
  | .write => some taopWrite
  | .send => some taopSend
  | .atomicCas => some taopAtomicCas
  | .atomicFaa => some taopAtomicFaa
  | .other => none

def svc : SvcMode → U8
  | .roi => svcRoi
  | .rot => svcRot
  | .rol => svcRol
  | .uno => svcUno
  | .other => svcRol

def odrExec : Order → U8
  | .no => odrNo
  | .ro => odrRo
  | .so | .other => odrSo

/-- The setter calls for the metadata flit. -/
def metaWrites (localCna : U32) (wr : JfsWr) (op : U8) (ts : U16) : List Write :=
  [dcna.write 0, scna.write localCna, lbf.write 0, UbMeta.sl.write 0,
    nthNlp.write (if wr.svc = .uno then nthNlpUtph else nthNlpRtph),
    valid.write true, tpOpcode.write 0, tpVer.write 0,
    padding.write 0, rtphNlp.write 0, psn.write 0, tpmsn.write 0,
    aFlag.write true, fFlag.write false, svcMode.write (svc wr.svc),
    isResponse.write false, lastPkt.write true, taOpcode.write op,
    taVer.write 0, eeBits.write 1, tvEn.write true,
    poison.write false, targetHint.write false, udFlag.write false,
    iniTassn.write ts, UbMeta.odrExec.write (odrExec wr.order),
    odrCompl.write wr.completionInOrder, UbMeta.fence.write wr.fence,
    mtEn.write (isSend op), UbMeta.fce.write wr.fce, retry.write false,
    alloc.write false, iniRcType.write 0, eBit.write false, iniRcId.write wr.rcId]

def metaFlit (localCna : U32) (wr : JfsWr) (op : U8) (ts : U16) : Flit :=
  ((Write.apply (metaWrites localCna wr op ts) {}).setSop true).setEop false

/-- The setter calls for the extension flit. -/
def extWrites (wr : JfsWr) : List Write :=
  [addressField.write wr.remoteVa, tokenIdField.write wr.tokenId,
    lengthField.write wr.length, tokenValueField.write wr.token,
    opDataField.write (if wr.opc = .atomicCas then wr.casCompare else wr.immediate)]

def extFlit (wr : JfsWr) : Flit := ((Write.apply (extWrites wr) {}).setSop false).setEop true

theorem separate_metaWrites (localCna : U32) (wr : JfsWr) (op : U8) (ts : U16) :
    Separate (metaWrites localCna wr op ts) :=
  separate_of_slots (metaWrites 0 { opc := .read } 0 0) rfl (by decide)

theorem separate_extWrites (wr : JfsWr) : Separate (extWrites wr) :=
  separate_of_slots (extWrites { opc := .read }) rfl (by decide)

section

variable {localCna : U32} {wr : JfsWr} {op : U8} {ts : U16} {n : Nat} {field : Field (BitVec n)}
variable {v : BitVec n}

theorem get_metaFlit (member : field.write v ∈ metaWrites localCna wr op ts)
    (wide : n ≤ field.width) : field.get (metaFlit localCna wr op ts) = v := by
  rw [metaFlit, Field.get_setEop, Field.get_setSop,
    field_get_apply (separate_metaWrites localCna wr op ts) member, BitField.and_mask_of_le wide]

theorem get_extFlit (member : field.write v ∈ extWrites wr) (wide : n ≤ field.width) :
    field.get (extFlit wr) = v := by
  rw [extFlit, Field.get_setEop, Field.get_setSop,
    field_get_apply (separate_extWrites wr) member, BitField.and_mask_of_le wide]

end

section

variable (localCna : U32) (wr : JfsWr) (op : U8) (ts : U16)

theorem taOpcode_metaFlit : taOpcode.get (metaFlit localCna wr op ts) = op := by
  apply get_metaFlit
  · simp [metaWrites]
  · decide

theorem iniTassn_metaFlit : iniTassn.get (metaFlit localCna wr op ts) = ts := by
  apply get_metaFlit
  · simp [metaWrites]
  · decide

theorem tvEn_metaFlit : tvEn.get (metaFlit localCna wr op ts) = true := by
  rw [metaFlit, Field.get_setEop, Field.get_setSop]
  apply field_get_apply_of_fits (separate_metaWrites localCna wr op ts)
  · simp [metaWrites]
  · decide

theorem tokenValue_extFlit : tokenValue (extFlit wr) = wr.token := by
  rw [tokenValue_eq]
  apply get_extFlit
  · simp [extWrites]
  · decide

theorem opData_extFlit : opData (extFlit wr) =
    if wr.opc = .atomicCas then wr.casCompare else wr.immediate := by
  rw [opData_eq]
  apply get_extFlit
  · simp [extWrites]
  · decide

end

def packet (localCna : U32) (wr : JfsWr) (op : U8) (ts : U16) : Packet where
  head := metaFlit localCna wr op ts
  rest := [extFlit wr]
  sop_head := rfl
  sop_rest := by
    intro f member
    rw [List.mem_singleton.mp member]
    rfl
  eop_last := ⟨rfl, rfl⟩

/-- What a post returns, and the flits it writes to `doorbell_in`. -/
structure Reply where
  status : Status
  written : List Flit

def postWr : Mealy Context JfsWr Reply := fun ctx wr =>
  if ctx.doorbellIn then
    match taop wr.opc with
    | none => (ctx, ⟨.eInval, []⟩)
    | some op =>
      if wr.tassn = 0 then
        ({ ctx with nextTassn := ctx.nextTassn + 1 },
          ⟨.ok, (packet ctx.localCna wr op ctx.nextTassn).flits⟩)
      else (ctx, ⟨.ok, (packet ctx.localCna wr op wr.tassn).flits⟩)
  else (ctx, ⟨.eFault, []⟩)

end OpenURMA.Verbs
