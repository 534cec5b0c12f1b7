import OpenURMA.Nic.CompletionQueues
import OpenURMA.Nic.Doorbell

/-!
# Descriptors

What the NIC reads from the windows is what the kernel provider was asked to post, field by field,
and what a poll reports is what the NIC pushed.  The immediate of a request is the exception: it has
64 bits in the work request and 32 in the descriptor.
-/

namespace OpenURMA.Nic

open Library BitVec

structure Request where
  opcode : U8
  remVa : U64
  locVa : U64
  remTok : U32
  locTok : U32
  len : U32
  cmp : U64
  val : U64
  imm : U64
  userCtx : U64
  placeOrder : BitVec 2
  compOrder : Bool
  fence : Bool
  sendJfc : U32
  dcna : U32
  deriving DecidableEq

namespace Verb

def remSge : Verb → Option Sge
  | .write _ _ dst _ => dst
  | .read src _ => src
  | .cas _ dst _ _ _ => dst
  | .faa _ dst _ _ => dst
  | .send _ _ _ => none
  | .other _ => none

def locSge : Verb → Option Sge
  | .write _ src _ _ => src
  | .read _ dst => dst
  | .cas _ _ src _ _ => src
  | .faa _ _ src _ => src
  | .send _ src _ => src
  | .other _ => none

/-- The number of octets: an atomic operation takes it from the other side. -/
def len : Verb → U32
  | .write _ src _ _ => sgeLen src 0
  | .read _ dst => sgeLen dst 0
  | .cas _ dst _ _ _ => sgeLen dst 8
  | .faa _ dst _ _ => sgeLen dst 8
  | .send _ src _ => sgeLen src 0
  | .other _ => 0

def cmp : Verb → U64
  | .cas _ _ _ cmpData _ => cmpData
  | _ => 0

def val : Verb → U64
  | .cas _ _ _ _ swapData => swapData
  | .faa _ _ _ operand => operand
  | _ => 0

def imm : Verb → U64
  | .write _ _ _ notifyData => notifyData
  | .send _ _ immData => immData
  | _ => 0

end Verb

def Posted.request (p : Posted) : Request :=
  { opcode := p.wr.verb.opcode
    remVa := sgeAddr p.wr.verb.remSge
    locVa := sgeAddr p.wr.verb.locSge
    remTok := sgeToken p.wr.verb.remSge
    locTok := sgeToken p.wr.verb.locSge
    len := p.wr.verb.len
    cmp := p.wr.verb.cmp
    val := p.wr.verb.val
    imm := p.wr.verb.imm
    userCtx := p.wr.userCtx
    placeOrder := p.wr.placeOrder
    compOrder := p.wr.compOrder
    fence := p.wr.fence
    sendJfc := p.jetty.jfc.getD 0
    dcna := p.wr.tjetty.getD (p.jetty.remoteJetty.getD 0) }

/-- What `mmio_b` takes a decoded request to ask for. -/
def Wr.request (w : Wr) : Request :=
  { opcode := w.op
    remVa := w.remVa
    locVa := w.locVa
    remTok := w.remTok
    locTok := w.locTok
    len := w.len
    cmp := w.cmp
    val := w.val
    imm := w.imm.setWidth 64
    userCtx := w.uctx
    placeOrder := (w.order &&& 0x3).setWidth 2
    compOrder := (w.order >>> 2) &&& 0x1 != 0
    fence := (w.order >>> 3) &&& 0x1 != 0
    sendJfc := w.sendJfc
    dcna := w.dcna }

section

variable (p : Posted)

theorem JfsWr.order_bits (w : JfsWr) :
    (w.order &&& 0x3).setWidth 2 = w.placeOrder ∧ ((w.order >>> 2) &&& 0x1 != 0) = w.compOrder ∧
      ((w.order >>> 3) &&& 0x1 != 0) = w.fence := by
  rw [JfsWr.order]
  generalize w.placeOrder = placeOrder
  generalize w.compOrder = compOrder
  generalize w.fence = fence
  revert placeOrder compOrder fence
  decide

theorem Posted.request_fields :
    p.fields.request = { p.request with imm := (p.request.imm.setWidth 32).setWidth 64 } := by
  obtain ⟨place, comp, fence⟩ := p.wr.order_bits
  have order : p.fields.order = p.wr.order := by
    rw [Posted.fields, wrFields]
    cases p.wr.verb <;> rfl
  rw [Wr.request, order, place, comp, fence, Posted.fields, wrFields, Posted.request]
  cases p.wr.verb <;> rfl

theorem Posted.request_fields_iff :
    p.fields.request = p.request ↔ p.request.imm.toNat < 2 ^ 32 := by
  have narrow : (p.request.imm.setWidth 32).setWidth 64 = p.request.imm ↔
      p.request.imm.toNat < 2 ^ 32 := by
    rw [← toNat_inj, toNat_setWidth, toNat_setWidth]
    omega
  rw [request_fields, ← narrow]
  constructor
  · intro same
    exact congrArg Request.imm same
  · intro same
    rw [same]

theorem Posted.dcna_fields : p.fields.dcna = p.request.dcna :=
  congrArg Request.dcna p.request_fields

end

/-- Whatever the stores of the contexts are mixed like, the NIC decodes each context's requests in
order, as they were posted if their immediates fit, and a poll reports the fields of the completions
that were pushed. -/
theorem descriptors_round_trip (d : Device) (stores : List Store) (posted : ℕ → List Posted)
    (mixed : Interleaved stores posted)
    (narrow : ∀ ctx < 64, ∀ p ∈ posted ctx, p.request.dcna.toNat < 2 ^ 24) :
    (∀ ctx < 64, let made := (posted ctx).take ((stores.filter (Store.InWindow ctx ·)).length / 16)
      (decodedOf ctx (Mealy.trace mmioB d stores)).map Wr.request = made.map Posted.request ↔
        ∀ p ∈ made, p.request.imm.toNat < 2 ^ 32) ∧
    ∀ (cq : Cq) (calls : List CqCall) (jfc : U32) (crCnt : ℕ),
      (∀ jfc, cq.node.jfcCq jfc = []) →
      Along Cq.step.next Cq.Meets cq (calls ++ [.poll jfc crCnt]) →
      let pushed := pushedFor jfc calls
      let returned := returnedFor jfc (Cq.step.trace cq calls)
      (kPollJfc jfc crCnt (Cq.step.final cq calls)).2 =
        ((pushed.drop returned.length).take crCnt).map Cqe.report := by
  constructor
  · intro ctx known made
    have decoded := decodedOf_posted d mixed known fun p member =>
      p.dcna_fields ▸ narrow ctx known p member
    rw [decoded, ← List.map_take, List.map_map, List.map_inj_left]
    exact forall₂_congr fun p _ => p.request_fields_iff
  · intro cq calls jfc crCnt empty meets
    obtain ⟨before, small, -⟩ := along_append.mp meets
    exact (kPollJfc_tracked crCnt small (tracked_run empty before jfc)).1

def sendImm (immData : U64) : Posted :=
  { jetty := ⟨some 7, some 3⟩
    tassn := 0
    wr := ⟨.send true (some ⟨0x1000, 16, some 1⟩) immData, 0x55, none, 2, true, false⟩ }

def twoContexts (ctx : ℕ) : List Posted :=
  if ctx = 0 then [sendImm 0xCAFE] else if ctx = 1 then [sendImm 0xBEEF] else []

def byTurns : List Store :=
  (((sendImm 0xCAFE).stores 0).zip ((sendImm 0xBEEF).stores 1)).flatMap fun pair => [pair.1, pair.2]

def idleDevice : Device :=
  { node := idleCq.node
    slots := fun _ => ⟨fun _ => 0, fun _ => 0, false⟩
    recvDbAssembly := fun _ _ => 0
    regmrAssembly := fun _ => 0
    ttbr0 := 0 }

theorem byTurns_interleaved : Interleaved byTurns twoContexts := by
  unfold Interleaved
  decide +kernel

theorem descriptors_round_trip_byTurns : Interleaved byTurns twoContexts ∧
      (decodedOf 1 (Mealy.trace mmioB idleDevice byTurns)).map Wr.request =
        [(sendImm 0xBEEF).request] := by
  have narrow : ∀ ctx < 64, ∀ p ∈ twoContexts ctx, p.request.dcna.toNat < 2 ^ 24 := by
    decide +kernel
  have decoded :=
    (descriptors_round_trip idleDevice byTurns twoContexts byTurns_interleaved narrow).1
      1 (by omega)
  exact ⟨byTurns_interleaved, decoded.mpr (by decide +kernel)⟩

/-- The upper half of an immediate is lost. -/
theorem sendImm_truncated :
    (decodedOf 0 (Mealy.trace mmioB idleDevice ((sendImm 0x100000000).stores 0))).map Wr.request ≠
      [(sendImm 0x100000000).request] := by
  decide +kernel

end OpenURMA.Nic
