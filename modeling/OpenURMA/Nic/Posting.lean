import OpenURMA.Nic.DataPlane

/-!
# Posting through the kernel provider

The kernel provider turns a work request into two flits of eight 64-bit lanes and stores them to
the doorbell of its context, one lane after the other; a receive takes one flit.
-/

namespace OpenURMA.Nic

open Library BitField BitVec

structure Sge where
  addr : U64
  len : U32
  tseg : Option U32

inductive FetchOp where
  | add
  | sub
  | and
  | or
  | xor

/-- An opcode with its member of the union. A scatter list is null or has a first element; the
others are not used. -/
inductive Verb where
  | write (imm : Bool) (src dst : Option Sge) (notifyData : U64)
  | read (src dst : Option Sge)
  | cas (swap : Bool) (dst src : Option Sge) (cmpData swapData : U64)
  | faa (op : FetchOp) (dst src : Option Sge) (operand : U64)
  | send (imm : Bool) (src : Option Sge) (immData : U64)
  | other (opcode : U8)

def Verb.opcode : Verb → U8
  | .write imm _ _ _ => if imm then 0x01 else 0x00
  | .read _ _ => 0x10
  | .cas swap _ _ _ _ => if swap then 0x21 else 0x20
  | .faa .add _ _ _ => 0x22
  | .faa .sub _ _ _ => 0x23
  | .faa .and _ _ _ => 0x24
  | .faa .or _ _ _ => 0x25
  | .faa .xor _ _ _ => 0x26
  | .send imm _ _ => if imm then 0x41 else 0x40
  | .other opcode => opcode

structure JfsWr where
  verb : Verb
  userCtx : U64
  tjetty : Option U32
  placeOrder : BitVec 2
  compOrder : Bool
  fence : Bool

/-- What posting reads of a jetty: the jetty it is bound to, and the JFC of its JFS. -/
structure Jetty where
  remoteJetty : Option U32
  jfc : Option U32

def sgeAddr (sge : Option Sge) : U64 := (sge.map Sge.addr).getD 0

def sgeToken (sge : Option Sge) : U32 := (sge.bind Sge.tseg).getD 0

def sgeLen (sge : Option Sge) (default : U32) : U32 := (sge.map Sge.len).getD default

def JfsWr.order (w : JfsWr) : U8 :=
  w.placeOrder.setWidth 8 ||| ((if w.compOrder then 1 else 0) <<< 2) |||
    ((if w.fence then 1 else 0) <<< 3)

/-- The values that `k_post_jetty_send_wr` hands to `build_wr`. -/
def wrFields (jb : Jetty) (w : JfsWr) : Wr :=
  let base : Wr :=
    { op := w.verb.opcode
      order := w.order
      dcna := w.tjetty.getD (jb.remoteJetty.getD 0)
      sendJfc := jb.jfc.getD 0
      uctx := w.userCtx
      remVa := 0
      locVa := 0
      cmp := 0
      remTok := 0
      locTok := 0
      val := 0
      len := 0
      imm := 0 }
  match w.verb with
  | .write _ src dst notifyData =>
    { base with
      remVa := sgeAddr dst, remTok := sgeToken dst, locVa := sgeAddr src, locTok := sgeToken src
      len := sgeLen src 0, imm := notifyData.setWidth 32 }
  | .read src dst =>
    { base with
      remVa := sgeAddr src, remTok := sgeToken src, locVa := sgeAddr dst, locTok := sgeToken dst
      len := sgeLen dst 0 }
  | .cas _ dst src cmpData swapData =>
    { base with
      remVa := sgeAddr dst, remTok := sgeToken dst, locVa := sgeAddr src, locTok := sgeToken src
      len := sgeLen dst 8, cmp := cmpData, val := swapData }
  | .faa _ dst src operand =>
    { base with
      remVa := sgeAddr dst, remTok := sgeToken dst, locVa := sgeAddr src, locTok := sgeToken src
      len := sgeLen dst 8, val := operand }
  | .send _ src immData =>
    { base with
      locVa := sgeAddr src, locTok := sgeToken src, len := sgeLen src 0
      imm := immData.setWidth 32 }
  | .other _ => base

def metaLanes (w : Wr) (tassn : U16) : List U64 :=
  let lane0 := set 63 1 1 (set 60 3 0x2 (set 0 24 (w.dcna.setWidth 64) 0))
  let lane1 := set 0 32 (w.sendJfc.setWidth 64) 0
  let lane2 := set 61 1 1 (set 58 2 0 0)
  let lane3 := set 32 8 (w.order.setWidth 64) (set 43 20 7
    (set 16 16 (tassn.setWidth 64) (set 12 1 1
      (set 0 8 (w.op.setWidth 64) 0))))
  [lane0, lane1, lane2, lane3, 0x01, 0, 0, 0]

def lanePair (low high : U32) : U64 := low.setWidth 64 ||| (high.setWidth 64 <<< 32)

theorem lanePair_low (low high : U32) : (lanePair low high).setWidth 32 = low := by
  apply eq_of_getLsbD_eq
  intro index inside
  simp [lanePair, inside]

theorem lanePair_high (low high : U32) : (lanePair low high >>> 32).setWidth 32 = high := by
  apply eq_of_getLsbD_eq
  intro index inside
  have upper : low.getLsbD (32 + index) = false := getLsbD_of_ge _ _ (by omega)
  simp only [lanePair, getLsbD_setWidth, getLsbD_ushiftRight, getLsbD_or,
    getLsbD_shiftLeft, upper]
  simp [inside, show 32 + index < 64 by omega, show index < 64 by omega]

def extLanes (w : Wr) : List U64 :=
  [w.remVa, w.locVa, w.cmp, lanePair w.remTok w.locTok, 0x02, w.uctx, w.val, lanePair w.len w.imm]

structure Store where
  off : ℕ
  word : U64
  deriving DecidableEq

def flitStores (base : ℕ) : ℕ → List U64 → List Store
  | _, [] => []
  | i, word :: words => ⟨base + 8 * i, word⟩ :: flitStores base (i + 1) words

def ctxBase (ctx : ℕ) : ℕ := ctx * 0x100

def kPostJettySendWr (ctx : ℕ) (jb : Jetty) (tassn : U16) (w : JfsWr) : List Store :=
  flitStores (ctxBase ctx) 0 (metaLanes (wrFields jb w) tassn) ++
    flitStores (ctxBase ctx) 0 (extLanes (wrFields jb w))

/-- `urma_jfr_wr_t`: the first element of its scatter list. -/
structure JfrWr where
  src : Option Sge
  userCtx : U64

def recvLanes (jettyId recvJfc : U32) (w : JfrWr) : List U64 :=
  [sgeAddr w.src, w.userCtx, (sgeToken w.src).setWidth 64, jettyId.setWidth 64,
    recvJfc.setWidth 64, 0, 0, 0]

def ouRingRecv (ctx : ℕ) (jettyId recvJfc : U32) (w : JfrWr) : List Store :=
  flitStores (ctxBase ctx + 0x80) 0 (recvLanes jettyId recvJfc w)

end OpenURMA.Nic
