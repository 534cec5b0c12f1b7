import OpenURMA.Library.Loop
import OpenURMA.Library.Window
import OpenURMA.Opcode
import OpenURMA.Packet

/-!
# `UB_TPChannel_RX`

The receiver keeps, for each of 16 channels, the expected PSN and a bitmap of the packets
accepted ahead of it.  It decides on a packet's metadata flit: the flits of accepted
packets go to port 1, and every packet gets one acknowledgement descriptor on port 2.
-/

namespace OpenURMA.TpChannelRx

open Library UbMeta Ports

structure RxChan where
  remoteCna : U32
  epsn : U32
  basePsn : U32
  bitmap : U64
  maxRcvPsn : U32
  valid : Bool
  rolMode : U8
  oooEnabled : U8
  deriving DecidableEq, Inhabited

structure State where
  rxchan : Fin 16 → RxChan
  thisInWindow : Bool
  thisIsDup : Bool
  thisIsOoo : Bool
  selectiveAcksEmitted : U64
  cumulativeAcksEmitted : U64
  naksEmitted : U64

/-- `.init`; `remote_cna` is not initialised, and the flags of the current packet are set
by its first flit. -/
def init (memory : Fin 16 → U32) : State where
  rxchan i :=
    { remoteCna := memory i
      epsn := 0
      basePsn := 0
      bitmap := 0
      maxRcvPsn := 0
      valid := false
      rolMode := 0
      oooEnabled := 1 }
  thisInWindow := false
  thisIsDup := false
  thisIsOoo := false
  selectiveAcksEmitted := 0
  cumulativeAcksEmitted := 0
  naksEmitted := 0

def idx (scna : U32) : Fin 16 :=
  ⟨(scna &&& 15).toNat, BitField.and_15_lt scna⟩

structure Flags where
  inWindow : Bool := false
  isDup : Bool := false
  isOoo : Bool := false
  deriving DecidableEq

/-- The 24-bit difference, sign-extended to an `int32_t`. -/
def signedDiff (psn epsn : U32) : U32 :=
  let diff := (psn - epsn) &&& 0xFFFFFF
  if diff &&& 0x800000 != 0 then diff ||| 0xFF000000 else diff

def freshChannel (c : RxChan) (scna psn : U32) : RxChan :=
  { c with
    remoteCna := scna
    epsn := psn
    basePsn := psn
    bitmap := 0
    maxRcvPsn := 0
    valid := true }

/-- The first arrival from a source takes over the slot. -/
def openChannel (c : RxChan) (scna psn : U32) : RxChan :=
  if !c.valid || c.remoteCna != scna then freshChannel c scna psn else c

def slideBody (c : RxChan) : RxChan :=
  let epsn := (c.epsn + 1) &&& 0xFFFFFF
  { c with epsn, basePsn := epsn, bitmap := c.bitmap >>> 1 }

/-- The next PSN was already received. -/
def slideGuard (c : RxChan) : Bool := c.bitmap &&& 1 != 0

def noteMax (psn : U32) (c : RxChan) : RxChan :=
  if psn > c.maxRcvPsn then { c with maxRcvPsn := psn } else c

/-- The check of an arriving PSN.  The bitmap has 64 bits, so the slide loop ends within
64 rounds. -/
def receivePsn (c : RxChan) (psn : U32) : RxChan × Flags :=
  let diff := signedDiff psn c.epsn
  if diff == 0 then
    (noteMax psn (whileUpTo slideGuard slideBody 64 (slideBody c)), { inWindow := true })
  else if BitVec.slt 0 diff && c.oooEnabled != 0 then
    if diff.toNat < 64 then
      (noteMax psn { c with bitmap := c.bitmap ||| (1#64 <<< diff.toNat) },
        { inWindow := true, isOoo := true })
    else
      (noteMax psn c, {})
  else if BitVec.slt diff 0 then
    (c, { isDup := true })
  else
    (c, {})

def descriptor (c : RxChan) (flags : Flags) (scna : U32) : Flit :=
  if flags.isOoo then
    { lane0 := scna.setWidth 64, lane1 := c.epsn.setWidth 64, lane2 := tpopTpsack.setWidth 64,
      lane3 := c.bitmap, sop := true, eop := true }
  else if flags.inWindow || flags.isDup then
    { lane0 := scna.setWidth 64, lane1 := ((c.epsn - 1) &&& 0xFFFFFF).setWidth 64,
      lane2 := tpopTpack.setWidth 64, lane3 := c.rolMode.setWidth 64, sop := true, eop := true }
  else
    { lane0 := scna.setWidth 64, lane1 := c.epsn.setWidth 64, lane2 := tpopTpack.setWidth 64,
      lane3 := c.rolMode.setWidth 64, sop := true, eop := true }

def checkMeta (s : State) (f : Flit) : RxChan × Flags :=
  let scna := scna.get f
  let psn := psn.get f
  receivePsn (openChannel (s.rxchan (idx scna)) scna psn) psn

def nextState (s : State) (f : Flit) : State :=
  let checked := checkMeta s f
  let flags := checked.2
  { rxchan := Function.update s.rxchan (idx (scna.get f)) checked.1
    thisInWindow := flags.inWindow
    thisIsDup := flags.isDup
    thisIsOoo := flags.isOoo
    selectiveAcksEmitted := s.selectiveAcksEmitted + if flags.isOoo then 1 else 0
    cumulativeAcksEmitted := s.cumulativeAcksEmitted +
      if !flags.isOoo && (flags.inWindow || flags.isDup) then 1 else 0
    naksEmitted := s.naksEmitted +
      if !flags.isOoo && !(flags.inWindow || flags.isDup) then 1 else 0 }

def passedMeta (c : RxChan) (f : Flit) : Flit :=
  if c.rolMode != 0 then svcMode.set svcRol f else f

def step : Mealy State Flit (Ports Flit) := fun s f =>
  if f.sop then
    let checked := checkMeta s f
    let acked := emit 2 (descriptor checked.1 checked.2 (scna.get f))
    (nextState s f, if checked.2.inWindow then put 1 (passedMeta checked.1 f) acked else acked)
  else
    (s, if s.thisInWindow then emit 1 f else silent)

def deliver (s : State) (p : Packet) : State := step.final s p.flits

def forwarded (s : State) (p : Packet) : List Flit := Ports.sent 1 (step.trace s p.flits)

def acknowledged (s : State) (p : Packet) : List Flit := Ports.sent 2 (step.trace s p.flits)

theorem gated : Gated step State.thisInWindow := by
  intro s f inner
  simp [step, inner]

theorem step_head (s : State) (p : Packet) :
    step s p.head = (nextState s p.head, if (checkMeta s p.head).2.inWindow then
        put 1 (passedMeta (checkMeta s p.head).1 p.head)
          (emit 2 (descriptor (checkMeta s p.head).1 (checkMeta s p.head).2 (scna.get p.head)))
      else emit 2 (descriptor (checkMeta s p.head).1 (checkMeta s p.head).2
        (scna.get p.head))) := by
  rw [step, if_pos p.sop_head]

@[simp] theorem deliver_eq (s : State) (p : Packet) : deliver s p = nextState s p.head := by
  rw [deliver, (gated.packet s p).1, step_head]

theorem forwarded_eq (s : State) (p : Packet) :
    forwarded s p = if (checkMeta s p.head).2.inWindow then
      passedMeta (checkMeta s p.head).1 p.head :: p.rest else [] := by
  rw [forwarded, (gated.packet s p).2.1, step_head]
  change _ ++ (if (checkMeta s p.head).2.inWindow then p.rest else []) = _
  cases (checkMeta s p.head).2.inWindow <;> simp

theorem acknowledged_eq (s : State) (p : Packet) :
    acknowledged s p = [descriptor (checkMeta s p.head).1 (checkMeta s p.head).2
      (scna.get p.head)] := by
  rw [acknowledged, (gated.packet s p).2.2, step_head]
  cases (checkMeta s p.head).2.inWindow <;> simp

end OpenURMA.TpChannelRx
