import Mathlib.Data.Fin.Tuple.Basic
import OpenURMA.Opcode
import OpenURMA.Packet

/-!
# `UB_Retrans_Buffer`

For each of 16 channels there are eight slots, for the eight PSNs from the base on; a slot has room
for the metadata flit of a packet and the flit behind it. A cumulative acknowledgement frees the
slots up to its PSN and moves the others to the front; on a selective acknowledgement or a timeout
one packet is sent again. Whether or not there is a slot for it, every packet is passed on.
-/

namespace OpenURMA.RetransBuffer

open Library Function Ports

structure Slot where
  flitA : Flit
  flitB : Flit
  validA : Bool
  validB : Bool
  alreadyRetransmitted : Bool
  psn : U32
  deriving DecidableEq, Inhabited

structure ChanRtx where
  slots : Fin 8 → Slot
  basePsn : U32
  inFlight : U32

structure State where
  tx : Fin 16 → ChanRtx
  sawMeta : Bool
  curIdx : Option (Fin 16)
  totalRetransmits : U64
  selectiveRetransmits : U64
  gbnRetransmits : U64

def init (memory : Fin 16 → Fin 8 → Slot) : State where
  tx i :=
    { slots := fun j =>
        { memory i j with validA := false, validB := false, alreadyRetransmitted := false }
      basePsn := 0
      inFlight := 0 }
  sawMeta := false
  curIdx := some 0
  totalRetransmits := 0
  selectiveRetransmits := 0
  gbnRetransmits := 0

def idx (cna : U32) : Fin 16 :=
  ⟨(cna &&& 15).toNat, BitField.and_15_lt cna⟩

def State.setChan (s : State) (i : Fin 16) (c : ChanRtx) : State :=
  { s with tx := update s.tx i c }

def offset (psn base : U32) : U32 := (psn - base) &&& 0xFFFFFF

/-- The three loops of a cumulative acknowledgement: free the slots up to `off`, move the
others to the front, and mark the last ones as unused. -/
def freed (slots : Fin 8 → Slot) (off : ℕ) : Fin 8 → Slot :=
  let cleared : Fin 8 → Slot := fun j =>
    if j ≤ off then
      { slots j with validA := false, validB := false, alreadyRetransmitted := false }
    else slots j
  let moved : Fin 8 → Slot := fun j =>
    if inside : j + (off + 1) < 8 then cleared ⟨j + (off + 1), inside⟩ else cleared j
  fun j => if 8 - (off + 1) ≤ j then { moved j with validA := false, validB := false } else moved j

def takeTpack (c : ChanRtx) (apsn : U32) : ChanRtx :=
  let off := offset apsn c.basePsn
  if off < 8 then
    { slots := freed c.slots off.toNat
      basePsn := (c.basePsn + off + 1) &&& 0xFFFFFF
      inFlight := if c.inFlight > off + 1 then c.inFlight - (off + 1) else 0 }
  else c

/-- The slot that a selective acknowledgement asks for: the first one from its PSN on that
holds a packet which is not in the bitmap and has not been sent again. -/
def missing (c : ChanRtx) (apsn : U32) (bitmap : U64) : Option (Fin 8) :=
  let off := (offset apsn c.basePsn).toNat
  Fin.find? fun j => off ≤ j && !bitmap.getLsbD (j - off) && (c.slots j).validA &&
    !(c.slots j).alreadyRetransmitted

/-- The packet of a slot is sent again; both flits are put on the same port. -/
def resend (slot : Slot) : Ports Flit :=
  let out := emit 1 (UbMeta.retry.set true slot.flitA)
  if slot.validB then put 1 slot.flitB out else out

/-- Note that the packet of a slot has been sent again. -/
def markResent (c : ChanRtx) (j : Fin 8) : ChanRtx :=
  { c with slots := update c.slots j { c.slots j with alreadyRetransmitted := true } }

def rcna (ev : Flit) : U32 := (ev.get 0 &&& 0xFFFFFF).setWidth 32

def apsn (ev : Flit) : U32 := (ev.get 1 &&& 0xFFFFFF).setWidth 32

def kind (ev : Flit) : U32 := (ev.get 2 &&& 0xFF).setWidth 32

def kindRto : U32 := 0xFF

def takeEvent (s : State) (ev : Flit) : State × Ports Flit :=
  let i := idx (rcna ev)
  let c := s.tx i
  if kind ev == tpopTpack.setWidth 32 then (s.setChan i (takeTpack c (apsn ev)), silent)
  else if kind ev == tpopTpsack.setWidth 32 then
    match missing c (apsn ev) (ev.get 3) with
    | none => (s, silent)
    | some j =>
      ({ s.setChan i (markResent c j) with
          totalRetransmits := s.totalRetransmits + 1
          selectiveRetransmits := s.selectiveRetransmits + 1 },
        resend (c.slots j))
  else if kind ev == kindRto then
    match Fin.find? fun j => (c.slots j).validA with
    | none => (s, silent)
    | some j =>
      ({ s with
          totalRetransmits := s.totalRetransmits + 1
          gbnRetransmits := s.gbnRetransmits + 1 },
        resend (c.slots j))
  else (s, silent)

/-- Store the metadata flit of a reliable packet, if its PSN is in the window. -/
def store (c : ChanRtx) (f : Flit) : ChanRtx :=
  let psn := UbMeta.psn.get f
  let base := if c.inFlight == 0 then psn else c.basePsn
  let off := (offset psn base).toNat
  if inside : off < 8 then
    { slots := update c.slots ⟨off, inside⟩
        { c.slots ⟨off, inside⟩ with
          flitA := f, validA := true, alreadyRetransmitted := false, psn }
      basePsn := base
      inFlight := c.inFlight + 1 }
  else { c with basePsn := base }

def storeExt (c : ChanRtx) (f : Flit) : ChanRtx :=
  match Fin.findRev? fun j => (c.slots j).validA && !(c.slots j).validB with
  | none => c
  | some j =>
    { c with
      slots := update c.slots j { c.slots j with flitB := f, validB := true } }

def takeFlit (s : State) (f : Flit) (out : Ports Flit) : State × Ports Flit :=
  if f.sop then
    if UbMeta.svcMode.get f == svcUno then
      ({ s with sawMeta := true, curIdx := none }, put 1 f out)
    else
      let i := idx (UbMeta.dcna.get f)
      ({ s.setChan i (store (s.tx i) f) with sawMeta := true, curIdx := some i },
        put 1 f out)
  else if s.sawMeta then
    let stored := s.curIdx.elim s fun i => s.setChan i (storeExt (s.tx i) f)
    ({ stored with sawMeta := if f.eop then false else s.sawMeta }, put 1 f out)
  else (s, out)

theorem takeFlit_out {s : State} {f : Flit} (framed : f.sop = true ∨ s.sawMeta = true)
    (out : Ports Flit) : (takeFlit s f out).2 = put 1 f out := by
  unfold takeFlit
  by_cases sop : f.sop = true
  · rw [if_pos sop]
    split <;> rfl
  · rw [if_neg sop, if_pos (framed.resolve_left sop)]

theorem takeFlit_sawMeta {s : State} {f : Flit} (framed : f.sop = true ∨ s.sawMeta = true)
    (more : f.eop = false) (out : Ports Flit) : (takeFlit s f out).1.sawMeta = true := by
  unfold takeFlit
  by_cases sop : f.sop = true
  · rw [if_pos sop]
    split <;> rfl
  · have saw := framed.resolve_left sop
    rw [if_neg sop, if_pos saw, more]
    exact saw

/-- What waits on the two input ports in a call. -/
structure Offer where
  flit : Option Flit
  event : Option Flit

def step : Mealy State Offer (Ports Flit) := fun s offer =>
  let noted := offer.event.elim (s, silent) (takeEvent s)
  offer.flit.elim noted fun f => takeFlit noted.1 f noted.2

end OpenURMA.RetransBuffer
