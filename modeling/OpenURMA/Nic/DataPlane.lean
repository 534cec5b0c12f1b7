import OpenURMA.Nic.CopyPaths

/-!
# The data plane of the gem5 NIC

A work request that has been assembled from its doorbell stores is carried out at once: the NIC
moves octets between registered regions, matches SENDs with posted receives, ships requests for
regions it does not know to the peer node, and pushes completions. What a call does besides changing
the state is listed as effects.
-/

namespace OpenURMA.Nic

open Library

/-- A work request, as `mmio_b` decodes it. -/
structure Wr where
  op : U8
  order : U8
  dcna : U32
  sendJfc : U32
  remVa : U64
  locVa : U64
  cmp : U64
  remTok : U32
  locTok : U32
  uctx : U64
  val : U64
  len : U32
  imm : U32
  deriving DecidableEq

/-- An entry of `dp_recv_q_`: a posted receive. -/
structure Recv where
  jetty : U32
  tok : U32
  va : U64
  uctx : U64
  ctx : ℕ
  jfc : U32
  deriving DecidableEq

/-- An entry of `dp_pending_send_q_`: a SEND and the jetty it is addressed to. -/
structure Send where
  jetty : U32
  tok : U32
  va : U64
  len : U32
  op : U8
  uctx : U64
  imm : U32
  ctx : ℕ
  jfc : U32
  deriving DecidableEq

/-- The SEND that a work request of a context asks for. -/
def Wr.toSend (w : Wr) (ctx : ℕ) : Send :=
  ⟨w.dcna, w.locTok, w.locVa, w.len, w.op, w.uctx, w.imm, ctx, w.sendJfc⟩

/-- The arguments of `dp_push_cqe`, but for the JFC; `recv` is its `s_r`. -/
structure Cqe where
  len : U32
  op : U8
  userCtx : U64
  recv : Bool
  immValid : Bool
  imm : U32
  ok : Bool
  deriving DecidableEq

/-- A packet for the peer node: the arguments of `peer_send`. -/
structure Packet where
  op : U8
  dcna : U32
  rtoken : U32
  rva : U64
  len : U32
  imm : U32
  order : U8
  payload : List Byte
  deriving DecidableEq

/-- The state of the data plane of a node.  `pi` tells whether payloads go through the pipeline. -/
structure Node where
  guest : Guest
  memory : ByteMap
  pi : Bool
  hasPeer : Bool
  recvQ : List Recv
  pendingSendQ : List Send
  jfcCq : U32 → List (List Byte)

inductive Effect where
  | dma (call : DmaCall)
  | pushed (jfc : U32) (cqe : Cqe)
  | delivered (s : Send) (r : Recv) (ok : Bool)
  | sent (packet : Packet)

def octets32 (word : U32) : List Byte := (wordOctets (word.setWidth 64)).take 4

theorem littleEndian_octets32 (word : U32) : (littleEndian (octets32 word)).setWidth 32 = word := by
  apply BitVec.eq_of_getLsbD_eq
  intro index inside
  rw [BitVec.getLsbD_setWidth, octets32, getLsbD_littleEndian_take _ (by omega)]
  simp [inside, show index / 8 < 4 by omega, show index < 64 by omega]

def Cqe.encode (c : Cqe) : List Byte :=
  let l0 : U64 := (c.len.setWidth 64 <<< 32) ||| (if c.ok then 0x1 else 0x2)
  wordOctets l0 ++ [c.op, if c.recv then 1 else 0, if c.immValid then 1 else 0] ++
    List.replicate 5 0 ++ wordOctets c.userCtx ++ octets32 c.imm ++ List.replicate 36 0

variable (n : Node)

/-- The state after `dp_push_cqe`; a queue keeps its last 256 completions. -/
def Node.pushCqe (jfc : U32) (c : Cqe) : Node :=
  let q := n.jfcCq jfc ++ [c.encode]
  { n with jfcCq := Function.update n.jfcCq jfc (if q.length > 256 then q.tail else q) }

def dpPushCqe (jfc : U32) (c : Cqe) : Node × List Effect :=
  (n.pushCqe jfc c, [.pushed jfc c])

def pushAll (cqes : List (U32 × Cqe)) : Node × List Effect :=
  (cqes.foldl (fun n entry => n.pushCqe entry.1 entry.2) n,
    cqes.map fun entry => .pushed entry.1 entry.2)

/-- `find_recv`: the oldest receive of a jetty, and the queue without it. -/
def findRecv (dj : U32) (recvQ : List Recv) : Option (Recv × List Recv) :=
  (recvQ.find? fun r => r.jetty == dj).map fun r => (r, recvQ.eraseP fun r => r.jetty == dj)

def deliverPayload (s : Send) (r : Recv) : Dma PUnit :=
  if s.len = 0 then Attempt.fail
  else
    (ouPipeCopy n.guest n.pi r.tok r.va s.tok s.va s.len.toNat).orElse
      (ouCopyMr n.guest r.tok r.va s.tok s.va s.len.toNat)

def deliveryCqes (s : Send) (r : Recv) (ok : Bool) : List (U32 × Cqe) :=
  let withImm := s.op == 0x41
  [(s.jfc, ⟨s.len, s.op, s.uctx, false, false, 0, ok⟩),
    (r.jfc, ⟨s.len, s.op, r.uctx, true, withImm, if withImm then s.imm else 0, ok⟩)]

def dpDeliverSend (s : Send) (r : Recv) : Node × List Effect :=
  let done := deliverPayload n s r n.memory
  let ok := done.value.isSome
  let completed := pushAll { n with memory := done.state } (deliveryCqes s r ok)
  (completed.1, done.log.map .dma ++ .delivered s r ok :: completed.2)

/-- A complete RECV doorbell: the receive is queued, and the first SEND that waits for its jetty is
delivered to it. -/
def recvDoorbell (r : Recv) : Node × List Effect :=
  let q := n.recvQ ++ [r]
  let n := { n with recvQ := if q.length > 256 then q.tail else q }
  match n.pendingSendQ.find? fun s => s.jetty == r.jetty with
  | none => (n, [])
  | some s =>
    dpDeliverSend { n with pendingSendQ := n.pendingSendQ.eraseP fun s => s.jetty == r.jetty } s r

def complete (w : Wr) (done : Attempted ByteMap DmaCall PUnit)
    (recvCqe : Option (U32 × Cqe)) (sent : List Packet) : Node × List Effect :=
  let completed := pushAll { n with memory := done.state }
    ((w.sendJfc, ⟨w.len, w.op, w.uctx, false, false, 0, done.value.isSome⟩) :: recvCqe.toList)
  (completed.1, done.log.map .dma ++ sent.map .sent ++ completed.2)

def executeWrite (w : Wr) : Node × List Effect :=
  if w.len != 0 && (n.guest.mrTable w.remTok).isSome then
    let copy := (ouPipeCopy n.guest n.pi w.remTok w.remVa w.locTok w.locVa w.len.toNat).orElse
      (ouCopyMr n.guest w.remTok w.remVa w.locTok w.locVa w.len.toNat)
    let done := copy n.memory
    if w.op == 0x01 then
      match findRecv w.dcna n.recvQ with
      | none => complete n w done none []
      | some (r, recvQ) =>
        complete { n with recvQ } w done
          (some (r.jfc, ⟨w.len, 0x01, r.uctx, true, true, w.imm, done.value.isSome⟩)) []
    else complete n w done none []
  else if w.len != 0 && n.hasPeer then
    -- the region is not known here: the request goes to the peer
    let done := ouDmaMr n.guest w.locTok w.locVa (.read w.len.toNat) n.memory
    complete n w ⟨done.value.map fun _ => ⟨⟩, done.state, done.log⟩ none
      (done.value.toList.map fun tmp =>
        ⟨w.op, w.dcna, w.remTok, w.remVa, w.len, w.imm, w.order, tmp⟩)
  else complete n w ⟨none, n.memory, []⟩ none []

def executeRead (w : Wr) : Node × List Effect :=
  let copy : Dma PUnit :=
    if w.len = 0 then Attempt.fail
    else
      (ouPipeCopy n.guest n.pi w.locTok w.locVa w.remTok w.remVa w.len.toNat).orElse
        (ouCopyMr n.guest w.locTok w.locVa w.remTok w.remVa w.len.toNat)
  complete n w (copy n.memory) none []

def atomicValue (op : U8) (old cmp val : U64) : U64 :=
  if op == 0x20 then if old == cmp then val else old
  else if op == 0x21 then val
  else if op == 0x22 then old + val
  else if op == 0x23 then old - val
  else if op == 0x24 then old &&& val
  else if op == 0x25 then old ||| val
  else if op == 0x26 then old ^^^ val
  else old

/-- The atomic operations, on eight octets; the old value goes to the local region. -/
def executeAtomic (w : Wr) : Node × List Effect :=
  let exchange : Dma PUnit := do
    let old ← ouDmaMr n.guest w.remTok w.remVa (.read 8)
    let nv := atomicValue w.op (littleEndian old) w.cmp w.val
    (ouPipeCopy n.guest n.pi w.locTok w.locVa w.remTok w.remVa 8).orElse do
      let _ ← ouDmaMr n.guest w.locTok w.locVa (.write old)
      pure ⟨⟩
    let _ ← ouDmaMr n.guest w.remTok w.remVa (.write (wordOctets nv))
    pure ⟨⟩
  complete n w (exchange n.memory) none []

def executeSend (ctx : ℕ) (w : Wr) : Node × List Effect :=
  match findRecv w.dcna n.recvQ with
  | some (r, recvQ) => dpDeliverSend { n with recvQ } (w.toSend ctx) r
  | none =>
    if n.hasPeer then
      let done := ouDmaMr n.guest w.locTok w.locVa (.read w.len.toNat) n.memory
      -- the completion reports success even if there is nothing to send
      let completed := dpPushCqe { n with memory := done.state } w.sendJfc
        ⟨w.len, w.op, w.uctx, false, false, 0, true⟩
      (completed.1, done.log.map .dma ++ (done.value.toList.map fun tmp =>
        .sent ⟨w.op, w.dcna, 0, 0, w.len, w.imm, w.order, tmp⟩) ++ completed.2)
    else ({ n with pendingSendQ := n.pendingSendQ ++ [w.toSend ctx] }, [])

def execute (ctx : ℕ) (w : Wr) : Node × List Effect :=
  if w.op == 0x00 || w.op == 0x01 then executeWrite n w
  else if w.op == 0x10 then executeRead n w
  else if 0x20 ≤ w.op && w.op ≤ 0x26 then executeAtomic n w
  else if w.op == 0x40 || w.op == 0x41 then executeSend n ctx w
  else complete n w ⟨none, n.memory, []⟩ none []

/-- The payload of a packet, through the pipeline or directly. -/
def landPayload (payload : List Byte) (tok : U32) (va : U64) (len : ℕ) : Dma PUnit :=
  (ouPipeRoute n.guest n.pi payload tok va len).orElse do
    let _ ← ouDmaMr n.guest tok va (.write (payload.take len))
    pure ⟨⟩

def peerApply (p : Packet) : Node × List Effect :=
  if p.op == 0x00 || p.op == 0x01 then
    let land : Dma PUnit :=
      if p.len = 0 then Attempt.fail else landPayload n p.payload p.rtoken p.rva p.len.toNat
    let done := land n.memory
    let landed := { n with memory := done.state }
    if p.op == 0x01 then
      match findRecv p.dcna n.recvQ with
      | none => (landed, done.log.map .dma)
      | some (r, recvQ) =>
        let completed := dpPushCqe { landed with recvQ } r.jfc
          ⟨p.len, p.op, r.uctx, true, true, p.imm, done.value.isSome⟩
        (completed.1, done.log.map .dma ++ completed.2)
    else (landed, done.log.map .dma)
  else if p.op == 0x40 || p.op == 0x41 then
    match findRecv p.dcna n.recvQ with
    | none => (n, [])
    | some (r, recvQ) =>
      let done := landPayload n p.payload r.tok r.va p.len.toNat n.memory
      let completed := dpPushCqe { n with recvQ, memory := done.state } r.jfc
        ⟨p.len, p.op, r.uctx, true, p.op == 0x41, p.imm, done.value.isSome⟩
      (completed.1, done.log.map .dma ++ completed.2)
  else (n, [])

end OpenURMA.Nic
