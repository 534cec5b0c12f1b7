import OpenURMA.Provider.Context

/-!
# Posting work requests

`ou_post_one` checks a work request, builds its frame for the data side-channel, hands two flits
to the NIC, records the request in the ring and sends the frame.  The request number of a Write
or Read is taken from a counter that starts at 1.  Nothing resets the status of the slot that
the record goes to.
-/

namespace OpenURMA.Provider

open Library

/-- The first element of a scatter list; `token` is that of its target segment. -/
structure Sge where
  addr : U64
  len : U32
  token : Option U32

structure JfsWr where
  opcode : Opcode
  userCtx : U64
  src : Option Sge
  dst : Option Sge

structure JfrWr where
  userCtx : U64
  src : Option Sge

inductive Status where
  | success
  | eagain
  | einval
  | enomem
  deriving DecidableEq

/-- The answers of `malloc`, of the two calls of `openurma_nic_submit_wr` and of
`openurma_nic_data_send`. -/
structure Outcome where
  malloc : Bool
  submitMeta : Bool
  submitExt : Bool
  send : Bool

/-- What the opcode decides: the record of the request and its frame. -/
structure Prepared where
  len : U32
  localVa : U64
  req : U32
  side : Option DataFrame

def Ctx.takeNumber (c : Ctx) : Ctx := { c with reqSeq := c.reqSeq + 1 }

section

variable (c : Ctx) (memory : ByteMap) (wr : JfsWr) (malloc : Bool)

/-- The case `URMA_OPC_WRITE`, `URMA_OPC_WRITE_IMM`. -/
def prepareWrite : Ctx × Except Status Prepared :=
  let rva := (wr.dst.map Sge.addr).getD 0
  let len := (wr.src.map Sge.len).getD 0
  let tid := (wr.dst.bind Sge.token).getD 0
  let sva := (wr.src.map Sge.addr).getD 0
  if sva == 0 || len == 0 then (c, .error .einval)
  else if len > maxDataFrameBody - 20 then (c.takeNumber, .error .einval)
  else if !malloc then (c.takeNumber, .error .enomem)
  else
    (c.takeNumber, .ok {
      len := len
      localVa := 0
      req := c.reqSeq
      side := some ⟨dWrite, wordOctets rva ++ u32Octets tid ++ u32Octets len ++
        u32Octets c.reqSeq ++ memory.load ⟨sva, len.toNat⟩⟩ })

/-- The case `URMA_OPC_READ`; the number is taken before the checks. -/
def prepareRead : Ctx × Except Status Prepared :=
  let rva := (wr.src.map Sge.addr).getD 0
  let len := (wr.dst.map Sge.len).getD 0
  let tid := (wr.src.bind Sge.token).getD 0
  let lva := (wr.dst.map Sge.addr).getD 0
  if lva == 0 || len == 0 || len > maxDataFrameBody - 12 then (c.takeNumber, .error .einval)
  else if !malloc then (c.takeNumber, .error .enomem)
  else
    (c.takeNumber, .ok {
      len := len
      localVa := lva
      req := c.reqSeq
      side := some ⟨dReadRq, wordOctets rva ++ u32Octets tid ++ u32Octets len ++
        u32Octets c.reqSeq ++ u32Octets c.localCna⟩ })

/-- The case `URMA_OPC_SEND`, `URMA_OPC_SEND_IMM`, which has no number. -/
def prepareSend : Ctx × Except Status Prepared :=
  let len := (wr.src.map Sge.len).getD 0
  let sva := (wr.src.map Sge.addr).getD 0
  if sva == 0 || len == 0 || len > maxDataFrameBody - 8 then (c, .error .einval)
  else if !malloc then (c, .error .enomem)
  else
    (c, .ok {
      len := len
      localVa := 0
      req := 0
      side := some ⟨dSend, u32Octets c.remote ++ u32Octets len ++
        memory.load ⟨sva, len.toNat⟩⟩ })

def prepare : Ctx × Except Status Prepared :=
  match wr.opcode with
  | .write | .writeImm => prepareWrite c memory wr malloc
  | .read => prepareRead c wr malloc
  | .send | .sendImm => prepareSend c memory wr malloc
  | .cas | .other => (c, .ok { len := 8, localVa := 0, req := 0, side := none })

end

/-- A request that has been posted; `queued` tells whether its frame could be sent. -/
structure Posted where
  userCtx : U64
  op : Opcode
  len : U32
  req : U32
  queued : Bool
  deriving DecidableEq

/-- The result of a call: its status, the frames sent and the request recorded. -/
structure Posting where
  status : Status
  sent : List DataFrame := []
  posted : Option Posted := none

def ouPostOne (c : Ctx) (memory : ByteMap) (wr : JfsWr) (o : Outcome) : Ctx × Posting :=
  if c.jetty.Full then (c, { status := .eagain })
  else
    match prepare c memory wr o.malloc with
    | (c, .error status) => (c, { status := status })
    | (c, .ok p) =>
      if !(o.submitMeta && o.submitExt) then (c, { status := .eagain })
      else
        -- the record overwrites every field but the status
        let ring := c.jetty.push {
          c.jetty.cells c.jetty.tail with
          userCtx := wr.userCtx, op := wr.opcode, len := p.len, localVa := p.localVa
          req := p.req, waited := 0 }
        let posted (queued : Bool) : Posted := ⟨wr.userCtx, wr.opcode, p.len, p.req, queued⟩
        match p.side with
        | none => ({ c with jetty := ring }, { status := .success, posted := posted true })
        | some frame =>
          if o.send then
            ({ c with jetty := ring },
              { status := .success, sent := [frame], posted := posted true })
          else
            let slot := ring.last
            let failed := { ring.cells slot with status := crAckTimeoutErr, req := 0 }
            ({ c with jetty := ring.write slot failed },
              { status := .success, posted := posted false })

def ouPostJettyRecvWr (c : Ctx) (w : JfrWr) : Ctx × Status :=
  if c.jfr.Full then (c, .eagain)
  else
    ({ c with jfr := c.jfr.push {
        buf := (w.src.map Sge.addr).getD 0
        len := (w.src.map Sge.len).getD 0
        userCtx := w.userCtx } }, .success)

def Opcode.numbered (op : Opcode) : Bool := op == .write || op == .writeImm || op == .read

def Ctx.numbered (c : Ctx) (op : Opcode) : Ctx := if op.numbered then c.takeNumber else c

inductive Decides (c : Ctx) (op : Opcode) : Ctx × Except Status Prepared → Prop where
  | error {c' : Ctx} {status : Status} (failed : status ≠ .success)
      (after : c' = c ∨ c' = c.numbered op) : Decides c op (c', .error status)
  | ok {p : Prepared} (req : p.req = if op.numbered then c.reqSeq else 0)
      (localVa : p.localVa ≠ 0 ↔ op = .read) (side : op.numbered = true → p.side ≠ none) :
      Decides c op (c.numbered op, .ok p)

section

variable (c : Ctx) (memory : ByteMap) (wr : JfsWr) (malloc : Bool)

theorem decides_write (write : wr.opcode = .write ∨ wr.opcode = .writeImm) :
    Decides c wr.opcode (prepareWrite c memory wr malloc) := by
  have number : wr.opcode.numbered = true := by rcases write with op | op <;> rw [op] <;> rfl
  have after : c.numbered wr.opcode = c.takeNumber := if_pos number
  have other : wr.opcode ≠ .read := by rcases write with op | op <;> simp [op]
  unfold prepareWrite
  rw [← after]
  dsimp only
  split
  · exact .error (by simp) (.inl rfl)
  · split
    · exact .error (by simp) (.inr rfl)
    · split
      · exact .error (by simp) (.inr rfl)
      · exact .ok (if_pos number).symm (by simp [other]) (by simp)

theorem decides_read (read : wr.opcode = .read) :
    Decides c wr.opcode (prepareRead c wr malloc) := by
  have number : wr.opcode.numbered = true := by rw [read]; rfl
  have after : c.numbered wr.opcode = c.takeNumber := if_pos number
  unfold prepareRead
  rw [← after]
  dsimp only
  split
  · exact .error (by simp) (.inr rfl)
  · next checked =>
    simp only [Bool.or_eq_true, not_or, beq_iff_eq] at checked
    split
    · exact .error (by simp) (.inr rfl)
    · exact .ok (if_pos number).symm ⟨fun _ => read, fun _ => checked.1.1⟩ (by simp)

theorem decides_send (send : wr.opcode = .send ∨ wr.opcode = .sendImm) :
    Decides c wr.opcode (prepareSend c memory wr malloc) := by
  have number : wr.opcode.numbered = false := by rcases send with op | op <;> rw [op] <;> rfl
  have after : c.numbered wr.opcode = c := if_neg (by simp [number])
  have other : wr.opcode ≠ .read := by rcases send with op | op <;> simp [op]
  have ok : ∀ {p : Prepared}, p.req = 0 → p.localVa = 0 → Decides c wr.opcode (c, .ok p) := by
    intro p req localVa
    have decides : Decides c wr.opcode (c.numbered wr.opcode, .ok p) :=
      .ok (by simp [req, number]) (by simp [localVa, other]) (by simp [number])
    rwa [after] at decides
  unfold prepareSend
  dsimp only
  split
  · exact .error (by simp) (.inl rfl)
  · split
    · exact .error (by simp) (.inl rfl)
    · exact ok rfl rfl

theorem decides : Decides c wr.opcode (prepare c memory wr malloc) := by
  unfold prepare
  cases op : wr.opcode with
  | write => simpa only [op] using decides_write c memory wr malloc (.inl op)
  | writeImm => simpa only [op] using decides_write c memory wr malloc (.inr op)
  | read => simpa only [op] using decides_read c wr malloc op
  | send => simpa only [op] using decides_send c memory wr malloc (.inl op)
  | sendImm => simpa only [op] using decides_send c memory wr malloc (.inr op)
  | cas => exact .ok rfl (by simp) (by simp [Opcode.numbered])
  | other => exact .ok rfl (by simp) (by simp [Opcode.numbered])

end

def Posted.record (p : Posted) (localVa : U64) (status : U32) : Out where
  userCtx := p.userCtx
  op := p.op
  len := p.len
  localVa := localVa
  req := if p.queued then p.req else 0
  waited := 0
  status := if p.queued then status else crAckTimeoutErr

inductive Posts (c : Ctx) (wr : JfsWr) : Ctx × Posting → Prop where
  | refused {c' : Ctx} {status : Status} (failed : status ≠ .success)
      (after : c' = c ∨ c' = c.numbered wr.opcode) : Posts c wr (c', { status := status })
  | recorded {sent : List DataFrame} {p : Posted} {localVa : U64} (room : ¬c.jetty.Full)
      (userCtx : p.userCtx = wr.userCtx) (op : p.op = wr.opcode)
      (req : p.req = if wr.opcode.numbered then c.reqSeq else 0)
      (read : localVa ≠ 0 ↔ wr.opcode = .read) :
      Posts c wr ({ c.numbered wr.opcode with
          jetty := c.jetty.push (p.record localVa (c.jetty.cells c.jetty.tail).status) },
        { status := .success, sent := sent, posted := some p })

theorem jetty_numbered (c : Ctx) (op : Opcode) : (c.numbered op).jetty = c.jetty := by
  unfold Ctx.numbered
  split <;> rfl

theorem pendingWriteAck_numbered (c : Ctx) (op : Opcode) :
    (c.numbered op).pendingWriteAck = c.pendingWriteAck := by
  unfold Ctx.numbered
  split <;> rfl

theorem posts (c : Ctx) (memory : ByteMap) (wr : JfsWr) (o : Outcome) :
    Posts c wr (ouPostOne c memory wr o) := by
  unfold ouPostOne
  split
  · exact .refused (by simp) (.inl rfl)
  · next room =>
    have prepared := decides c memory wr o.malloc
    generalize prepare c memory wr o.malloc = result at prepared ⊢
    cases prepared with
    | error failed after => exact .refused failed after
    | @ok p req localVa side =>
      dsimp only
      split
      · exact .refused (by simp) (.inr rfl)
      · rw [jetty_numbered]
        have recorded : ∀ (queued : Bool) (sent : List DataFrame), Posts c wr (
            { c.numbered wr.opcode with
              jetty := c.jetty.push (Posted.record ⟨wr.userCtx, wr.opcode, p.len, p.req, queued⟩
                p.localVa (c.jetty.cells c.jetty.tail).status) },
            { status := .success, sent := sent
              posted := some ⟨wr.userCtx, wr.opcode, p.len, p.req, queued⟩ }) :=
          fun queued sent => .recorded room rfl rfl req localVa
        split
        · exact recorded true []
        · next frame _ =>
          split
          · exact recorded true [frame]
          · rw [Ring.cells_last_push, Ring.push_write_last]
            exact recorded false []

end OpenURMA.Provider
