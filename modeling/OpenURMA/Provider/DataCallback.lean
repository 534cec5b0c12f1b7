import OpenURMA.Library.Machine
import OpenURMA.Provider.Context

/-!
# Inbound data frames

`ou_data_cb` handles the frames of the data side-channel. A frame is an array of `flen` octets; to
read beyond these is a fault, and the model of the callback has no result then. What it writes to
and reads from the memory of the application and what it sends is recorded.
-/

namespace OpenURMA.Provider

open Library BitVec Option

/-- Octets of a frame, if it has them. -/
def fetch (flen : U32) (buf : Buffer) (offset count : ℕ) : Option (List Byte) :=
  (buf.view flen.toNat offset count).map (·.slice offset count)

theorem fetch_of_le {flen : U32} {buf : Buffer} {offset count : ℕ}
    (inside : offset + count ≤ flen.toNat) :
    fetch flen buf offset count = some (buf.slice offset count) := by
  rw [fetch, Buffer.view_of_le inside, map_some, Buffer.slice_window]

def u32Of (octets : List Byte) : U32 := (littleEndian octets).setWidth 32

def fetchU32 (flen : U32) (buf : Buffer) (offset : ℕ) : Option U32 :=
  (fetch flen buf offset 4).map u32Of

def fetchU64 (flen : U32) (buf : Buffer) (offset : ℕ) : Option U64 :=
  (fetch flen buf offset 8).map littleEndian

def u32At (buf : Buffer) (offset : ℕ) : U32 := u32Of (buf.slice offset 4)

def u64At (buf : Buffer) (offset : ℕ) : U64 := littleEndian (buf.slice offset 8)

section

variable {flen : U32} {buf : Buffer} {offset : ℕ}

theorem fetchU32_of_le (inside : offset + 4 ≤ flen.toNat) :
    fetchU32 flen buf offset = some (u32At buf offset) := by
  rw [fetchU32, fetch_of_le inside]
  rfl

theorem fetchU64_of_le (inside : offset + 8 ≤ flen.toNat) :
    fetchU64 flen buf offset = some (u64At buf offset) := by
  rw [fetchU64, fetch_of_le inside]
  rfl

end

/-- The context, what has been written to and read from the application's memory, the frames sent,
and the completions of receives. -/
structure Handled where
  ctx : Ctx
  writes : List Copy := []
  loads : List Span := []
  sent : List DataFrame := []
  placed : List Cr := []

def ouMalformed (c : Ctx) : Handled :=
  { ctx := { c with malformedFrames := c.malformedFrames + 1 } }

def copied (len room : U32) : U32 := if len < room then len else room

theorem copied_le_len (len room : U32) : (copied len room).toNat ≤ len.toNat := by
  unfold copied
  split <;> bv_omega

theorem copied_le_room (len room : U32) : (copied len room).toNat ≤ room.toNat := by
  unfold copied
  split <;> bv_omega

section

variable (c : Ctx) (memory : ByteMap) (buf : Buffer) (flen : U32)

/-- The case `D_WRITE`. -/
def onWrite : Option Handled :=
  if flen < 20 then some (ouMalformed c)
  else do
    let va ← fetchU64 flen buf 0
    let token ← fetchU32 flen buf 8
    let len ← fetchU32 flen buf 12
    let req ← fetchU32 flen buf 16
    if len ≤ flen - 20 && ouRegionValidLocked c va len token then
      let octets ← fetch flen buf 20 len.toNat
      some {
        ctx := c
        writes := [⟨va, octets⟩]
        sent := [⟨dWriteAck, u32Octets req ++ u32Octets 0⟩] }
    else
      some { ctx := c, sent := [⟨dWriteAck, u32Octets req ++ u32Octets crRemAccessAbortErr⟩] }

def Out.answer (e : Out) (status : U32) : Out := { e with status := status, req := 0 }

/-- The slot of `pending_write_ack` for a request number. -/
def ackSlot (req : U32) : Fin maxOut := ⟨req.toNat % maxOut, Nat.mod_lt _ (by decide)⟩

def awaitsAck (req : U32) (e : Out) : Bool := e.req == req && e.op == .write

/-- The case `D_WRITEACK`. -/
def onWriteAck : Option Handled :=
  if flen < 8 then some (ouMalformed c)
  else do
    let req ← fetchU32 flen buf 0
    let status ← fetchU32 flen buf 4
    match c.jetty.find (awaitsAck req) maxOut with
    | some i =>
      some { ctx := { c with jetty := c.jetty.write i ((c.jetty.cells i).answer status) } }
    | none =>
      let pending := Function.update c.pendingWriteAck (ackSlot req) ⟨req, status, true⟩
      some { ctx := { c with pendingWriteAck := pending } }

/-- The case `D_SEND`.  The receive is taken and completed if there is one and the JFC has
room. -/
def onSend : Option Handled :=
  if flen < 8 then some (ouMalformed c)
  else do
    let _dst ← fetchU32 flen buf 0
    let len ← fetchU32 flen buf 4
    if len > flen - 8 then some (ouMalformed c)
    else if !decide c.jfr.Empty && !decide c.jfc.Full then
      let r := c.jfr.front
      let cp := copied len r.len
      let cr : Cr := { status := crSuccess, completionLen := cp, userCtx := r.userCtx }
      let c := { c with jfr := c.jfr.pop, jfc := c.jfc.push cr }
      if cp != 0 && r.buf != 0 then
        let octets ← fetch flen buf 8 cp.toNat
        some { ctx := c, writes := [⟨r.buf, octets⟩], placed := [cr] }
      else some { ctx := c, placed := [cr] }
    else some { ctx := c }

/-- The case `D_READRQ`; `malloc` holds the outcomes of the two calls. -/
def onReadRq (malloc : Bool × Bool) : Option Handled :=
  if flen < 24 then some (ouMalformed c)
  else do
    let va ← fetchU64 flen buf 0
    let token ← fetchU32 flen buf 8
    let len ← fetchU32 flen buf 12
    let req ← fetchU32 flen buf 16
    let _scna ← fetchU32 flen buf 20
    let valid := len ≤ maxDataFrameBody - 12 && ouRegionValidLocked c va len token
    let responseLen := if valid && malloc.1 then len else 0
    let status := if !malloc.1 then crRemOperationErr else if valid then 0 else crRemAccessAbortErr
    if !malloc.1 && !malloc.2 then some { ctx := c }
    else
      let loaded := if valid then memory.load ⟨va, responseLen.toNat⟩ else []
      some {
        ctx := c
        loads := if valid then [⟨va, responseLen.toNat⟩] else []
        sent := [⟨dReadRsp, u32Octets req ++ u32Octets responseLen ++ u32Octets status ++ loaded⟩] }

def awaitsResponse (req : U32) (e : Out) : Bool := e.req == req && e.localVa != 0

def responseStatus (e : Out) (len status : U32) : U32 :=
  if status == 0 && (len != e.len || len > flen - 12) then crRemRespLenErr else status

/-- The case `D_READRSP`. -/
def onReadRsp : Option Handled :=
  if flen < 12 then some (ouMalformed c)
  else do
    let req ← fetchU32 flen buf 0
    let len ← fetchU32 flen buf 4
    let status ← fetchU32 flen buf 8
    match c.jetty.find (awaitsResponse req) maxOut with
    | some i =>
      let e := c.jetty.cells i
      let cp := copied len e.len
      let status := responseStatus flen e len status
      let c := { c with jetty := c.jetty.write i (e.answer status) }
      if status == 0 && cp != 0 then
        let octets ← fetch flen buf 12 cp.toNat
        some { ctx := c, writes := [⟨e.localVa, octets⟩] }
      else some { ctx := c }
    | none => some { ctx := c }

def ouDataCb (tag : U8) (malloc : Bool × Bool) : Option Handled :=
  if tag = dWrite then onWrite c buf flen
  else if tag = dWriteAck then onWriteAck c buf flen
  else if tag = dSend then onSend c buf flen
  else if tag = dReadRq then onReadRq c memory buf flen malloc
  else if tag = dReadRsp then onReadRsp c buf flen
  else some (ouMalformed c)

end

theorem responseStatus_eq_zero_iff {flen len status : U32} {e : Out} :
    responseStatus flen e len status = 0 ↔ status = 0 ∧ len = e.len ∧ len ≤ flen - 12 := by
  have error : crRemRespLenErr ≠ 0 := by decide
  unfold responseStatus
  split
  · next wrong =>
    obtain ⟨ok, wrong⟩ : status = 0 ∧ (len ≠ e.len ∨ len > flen - 12) := by simpa using wrong
    refine ⟨fun zero => absurd zero error, fun ⟨_, same, there⟩ => ?_⟩
    rcases wrong with differ | beyond
    · exact absurd same differ
    · exact absurd there (BitVec.not_le.mpr beyond)
  · next right =>
    refine ⟨fun zero => ⟨zero, ?_⟩, fun ok => ok.1⟩
    simpa [zero] using right

variable (c : Ctx) (memory : ByteMap) (buf : Buffer) (flen : U32)

/-- What the callback can make of a frame with a tag. -/
inductive Handles : U8 → Handled → Prop where
  | malformed {tag : U8} (ack : tag = dWriteAck → flen.toNat < 8)
      (response : tag = dReadRsp → flen.toNat < 12) : Handles tag (ouMalformed c)
  | written {ack : List Byte}
      (valid : ouRegionValidLocked c (u64At buf 0) (u32At buf 12) (u32At buf 8) = true) :
      Handles dWrite {
        ctx := c
        writes := [⟨u64At buf 0, buf.slice 20 (u32At buf 12).toNat⟩]
        sent := [⟨dWriteAck, ack⟩] }
  | notWritten {ack : List Byte} : Handles dWrite { ctx := c, sent := [⟨dWriteAck, ack⟩] }
  | acked {i : Fin maxOut} (long : 8 ≤ flen.toNat)
      (found : c.jetty.find (awaitsAck (u32At buf 0)) maxOut = some i) :
      Handles dWriteAck {
        ctx := { c with jetty := c.jetty.write i ((c.jetty.cells i).answer (u32At buf 4)) } }
  | unmatched (long : 8 ≤ flen.toNat)
      (missing : c.jetty.find (awaitsAck (u32At buf 0)) maxOut = none) :
      Handles dWriteAck {
        ctx := { c with
          pendingWriteAck := Function.update c.pendingWriteAck (ackSlot (u32At buf 0))
            ⟨u32At buf 0, u32At buf 4, true⟩ } }
  | received {cr : Cr} {writes : List Copy} (waiting : ¬c.jfr.Empty) (room : ¬c.jfc.Full)
      (inside : ∀ copy ∈ writes, copy.address = c.jfr.front.buf ∧
        copy.octets.length ≤ c.jfr.front.len.toNat ∧ copy.octets.length ≤ (u32At buf 4).toNat) :
      Handles dSend {
        ctx := { c with jfr := c.jfr.pop, jfc := c.jfc.push cr }
        writes := writes
        placed := [cr] }
  | dropped : Handles dSend { ctx := c }
  | served {header : List Byte} {len : ℕ} (size : header.length = 12)
      (short : len ≤ (u32At buf 12).toNat)
      (valid : ouRegionValidLocked c (u64At buf 0) (u32At buf 12) (u32At buf 8) = true) :
      Handles dReadRq {
        ctx := c
        loads := [⟨u64At buf 0, len⟩]
        sent := [⟨dReadRsp, header ++ memory.load ⟨u64At buf 0, len⟩⟩] }
  | notServed {header : List Byte} (size : header.length = 12) :
      Handles dReadRq { ctx := c, sent := [⟨dReadRsp, header⟩] }
  | silent : Handles dReadRq { ctx := c }
  | answered {i : Fin maxOut} {writes : List Copy} (long : 12 ≤ flen.toNat)
      (found : c.jetty.find (awaitsResponse (u32At buf 0)) maxOut = some i)
      (inside : ∀ copy ∈ writes, copy.address = (c.jetty.cells i).localVa ∧
        copy.octets.length ≤ (c.jetty.cells i).len.toNat) :
      Handles dReadRsp {
        ctx := { c with
          jetty := c.jetty.write i ((c.jetty.cells i).answer
            (responseStatus flen (c.jetty.cells i) (u32At buf 4) (u32At buf 8))) }
        writes := writes }
  | stray (missing : c.jetty.find (awaitsResponse (u32At buf 0)) maxOut = none) :
      Handles dReadRsp { ctx := c }

theorem handles_malformed {tag : U8} (other : tag ≠ dWriteAck) (another : tag ≠ dReadRsp) :
    Handles c memory buf flen tag (ouMalformed c) :=
  .malformed (fun ack => absurd ack other) fun response => absurd response another

theorem handles_write : ∃ h, onWrite c buf flen = some h ∧ Handles c memory buf flen dWrite h := by
  unfold onWrite
  split
  · exact ⟨_, rfl, handles_malformed _ _ _ _ (by decide) (by decide)⟩
  · next short =>
    have long : 20 ≤ flen.toNat := by simpa [lt_def] using short
    rw [fetchU64_of_le (by omega), fetchU32_of_le (by omega), fetchU32_of_le (by omega),
      fetchU32_of_le (by omega)]
    simp only [bind_eq_bind, bind_some]
    split
    · next valid =>
      simp only [Bool.and_eq_true, decide_eq_true_eq] at valid
      have fits : 20 + (u32At buf 12).toNat ≤ flen.toNat := by bv_omega
      rw [fetch_of_le fits, bind_some]
      exact ⟨_, rfl, .written valid.2⟩
    · exact ⟨_, rfl, .notWritten⟩

theorem handles_writeAck :
    ∃ h, onWriteAck c buf flen = some h ∧ Handles c memory buf flen dWriteAck h := by
  unfold onWriteAck
  split
  · next short =>
    have few : flen.toNat < 8 := by simpa [lt_def] using short
    exact ⟨_, rfl, .malformed (fun _ => few) fun response => absurd response (by decide)⟩
  · next short =>
    have long : 8 ≤ flen.toNat := by simpa [lt_def] using short
    rw [fetchU32_of_le (by omega), fetchU32_of_le (by omega)]
    simp only [bind_eq_bind, bind_some]
    split
    · next i found => exact ⟨_, rfl, .acked long found⟩
    · next missing => exact ⟨_, rfl, .unmatched long missing⟩

theorem handles_send : ∃ h, onSend c buf flen = some h ∧ Handles c memory buf flen dSend h := by
  unfold onSend
  split
  · exact ⟨_, rfl, handles_malformed _ _ _ _ (by decide) (by decide)⟩
  · next short =>
    have long : 8 ≤ flen.toNat := by simpa [lt_def] using short
    rw [fetchU32_of_le (by omega), fetchU32_of_le (by omega)]
    simp only [bind_eq_bind, bind_some]
    split
    · exact ⟨_, rfl, handles_malformed _ _ _ _ (by decide) (by decide)⟩
    · next fits =>
      split
      · next takes =>
        obtain ⟨waiting, room⟩ : ¬c.jfr.Empty ∧ ¬c.jfc.Full := by simpa using takes
        split
        · have there := copied_le_len (u32At buf 4) c.jfr.front.len
          have fits : 8 + (copied (u32At buf 4) c.jfr.front.len).toNat ≤ flen.toNat := by
            bv_omega
          rw [fetch_of_le fits, bind_some]
          refine ⟨_, rfl, .received waiting room fun copy member => ?_⟩
          obtain rfl := List.mem_singleton.mp member
          rw [Buffer.slice_length]
          exact ⟨rfl, copied_le_room .., there⟩
        · exact ⟨_, rfl, .received waiting room (by simp)⟩
      · exact ⟨_, rfl, .dropped⟩

theorem handles_readRq (malloc : Bool × Bool) :
    ∃ h, onReadRq c memory buf flen malloc = some h ∧ Handles c memory buf flen dReadRq h := by
  unfold onReadRq
  split
  · exact ⟨_, rfl, handles_malformed _ _ _ _ (by decide) (by decide)⟩
  · next short =>
    have long : 24 ≤ flen.toNat := by simpa [lt_def] using short
    rw [fetchU64_of_le (by omega), fetchU32_of_le (by omega), fetchU32_of_le (by omega),
      fetchU32_of_le (by omega), fetchU32_of_le (by omega)]
    simp only [bind_eq_bind, bind_some]
    split
    · exact ⟨_, rfl, .silent⟩
    · cases valid : decide (u32At buf 12 ≤ maxDataFrameBody - 12) &&
          ouRegionValidLocked c (u64At buf 0) (u32At buf 12) (u32At buf 8) with
      | true =>
        refine ⟨_, rfl, .served (by simp) ?_ (Bool.and_eq_true_iff.mp valid).2⟩
        cases malloc.1 <;> simp
      | false => exact ⟨_, rfl, .notServed (by simp)⟩

theorem handles_readRsp :
    ∃ h, onReadRsp c buf flen = some h ∧ Handles c memory buf flen dReadRsp h := by
  unfold onReadRsp
  split
  · next short =>
    have few : flen.toNat < 12 := by simpa [lt_def] using short
    exact ⟨_, rfl, .malformed (fun ack => absurd ack (by decide)) fun _ => few⟩
  · next short =>
    have long : 12 ≤ flen.toNat := by simpa [lt_def] using short
    rw [fetchU32_of_le (by omega), fetchU32_of_le (by omega), fetchU32_of_le (by omega)]
    simp only [bind_eq_bind, bind_some]
    split
    · next i found =>
      split
      · next copies =>
        -- the status is still zero, so the response is as long as the buffer
        simp only [Bool.and_eq_true, beq_iff_eq] at copies
        have whole := responseStatus_eq_zero_iff.mp copies.1
        have there := copied_le_len (u32At buf 4) (c.jetty.cells i).len
        have fits : 12 + (copied (u32At buf 4) (c.jetty.cells i).len).toNat ≤
            flen.toNat := by bv_omega
        rw [fetch_of_le fits, bind_some]
        refine ⟨_, rfl, .answered long found fun copy member => ?_⟩
        obtain rfl := List.mem_singleton.mp member
        rw [Buffer.slice_length]
        exact ⟨rfl, copied_le_room ..⟩
      · exact ⟨_, rfl, .answered long found (by simp)⟩
    · next missing => exact ⟨_, rfl, .stray missing⟩

theorem handles (tag : U8) (malloc : Bool × Bool) :
    ∃ h, ouDataCb c memory buf flen tag malloc = some h ∧ Handles c memory buf flen tag h := by
  unfold ouDataCb
  split_ifs with write ack send request response
  · exact write ▸ handles_write c memory buf flen
  · exact ack ▸ handles_writeAck c memory buf flen
  · exact send ▸ handles_send c memory buf flen
  · exact request ▸ handles_readRq c memory buf flen malloc
  · exact response ▸ handles_readRsp c memory buf flen
  · exact ⟨_, rfl, handles_malformed _ _ _ _ ack response⟩

end OpenURMA.Provider
