import OpenURMA.Nic.Doorbell

/-!
# Receive buffers

A receive is posted with the address and the length of its buffer, but the descriptor that reaches
the NIC has the address only.  A SEND is delivered to the address with the length of the SEND: it
stays inside the buffer if it is no longer than the buffer.
-/

namespace OpenURMA.Nic

open Library Function Attempt DmaCall Effect BitVec Nat List
open BitVec (ofNat)

/-- The receive that the NIC makes of the descriptor of `ou_ring_recv`. -/
def ringRecv (ctx : ℕ) (jettyId recvJfc : U32) (w : JfrWr) : Recv :=
  decodeRecv ctx (Buffer.blit (fun _ => 0) 0 ((recvLanes jettyId recvJfc w).flatMap wordOctets))

section

variable {ctx : ℕ} {jettyId recvJfc : U32} {w : JfrWr}

theorem decodeRecv_lanes (buffer : Buffer) :
    decodeRecv ctx (buffer.blit 0 ((recvLanes jettyId recvJfc w).flatMap wordOctets)) =
      ⟨jettyId, sgeToken w.src, sgeAddr w.src, w.userCtx, ctx, recvJfc⟩ := by
  have lane (k : ℕ) (inside : k < 8) :
      wordAt (buffer.blit 0 ((recvLanes jettyId recvJfc w).flatMap wordOctets)) (8 * k) =
        (recvLanes jettyId recvJfc w).getD k 0 :=
    wordAt_lanes (by simpa [recvLanes] using inside)
  simp only [decodeRecv, lane 0 (by omega), lane 1 (by omega), lane 2 (by omega),
    lane 3 (by omega), lane 4 (by omega)]
  simp [recvLanes]

theorem ringRecv_eq : ringRecv ctx jettyId recvJfc w =
    ⟨jettyId, sgeToken w.src, sgeAddr w.src, w.userCtx, ctx, recvJfc⟩ :=
  decodeRecv_lanes _

theorem mmioB_recv (d : Device) (known : ctx < 64) {i : ℕ} (small : i < 8) (word : U64) :
    mmioB d ⟨ctxBase ctx + 0x80 + 8 * i, word⟩ = d.recvDb ctx (8 * i) word := by
  have context : (ctx * 0x100 + 0x80 + 8 * i) / 0x100 = ctx := by omega
  have offset : (ctx * 0x100 + 0x80 + 8 * i) % 0x100 = 0x80 + 8 * i := by omega
  have start : 0x80 + 8 * i - 0x80 = 8 * i := by omega
  rw [mmioB, ctxBase]
  simp only [context, offset, start]
  rw [if_neg (by omega), if_pos (by omega), if_neg (by omega), if_pos (by omega)]

theorem Device.collects_recv (d : Device) (known : ctx < 64) : Collects mmioB (ctxBase ctx + 0x80)
      (fun buffer => { d with recvDbAssembly := update d.recvDbAssembly ctx buffer })
      (fun buffer =>
        ({ d with
            node := (recvDoorbell d.node (decodeRecv ctx buffer)).1
            recvDbAssembly := update d.recvDbAssembly ctx fun _ => 0 },
          ⟨none, (recvDoorbell d.node (decodeRecv ctx buffer)).2⟩))
      {} where
  early buffer i word small := by
    have early : ¬8 * i + 8 = 64 := by omega
    rw [mmioB_recv _ known (by omega)]
    simp only [recvDb, update_self, update_idem, if_neg early]
  last buffer word := by
    rw [mmioB_recv _ known (by omega)]
    simp only [recvDb, update_self, update_idem, Nat.reduceMul, Nat.reduceAdd, if_true]

theorem mmioB_ouRingRecv (d : Device) (known : ctx < 64) :
    Mealy.final mmioB d (ouRingRecv ctx jettyId recvJfc w) = { d with
        node := (recvDoorbell d.node (ringRecv ctx jettyId recvJfc w)).1
        recvDbAssembly := update d.recvDbAssembly ctx fun _ => 0 } := by
  obtain ⟨_, final⟩ := (d.collects_recv known).run (d.recvDbAssembly ctx)
    (show (recvLanes jettyId recvJfc w).length = 8 from rfl)
  rw [update_eq_self, decodeRecv_lanes, ← ringRecv_eq] at final
  exact final

end

/-- What a call writes are octets of a range, translated for the region of a token. -/
def Lands (g : Guest) (tok : U32) (va : U64) (len : ℕ) (call : DmaCall) : Prop :=
  ∀ p, call.Writes p → ∃ m, g.mrTable tok = some m ∧
    ∃ i < len, ouWalk g.backing call.memory m.ttbr0 (va + ofNat 64 i) = p

variable {offset : ℕ}

section

variable {g : Guest} {pi : Bool} {tok srcTok : U32} {va srcVa : U64} {len : ℕ}

theorem ouDmaMr_read_lands (count : ℕ) (memory : ByteMap) :
    Obeys (Lands g tok va len) Writes (ouDmaMr g srcTok srcVa (.read count)) memory := by
  cases region : g.mrTable srcTok with
  | none =>
    rw [ouDmaMr, region]
    exact .fail _
  | some m =>
    refine (ouDmaMr_obeys region srcVa (.read count) memory).mono fun call follows p writes => ?_
    have read : call.io.isWrite = false := follows.1
    rw [writes.1] at read
    cases read

theorem ouDmaMr_write_lands {octets : List Byte} (within : offset + octets.length ≤ len)
    (memory : ByteMap) :
    Obeys (Lands g tok va len) Writes
      (ouDmaMr g tok (va + ofNat 64 offset) (.write octets)) memory := by
  cases region : g.mrTable tok with
  | none =>
    rw [ouDmaMr, region]
    exact .fail _
  | some m =>
    refine (ouDmaMr_obeys region _ (.write octets) memory).mono fun call follows p writes => ?_
    obtain ⟨i, small, place⟩ := follows.translates writes.2
    rw [add_assoc, ← ofNat_add] at place
    change i < octets.length at small
    exact ⟨m, region, offset + i, by omega, place⟩

theorem routeChunk_lands (src : List Byte) {done clen : ℕ} (within : done + clen ≤ len)
    (memory : ByteMap) :
    Obeys (Lands g tok va len) Writes (routeChunk g src tok va done clen) memory := by
  have short : done + ((src.drop done).take clen).length ≤ len := by
    have bound := length_take_le clen (src.drop done)
    omega
  exact (ouDmaMr_write_lands short memory).bind fun _ _ => .pure _ _

theorem ouPipeRoute_lands (src : List Byte) (memory : ByteMap) :
    Obeys (Lands g tok va len) Writes (ouPipeRoute g pi src tok va len) memory := by
  unfold ouPipeRoute
  split
  · exact .fail _
  · exact .inChunks (fun done clen within => routeChunk_lands src within) (le_of_eq (zero_add len))
      memory

theorem copyChunk_lands {chunk : ℕ} (within : offset + chunk ≤ len) (memory : ByteMap) :
    Obeys (Lands g tok va len) Writes (copyChunk g tok va srcTok srcVa offset chunk) memory := by
  refine (ouDmaMr_read_lands chunk memory).bind fun buf read => ?_
  have length : buf.length = chunk := by
    obtain ⟨m, _, rfl⟩ := ouDmaMr_read_worked read
    exact gatherAt_length ..
  exact (ouDmaMr_write_lands (by omega) _).bind fun _ _ => .pure _ _

theorem ouCopyMr_lands (memory : ByteMap) :
    Obeys (Lands g tok va len) Writes (ouCopyMr g tok va srcTok srcVa len) memory :=
  .inChunks (fun _ _ within => copyChunk_lands within) (le_of_eq (zero_add len)) memory

theorem ouPipeCopy_lands (memory : ByteMap) :
    Obeys (Lands g tok va len) Writes (ouPipeCopy g pi tok va srcTok srcVa len) memory := by
  unfold ouPipeCopy
  split
  · exact .fail _
  · exact (ouDmaMr_read_lands len memory).bind fun buf _ => ouPipeRoute_lands buf _

theorem deliverPayload_lands (n : Node) (s : Send) (r : Recv) (memory : ByteMap) :
    Obeys (Lands n.guest r.tok r.va s.len.toNat) Writes (deliverPayload n s r) memory := by
  unfold deliverPayload
  split
  · exact .fail _
  · exact (ouPipeCopy_lands memory).orElse (ouCopyMr_lands _)

theorem landPayload_lands (n : Node) (payload : List Byte) (memory : ByteMap) :
    Obeys (Lands n.guest tok va len) Writes (landPayload n payload tok va len) memory := by
  have short : 0 + (payload.take len).length ≤ len := by
    have bound := length_take_le len payload
    omega
  have direct (memory : ByteMap) : Obeys (Lands n.guest tok va len) Writes
      (ouDmaMr n.guest tok (va + ofNat 64 0) (.write (payload.take len))) memory :=
    ouDmaMr_write_lands short memory
  rw [BitVec.add_zero] at direct
  exact (ouPipeRoute_lands payload memory).orElse ((direct _).bind fun _ _ => .pure _ _)

end

/-- A SEND or SEND_IMM that the NIC matches with a receive: its length, and the step that delivers
it. -/
inductive Matches (n : Node) (r : Recv) : ℕ → Node × List Effect → Prop where
  | posted (ctx : ℕ) (w : Wr) (recvQ : List Recv) (op : w.op = 0x40 ∨ w.op = 0x41)
      (found : findRecv w.dcna n.recvQ = some (r, recvQ)) :
      Matches n r w.len.toNat (execute n ctx w)
  | waiting (s : Send) (found : (n.pendingSendQ.find? fun s => s.jetty == r.jetty) = some s) :
      Matches n r s.len.toNat (recvDoorbell n r)
  | peer (p : Packet) (recvQ : List Recv) (op : p.op = 0x40 ∨ p.op = 0x41)
      (found : findRecv p.dcna n.recvQ = some (r, recvQ)) :
      Matches n r p.len.toNat (peerApply n p)

variable {n : Node} {s : Send} {r : Recv} {len : ℕ} {outcome : Node × List Effect}

/-- The calls among the effects write to a range only, and memory changes only where they write. -/
structure Confined (g : Guest) (memory : ByteMap) (tok : U32) (va : U64) (len : ℕ)
    (outcome : Node × List Effect) : Prop where
  calls : ∀ call, dma call ∈ outcome.2 → Lands g tok va len call
  frame : ∀ p, outcome.1.memory p ≠ memory p →
    ∃ call, dma call ∈ outcome.2 ∧ call.Writes p

theorem pushAll_memory (n : Node) (cqes : List (U32 × Cqe)) :
    (pushAll n cqes).1.memory = n.memory := by
  change (cqes.foldl (fun n entry => n.pushCqe entry.1 entry.2) n).memory = n.memory
  induction cqes generalizing n with
  | nil => rfl
  | cons entry cqes ih => exact ih _

theorem Confined.of_obeys {g : Guest} {tok : U32} {va : U64} {x : Dma PUnit} {memory : ByteMap}
    (obeys : Obeys (Lands g tok va len) Writes x memory)
    (log : ∀ call, dma call ∈ outcome.2 ↔ call ∈ (x memory).log)
    (state : outcome.1.memory = (x memory).state) : Confined g memory tok va len outcome where
  calls call member := obeys.log call ((log call).mp member)
  frame p changed := by
    by_contra none
    refine changed ?_
    rw [state]
    exact obeys.frame p fun call member writes => none ⟨call, (log call).mpr member, writes⟩

theorem dpDeliverSend_confined (n : Node) (s : Send) (r : Recv) :
    Confined n.guest n.memory r.tok r.va s.len.toNat (dpDeliverSend n s r) := by
  refine .of_obeys (deliverPayload_lands n s r n.memory) (fun call => ?_) ?_
  · simp [dpDeliverSend, pushAll]
  · exact pushAll_memory _ _

theorem execute_send {ctx : ℕ} {w : Wr} {recvQ : List Recv} (op : w.op = 0x40 ∨ w.op = 0x41)
    (found : findRecv w.dcna n.recvQ = some (r, recvQ)) :
    execute n ctx w = dpDeliverSend { n with recvQ } (w.toSend ctx) r := by
  have send : execute n ctx w = executeSend n ctx w := by
    rcases op with op | op <;> simp [execute, op]
  rw [send, executeSend, found]

theorem recvDoorbell_waiting (found : (n.pendingSendQ.find? fun s => s.jetty == r.jetty) = some s) :
    ∃ n' : Node, n'.guest = n.guest ∧ n'.memory = n.memory ∧
      recvDoorbell n r = dpDeliverSend n' s r := by
  refine ⟨{ n with
    recvQ := if (n.recvQ ++ [r]).length > 256 then (n.recvQ ++ [r]).tail else n.recvQ ++ [r]
    pendingSendQ := n.pendingSendQ.eraseP fun s => s.jetty == r.jetty }, rfl, rfl, ?_⟩
  simp only [recvDoorbell, found]

theorem Matches.confined (matched : Matches n r len outcome) :
    Confined n.guest n.memory r.tok r.va len outcome := by
  cases matched with
  | posted ctx w recvQ op found =>
    rw [execute_send op found]
    exact dpDeliverSend_confined { n with recvQ } (w.toSend ctx) r
  | waiting s found =>
    obtain ⟨n', guest, memory, delivered⟩ := recvDoorbell_waiting found
    rw [delivered, ← guest, ← memory]
    exact dpDeliverSend_confined n' s r
  | peer p recvQ op found =>
    refine .of_obeys (landPayload_lands n p.payload n.memory) (fun call => ?_) ?_
    · rcases op with op | op <;> simp [peerApply, op, found, dpPushCqe]
    · rcases op with op | op <;> simp [peerApply, op, found, dpPushCqe, Node.pushCqe]

def Sge.Holds (sge : Sge) (a : U64) : Prop :=
  sge.addr.toNat ≤ a.toNat ∧ a.toNat < sge.addr.toNat + sge.len.toNat

theorem send_stays_in_buffer {ctx : ℕ} {jettyId recvJfc : U32} {sge : Sge} {userCtx : U64}
    (matched : Matches n (ringRecv ctx jettyId recvJfc ⟨some sge, userCtx⟩) len outcome)
    (fits : sge.addr.toNat + len ≤ 2 ^ 64) (short : len ≤ sge.len.toNat) :
    ∀ p, outcome.1.memory p ≠ n.memory p → ∃ call, dma call ∈ outcome.2 ∧ call.Writes p ∧
        ∃ m, n.guest.mrTable (sgeToken (some sge)) = some m ∧
          ∃ a, sge.Holds a ∧ ouWalk n.guest.backing call.memory m.ttbr0 a = p := by
  intro p changed
  have confined := matched.confined
  rw [ringRecv_eq] at confined
  obtain ⟨call, member, writes⟩ := confined.frame p changed
  obtain ⟨m, region, i, inside, place⟩ := confined.calls call member p writes
  refine ⟨call, member, writes, m, region, sge.addr + ofNat 64 i, ?_, place⟩
  have address : (sge.addr + ofNat 64 i).toNat = sge.addr.toNat + i := by
    rw [toNat_add, toNat_ofNat]
    omega
  rw [Sge.Holds, address]
  omega

section

variable {q va srcVa : U64} {tok srcTok : U32} {i : ℕ} {s : ByteMap} {reached : Prop}

def wholeRegion (root : U64) : MrEntry := ⟨0, 0xFFFFFFFFFFFFFFFF, root⟩

/-- Under its own token the address space with a page for `q`, under the others that of blocks. -/
def splitGuest (tok : U32) : Guest :=
  ⟨wholeBacking, fun token => some (wholeRegion (if token = tok then 0x1000 else 0))⟩

/-- The tables, a source that is full of ones, and zeros elsewhere. -/
def splitMemory (q : U64) : ByteMap := fun p =>
  if p.toNat < 0x5000 then ofWords (tableWord q) p else if p.toNat < 2 ^ 42 then 0 else 1

theorem wholeRegion_admits (root va : U64) (len : ℕ) : (wholeRegion root).admits va len = true := by
  have top : ∀ x : U64, x ≤ 0xFFFFFFFFFFFFFFFF := fun x => by
    rw [le_def]
    exact le_pred_of_lt x.isLt
  simp only [wholeRegion, MrEntry.admits, Bool.not_eq_true', Bool.or_eq_false_iff,
    decide_eq_false_iff_not, gt_iff_lt, BitVec.not_lt]
  exact ⟨by simp, top _⟩

theorem ouDmaMr_split (tok token : U32) (va : U64) (io : Io) :
    ouDmaMr (splitGuest tok) token va io =
      dmaLoop wholeBacking (if token = tok then 0x1000 else 0) io.length va io :=
  if_pos (wholeRegion_admits _ va io.length)

theorem isRoot_ite (token tok : U32) : IsRoot (if token = tok then 0x1000 else 0) := by
  split_ifs
  · exact .inr rfl
  · exact .inl rfl

def spot (q : U64) : U64 := ofNat 64 (0x5000 + q.toNat % 2 ^ 12)

theorem toNat_spot (q : U64) : (spot q).toNat = landing q q [39, 30, 21, 12] := by
  rw [landing_self, spot, toNat_ofNat]
  omega

structure Filled (q : U64) (reached : Prop) (s : ByteMap) : Prop where
  tables : Tabled q s
  source : ∀ p : U64, 2 ^ 42 ≤ p.toNat → s p = 1
  target : reached → s (spot q) = 1

theorem filled_splitMemory (q : U64) : Filled q False (splitMemory q) where
  tables p low := if_pos low
  source p high := by rw [splitMemory, if_neg (by omega), if_neg (by omega)]
  target := nofun

theorem splitMemory_spot (q : U64) : splitMemory q (spot q) ≠ 1 := by
  have place := toNat_spot q
  rw [landing_self] at place
  rw [splitMemory, if_neg (by omega), if_pos (by omega)]
  decide

theorem Filled.read (filled : Filled q reached s) (different : srcTok ≠ tok) (srcVa : U64)
    (chunk : ℕ) :
    (ouDmaMr (splitGuest tok) srcTok srcVa (.read chunk) s).value = some (List.replicate chunk 1) ∧
      (ouDmaMr (splitGuest tok) srcTok srcVa (.read chunk) s).state = s := by
  obtain ⟨value, state⟩ := filled.tables.moves (.inl rfl) srcVa (.read chunk)
  rw [ouDmaMr_split, if_neg different]
  refine ⟨value.trans (congrArg some ?_), state⟩
  refine eq_replicate_iff.mpr ⟨gatherAt_length .., fun octet member => ?_⟩
  obtain ⟨k, _, rfl⟩ := mem_map.mp member
  apply filled.source
  rw [place, toNat_ouWalk_blocks filled.tables]
  omega

theorem Filled.write (tok : U32) (filled : Filled q (i < offset) s)
    (address : va + ofNat 64 i = q) (chunk : ℕ) :
    (ouDmaMr (splitGuest tok) tok (va + ofNat 64 offset)
        (.write (List.replicate chunk 1)) s).value ≠ none ∧
      Filled q (i < offset + chunk) (ouDmaMr (splitGuest tok) tok (va + ofNat 64 offset)
        (.write (List.replicate chunk 1)) s).state := by
  obtain ⟨value, state⟩ := filled.tables.moves (.inr rfl) (va + ofNat 64 offset)
    (.write (List.replicate chunk 1))
  rw [ouDmaMr_split, if_pos rfl]
  refine ⟨by rw [value]; nofun, ?_⟩
  rw [state]
  -- wherever the write goes, there is a one afterwards
  have ones : ∀ p, s p = 1 →
      (Io.write (List.replicate chunk 1)).after
        (place wholeBacking s 0x1000 (va + ofNat 64 offset)) s p = 1 := by
    intro p one
    rw [Io.after, scatterAt_replicate, one]
    split_ifs <;> rfl
  constructor
  · refine filled.tables.agree fun p low => Io.after_of_ne fun _ k _ here => low ?_
    rw [here]
    exact (ouWalk_bounds filled.tables (.inr rfl) _).1
  · exact fun p high => ones p (filled.source p high)
  · intro within
    rcases lt_or_ge i offset with before | now
    · exact ones _ (filled.target before)
    · have here : spot q =
          place wholeBacking s 0x1000 (va + ofNat 64 offset) (i - offset) := by
        apply eq_of_toNat_eq
        rw [place_add, Nat.add_sub_cancel' now, place, address, toNat_spot,
          toNat_ouWalk_path filled.tables]
      rw [Io.after, scatterAt_replicate, if_pos ⟨i - offset, by omega, here⟩]

theorem Filled.copyChunk (different : srcTok ≠ tok) (address : va + ofNat 64 i = q)
    (srcVa : U64) (chunk : ℕ) :
    Achieves (Filled q (i < offset)) (copyChunk (splitGuest tok) tok va srcTok srcVa offset chunk)
      fun _ => Filled q (i < offset + chunk) := by
  intro s filled
  obtain ⟨read, same⟩ := filled.read different (srcVa + ofNat 64 offset) chunk
  obtain ⟨wrote, after⟩ := filled.write tok address chunk
  obtain ⟨moved, value⟩ := Option.ne_none_iff_exists'.mp wrote
  obtain ⟨done, state⟩ := bind_bind_pure_of_some
    (f := fun buf => ouDmaMr (splitGuest tok) tok (va + ofNat 64 offset) (.write buf))
    PUnit.unit read same value
  exact ⟨⟨⟩, done, state ▸ after⟩

theorem filled_ouCopyMr (different : srcTok ≠ tok) (address : va + ofNat 64 i = q) {len : ℕ}
    (inside : i < len) :
    ((ouCopyMr (splitGuest tok) tok va srcTok srcVa len (splitMemory q)).state) (spot q) = 1 := by
  have start : Filled q (i < 0) (splitMemory q) :=
    ⟨(filled_splitMemory q).tables, (filled_splitMemory q).source, by omega⟩
  obtain ⟨_, _, filled⟩ := inChunks_achieves (fun offset => Filled q (i < offset))
    (show 0 < 4096 by decide)
    (fun offset chunk _ _ _ => Filled.copyChunk different address srcVa chunk) _ start
  exact filled.target inside

theorem sound_ouCopyMr (tabled : Tabled q s) (len : ℕ) :
    Obeys (Sound q) Writes (ouCopyMr (splitGuest tok) tok va srcTok srcVa len) s := by
  refine .inChunks_of_invariant (Tabled q) (fun offset chunk _ s tabled => ?_)
    (le_of_eq (zero_add len)) tabled
  have access (token : U32) (va : U64) (io : Io) {s : ByteMap} (tabled : Tabled q s) :
      Obeys (Sound q) Writes (ouDmaMr (splitGuest tok) token va io) s := by
    rw [ouDmaMr_split]
    exact tabled.dmaLoop (isRoot_ite token tok) _ va io
  have obeys : Obeys (Sound q) Writes
      (Nic.copyChunk (splitGuest tok) tok va srcTok srcVa offset chunk) s := by
    refine (access _ _ _ tabled).bind fun buf _ => ?_
    exact (access _ _ _ (tabled.state (access _ _ _ tabled))).bind fun _ _ => .pure _ _
  exact ⟨obeys, tabled.state obeys⟩

def splitNode (q : U64) (r : Recv) : Node :=
  { guest := splitGuest r.tok
    memory := splitMemory q
    pi := false
    hasPeer := false
    recvQ := [r]
    pendingSendQ := []
    jfcCq := fun _ => [] }

def sendTo (r : Recv) (len : U32) : Wr := ⟨0x40, 0, r.jetty, 0, 0, 0, 0, 0, r.tok + 1, 0, 0, len, 0⟩

theorem sendTo_matches (q : U64) (r : Recv) (len : U32) :
    Matches (splitNode q r) r len.toNat (execute (splitNode q r) 0 (sendTo r len)) :=
  .posted 0 (sendTo r len) [] (.inl rfl) (by simp [findRecv, splitNode, sendTo])

theorem execute_sendTo (q : U64) (r : Recv) {len : U32} (more : len.toNat ≠ 0) :
    (execute (splitNode q r) 0 (sendTo r len)).1.memory =
        (ouCopyMr (splitGuest r.tok) r.tok r.va (r.tok + 1) 0 len.toNat (splitMemory q)).state ∧
      ∀ call, dma call ∈ (execute (splitNode q r) 0 (sendTo r len)).2 ↔
        call ∈ (ouCopyMr (splitGuest r.tok) r.tok r.va (r.tok + 1) 0 len.toNat
          (splitMemory q)).log := by
  have found : findRecv (sendTo r len).dcna (splitNode q r).recvQ = some (r, []) := by
    simp [findRecv, splitNode, sendTo]
  have some : ¬len = 0 := fun zero => more (by rw [zero]; rfl)
  have copy : deliverPayload { splitNode q r with recvQ := [] } ((sendTo r len).toSend 0) r
      (splitMemory q) =
        ouCopyMr (splitGuest r.tok) r.tok r.va (r.tok + 1) 0 len.toNat (splitMemory q) := by
    unfold deliverPayload
    rw [if_neg (show ¬((sendTo r len).toSend 0).len = 0 from some)]
    rfl
  rw [execute_send (.inl rfl) found]
  constructor
  · rw [← copy]
    exact pushAll_memory _ _
  · intro call
    rw [← copy]
    simp [dpDeliverSend, pushAll, splitNode]

end

/-- An octet of a SEND that does not belong in the buffer, nor to an address that is translated
alike. -/
theorem exists_outside {sge : Sge} {len : U32}
    (long : ¬(len.toNat ≤ sge.len.toNat ∧ sge.addr.toNat + len.toNat ≤ 2 ^ 64)) :
    ∃ i < len.toNat, ∀ a, sge.Holds a →
      a.toNat % 2 ^ 48 ≠ (sge.addr + ofNat 64 i).toNat % 2 ^ 48 := by
  have bound := sge.addr.isLt
  have small := sge.len.isLt
  have short := len.isLt
  rcases lt_or_ge sge.len.toNat len.toNat with longer | fits
  · refine ⟨sge.len.toNat, longer, ?_⟩
    rintro a ⟨above, below⟩
    rw [toNat_add, toNat_ofNat]
    omega
  · refine ⟨2 ^ 64 - sge.addr.toNat, by omega, ?_⟩
    rintro a ⟨above, below⟩
    have limit := a.isLt
    rw [toNat_add, toNat_ofNat]
    omega

/-- A SEND of a given length stays in the buffer of the receive, whatever the memory, exactly if it
is not longer than the buffer and does not wrap around. -/
theorem send_stays_in_buffer_iff (ctx : ℕ) (jettyId recvJfc : U32) (sge : Sge) (userCtx : U64)
    (len : U32) :
    (∀ (n : Node) (outcome : Node × List Effect),
        Matches n (ringRecv ctx jettyId recvJfc ⟨some sge, userCtx⟩) len.toNat outcome →
        ∀ p, outcome.1.memory p ≠ n.memory p → ∃ call, dma call ∈ outcome.2 ∧ call.Writes p ∧
            ∃ m, n.guest.mrTable (sgeToken (some sge)) = some m ∧
              ∃ a, sge.Holds a ∧ ouWalk n.guest.backing call.memory m.ttbr0 a = p) ↔
      len.toNat ≤ sge.len.toNat ∧ sge.addr.toNat + len.toNat ≤ 2 ^ 64 := by
  constructor
  · intro stays
    by_contra long
    obtain ⟨i, inside, outside⟩ := exists_outside long
    rw [ringRecv_eq] at stays
    set r : Recv := ⟨jettyId, sgeToken (some sge), sgeAddr (some sge), userCtx, ctx, recvJfc⟩
    set q : U64 := sge.addr + ofNat 64 i
    obtain ⟨memory, log⟩ := execute_sendTo q r (by omega : len.toNat ≠ 0)
    have different : r.tok + 1 ≠ r.tok := by simp
    have one : (execute (splitNode q r) 0 (sendTo r len)).1.memory (spot q) = 1 := by
      rw [memory]
      exact filled_ouCopyMr different rfl inside
    obtain ⟨call, member, _, m, region, a, holds, place⟩ :=
      stays _ _ (sendTo_matches q r len) (spot q) (by rw [one]; exact (splitMemory_spot q).symm)
    obtain rfl : wholeRegion 0x1000 = m := by
      simpa [splitNode, splitGuest, r] using region
    have tables := ((sound_ouCopyMr (filled_splitMemory q).tables _).log call
      ((log call).mp member)).1
    refine outside a holds (low_of_landing ?_)
    rw [← toNat_ouWalk_path tables, ← toNat_spot, ← place]
    rfl
  · rintro ⟨short, fits⟩ n outcome matched
    exact send_stays_in_buffer matched fits short

/-- A node with the first gigabyte mapped to itself, and a receive of one octet. -/
def oneOctetNode : Node :=
  { guest := flatGuest
    memory := flatTable
    pi := true
    hasPeer := false
    recvQ := [ringRecv 1 9 4 ⟨some ⟨0x3000, 1, some 1⟩, 0x99⟩]
    pendingSendQ := []
    jfcCq := fun _ => [] }

def sendFrom (va : U64) (len : U32) : Wr := ⟨0x40, 0, 9, 3, 0, va, 0, 0, 1, 0x55, 0, len, 0⟩

def mapsBuffer : Effect → Bool
  | .dma call => ouWalk flatGuest.backing call.memory flatRegion.ttbr0 0x3000 == 0x3000
  | _ => true

/-- A SEND of two octets writes behind a buffer of one. -/
theorem send_leaves_buffer :
    ¬∀ p, (execute oneOctetNode 0 (sendFrom 0x1FFF 2)).1.memory p ≠ oneOctetNode.memory p →
      ∃ call, dma call ∈ (execute oneOctetNode 0 (sendFrom 0x1FFF 2)).2 ∧ call.Writes p ∧
        ∃ m, flatGuest.mrTable 1 = some m ∧ ∃ a, Sge.Holds ⟨0x3000, 1, some 1⟩ a ∧
            ouWalk flatGuest.backing call.memory m.ttbr0 a = p := by
  intro confined
  have changed : (execute oneOctetNode 0 (sendFrom 0x1FFF 2)).1.memory 0x3001 ≠
      oneOctetNode.memory 0x3001 := by decide +kernel
  have mapped : ∀ e ∈ (execute oneOctetNode 0 (sendFrom 0x1FFF 2)).2, mapsBuffer e = true := by
    decide +kernel
  obtain ⟨call, member, _, m, region, a, ⟨above, below⟩, place⟩ := confined _ changed
  obtain rfl : flatRegion = m := Option.some.inj region
  obtain rfl : a = 0x3000 := by
    apply eq_of_toNat_eq
    change 0x3000 ≤ a.toNat at above
    change a.toNat < 0x3000 + 1 at below
    change a.toNat = 0x3000
    omega
  have here := mapped _ member
  simp only [mapsBuffer, place] at here
  exact absurd here (by decide)

end OpenURMA.Nic
