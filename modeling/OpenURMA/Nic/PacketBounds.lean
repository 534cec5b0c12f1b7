import OpenURMA.Nic.PagedDma
import OpenURMA.Nic.PeerRing
import OpenURMA.Nic.ReceiveBuffers

/-!
# Packets from the peer and the ends of their buffers

`peer_apply` gets a packet with the length under which it was queued, but takes the length of the
payload from the header.  The two agree for a packet that `ou_build_pkt` has made; nothing checks
that they do.
-/

namespace OpenURMA.Nic

open Library Buffer Nat List

/-- The fields that `peer_apply` reads from a packet, and the octets behind `payload`. -/
def parsePacket (pkt : Buffer) : Packet where
  op := pkt 0
  dcna := word32At pkt 4
  rtoken := word32At pkt 8
  rva := wordAt pkt 16
  len := word32At pkt 24
  imm := word32At pkt 28
  order := pkt 32
  payload := pkt.slice 40 (word32At pkt 24).toNat

def peerApplyPkt (n : Node) (pkt : Buffer) (pktlen : ℕ) : Node × List Effect :=
  if pktlen < 40 then (n, []) else peerApply n (parsePacket pkt)

/-- The packets that `peer_ring_drain` hands over are parsed in the same way. -/
theorem readSlot_eq {s : Buffer} {p : Packet} (read : readSlot s = some p) :
    p = parsePacket fun index => s (4 + index) := by
  unfold readSlot at read
  dsimp only at read
  split at read
  · cases read
    simp [parsePacket, word32At, wordAt, slice, ← add_assoc]
  · cases read

/-- A call copies octets of a payload of a given length. -/
def Copies (pkt : Buffer) (len : ℕ) (call : DmaCall) : Prop :=
  ∃ offset count, offset + count ≤ len ∧ call.io = .write (pkt.slice (40 + offset) count)

/-- A packet is handled without its surroundings: nothing depends on octets at or behind its end,
and what is copied to guest memory is payload in front of it. -/
structure InBounds (pkt : Buffer) (pktlen : ℕ) : Prop where
  reads : ∀ (n : Node) (pkt' : Buffer), (∀ index < pktlen, pkt' index = pkt index) →
    peerApplyPkt n pkt' pktlen = peerApplyPkt n pkt pktlen
  copies : ∀ (n : Node) (call : DmaCall), Effect.dma call ∈ (peerApplyPkt n pkt pktlen).2 →
    Copies pkt (pktlen - 40) call

def payloadOps : List U8 := [0x00, 0x01, 0x40, 0x41]

section

variable {n : Node} {pkt : Buffer} {len : ℕ}

theorem ouDmaMr_copies (g : Guest) (tok : U32) (va : U64) (memory : ByteMap) (offset : ℕ)
    {count : ℕ} (within : offset + count ≤ len) :
    Attempt.Obeys (Copies pkt len) DmaCall.Writes
      (ouDmaMr g tok va (.write (pkt.slice (40 + offset) count))) memory := by
  unfold ouDmaMr
  split
  · exact .fail _
  split
  · refine dmaLoop_obeys_of (fun _ io _ => ∃ offset count, offset + count ≤ len ∧
      io = .write (pkt.slice (40 + offset) count)) ?_ _ ⟨offset, count, within, rfl⟩
    rintro va _ memory ⟨offset, count, within, rfl⟩ _
    have short := chunkOf_le va (.write (pkt.slice (40 + offset) count))
    change _ ≤ (pkt.slice (40 + offset) count).length at short
    rw [slice_length] at short
    refine ⟨⟨offset, _, by omega, congrArg Io.write (take_slice short)⟩,
      offset + chunkOf va (.write (pkt.slice (40 + offset) count)), _, ?_,
      congrArg Io.write ((drop_slice short).trans (by rw [add_assoc]))⟩
    omega
  · exact .fail _

theorem landPayload_copies (tok : U32) (va : U64) :
    Attempt.Obeys (Copies pkt len) DmaCall.Writes (landPayload n (pkt.slice 40 len) tok va len)
      n.memory := by
  refine .orElse ?_ (.bind ?_ fun _ _ => .pure _ _)
  · unfold ouPipeRoute
    split
    · exact .fail _
    · refine .inChunks (fun done count within memory => ?_) (le_of_eq (zero_add len)) _
      unfold routeChunk
      rw [drop_slice (by omega), take_slice (by omega)]
      exact (ouDmaMr_copies _ _ _ _ _ within).bind fun _ _ => .pure _ _
  · rw [take_slice (le_refl _)]
    exact ouDmaMr_copies _ _ _ _ 0 (by omega)

end

variable {n : Node} {p : Packet}

theorem peerApply_other (other : p.op ∉ payloadOps) : peerApply n p = (n, []) := by
  simp only [payloadOps, mem_cons, not_mem_nil, or_false, not_or, ← beq_eq_false_iff_ne]
    at other
  simp only [peerApply, other, Bool.or_self, Bool.false_eq_true, if_false]

theorem peerApply_calls {call : DmaCall} (member : Effect.dma call ∈ (peerApply n p).2) :
    ∃ tok va, call ∈ (landPayload n p.payload tok va p.len.toNat n.memory).log := by
  unfold peerApply at member
  dsimp only at member
  split at member
  · refine ⟨p.rtoken, p.rva, ?_⟩
    split at member
    · split at member <;> split at member <;> simp_all [dpPushCqe]
    · split at member <;> simp_all
  · split at member
    · split at member
      · cases member
      · next r recvQ _ => exact ⟨r.tok, r.va, by simpa [dpPushCqe] using member⟩
    · cases member

variable {pktlen : ℕ}

theorem parsePacket_congr {pkt pkt' : Buffer} (header : 40 ≤ pktlen)
    (same : ∀ index < pktlen, pkt' index = pkt index) :
    { parsePacket pkt' with payload := [] } = { parsePacket pkt with payload := [] } := by
  have field (offset count : ℕ) (inside : offset + count ≤ 40) :
      pkt'.slice offset count = pkt.slice offset count :=
    slice_congr fun index small => same _ (by omega)
  simp only [parsePacket, word32At, wordAt, field 4 4 (by decide), field 8 4 (by decide),
    field 16 8 (by decide), field 24 4 (by decide), field 28 4 (by decide), same 0 (by omega),
    same 32 (by omega)]

variable {pkt : Buffer}

theorem inBounds_of_nothing (nothing : ∀ n pkt', (∀ index < pktlen, pkt' index = pkt index) →
      peerApplyPkt n pkt' pktlen = (n, [])) : InBounds pkt pktlen where
  reads n pkt' same := (nothing n pkt' same).trans (nothing n pkt fun _ _ => rfl).symm
  copies n call member := by
    rw [nothing n pkt fun _ _ => rfl] at member
    cases member

theorem inBounds_of_fits (header : 40 ≤ pktlen)
    (fits : 40 + (word32At pkt 24).toNat ≤ pktlen) : InBounds pkt pktlen where
  reads n pkt' same := by
    have fields := parsePacket_congr header same
    have len : word32At pkt' 24 = word32At pkt 24 := congrArg Packet.len fields
    have payload : (parsePacket pkt').payload = (parsePacket pkt).payload := by
      simp only [parsePacket, len]
      exact slice_congr fun index small => same _ (by omega)
    have equal : parsePacket pkt' = parsePacket pkt := by
      simp only [Packet.mk.injEq] at fields
      cases whole : parsePacket pkt' with | mk => simp_all
    rw [peerApplyPkt, peerApplyPkt, equal]
  copies n call member := by
    rw [peerApplyPkt, if_neg (by omega)] at member
    obtain ⟨tok, va, logged⟩ := peerApply_calls member
    obtain ⟨offset, count, within, copied⟩ := (landPayload_copies tok va).log call logged
    exact ⟨offset, count, by change _ ≤ (word32At pkt 24).toNat at within; omega, copied⟩

def mappedNode (p : Packet) : Node where
  guest := ⟨wholeBacking, fun _ => some (wholeRegion 0)⟩
  memory := ofWords (tableWord 0)
  pi := false
  hasPeer := false
  recvQ := [⟨p.dcna, p.rtoken, p.rva, 0, 0, 0⟩]
  pendingSendQ := []
  jfcCq := fun _ => []

def mappedPlace (p : Packet) : ℕ → U64 := place wholeBacking (ofWords (tableWord 0)) 0 p.rva

theorem tabled_mapped : Tabled 0 (ofWords (tableWord 0)) := fun _ _ => rfl

theorem mappedPlace_ne {i j : ℕ} (inside : i < p.len.toNat) (inside' : j < p.len.toNat)
    (before : i < j) : mappedPlace p i ≠ mappedPlace p j := by
  intro same
  have equal := congrArg BitVec.toNat same
  have bound := p.len.isLt
  simp only [mappedPlace, place, toNat_ouWalk_blocks tabled_mapped, BitVec.toNat_add,
    BitVec.toNat_ofNat] at equal
  omega

theorem peerApply_memory {recvQ : List Recv} (op : p.op ∈ payloadOps) (more : ¬p.len = 0#32)
    (found : findRecv p.dcna n.recvQ = some (⟨p.dcna, p.rtoken, p.rva, 0, 0, 0⟩, recvQ)) :
    (peerApply n p).1.memory =
      (landPayload n p.payload p.rtoken p.rva p.len.toNat n.memory).state := by
  simp only [payloadOps, mem_cons, not_mem_nil, or_false] at op
  rcases op with op | op | op | op <;>
    simp [peerApply, op, more, found, dpPushCqe, Node.pushCqe]

theorem peerApply_lands {i : ℕ} (op : p.op ∈ payloadOps) (whole : p.payload.length = p.len.toNat)
    (inside : i < p.payload.length) :
    (peerApply (mappedNode p) p).1.memory (mappedPlace p i) = p.payload[i] := by
  have more : ¬p.len = 0#32 := by
    intro zero
    rw [whole, zero] at inside
    cases inside
  have found : findRecv p.dcna (mappedNode p).recvQ =
      some (⟨p.dcna, p.rtoken, p.rva, 0, 0, 0⟩, []) := by simp [findRecv, mappedNode]
  have region : ouDmaMr (mappedNode p).guest p.rtoken p.rva (.write p.payload) =
      dmaLoop wholeBacking 0 p.payload.length p.rva (.write p.payload) :=
    if_pos (wholeRegion_admits ..)
  have moves := tabled_mapped.moves (.inl rfl) p.rva (.write p.payload)
  rw [peerApply_memory op more found, landPayload, Attempt.orElse_of_none rfl,
    Attempt.bind_pure_apply, take_of_length_le (le_of_eq whole), region]
  exact (congrFun moves.2 _).trans (scatterAt_getElem inside fun j inside' later =>
    mappedPlace_ne (whole ▸ inside) (whole ▸ inside') later)

theorem not_inBounds (header : 40 ≤ pktlen) (op : pkt 0 ∈ payloadOps)
    (long : pktlen < 40 + (word32At pkt 24).toNat) : ¬InBounds pkt pktlen := by
  intro bounds
  -- the octet behind the end is payload, and it arrives in guest memory
  let pkt' := Function.update pkt pktlen (pkt pktlen + 1)
  have same : ∀ index < pktlen, pkt' index = pkt index :=
    fun index before => Function.update_of_ne (Nat.ne_of_lt before) _ _
  have fields := parsePacket_congr header same
  have len : word32At pkt' 24 = word32At pkt 24 := congrArg Packet.len fields
  have node := congrArg mappedNode fields
  have spot := congrArg mappedPlace fields
  change mappedNode (parsePacket pkt') = mappedNode (parsePacket pkt) at node
  change mappedPlace (parsePacket pkt') = mappedPlace (parsePacket pkt) at spot
  have equal := bounds.reads (mappedNode (parsePacket pkt)) pkt' same
  have arrives (pkt : Buffer) (op : pkt 0 ∈ payloadOps)
      (inside : pktlen - 40 < (word32At pkt 24).toNat) :
      (peerApply (mappedNode (parsePacket pkt)) (parsePacket pkt)).1.memory
        (mappedPlace (parsePacket pkt) (pktlen - 40)) = pkt pktlen := by
    rw [peerApply_lands op (slice_length ..) (by simpa [parsePacket] using inside)]
    simp [parsePacket, slice, Nat.add_sub_cancel' header]
  have there := arrives pkt op (by omega)
  have there' := arrives pkt' (same 0 (by omega) ▸ op) (by rw [len]; omega)
  rw [peerApplyPkt, peerApplyPkt, if_neg (by omega), if_neg (by omega)] at equal
  rw [node, spot, equal, there] at there'
  simp [pkt'] at there'

/-- A packet is handled within its bounds, on every node, exactly if it has no payload or the
payload that its header announces is there. -/
theorem inBounds_iff (pkt : Buffer) (pktlen : ℕ) : InBounds pkt pktlen ↔
      pktlen < 40 ∨ pkt 0 ∉ payloadOps ∨ 40 + (word32At pkt 24).toNat ≤ pktlen := by
  constructor
  · intro bounds
    by_contra none
    simp only [not_or, not_lt, not_not, not_le] at none
    exact not_inBounds none.1 none.2.1 none.2.2 bounds
  · rintro (short | other | fits)
    · exact inBounds_of_nothing fun n pkt' _ => if_pos short
    · refine inBounds_of_nothing fun n pkt' same => ?_
      unfold peerApplyPkt
      split
      · rfl
      · refine peerApply_other ?_
        change pkt' 0 ∉ payloadOps
        rwa [same 0 (by omega)]
    · exact inBounds_of_fits (by omega) fits

/-- A WRITE that announces one octet of payload and ends before it. -/
theorem not_inBounds_cutWrite : ¬InBounds (fun index => if index = 24 then 1 else 0) 40 :=
  not_inBounds (le_refl 40) (by decide) (by decide)

end OpenURMA.Nic
