import OpenURMA.Library.Run
import OpenURMA.Library.Spsc
import OpenURMA.Nic.Doorbell

/-!
# The ring between two nodes

A request for the other node is carried by a ring in shared memory: the sender fills a slot and
moves `head`, and the receiver, whenever one of its completion queues is read, applies the slots up
to `head` and moves `tail`. A step of one node may come between any two steps of the other.

The sender reports success for a SEND that it could not read, for a packet that does not fit in a
slot, and for one that takes the slot of another. If none of this happens, the packets applied are
those of the requests with a successful completion.
-/

namespace OpenURMA.Nic

open Library Effect Spsc List Option

/-- The octets that `ou_build_pkt` makes. -/
def Packet.octets (p : Packet) : List Byte :=
  [p.op, 0, 0, 0] ++ octets32 p.dcna ++ octets32 p.rtoken ++ [0, 0, 0, 0] ++ wordOctets p.rva ++
    octets32 p.len ++ octets32 p.imm ++ [p.order, 0, 0, 0, 0, 0, 0, 0] ++ p.payload

def fillSlot (s : Buffer) (p : Packet) : Buffer := s.blit 0 (octets32 (40 + p.len) ++ p.octets)

/-- The packet that `peer_ring_drain` hands to `peer_apply`.  The ordering byte is there, but
`peer_apply` does not read it. -/
def readSlot (s : Buffer) : Option Packet :=
  let plen := word32At s 0
  if 40 ≤ plen ∧ plen ≤ 8188 then
    some
      { op := s 4
        dcna := word32At s 8
        rtoken := word32At s 12
        rva := wordAt s 20
        len := word32At s 28
        imm := word32At s 32
        order := s 36
        payload := s.slice 44 (word32At s 28).toNat }
  else none

section

variable {p : Packet}

theorem length_slot (p : Packet) :
    (octets32 (40 + p.len) ++ p.octets).length = 44 + p.payload.length := by
  simp only [octets32, Packet.octets, length_append, length_take, wordOctets_length,
    length_cons, length_nil]
  omega

theorem word32At_slot (s : Buffer) {offset : ℕ} {word : U32} (inside : offset + 4 ≤ 44)
    (there : ((octets32 (40 + p.len) ++ p.octets).drop offset).take 4 = octets32 word) :
    word32At (fillSlot s p) offset = word := by
  rw [word32At, fillSlot, Buffer.slice_blit_part (by rw [length_slot]; omega), there,
    littleEndian_octets32]

theorem octet_slot (s : Buffer) {offset : ℕ} (inside : offset < 44) :
    fillSlot s p offset = (octets32 (40 + p.len) ++ p.octets).getD offset 0 := by
  have copied : s.blit 0 (octets32 (40 + p.len) ++ p.octets) (0 + offset) =
      (octets32 (40 + p.len) ++ p.octets).getD offset 0 :=
    Buffer.blit_inside (by rw [length_slot]; omega)
  rwa [Nat.zero_add] at copied

theorem readSlot_fillSlot (s : Buffer) (whole : p.payload.length = p.len.toNat)
    (fits : 40 + p.len.toNat ≤ 8188) : readSlot (fillSlot s p) = some p := by
  have plen : word32At (fillSlot s p) 0 = 40 + p.len := word32At_slot s (by omega) rfl
  have size : (40 + p.len).toNat = 40 + p.len.toNat := by
    rw [BitVec.toNat_add]
    change (40 + p.len.toNat) % 2 ^ 32 = _
    omega
  have accepted : (40 : U32) ≤ 40 + p.len ∧ 40 + p.len ≤ 8188 := by
    simp only [BitVec.le_def, size]
    exact ⟨Nat.le_add_right .., fits⟩
  have rva : wordAt (fillSlot s p) 20 = p.rva := by
    have octets : ((octets32 (40 + p.len) ++ p.octets).drop 20).take 8 = wordOctets p.rva := rfl
    rw [wordAt, fillSlot, Buffer.slice_blit_part (by rw [length_slot]; omega), octets,
      littleEndian_wordOctets]
  have payload : (fillSlot s p).slice 44 p.len.toNat = p.payload := by
    have rest : (octets32 (40 + p.len) ++ p.octets).drop 44 = p.payload := rfl
    rw [fillSlot, Buffer.slice_blit_part (by rw [length_slot]; omega), rest, ← whole,
      take_length]
  have op : fillSlot s p 4 = p.op := octet_slot s (by omega)
  have order : fillSlot s p 36 = p.order := octet_slot s (by omega)
  have dcna : word32At (fillSlot s p) 8 = p.dcna := word32At_slot s (by omega) rfl
  have rtoken : word32At (fillSlot s p) 12 = p.rtoken := word32At_slot s (by omega) rfl
  have len : word32At (fillSlot s p) 28 = p.len := word32At_slot s (by omega) rfl
  have imm : word32At (fillSlot s p) 32 = p.imm := word32At_slot s (by omega) rfl
  simp only [readSlot, plen, accepted, op, order, dcna, rtoken, rva, len, imm, payload, and_self,
    if_true]

end

/-- The ring in one direction, with the node at either end. `filled`: the slot of `head` is filled
and not yet published; `applied`: the slot of `tail` is applied and not yet given back. -/
structure Link where
  sender : Node
  receiver : Node
  ring : Spsc 64 Buffer
  filled : Bool
  applied : Bool

inductive LinkEvent where
  | post (ctx : ℕ) (w : Wr)
  | publish
  | apply
  | advance
  | sender (n : Node)
  | receiver (n : Node)

structure Execution where
  node : Node
  wr : Wr
  effects : List Effect

structure LinkOut where
  posted : Option Execution := none
  applied : Option Packet := none

def Effect.packet? : Effect → Option Packet
  | .sent p => some p
  | _ => none

def Link.peerSend (l : Link) (p : Packet) : Link :=
  let plen := 40 + p.len
  if plen > 8188 then l
  else { l with ring := l.ring.fill (fillSlot l.ring.back p), filled := true }

def Link.step : Mealy Link LinkEvent LinkOut
  | l, .post ctx w =>
    if l.filled then (l, {})
    else
      let done := execute l.sender ctx w
      ((done.2.filterMap packet?).foldl Link.peerSend { l with sender := done.1 },
        { posted := some ⟨l.sender, w, done.2⟩ })
  | l, .publish =>
    if l.filled then ({ l with ring := l.ring.publish, filled := false }, {}) else (l, {})
  | l, .apply =>
    if l.applied || l.ring.head == l.ring.tail then (l, {})
    else
      match readSlot l.ring.front with
      | none => ({ l with applied := true }, {})
      | some p =>
        ({ l with receiver := (peerApply l.receiver p).1, applied := true },
          { applied := some p })
  | l, .advance =>
    if l.applied then ({ l with ring := l.ring.release, applied := false }, {}) else (l, {})
  | l, .sender n => ({ l with sender := n }, {})
  | l, .receiver n => ({ l with receiver := n }, {})

def localOctets (n : Node) (w : Wr) : List Byte :=
  match n.guest.mrTable w.locTok with
  | none => []
  | some m => gatherAt (octet n.guest n.memory m w.locVa) n.memory w.len.toNat

def Wr.packet (w : Wr) (payload : List Byte) : Packet :=
  if w.op == 0x00 || w.op == 0x01 then
    ⟨w.op, w.dcna, w.remTok, w.remVa, w.len, w.imm, w.order, payload⟩
  else ⟨w.op, w.dcna, 0, 0, w.len, w.imm, w.order, payload⟩

def Effect.isSuccess : Effect → Bool
  | .pushed _ c => !c.recv && c.ok
  | _ => false

/-- The packet that should arrive, if the completion reports success. -/
def Execution.packet? (e : Execution) : Option Packet :=
  if e.effects.any isSuccess then some (e.wr.packet (localOctets e.node e.wr)) else none

/-- The packets of the requests with a successful completion, in the order of posting. -/
def reportedPackets (trace : List LinkOut) : List Packet :=
  trace.filterMap fun out => out.posted.bind Execution.packet?

def appliedPackets (trace : List LinkOut) : List Packet := trace.filterMap LinkOut.applied

def CrossNode (n : Node) (w : Wr) : Prop :=
  n.hasPeer = true ∧
    ((w.op = 0x00 ∨ w.op = 0x01) ∧ n.guest.mrTable w.remTok = none ∨
      (w.op = 0x40 ∨ w.op = 0x41) ∧ findRecv w.dcna n.recvQ = none)

def Link.Cross (l : Link) : LinkEvent → Prop
  | .post _ w => CrossNode l.sender w
  | _ => True

def Readable (n : Node) (w : Wr) : Prop :=
  Paged n.guest.backing ∧ ∃ m, n.guest.mrTable w.locTok = some m ∧
    m.admits w.locVa w.len.toNat = true ∧
      ∀ i < w.len.toNat, Reachable n.guest.backing (octet n.guest n.memory m w.locVa i)

/-- A request that is posted fits in a slot, finds one free, and can be read if it is a SEND. -/
def Link.Meets (l : Link) : LinkEvent → Prop
  | .post _ w =>
    40 + w.len.toNat ≤ 8188 ∧ l.ring.count < 64 ∧
      ((w.op = 0x40 ∨ w.op = 0x41) → Readable l.sender w)
  | _ => True

section

variable {n : Node} {w : Wr} (ctx : ℕ)

def readLocal (n : Node) (w : Wr) : Option (List Byte) :=
  (ouDmaMr n.guest w.locTok w.locVa (.read w.len.toNat) n.memory).value

theorem readLocal_eq {buf : List Byte} (read : readLocal n w = some buf) :
    buf = localOctets n w ∧ buf.length = w.len.toNat := by
  obtain ⟨m, region, rfl⟩ := ouDmaMr_read_worked read
  rw [localOctets, region]
  exact ⟨rfl, gatherAt_length ..⟩

theorem readLocal_of_readable (readable : Readable n w) :
    readLocal n w = some (localOctets n w) := by
  obtain ⟨paged, m, region, admitted, reach⟩ := readable
  have read := ouDmaMr_read_works paged region admitted reach
  rw [localOctets, region]
  exact read

theorem filterMap_dma (log : List DmaCall) :
    (log.map dma).filterMap packet? = [] ∧ (log.map dma).any isSuccess = false := by
  induction log with
  | nil => exact ⟨rfl, rfl⟩
  | cons call log ih => exact ih

theorem execute_write (peer : n.hasPeer = true) (op : w.op = 0x00 ∨ w.op = 0x01)
    (unknown : n.guest.mrTable w.remTok = none) (more : ¬w.len = 0) :
    (execute n ctx w).2.filterMap packet? = ((readLocal n w).map w.packet).toList ∧
      (execute n ctx w).2.any isSuccess = (readLocal n w).isSome := by
  have call : execute n ctx w = executeWrite n w := by
    rcases op with op | op <;> simp [execute, op]
  have packet (payload : List Byte) : w.packet payload =
      ⟨w.op, w.dcna, w.remTok, w.remVa, w.len, w.imm, w.order, payload⟩ := by
    rw [Wr.packet, if_pos (by rcases op with op | op <;> simp [op])]
  rw [call, executeWrite, if_neg (by simp [unknown]), if_pos (by simpa [peer] using more)]
  obtain ⟨noPacket, noSuccess⟩ :=
    filterMap_dma (ouDmaMr n.guest w.locTok w.locVa (.read w.len.toNat) n.memory).log
  cases read : (ouDmaMr n.guest w.locTok w.locVa (.read w.len.toNat) n.memory).value with
  | none =>
    simp [complete, pushAll, noPacket, noSuccess, packet?, isSuccess, readLocal, read]
  | some buf =>
    simp [complete, pushAll, noPacket, noSuccess, packet?, isSuccess, readLocal, read, packet]

theorem execute_write_empty (op : w.op = 0x00 ∨ w.op = 0x01) (none : w.len = 0) :
    (execute n ctx w).2.filterMap packet? = [] ∧ (execute n ctx w).2.any isSuccess = false := by
  have call : execute n ctx w = executeWrite n w := by
    rcases op with op | op <;> simp [execute, op]
  rw [call, executeWrite, if_neg (by simp [none]), if_neg (by simp [none])]
  simp [complete, pushAll, packet?, isSuccess]

theorem execute_cross_send (peer : n.hasPeer = true) (op : w.op = 0x40 ∨ w.op = 0x41)
    (missing : findRecv w.dcna n.recvQ = none) :
    (execute n ctx w).2.filterMap packet? = ((readLocal n w).map w.packet).toList ∧
      (execute n ctx w).2.any isSuccess = true := by
  have call : execute n ctx w = executeSend n ctx w := by
    rcases op with op | op <;> simp [execute, op]
  have packet (payload : List Byte) : w.packet payload =
      ⟨w.op, w.dcna, 0, 0, w.len, w.imm, w.order, payload⟩ := by
    rw [Wr.packet, if_neg (by rcases op with op | op <;> simp [op])]
  rw [call, executeSend, missing]
  dsimp only
  rw [if_pos peer]
  obtain ⟨noPacket, noSuccess⟩ :=
    filterMap_dma (ouDmaMr n.guest w.locTok w.locVa (.read w.len.toNat) n.memory).log
  cases read : (ouDmaMr n.guest w.locTok w.locVa (.read w.len.toNat) n.memory).value with
  | none => simp [dpPushCqe, noPacket, noSuccess, packet?, isSuccess, readLocal, read]
  | some buf =>
    simp [dpPushCqe, noPacket, noSuccess, packet?, isSuccess, readLocal, read, packet]

@[simp] theorem Wr.packet_len (w : Wr) (payload : List Byte) : (w.packet payload).len = w.len := by
  unfold Wr.packet
  split <;> rfl

@[simp] theorem Wr.packet_payload (w : Wr) (payload : List Byte) :
    (w.packet payload).payload = payload := by
  unfold Wr.packet
  split <;> rfl

theorem execute_cross (cross : CrossNode n w)
    (readable : (w.op = 0x40 ∨ w.op = 0x41) → Readable n w) :
    (execute n ctx w).2.filterMap packet? = (Execution.packet? ⟨n, w, (execute n ctx w).2⟩).toList ∧
      ∀ p, Execution.packet? ⟨n, w, (execute n ctx w).2⟩ = some p →
        p.len = w.len ∧ p.payload.length = w.len.toNat := by
  have whole {buf : List Byte} (read : readLocal n w = some buf) :
      ∀ p, some (w.packet (localOctets n w)) = some p →
        p.len = w.len ∧ p.payload.length = w.len.toNat := by
    intro p packet
    obtain ⟨rfl, length⟩ := readLocal_eq read
    rw [← Option.some.inj packet]
    simpa using length
  obtain ⟨peer, ⟨op, unknown⟩ | ⟨op, missing⟩⟩ := cross
  · by_cases more : w.len = 0
    · obtain ⟨sent, success⟩ := execute_write_empty (n := n) ctx op more
      simp [Execution.packet?, success, sent]
    · obtain ⟨sent, success⟩ := execute_write ctx peer op unknown more
      cases read : readLocal n w with
      | none => simp [Execution.packet?, success, sent, read]
      | some buf =>
        rw [Execution.packet?, success, sent, read]
        exact ⟨by rw [(readLocal_eq read).1]; rfl, whole read⟩
  · obtain ⟨sent, success⟩ := execute_cross_send ctx peer op missing
    have read := readLocal_of_readable (readable op)
    rw [Execution.packet?, success, sent, read]
    exact ⟨rfl, whole read⟩

end

section

variable {l : Link} {reported applied : List Packet}

/-- Of the packets reported some have been applied; the others are in the ring, in order. `done` is
applied and not given back, `next` filled and not published. -/
def Carries (l : Link) (reported applied : List Packet) : Prop :=
  ∃ (done : Option Packet) (waiting : List Packet) (next : Option Packet),
    l.ring.contents.map readSlot = (done.toList ++ waiting).map some ∧
      done.isSome = l.applied ∧ next.isSome = l.filled ∧
      (∀ p, next = some p → readSlot l.ring.back = some p ∧ l.ring.count < 64) ∧
      reported = applied ++ waiting ++ next.toList

theorem slots_divide : 64 ∣ 2 ^ 32 := by decide

variable (carries : Carries l reported applied)
include carries

theorem Carries.post {ctx : ℕ} {w : Wr} (cross : CrossNode l.sender w)
    (meets : l.Meets (.post ctx w)) (idle : l.filled = false) :
    Carries (Link.step l (.post ctx w)).1
      (reported ++ (Execution.packet? ⟨l.sender, w, (execute l.sender ctx w).2⟩).toList)
      applied := by
  obtain ⟨done, waiting, next, contents, atTail, atHead, _, sum⟩ := carries
  obtain ⟨fits, room, readable⟩ := meets
  rw [idle] at atHead
  obtain rfl : next = none := by simpa using atHead
  obtain ⟨sent, whole⟩ := execute_cross ctx cross readable
  have outcome : (Link.step l (.post ctx w)).1 =
      (Execution.packet? ⟨l.sender, w, (execute l.sender ctx w).2⟩).toList.foldl Link.peerSend
        { l with sender := (execute l.sender ctx w).1 } := by
    rw [← sent]
    simp [Link.step, idle]
  rw [outcome]
  cases success : Execution.packet? ⟨l.sender, w, (execute l.sender ctx w).2⟩ with
  | none =>
    refine ⟨done, waiting, none, contents, atTail, idle.symm, by simp, ?_⟩
    simp [sum]
  | some p =>
    obtain ⟨len, payload⟩ := whole p success
    have short : ¬(40 + p.len > 8188) := by
      rw [len, gt_iff_lt, BitVec.lt_def, BitVec.toNat_add]
      change ¬8188 < (40 + w.len.toNat) % 2 ^ 32
      omega
    have filled : (some p).toList.foldl Link.peerSend
        { l with sender := (execute l.sender ctx w).1 } =
        { l with
          sender := (execute l.sender ctx w).1
          ring := l.ring.fill (fillSlot l.ring.back p)
          filled := true } := by
      simp only [toList_some, foldl_cons, foldl_nil, Link.peerSend, if_neg short]
    have same : (l.ring.fill (fillSlot l.ring.back p)).contents = l.ring.contents :=
      contents_fill slots_divide room _
    rw [filled]
    refine ⟨done, waiting, some p, by rw [same, contents], atTail, rfl, ?_, by simp [sum]⟩
    intro q here
    obtain rfl := Option.some.inj here
    refine ⟨?_, room⟩
    change readSlot (l.ring.fill (fillSlot l.ring.back p)).back = some p
    rw [back_fill, readSlot_fillSlot _ (by rw [payload, len]) (by rw [len]; exact fits)]

theorem Carries.publish : Carries (Link.step l .publish).1 reported applied := by
  by_cases filled : l.filled = true
  · obtain ⟨done, waiting, next, contents, atTail, atHead, slot, sum⟩ := carries
    rw [filled, isSome_iff_exists] at atHead
    obtain ⟨p, rfl⟩ := atHead
    obtain ⟨read, room⟩ := slot p rfl
    have outcome : (Link.step l .publish).1 =
        { l with ring := l.ring.publish, filled := false } := by
      simp [Link.step, filled]
    rw [outcome]
    refine ⟨done, waiting ++ [p], none, ?_, atTail, rfl, by simp, by simp [sum]⟩
    change l.ring.publish.contents.map readSlot = _
    rw [contents_publish slots_divide room (by decide), map_append, contents]
    simp [read]
  · rw [show (Link.step l .publish).1 = l by simp [Link.step, filled]]
    exact carries

theorem Carries.apply :
    Carries (Link.step l .apply).1 reported (applied ++ (Link.step l .apply).2.applied.toList) := by
  by_cases waits : (l.applied || l.ring.head == l.ring.tail) = true
  · have outcome : Link.step l .apply = (l, {}) := by simp only [Link.step, if_pos waits]
    rw [outcome]
    simpa using carries
  · obtain ⟨done, waiting, next, contents, atTail, atHead, slot, sum⟩ := carries
    simp only [Bool.or_eq_true, beq_iff_eq, not_or, Bool.not_eq_true] at waits
    obtain ⟨fresh, more⟩ := waits
    rw [fresh] at atTail
    obtain rfl : done = none := by simpa using atTail
    rw [contents_release slots_divide more] at contents
    cases waiting with
    | nil => cases contents
    | cons p waiting =>
      obtain ⟨read, rest⟩ := cons.inj contents
      have outcome : Link.step l .apply =
          ({ l with receiver := (peerApply l.receiver p).1, applied := true },
            { applied := some p }) := by
        simp [Link.step, fresh, more, read]
      rw [outcome]
      refine ⟨some p, waiting, next, ?_, rfl, atHead, slot, by simp [sum]⟩
      change l.ring.contents.map readSlot = _
      rw [contents_release slots_divide more, map_cons, read, rest]
      rfl

theorem Carries.advance : Carries (Link.step l .advance).1 reported applied := by
  by_cases used : l.applied = true
  · obtain ⟨done, waiting, next, contents, atTail, atHead, slot, sum⟩ := carries
    rw [used, isSome_iff_exists] at atTail
    obtain ⟨p, rfl⟩ := atTail
    have outcome : (Link.step l .advance).1 =
        { l with ring := l.ring.release, applied := false } := by
      simp [Link.step, used]
    have more : l.ring.head ≠ l.ring.tail := by
      intro same
      rw [contents_eq_nil_iff.mpr same] at contents
      cases contents
    have shorter := count_release more
    rw [contents_release slots_divide more] at contents
    rw [outcome]
    refine ⟨none, waiting, next, (cons.inj contents).2, rfl, atHead, fun p here => ?_, sum⟩
    obtain ⟨read, room⟩ := slot p here
    exact ⟨read, Nat.lt_of_le_of_lt (by omega : l.ring.release.count ≤ l.ring.count) room⟩
  · rw [show (Link.step l .advance).1 = l by simp [Link.step, used]]
    exact carries

theorem Carries.step {e : LinkEvent} (cross : l.Cross e) (meets : l.Meets e) :
    Carries (Link.step l e).1 (reported ++ ((Link.step l e).2.posted.bind Execution.packet?).toList)
      (applied ++ (Link.step l e).2.applied.toList) := by
  cases e with
  | post ctx w =>
    cases idle : l.filled with
    | true =>
      have outcome : Link.step l (.post ctx w) = (l, {}) := by simp [Link.step, idle]
      rw [outcome]
      simpa using carries
    | false =>
      have out : (Link.step l (.post ctx w)).2 =
          { posted := some ⟨l.sender, w, (execute l.sender ctx w).2⟩ } := by
        simp [Link.step, idle]
      rw [out]
      simpa using carries.post cross meets idle
  | publish =>
    have out : (Link.step l .publish).2 = {} := by
      simp only [Link.step]
      split <;> rfl
    rw [out]
    simpa using carries.publish
  | apply =>
    have out : (Link.step l .apply).2.posted = none := by
      simp only [Link.step]
      split
      · rfl
      · split <;> rfl
    rw [out]
    simpa using carries.apply
  | advance =>
    have out : (Link.step l .advance).2 = {} := by
      simp only [Link.step]
      split <;> rfl
    rw [out]
    simpa using carries.advance
  | sender n =>
    change Carries { l with sender := n } (reported ++ []) (applied ++ [])
    rw [append_nil, append_nil]
    exact carries
  | receiver n =>
    change Carries { l with receiver := n } (reported ++ []) (applied ++ [])
    rw [append_nil, append_nil]
    exact carries

end

variable {l : Link} {reported applied : List Packet} {events : List LinkEvent}

theorem reportedPackets_cons (out : LinkOut) (trace : List LinkOut) :
    reportedPackets (out :: trace) =
      (out.posted.bind Execution.packet?).toList ++ reportedPackets trace := by
  unfold reportedPackets
  cases packet : out.posted.bind Execution.packet? with
  | none => simp [packet]
  | some p => simp [packet]

theorem appliedPackets_cons (out : LinkOut) (trace : List LinkOut) :
    appliedPackets (out :: trace) = out.applied.toList ++ appliedPackets trace := by
  unfold appliedPackets
  cases packet : out.applied with
  | none => simp [packet]
  | some p => simp [packet]

theorem Carries.run (carries : Carries l reported applied)
    (cross : Along Link.step.next Link.Cross l events)
    (meets : Along Link.step.next Link.Meets l events) :
    Carries (Link.step.final l events) (reported ++ reportedPackets (Link.step.trace l events))
      (applied ++ appliedPackets (Link.step.trace l events)) := by
  induction events generalizing l reported applied with
  | nil => simpa [reportedPackets, appliedPackets] using carries
  | cons e events ih =>
    rw [Mealy.final_cons, Mealy.trace_cons, reportedPackets_cons, appliedPackets_cons,
      ← append_assoc, ← append_assoc]
    exact ih (carries.step cross.1 meets.1) cross.2 meets.2

structure Link.Idle (l : Link) : Prop where
  empty : l.ring.head = l.ring.tail
  filled : l.filled = false
  applied : l.applied = false

theorem Link.Idle.contents (idle : l.Idle) : l.ring.contents = [] :=
  contents_eq_nil_iff.mpr idle.empty

theorem Link.Idle.carries (idle : l.Idle) : Carries l [] [] :=
  ⟨none, [], none, by rw [idle.contents]; rfl, idle.applied.symm, idle.filled.symm, nofun, rfl⟩

theorem Carries.of_idle (carries : Carries l reported applied) (idle : l.Idle) :
    reported = applied := by
  obtain ⟨done, waiting, next, contents, atTail, atHead, _, sum⟩ := carries
  rw [idle.contents] at contents
  rw [idle.filled] at atHead
  obtain rfl : next = none := by simpa using atHead
  have none : done.toList ++ waiting = [] := by simpa using contents.symm
  rw [sum, (append_eq_nil_iff.mp none).2]
  simp

def peerRingDrain : ℕ → List LinkEvent
  | 0 => []
  | slots + 1 => .apply :: .advance :: peerRingDrain slots

theorem drain_round (more : l.ring.head ≠ l.ring.tail) (fresh : l.applied = false) :
    ∃ receiver, Link.step.final l [.apply, .advance] = { l with receiver, ring := l.ring.release } ∧
      reportedPackets (Link.step.trace l [.apply, .advance]) = [] := by
  cases read : readSlot l.ring.front with
  | none =>
    refine ⟨l.receiver, ?_, ?_⟩
    · simp [Link.step, fresh, more, read]
    · simp [Link.step, fresh, more, read, reportedPackets]
  | some p =>
    refine ⟨(peerApply l.receiver p).1, ?_, ?_⟩
    · simp [Link.step, fresh, more, read]
    · simp [Link.step, fresh, more, read, reportedPackets]

theorem drain_idle (published : l.filled = false) (fresh : l.applied = false) :
    (Link.step.final l (peerRingDrain l.ring.count)).Idle ∧
      reportedPackets (Link.step.trace l (peerRingDrain l.ring.count)) = [] := by
  generalize size : l.ring.count = slots
  induction slots generalizing l with
  | zero => exact ⟨⟨count_eq_zero_iff.mp size, published, fresh⟩, rfl⟩
  | succ slots ih =>
    have more : l.ring.head ≠ l.ring.tail := by
      intro same
      rw [count_eq_zero_iff.mpr same] at size
      cases size
    have shorter := count_release more
    obtain ⟨receiver, final, reported⟩ := drain_round more fresh
    obtain ⟨idle, rest⟩ := ih (l := { l with receiver, ring := l.ring.release }) published fresh
      (by change l.ring.release.count = slots; omega)
    change (Link.step.final l ([.apply, .advance] ++ peerRingDrain slots)).Idle ∧
      reportedPackets (Link.step.trace l ([.apply, .advance] ++ peerRingDrain slots)) = []
    rw [Mealy.final_append, Mealy.trace_append, final]
    refine ⟨idle, ?_⟩
    rw [reportedPackets, filterMap_append]
    exact append_eq_nil_iff.mpr ⟨reported, rest⟩

theorem along_drain {meets : Link → LinkEvent → Prop} (applies : ∀ l, meets l .apply)
    (advances : ∀ l, meets l .advance) (slots : ℕ) :
    Along Link.step.next meets l (peerRingDrain slots) := by
  induction slots generalizing l with
  | zero => trivial
  | succ slots ih => exact ⟨applies _, advances _, ih⟩

/-- The packets that are applied are those of the requests with a successful completion, in order;
the next drain applies the ones that are missing. -/
theorem packets_delivered (l : Link) (events : List LinkEvent) (start : l.Idle)
    (cross : Along Link.step.next Link.Cross l events)
    (meets : Along Link.step.next Link.Meets l events) :
    appliedPackets (Link.step.trace l events) <+: reportedPackets (Link.step.trace l events) ∧
      let l' := Link.step.final l events
      (l'.filled = false → l'.applied = false →
        appliedPackets (Link.step.trace l (events ++ peerRingDrain l'.ring.count)) =
          reportedPackets (Link.step.trace l events)) := by
  have carries := start.carries.run cross meets
  refine ⟨?_, fun published fresh => ?_⟩
  · obtain ⟨done, waiting, next, _, _, _, _, sum⟩ := carries
    rw [nil_append, nil_append, append_assoc] at sum
    exact ⟨_, sum.symm⟩
  · obtain ⟨idle, reported⟩ := drain_idle published fresh
    have drained := (carries.run (along_drain (fun _ => trivial) (fun _ => trivial) _)
      (along_drain (fun _ => trivial) (fun _ => trivial) _)).of_idle idle
    rw [reported, append_nil, nil_append, nil_append] at drained
    rw [Mealy.trace_append, appliedPackets, filterMap_append]
    exact drained.symm

def peerNode (guest : Guest) : Node :=
  { guest
    memory := flatTable
    pi := false
    hasPeer := true
    recvQ := []
    pendingSendQ := []
    jfcCq := fun _ => [] }

def idleLink (guest : Guest) : Link :=
  ⟨peerNode guest, peerNode guest, ⟨fun _ _ => 0, 0, 0⟩, false, false⟩

def sendOctet : Wr := ⟨0x40, 0, 9, 3, 0, 0x2000, 0, 0, 1, 0x55, 0, 1, 0⟩

theorem packets_delivered_sendOctet : appliedPackets (Link.step.trace (idleLink flatGuest)
      ([.post 0 sendOctet, .publish] ++ peerRingDrain 1)) = [⟨0x40, 9, 0, 0, 1, 0, 0, [2]⟩] := by
  have readable : Readable (peerNode flatGuest) sendOctet :=
    ⟨by decide, flatRegion, rfl, by decide, flat_reachable (by decide) (by decide)⟩
  have cross : CrossNode (peerNode flatGuest) sendOctet := ⟨rfl, .inr ⟨.inl rfl, rfl⟩⟩
  have delivered := (packets_delivered (idleLink flatGuest) [.post 0 sendOctet, .publish]
    ⟨rfl, rfl, rfl⟩ ⟨cross, trivial, trivial⟩
    ⟨⟨by decide, by decide, fun _ => readable⟩, trivial, trivial⟩).2 (by decide +kernel)
    (by decide +kernel)
  have slots : (Link.step.final (idleLink flatGuest)
      [.post 0 sendOctet, .publish]).ring.count = 1 := by
    decide +kernel
  rw [slots] at delivered
  rw [delivered]
  decide +kernel

/-- A SEND from a region that is not registered is reported as sent. -/
theorem unread_send_reported : let l := idleLink ⟨[⟨0, 0x200000⟩], fun _ => none⟩
    let l' := Link.step.final l [.post 0 sendOctet]
    CrossNode l.sender sendOctet ∧ l'.filled = false ∧ l'.applied = false ∧
      appliedPackets (Link.step.trace l ([.post 0 sendOctet] ++ peerRingDrain l'.ring.count)) ≠
        reportedPackets (Link.step.trace l [.post 0 sendOctet]) :=
  ⟨⟨rfl, .inr ⟨.inl rfl, rfl⟩⟩, rfl, rfl, by decide +kernel⟩

end OpenURMA.Nic
