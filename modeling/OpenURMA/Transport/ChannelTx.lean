import OpenURMA.Opcode
import OpenURMA.Packet

/-!
# `UB_TPChannel_TX`

The sender keeps a channel per destination and stamps the metadata flit of every reliable
packet with the channel's next PSN.  Packets in UNO mode bypass the channels.
Acknowledgements come in on a second port and are processed first.
-/

namespace OpenURMA.TpChannelTx

open Library UbMeta BitField Function List

structure Chan where
  remoteCna : U32
  localTpn : U32
  remoteTpn : U32
  psnNext : U32
  tpmsnNext : U32
  lastAcked : U32
  valid : Bool
  deriving DecidableEq, Inhabited

structure State where
  chan : Fin 64 → Chan

def State.setChan (s : State) (i : Fin 64) (c : Chan) : State where
  chan := update s.chan i c

theorem State.chan_setChan (s : State) (i : Fin 64) (c : Chan) : (s.setChan i c).chan i = c :=
  update_self ..

/-- `.init` marks every channel invalid and sets nothing else. -/
def init (memory : Fin 64 → Chan) : State where
  chan i := { memory i with valid := false }

def idx (cna : U32) : Fin 64 :=
  ⟨(cna &&& 63).toNat, and_63_lt cna⟩

def takeAck (s : State) (af : Flit) : State :=
  let rcna := (af.get 0 &&& 0xFFFFFF).setWidth 32
  let apsn := (af.get 1 &&& 0xFFFFFF).setWidth 32
  let c := s.chan (idx rcna)
  if c.valid && c.remoteCna == rcna then
    s.setChan (idx rcna) { c with lastAcked := apsn }
  else s

def freshChan (dcna : U32) : Chan where
  remoteCna := dcna
  localTpn := BitVec.ofNat 32 (idx dcna)
  remoteTpn := BitVec.ofNat 32 (idx dcna)
  psnNext := 0
  tpmsnNext := 0
  lastAcked := 0xFFFFFF
  valid := true

/-- The channel to a destination, created if need be. -/
def openChan (c : Chan) (dcna : U32) : Chan :=
  if !c.valid || c.remoteCna != dcna then freshChan dcna else c

/-- The channel after a packet has been numbered; a TPMSN counts up at the last packet of a
transaction. -/
def countPacket (c : Chan) (lastPkt : Bool) : Chan :=
  { c with
    psnNext := (c.psnNext + 1) &&& 0xFFFFFF
    tpmsnNext := if lastPkt then (c.tpmsnNext + 1) &&& 0xFFFFFF else c.tpmsnNext }

def stampUno (f : Flit) : Flit :=
  tpmsn.set 0 (psn.set 0 (tpOpcode.set tpopUtp
    (nthNlp.set nthNlpUtph f)))

def stampRtp (c : Chan) (f : Flit) : Flit :=
  nthNlp.set nthNlpRtph (tpmsn.set c.tpmsnNext (psn.set c.psnNext
    (dstTpn.set c.remoteTpn (srcTpn.set c.localTpn f))))

def stamp (s : State) (f : Flit) : State × Flit :=
  if svcMode.get f == svcUno then (s, stampUno f)
  else
    let dcna := dcna.get f
    let c := openChan (s.chan (idx dcna)) dcna
    (s.setChan (idx dcna) (countPacket c (lastPkt.get f)), stampRtp c f)

/-- What waits on the two input ports in a call. -/
structure Offer where
  flit : Option Flit
  ack : Option Flit

def step : Mealy State Offer (Ports Flit) := fun s offer =>
  let s := offer.ack.elim s (takeAck s)
  match offer.flit with
  | none => (s, Ports.silent)
  | some f =>
    if f.sop then ((stamp s f).1, Ports.emit 1 (stamp s f).2)
    else (s, Ports.emit 1 f)

theorem framing_stamp (s : State) (f : Flit) :
    (stamp s f).2.sop = f.sop ∧ (stamp s f).2.eop = f.eop := by
  unfold stamp
  split <;> simp [stampUno, stampRtp]

def stampPacket (s : State) (p : Packet) : Packet :=
  p.withHead (stamp s p.head).2 (framing_stamp s p.head).1 (framing_stamp s p.head).2

def send : State → List Packet → List Packet
  | _, [] => []
  | s, p :: packets => stampPacket s p :: send (stamp s p.head).1 packets

/-- The next reliable packet to `dest` gets number `n`. -/
def Counts (s : State) (dest : U32) (n : ℕ) : Prop :=
  (openChan (s.chan (idx dest)) dest).psnNext.toNat = n % 2 ^ 24

theorem counts_init (memory : Fin 64 → Chan) (dest : U32) : Counts (init memory) dest 0 := by
  rw [Counts, openChan, if_pos (by simp [init])]
  rfl

theorem openChan_opened (c : Chan) (dcna : U32) :
    (openChan c dcna).valid = true ∧ (openChan c dcna).remoteCna = dcna := by
  unfold openChan
  split
  · exact ⟨rfl, rfl⟩
  · next known => simpa using known

theorem openChan_countPacket (c : Chan) (dcna : U32) (lastPkt : Bool) :
    openChan (countPacket (openChan c dcna) lastPkt) dcna =
      countPacket (openChan c dcna) lastPkt := by
  have opened := openChan_opened c dcna
  rw [openChan, if_neg]
  simp [countPacket, opened.1, opened.2]

/-- A destination finds the channel of another one with the same index and takes it over. -/
theorem openChan_countPacket_other (c : Chan) {dcna dest : U32} (other : dest ≠ dcna)
    (lastPkt : Bool) : openChan (countPacket (openChan c dcna) lastPkt) dest = freshChan dest := by
  have owner : (countPacket (openChan c dcna) lastPkt).remoteCna = dcna :=
    (openChan_opened c dcna).2
  rw [openChan, if_pos]
  rw [owner]
  simpa using Or.inr other.symm

variable {c : Chan}

theorem toNat_psnNext_countPacket {n : ℕ} (counts : c.psnNext.toNat = n % 2 ^ 24) (lastPkt : Bool) :
    (countPacket c lastPkt).psnNext.toNat = (n + 1) % 2 ^ 24 := by
  change ((c.psnNext + 1) &&& 0xFFFFFF).toNat = _
  rw [show (0xFFFFFF : U32) = mask 32 24 by decide, toNat_and_mask (by omega),
    BitVec.toNat_add, counts]
  change (n % 2 ^ 24 + 1) % 2 ^ 32 % 2 ^ 24 = _
  omega

/-- The positions that the stamp of a reliable packet writes. -/
def stampedSlots : List Slot :=
  [srcTpn.toSlot, dstTpn.toSlot, psn.toSlot, tpmsn.toSlot, nthNlp.toSlot]

theorem get_stampRtp {α : Type} [FieldValue α] {field : Field α}
    (other : ∀ slot ∈ stampedSlots, slot.Disjoint field.toSlot) (c : Chan) (f : Flit) :
    field.get (stampRtp c f) = field.get f := by
  simp only [stampedSlots, forall_mem_cons] at other
  obtain ⟨srcTpn, dstTpn, psn, tpmsn, nthNlp, _⟩ := other
  rw [stampRtp, Field.get_set_disjoint nthNlp, Field.get_set_disjoint tpmsn,
    Field.get_set_disjoint psn, Field.get_set_disjoint dstTpn, Field.get_set_disjoint srcTpn]

section

variable {s : State} {f : Flit} {dest : U32} {n : ℕ}

theorem stamp_reliable (reliable : svcMode.get f ≠ svcUno) (addressed : dcna.get f = dest) :
    stamp s f = (s.setChan (idx dest)
        (countPacket (openChan (s.chan (idx dest)) dest) (lastPkt.get f)),
      stampRtp (openChan (s.chan (idx dest)) dest) f) := by
  rw [stamp, if_neg (by simpa using reliable), addressed]

theorem Counts.stamp (counts : Counts s dest n) (reliable : svcMode.get f ≠ svcUno)
    (addressed : dcna.get f = dest) :
    Counts (stamp s f).1 dest (n + 1) ∧ (psn.get (TpChannelTx.stamp s f).2).toNat = n % 2 ^ 24 := by
  rw [stamp_reliable reliable addressed]
  constructor
  · rw [Counts, State.chan_setChan, openChan_countPacket]
    exact toNat_psnNext_countPacket counts _
  · rw [stampRtp, Field.get_set_disjoint (by decide), Field.get_set_disjoint (by decide),
      Field.toNat_get_set _ (by decide), counts]
    exact Nat.mod_mod ..

end

def Chan.numbering (c : Chan) : Chan := { c with lastAcked := 0 }

variable {d : Chan}

section

variable (alike : c.numbering = d.numbering)
include alike

theorem numbering_openChan (dcna : U32) :
    (openChan c dcna).numbering = (openChan d dcna).numbering := by
  have valid : c.valid = d.valid := congrArg (·.valid) alike
  have remoteCna : c.remoteCna = d.remoteCna := congrArg (·.remoteCna) alike
  unfold openChan
  rw [valid, remoteCna]
  split
  · rfl
  · exact alike

theorem numbering_countPacket (lastPkt : Bool) :
    (countPacket c lastPkt).numbering = (countPacket d lastPkt).numbering := by
  change (countPacket c.numbering lastPkt).numbering = (countPacket d.numbering lastPkt).numbering
  rw [alike]

theorem stampRtp_congr (f : Flit) : stampRtp c f = stampRtp d f := by
  change stampRtp c.numbering f = stampRtp d.numbering f
  rw [alike]

end

def Alike (s t : State) : Prop := ∀ i, (s.chan i).numbering = (t.chan i).numbering

variable {s t : State}

theorem alike_setChan (alike : Alike s t) (i : Fin 64) (same : c.numbering = d.numbering) :
    Alike (s.setChan i c) (t.setChan i d) := by
  intro j
  simp only [State.setChan]
  by_cases here : j = i
  · rw [here, update_self, update_self, same]
  · rw [update_of_ne here, update_of_ne here, alike j]

theorem alike_takeAck (alike : Alike s t) (af : Flit) : Alike (takeAck s af) t := by
  simp only [takeAck]
  split
  · have own : ∀ i, t.setChan i (t.chan i) = t := fun i => by
      rw [State.setChan, update_eq_self]
    rw [← own (idx ((af.get 0 &&& 0xFFFFFF).setWidth 32))]
    exact alike_setChan alike _ (alike _)
  · exact alike

theorem alike_stamp (alike : Alike s t) (f : Flit) :
    Alike (stamp s f).1 (stamp t f).1 ∧ (stamp s f).2 = (stamp t f).2 := by
  simp only [stamp]
  split
  · exact ⟨alike, rfl⟩
  · have opened := numbering_openChan (alike (idx (dcna.get f))) (dcna.get f)
    exact ⟨alike_setChan alike _ (numbering_countPacket opened _), stampRtp_congr opened f⟩

/-- The flits of the stamped packets leave on port 1, whenever acknowledgements come in.
The calls may start inside a packet, of which `rest` is still to come. -/
theorem sent_rest_send (calls : List Offer) (alike : Alike s t) {rest : List Flit}
    (inner : ∀ f ∈ rest, f.sop = false) {packets : List Packet}
    (inputs : calls.filterMap (·.flit) = rest ++ packets.flatMap Packet.flits) :
    Ports.sent 1 (step.trace s calls) = rest ++ (send t packets).flatMap Packet.flits := by
  induction calls generalizing s t rest packets with
  | nil =>
    have empty := append_eq_nil_iff.mp inputs.symm
    cases packets with
    | nil => rw [empty.1]; rfl
    | cons p packets => simp [Packet.flits] at empty
  | cons offer calls ih =>
    have acked : Alike (offer.ack.elim s (takeAck s)) t := by
      cases offer.ack with
      | none => exact alike
      | some af => exact alike_takeAck alike af
    rw [Mealy.trace_cons, Ports.sent_cons]
    cases flit : offer.flit with
    | none =>
      rw [filterMap_cons_none flit] at inputs
      simp only [step, flit]
      exact ih acked inner inputs
    | some f =>
      rw [filterMap_cons_some flit] at inputs
      cases rest with
      | cons g rest =>
        rw [cons_append, List.cons.injEq] at inputs
        have notSop : f.sop = false := inputs.1 ▸ inner g (by simp)
        simp only [step, flit, notSop, Bool.false_eq_true, if_false, Ports.emit_same]
        rw [ih acked (fun h member => inner h (by simp [member])) inputs.2, inputs.1]
        rfl
      | nil =>
        cases packets with
        | nil => simp at inputs
        | cons p packets =>
          rw [nil_append, flatMap_cons, Packet.flits, cons_append,
            List.cons.injEq] at inputs
          have sop : f.sop = true := inputs.1 ▸ p.sop_head
          have stamped := alike_stamp acked f
          simp only [step, flit, sop, if_true, Ports.emit_same]
          rw [ih stamped.1 p.sop_rest inputs.2, stamped.2, inputs.1]
          rfl

/-- A sender with one destination: the packets it posts are reliable and carry its own CNA. -/
structure Sender where
  cna : U32
  dest : U32
  memory : Fin 64 → Chan
  posted : ℕ → Packet
  scna_posted : ∀ n, scna.get (posted n).head = cna
  dcna_posted : ∀ n, dcna.get (posted n).head = dest
  reliable : ∀ n, svcMode.get (posted n).head ≠ svcUno

namespace Sender

def plainHead (node : BitVec 24) : Flit :=
  scna.set (node.setWidth 32) { lane0 := 7, sop := true }

theorem scna_plainHead (node : BitVec 24) : scna.get (plainHead node) = node.setWidth 32 := by
  have bound := node.isLt
  have low : (scna.get (plainHead node)).toNat = (node.setWidth 32).toNat % 2 ^ 24 :=
    Field.toNat_get_set scna (by decide) _ _
  apply BitVec.eq_of_toNat_eq
  rw [low, BitVec.toNat_setWidth]
  omega

theorem get_plainHead_of_disjoint {α : Type} [FieldValue α] {field : Field α}
    (disjoint : scna.Disjoint field.toSlot) (node : BitVec 24) :
    field.get (plainHead node) = field.get { lane0 := 7, sop := true } :=
  Field.get_set_disjoint disjoint ..

theorem sop_numbered (n : ℕ) :
    ∀ f ∈ [({ lane0 := BitVec.ofNat 64 n, eop := true } : Flit)], f.sop = false := by simp

/-- A node that sends packets of a metadata and an extension flit to node 7. -/
def plain (node : BitVec 24) : Sender where
  cna := node.setWidth 32
  dest := 7
  memory _ := default
  posted n :=
    { head := plainHead node
      rest := [{ lane0 := BitVec.ofNat 64 n, eop := true }]
      sop_head := Field.sop_set ..
      sop_rest := sop_numbered n
      eop_last := ⟨Field.eop_set .., rfl⟩ }
  scna_posted _ := scna_plainHead node
  dcna_posted _ := (get_plainHead_of_disjoint (by decide) node).trans (by decide)
  reliable _ := by
    rw [get_plainHead_of_disjoint (by decide) node]
    decide

variable (sender : Sender)

def state : ℕ → State
  | 0 => init sender.memory
  | n + 1 => (stamp (state n) (sender.posted n).head).1

def packet (n : ℕ) : Packet := stampPacket (sender.state n) (sender.posted n)

theorem counts_state (n : ℕ) : Counts (sender.state n) sender.dest n := by
  induction n with
  | zero => exact counts_init ..
  | succ n ih => exact (ih.stamp (sender.reliable n) (sender.dcna_posted n)).1

theorem psn_packet (n : ℕ) : (psn.get (sender.packet n).head).toNat = n % 2 ^ 24 :=
  ((sender.counts_state n).stamp (sender.reliable n) (sender.dcna_posted n)).2

theorem scna_packet (n : ℕ) : scna.get (sender.packet n).head = sender.cna := by
  change scna.get (stamp (sender.state n) (sender.posted n).head).2 = _
  rw [stamp_reliable (sender.reliable n) rfl, get_stampRtp (by decide), sender.scna_posted]

theorem send_posted (first count : ℕ) :
    send (sender.state first) ((range' first count).map sender.posted) =
      (range' first count).map sender.packet := by
  induction count generalizing first with
  | zero => rfl
  | succ count ih =>
    rw [range'_succ, map_cons, map_cons, send]
    exact congrArg (sender.packet first :: ·) (ih (first + 1))

/-- The flits on port 1 are those of packets 0, 1, …, whenever acknowledgements come in. -/
theorem emits {calls : List Offer} {count : ℕ} (inputs : calls.filterMap (·.flit) =
      ((range count).map sender.posted).flatMap Packet.flits) :
    Ports.sent 1 (step.trace (init sender.memory) calls) =
      ((range count).map sender.packet).flatMap Packet.flits := by
  have stamped := sender.send_posted 0 count
  rw [← range_eq_range'] at stamped
  rw [← stamped]
  exact sent_rest_send calls (fun _ => rfl) (forall_mem_nil _) inputs

end Sender

end OpenURMA.TpChannelTx
