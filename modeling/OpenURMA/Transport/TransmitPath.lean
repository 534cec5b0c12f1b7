import OpenURMA.Library.Chain
import OpenURMA.Ordering.JettySched
import OpenURMA.Ordering.OrderTrackerInitiator
import OpenURMA.Transport.ChannelTx
import OpenURMA.Transport.Pipeline
import OpenURMA.Transport.RetransBuffer

/-!
# The transmit path

The way of a work request from the host to the wire: `UB_Jetty_Sched`,
`UB_OrderTracker_Initiator`, `UB_BTAH_Build`, `UB_TPChannel_TX`, `UB_Cong_Window`,
`UB_Retrans_Buffer`, `UB_RTPH_Build` and `UB_NTH_Build`, linked by queues.  For packets in the
modes ROT and ROL the scheduler alone decides on the order; every other element passes packets
on as they come, and the channel numbers them.
-/

namespace OpenURMA

open Library TpChannelTx UbMeta IniQueues Stage List

variable {packets : List Packet}

namespace OrderTrackerInitiator

/-- Nothing is queued, and the packet under way, if any, passes. -/
structure Passing (s : State) (within : Bool) : Prop where
  empty : ∀ i, s.held i = []
  idle : s.drainInPacket = false
  inside : within = true → s.inPacketInput = true ∧ s.curInputPassthrough = true

theorem passing_init (memory : Fin 16 → Fin 32 → PendingWR) : Passing (init memory) false where
  empty _ := rfl
  idle := rfl
  inside impossible := by cases impossible

namespace Passing

variable {s : State} {within : Bool} (passing : Passing s within)
include passing

theorem notified (notification : Option Flit) : Passing (notified s notification) within := by
  cases notification with
  | none => exact passing
  | some cn =>
    constructor
    · intro i
      exact (congrFun held_notify i).trans (passing.empty i)
    · exact drainInPacket_notify.trans passing.idle
    · exact passing.inside

theorem drained : Passing (drained s).1 within ∧ (drained s).2 1 = none := by
  have nothing := drain_of_empty (d := discipline) passing.idle (passing.empty _)
  rw [OrderTrackerInitiator.drained, nothing]
  exact ⟨⟨passing.empty, passing.idle, passing.inside⟩, rfl⟩

theorem accept {f : Flit} (framed : f.sop = !within)
    (mode : f.sop = true → svcMode.get f ≠ svcRoi) :
    Passing (accept s f).1 (!f.eop) ∧ (accept s f).2 = true := by
  cases sop : f.sop with
  | true =>
    have passes : passthrough s f = true := by simp [passthrough, mode sop]
    rw [OrderTrackerInitiator.accept, if_pos sop, if_pos passes]
    refine ⟨⟨fun i => ?_, ?_, fun more => ⟨more, rfl⟩⟩, rfl⟩
    · change held (if isOrdered f then _ else _) i = []
      cases isOrdered f with
      | true => exact (congrFun (held_raise ..) i).trans (passing.empty i)
      | false => exact passing.empty i
    · change drainInPacket (if isOrdered f then _ else _) = false
      cases isOrdered f <;> exact passing.idle
  | false =>
    rw [sop] at framed
    obtain ⟨inside, passes⟩ := passing.inside (by simpa using framed.symm)
    rw [OrderTrackerInitiator.accept, if_neg (by simp [sop]), if_pos inside, if_pos passes, inside]
    refine ⟨⟨passing.empty, passing.idle, fun more => ⟨?_, passes⟩⟩, rfl⟩
    change (if f.eop then false else true) = true
    cases last : f.eop with
    | true => rw [last] at more; cases more
    | false => rfl

theorem call (call : Call) (framed : ∀ f ∈ call.wr, f.sop = !within ∧
      (f.sop = true → svcMode.get f ≠ svcRoi)) :
    Passing (step s call).1 (call.wr.elim within (!·.eop)) ∧ (step s call).2 1 = call.wr := by
  have noted := passing.notified call.notification
  obtain ⟨wr, notification⟩ := call
  cases wr with
  | none => exact noted.drained
  | some f =>
    obtain ⟨mark, mode⟩ := framed f rfl
    obtain ⟨after, passes⟩ := noted.accept mark mode
    have passed : step s ⟨some f, notification⟩ =
        ((OrderTrackerInitiator.accept (OrderTrackerInitiator.notified s notification) f).1,
          Ports.emit 1 f) := if_pos passes
    rw [passed]
    exact ⟨after, Ports.emit_same 1 f⟩

end Passing

theorem sent_packets (memory : Fin 16 → Fin 32 → PendingWR) {calls : List Call}
    (inputs : posted calls = packets.flatMap Packet.flits)
    (modes : ∀ p ∈ packets, svcMode.get p.head ≠ svcRoi) :
    sent step (init memory) calls = posted calls := by
  have framed : scan false (posted calls) = some false := by rw [inputs, scan_packets]
  have heads : ∀ f ∈ posted calls, f.sop = true → svcMode.get f ≠ svcRoi := by
    intro f member sop
    rw [inputs] at member
    obtain ⟨p, listed, rfl⟩ := head_of_sop member sop
    exact modes p listed
  exact sent_of_passes (fun s within call passing => passing.call call) (passing_init memory)
    framed heads

end OrderTrackerInitiator

namespace RetransBuffer

def quietStep : Mealy State (Option Flit) (Ports Flit) := fun s flit => step s ⟨flit, none⟩

def Seen (s : State) (within : Bool) : Prop := within = true → s.sawMeta = true

theorem seen_quietStep (s : State) (within : Bool) (flit : Option Flit) (seen : Seen s within)
    (framed : ∀ f ∈ id flit, f.sop = !within ∧ True) :
    Seen (quietStep s flit).1 ((id flit).elim within (!·.eop)) ∧
      (quietStep s flit).2 1 = id flit := by
  cases flit with
  | none => exact ⟨seen, rfl⟩
  | some f =>
    have taken : f.sop = true ∨ s.sawMeta = true := by
      cases within with
      | true => exact .inr (seen rfl)
      | false => exact .inl (framed f rfl).1
    constructor
    · intro more
      exact takeFlit_sawMeta taken (by simpa using more) _
    · change (takeFlit s f Ports.silent).2 1 = _
      rw [takeFlit_out taken]
      exact Ports.put_same ..

theorem sent_quiet (memory : Fin 16 → Fin 8 → Slot) {flits : List (Option Flit)}
    (inputs : flits.filterMap id = packets.flatMap Packet.flits) :
    Ports.sent 1 (quietStep.trace (init memory) flits) = flits.filterMap id := by
  have framed : scan false (flits.filterMap id) = some false := by rw [inputs, scan_packets]
  have start : Seen (init memory) false := fun impossible => by cases impossible
  exact sent_of_passes seen_quietStep start framed fun _ _ => trivial

end RetransBuffer

namespace TransmitPath

variable (nth : NthBuild.State)

def transmit (s : TpChannelTx.State) (p : Packet) : Packet :=
  (NthBuild.stamp nth).packet (RtphBuild.stamp.packet
    (stampPacket s (BtahBuild.stamp.packet p)))

def writtenSlots : List OpenURMA.Slot :=
  (BtahBuild.writes {}).map Write.slot ++ stampedSlots ++
    (RtphBuild.writes {}).map Write.slot ++ [sl.toSlot, scna.toSlot]

section

variable {nth} {s : TpChannelTx.State} {dest : U32} {n : ℕ} {p : Packet}
variable (reliable : svcMode.get p.head ≠ svcUno)
include reliable

theorem reliable_btah : svcMode.get (BtahBuild.stamp.packet p).head ≠ svcUno := by
  change svcMode.get (BtahBuild.build p.head) ≠ svcUno
  rw [BtahBuild.get_build (by decide)]
  exact reliable

theorem marked_stamp : nthNlp.get (stampPacket s (BtahBuild.stamp.packet p)).head = nthNlpRtph ∧
      svcMode.get (stampPacket s (BtahBuild.stamp.packet p)).head ≠ svcUno := by
  change nthNlp.get (stamp s _).2 = _ ∧
    svcMode.get (stamp s _).2 ≠ _
  rw [stamp_reliable (reliable_btah reliable) rfl]
  constructor
  · rw [stampRtp, Field.get_set_same]
    decide
  · rw [get_stampRtp (by decide)]
    exact reliable_btah reliable

theorem get_behind {α : Type} [FieldValue α] {field : Field α}
    (rtph : ∀ slot ∈ (RtphBuild.writes {}).map Write.slot, slot.Disjoint field.toSlot)
    (nthSlots : sl.Disjoint field.toSlot ∧ scna.Disjoint field.toSlot) :
    field.get (transmit nth s p).head =
      field.get (stampPacket s (BtahBuild.stamp.packet p)).head := by
  obtain ⟨marked, mode⟩ := marked_stamp (s := s) reliable
  have known : nthNlp.get (RtphBuild.build
      (stampPacket s (BtahBuild.stamp.packet p)).head) ≠ 0 := by
    rw [(RtphBuild.data_build marked mode).1]
    decide
  exact (NthBuild.get_build known nthSlots nth).trans (RtphBuild.get_build marked mode rtph)

theorem get_transmit {α : Type} [FieldValue α] {field : Field α}
    (other : ∀ slot ∈ writtenSlots, slot.Disjoint field.toSlot) :
    field.get (transmit nth s p).head = field.get p.head := by
  simp only [writtenSlots, forall_mem_append, forall_mem_cons] at other
  obtain ⟨⟨⟨btah, channel⟩, rtph⟩, sl, scna, _⟩ := other
  rw [get_behind reliable rtph ⟨sl, scna⟩]
  change field.get (stamp s _).2 = _
  rw [stamp_reliable (reliable_btah reliable) rfl, get_stampRtp channel]
  exact BtahBuild.get_build btah p.head

variable (nth) in
theorem psn_transmit (counts : Counts s dest n) (addressed : dcna.get p.head = dest) :
    Counts (stamp s (BtahBuild.build p.head)).1 dest (n + 1) ∧
      (psn.get (transmit nth s p).head).toNat = n % 2 ^ 24 := by
  have own : dcna.get (BtahBuild.build p.head) = dest := by
    rw [BtahBuild.get_build (by decide)]
    exact addressed
  obtain ⟨next, number⟩ := counts.stamp (reliable_btah reliable) own
  rw [get_behind reliable (by decide) (by decide)]
  exact ⟨next, number⟩

end

structure Keeps (p q : Packet) : Prop where
  rest : q.rest = p.rest
  dcna : dcna.get q.head = dcna.get p.head
  taOpcode : taOpcode.get q.head = taOpcode.get p.head
  iniTassn : iniTassn.get q.head = iniTassn.get p.head
  odr : odr.get q.head = odr.get p.head
  fence : fence.get q.head = fence.get p.head
  svcMode : svcMode.get q.head = svcMode.get p.head
  tvEn : tvEn.get q.head = tvEn.get p.head
  mtEn : mtEn.get q.head = mtEn.get p.head
  iniRcId : iniRcId.get q.head = iniRcId.get p.head

theorem keeps_transmit (s : TpChannelTx.State) {p : Packet}
    (reliable : svcMode.get p.head ≠ svcUno) : Keeps p (transmit nth s p) where
  rest := rfl
  dcna := get_transmit reliable (by decide)
  taOpcode := get_transmit reliable (by decide)
  iniTassn := get_transmit reliable (by decide)
  odr := get_transmit reliable (by decide)
  fence := get_transmit reliable (by decide)
  svcMode := get_transmit reliable (by decide)
  tvEn := get_transmit reliable (by decide)
  mtEn := get_transmit reliable (by decide)
  iniRcId := get_transmit reliable (by decide)

def transmitAll : TpChannelTx.State → List Packet → List Packet
  | _, [] => []
  | s, p :: packets =>
    transmit nth s p :: transmitAll (stamp s (BtahBuild.build p.head)).1 packets

theorem transmitAll_eq (s : TpChannelTx.State) (packets : List Packet) :
    ((send s (packets.map BtahBuild.stamp.packet)).map RtphBuild.stamp.packet).map
      (NthBuild.stamp nth).packet = transmitAll nth s packets := by
  induction packets generalizing s with
  | nil => rfl
  | cons p packets ih => exact congrArg (transmit nth s p :: ·) (ih _)

theorem length_transmitAll (s : TpChannelTx.State) (packets : List Packet) :
    (transmitAll nth s packets).length = packets.length := by
  induction packets generalizing s with
  | nil => rfl
  | cons p packets ih => exact congrArg Nat.succ (ih _)

theorem getElem_transmitAll {s : TpChannelTx.State} {dest : U32} {n : ℕ} (counts : Counts s dest n)
    (reliable : ∀ p ∈ packets, svcMode.get p.head ≠ svcUno)
    (addressed : ∀ p ∈ packets, dcna.get p.head = dest) {k : ℕ} {p q : Packet}
    (before : packets[k]? = some p) (after : (transmitAll nth s packets)[k]? = some q) :
    (psn.get q.head).toNat = (n + k) % 2 ^ 24 ∧ Keeps p q := by
  induction packets generalizing s n k with
  | nil => cases before
  | cons first packets ih =>
    have mode := reliable first (by simp)
    obtain ⟨next, number⟩ := psn_transmit nth mode counts (addressed first (by simp))
    cases k with
    | zero =>
      obtain rfl : first = p := by simpa using before
      obtain rfl : transmit nth s first = q := by simpa [transmitAll] using after
      exact ⟨number, keeps_transmit nth s mode⟩
    | succ k =>
      rw [Nat.add_comm k 1, ← Nat.add_assoc]
      exact ih next (fun r member => reliable r (by simp [member]))
        (fun r member => addressed r (by simp [member])) before after

/-- What the elements find in their memory before `.init`, and the settings of `UB_NTH_Build`. -/
structure Setup where
  wrs : Fin 16 → Fin 32 → JettySched.WR
  pending : Fin 16 → Fin 32 → OrderTrackerInitiator.PendingWR
  chans : Fin 64 → Chan
  slots : Fin 16 → Fin 8 → RetransBuffer.Slot
  nth : NthBuild.State

/-- The elements of the path, with notifications of responses for the first two and
acknowledgements for the channel. -/
abbrev elements (setup : Setup) : Fin 8 → Stage Flit
  | 0 => .ofOffers (JettySched.init setup.wrs) JettySched.step Call.mk 1
  | 1 => .ofOffers (OrderTrackerInitiator.init setup.pending) OrderTrackerInitiator.step Call.mk 1
  | 2 => .ofMealy () BtahBuild.step 1
  | 3 => .ofOffers (TpChannelTx.init setup.chans) TpChannelTx.step Offer.mk 1
  | 4 => .ofMealy CongWindow.init CongWindow.step 1
  | 5 => .ofOffers (RetransBuffer.init setup.slots) RetransBuffer.quietStep
      (fun flit (_ : Unit) => flit) 1
  | 6 => .ofMealy () RtphBuild.step 1
  | 7 => .ofMealy () (NthBuild.step setup.nth) 1

variable (setup : Setup) (packets : List Packet) (turns : List (Turn (elements setup)))

def start : Chain (elements setup) := Chain.start _ (packets.flatMap Packet.flits)

def schedCalls : List Call :=
  ((start setup packets).calls turns 0).map fun call => Call.mk call.1 call.2

def releasedFlits : List Flit :=
  sent JettySched.step (JettySched.init setup.wrs) (schedCalls setup packets turns)

/-- Nothing waits between the elements or in the scheduler. -/
def Drained (c : Chain (elements setup)) : Prop :=
  (∀ k < 8, c.queue k = []) ∧
    ∀ i, queue JettySched.discipline (c.state 0).toIniQueues i = []

instance (c : Chain (elements setup)) : Decidable (Drained setup c) :=
  inferInstanceAs (Decidable ((∀ k < 8, _) ∧ ∀ _ : Fin 16, _))

variable {setup packets turns}

section

variable (drained : Drained setup ((start setup packets).run turns))
include drained

theorem released
    (room : Along JettySched.step.next JettySched.NoOverflow (JettySched.init setup.wrs)
      (schedCalls setup packets turns)) :
    ∃ released : List Packet, releasedFlits setup packets turns = released.flatMap Packet.flits ∧
        ∀ i, (released.filter fun p => metaSlot p.head = i) =
          packets.filter fun p => metaSlot p.head = i := by
  have first : packets.flatMap Packet.flits = (start setup packets).outflow turns 0 ++
      ((start setup packets).run turns).queue 0 := Chain.start_first turns _
  rw [drained.1 0 (by omega), append_nil] at first
  have inputs : posted (schedCalls setup packets turns) = packets.flatMap Packet.flits := by
    rw [posted, schedCalls, filterMap_map]
    exact first.symm
  refine JettySched.releases_packets inputs room fun i => ?_
  have state := Chain.state_run (start setup packets) turns 0
  have final := final_ofOffers (JettySched.init setup.wrs) JettySched.step Call.mk 1
    (JettySched.init setup.wrs) ((start setup packets).calls turns 0)
  have empty := drained.2 i
  rw [state] at empty
  rw [schedCalls]
  exact (congrArg (fun s : JettySched.State => s.queue JettySched.discipline i) final).symm.trans
    empty

theorem link {k : ℕ} (inner : k + 1 < 8) :
    (start setup packets).outflow turns (k + 1) = (start setup packets).given turns k :=
  Chain.start_link_of_empty turns _ (drained.1 (k + 1) inner)

theorem output_of_released {released : List Packet}
    (flits : releasedFlits setup packets turns = released.flatMap Packet.flits)
    (modes : ∀ p ∈ released, svcMode.get p.head ≠ svcRoi) :
    ((start setup packets).run turns).queue 8 =
      (transmitAll setup.nth (TpChannelTx.init setup.chans) released).flatMap Packet.flits := by
  let path := start setup packets
  have sched : path.outflow turns 1 = released.flatMap Packet.flits := by
    rw [link drained (by omega), ← flits]
    exact given_ofOffers _ _ _ _ _ _
  have tracker : path.outflow turns 2 = released.flatMap Packet.flits := by
    have inputs : posted ((path.calls turns 1).map fun call => Call.mk call.1 call.2) =
        released.flatMap Packet.flits := by
      rw [posted, filterMap_map]
      exact sched
    rw [link drained (by omega), ← inputs,
      ← OrderTrackerInitiator.sent_packets setup.pending inputs modes]
    exact given_ofOffers _ _ _ _ _ _
  have btah : path.outflow turns 3 =
      (released.map BtahBuild.stamp.packet).flatMap Packet.flits := by
    rw [link drained (by omega), ← Stamp.sent_packets, ← tracker]
    exact given_ofMealy _ _ _ _ _
  have channel : path.outflow turns 4 = (send (TpChannelTx.init setup.chans)
      (released.map BtahBuild.stamp.packet)).flatMap Packet.flits := by
    have inputs : ((path.calls turns 3).map fun call =>
        Offer.mk call.1 call.2).filterMap (·.flit) =
          [] ++ (released.map BtahBuild.stamp.packet).flatMap Packet.flits := by
      rw [filterMap_map]
      exact btah
    have sent := sent_rest_send (s := TpChannelTx.init setup.chans)
      (t := TpChannelTx.init setup.chans) _ (fun _ => rfl) (forall_mem_nil _) inputs
    rw [link drained (by omega), ← nil_append (flatMap _ _), ← sent]
    exact given_ofOffers _ _ _ _ _ _
  have window : path.outflow turns 5 = path.outflow turns 4 := by
    rw [link drained (by omega)]
    exact (given_ofMealy _ _ _ _ _).trans (CongWindow.sent_trace _ _)
  have buffer : path.outflow turns 6 = path.outflow turns 5 := by
    have inputs : ((path.calls turns 5).map fun call => call.1).filterMap id =
        (send (TpChannelTx.init setup.chans)
          (released.map BtahBuild.stamp.packet)).flatMap Packet.flits := by
      rw [filterMap_map, ← channel, ← window]
      rfl
    have taken : path.outflow turns 5 =
        ((path.calls turns 5).map fun call => call.1).filterMap id := by
      rw [filterMap_map]
      rfl
    rw [link drained (by omega), taken, ← RetransBuffer.sent_quiet setup.slots inputs]
    exact given_ofOffers _ _ _ _ _ _
  have rtph : path.outflow turns 7 = ((send (TpChannelTx.init setup.chans)
      (released.map BtahBuild.stamp.packet)).map RtphBuild.stamp.packet).flatMap Packet.flits := by
    rw [link drained (by omega), ← Stamp.sent_packets, ← channel, ← window, ← buffer]
    exact given_ofMealy _ _ _ _ _
  have output : path.given turns 7 = ((start setup packets).run turns).queue 8 :=
    Chain.start_link turns _ 7
  rw [← output, ← transmitAll_eq, ← Stamp.sent_packets, ← rtph]
  exact given_ofMealy _ _ _ _ _

end

theorem perm_of_slots {released : List Packet}
    (slots : ∀ i, (released.filter fun p => metaSlot p.head = i) =
      packets.filter fun p => metaSlot p.head = i) : released.Perm packets := by
  classical
  rw [perm_iff_count]
  intro p
  have same := congrArg (count p) (slots (metaSlot p.head))
  rwa [count_filter (by simp), count_filter (by simp)] at same

/-- Packets in the modes ROT and ROL to one destination leave a drained path in the order in
which the scheduler has released them, numbered from zero. -/
theorem transmits_in_order {dest : U32} (modes : ∀ p ∈ packets,
      svcMode.get p.head = svcRot ∨ svcMode.get p.head = svcRol)
    (addressed : ∀ p ∈ packets, dcna.get p.head = dest)
    (room : Along JettySched.step.next JettySched.NoOverflow (JettySched.init setup.wrs)
      (schedCalls setup packets turns))
    (drained : Drained setup ((start setup packets).run turns)) :
    ∃ released sent : List Packet,
      releasedFlits setup packets turns = released.flatMap Packet.flits ∧ released.Perm packets ∧
      (∀ i, (released.filter fun p => metaSlot p.head = i) =
        packets.filter fun p => metaSlot p.head = i) ∧
      ((start setup packets).run turns).queue 8 = sent.flatMap Packet.flits ∧
      sent.length = released.length ∧
      ∀ (k : ℕ) (p q : Packet), released[k]? = some p → sent[k]? = some q →
        (psn.get q.head).toNat = k % 2 ^ 24 ∧ Keeps p q := by
  obtain ⟨released, flits, slots⟩ := released drained room
  have same := perm_of_slots slots
  have ordered : ∀ p ∈ released, svcMode.get p.head ≠ svcRoi := by
    intro p member
    rcases modes p (same.mem_iff.mp member) with mode | mode <;> rw [mode] <;> decide
  have reliable : ∀ p ∈ released, svcMode.get p.head ≠ svcUno := by
    intro p member
    rcases modes p (same.mem_iff.mp member) with mode | mode <;> rw [mode] <;> decide
  refine ⟨released, transmitAll setup.nth (TpChannelTx.init setup.chans) released, flits, same,
    slots, output_of_released drained flits ordered, length_transmitAll .., ?_⟩
  intro k p q before after
  have found := getElem_transmitAll setup.nth (counts_init setup.chans dest) reliable
    (fun r member => addressed r (same.mem_iff.mp member)) before after
  rwa [Nat.zero_add] at found

/-- A Write in the mode ROL by initiator 1 to node 7, of two flits. -/
def rolWrite : Packet where
  head := { lane0 := 7, lane2 := 2 <<< 58, lane3 := (1 <<< 43) + 3, sop := true }
  rest := [{ lane0 := 9, eop := true }]
  sop_head := rfl
  sop_rest := by simp
  eop_last := by decide

/-- A Write in the mode ROT by initiator 0 to node 7, of one flit. -/
def rotWrite : Packet where
  head := { lane0 := 7, lane2 := 1 <<< 58, lane3 := 3, sop := true, eop := true }
  rest := []
  sop_head := rfl
  sop_rest := sop_nil
  eop_last := rfl

def blank : Setup where
  wrs _ _ := default
  pending _ _ := default
  chans _ := default
  slots _ _ := default
  nth := ⟨1, 0, 0⟩

def round : List (Turn (elements blank)) :=
  [⟨0, true, none⟩, ⟨1, true, none⟩, ⟨2, true, ()⟩, ⟨3, true, none⟩, ⟨4, true, ()⟩,
    ⟨5, true, ()⟩, ⟨6, true, ()⟩, ⟨7, true, ()⟩]

/-- Rounds enough for the scheduler to visit its slots. -/
def rounds : List (Turn (elements blank)) := (replicate 20 round).flatten

theorem transmits_in_order_rounds : ∃ released sent : List Packet,
      releasedFlits blank [rolWrite, rotWrite] rounds = released.flatMap Packet.flits ∧
      released.Perm [rolWrite, rotWrite] ∧ (∀ i, (released.filter fun p => metaSlot p.head = i) =
        [rolWrite, rotWrite].filter fun p => metaSlot p.head = i) ∧
      ((start blank [rolWrite, rotWrite]).run rounds).queue 8 = sent.flatMap Packet.flits ∧
      sent.length = released.length ∧
      ∀ (k : ℕ) (p q : Packet), released[k]? = some p → sent[k]? = some q →
        (psn.get q.head).toNat = k % 2 ^ 24 ∧ Keeps p q :=
  @transmits_in_order blank [rolWrite, rotWrite] rounds 7 (by decide) (by decide)
    (by decide +kernel) (by decide +kernel)

end TransmitPath

end OpenURMA
