import OpenURMA.Ordering.OrderTrackerInitiator

/-!
# The gate of the service mode ROI

An SO transaction leaves `UB_OrderTracker_Initiator` only when all RO and SO transactions of its
slot that left before have been notified.  The element knows this from a 32-bit counter per
slot.
-/

namespace OpenURMA.OrderTrackerInitiator

open Library IniQueues List Option

/-- The RO and SO transactions of a slot among sent flits. -/
def orders (i : Fin 16) (outs : List Flit) : Nat :=
  outs.countP fun f => f.sop && isOrdered f && metaSlot f == i

/-- When an SO transaction in mode ROI starts to leave, every RO and SO transaction of its slot
that left before has been notified. -/
def Gated (s : State) (calls : List Call) : Prop :=
  ∀ before call after, calls = before ++ call :: after →
    ∀ f, (step (step.final s before) call).2 1 = some f → isRoiSo f = true →
      orders (metaSlot f) (sent step s before) = notes (metaSlot f) (before ++ [call])

/-- The flit of a call, if any, starts a packet only when none is being received. -/
def Starts (s : State) (call : Call) : Prop :=
  ∀ f ∈ call.wr, f.sop = true → s.inPacketInput = false
deriving Decidable

/-- The metadata flits that raise the counter: RO and SO, and the reserved tag in mode ROI. -/
def counted (f : Flit) : Bool :=
  f.sop && (isOrdered f || UbMeta.svcMode.get f == svcRoi && UbMeta.odrExec.get f != odrNo)

def departures (i : Fin 16) (outs : List Flit) : Nat :=
  outs.countP fun f => counted f && metaSlot f == i

theorem departures_snoc (i : Fin 16) (outs : List Flit) (f : Flit) :
    departures i (outs ++ [f]) = departures i outs + (counted f && metaSlot f == i).toNat :=
  countP_snoc ..

theorem orders_le_departures (i : Fin 16) (outs : List Flit) :
    orders i outs ≤ departures i outs := by
  apply countP_mono_left
  intro f _ ordered
  simp only [Bool.and_eq_true] at ordered
  simp [counted, ordered]

variable {s : State} {f : Flit}

theorem counted_of_passthrough (passes : f.sop = true → passthrough s f = true) :
    counted f = (f.sop && isOrdered f) := by
  cases sop : f.sop with
  | false => simp [counted, sop]
  | true =>
    cases ordered : isOrdered f with
    | true => simp [counted, sop, ordered]
    | false =>
      have tags := ordered
      simp only [isOrdered, Bool.or_eq_false_iff] at tags
      have free : UbMeta.svcMode.get f ≠ svcRoi ∨ UbMeta.odrExec.get f = odrNo := by
        simpa [passthrough, tags.1, tags.2] using passes sop
      rcases free with other | no
      · simp [counted, sop, ordered, other]
      · simp [counted, sop, ordered, no]

theorem counted_of_gated (sop : f.sop = true) (gate : passthrough s f = false) :
    counted f = true := by
  simp only [passthrough, Bool.or_eq_false_iff] at gate
  have roi : UbMeta.svcMode.get f = svcRoi := by simpa using gate.1.1.1
  have notNo : UbMeta.odrExec.get f ≠ odrNo := by simpa using gate.1.1.2
  simp [counted, sop, roi, notNo]

/-- Packets are whole in the queues, their metadata flits are of the counted kind, and every counter
is departures less notifications. -/
structure Books (calls : List Call) (outs : List Flit) (s : State) : Prop where
  queued : s.Queued discipline s.entering
  gated : ∀ i, ∀ f ∈ s.queue discipline i, f.sop = true → counted f = true
  tally : s.Tally (departures · outs) (notes · calls)

namespace Books

variable {calls : List Call} {call : Call} {outs : List Flit} {s : State}

variable (books : Books calls outs s)
include books

theorem notified (follow : ∀ i, notes i (calls ++ [call]) ≤ departures i outs) :
    Books (calls ++ [call]) outs (notified s call.notification) := by
  have queued : (OrderTrackerInitiator.notified s call.notification).Queued discipline
      (OrderTrackerInitiator.notified s call.notification).entering := by
    cases call.notification with
    | none => exact books.queued
    | some cn => exact books.queued.notify cn
  have tally := books.tally.notified follow (toIniQueues_notified s call.notification)
  refine ⟨queued, ?_, tally⟩
  rw [queue_congr (held_notified s _)]
  exact books.gated

theorem enqueued {idx : Fin 16} (goes : s.queueFor f = some idx)
    (start : f.sop = true → s.entering = none) (room : s.Room idx) :
    Books calls outs {
      toIniQueues := s.enqueue idx (PendingWR.of f)
      inPacketInput := !f.eop
      curInputPassthrough := false
      curInputIni := idx } := by
  have own : owner metaSlot s.entering f = some idx := by
    cases sop : f.sop with
    | true => rw [owner, if_pos sop, metaSlot_of_queueFor goes sop]
    | false => simpa [owner, State.queueFor, sop] using goes
  have entering : (if !f.eop && !false then some idx else none) =
      advance metaSlot s.entering f := by
    rw [advance, own]
    cases f.eop <;> rfl
  refine ⟨?_, fun i g member sop => ?_, ?_⟩
  · have queued := books.queued.enqueue own start room
    rw [← entering] at queued
    exact queued
  · rcases mem_of_pushed (queue_enqueue (d := discipline) room f) member with
      old | ⟨rfl, rfl⟩
    · exact books.gated i g old sop
    · refine counted_of_gated (s := s) sop ?_
      by_contra passes
      simp [State.queueFor, sop, passes] at goes
  · intro i
    refine Eq.trans ?_ (books.tally i)
    exact congrArg (fun owed => (owed i).toNat + notes i calls) owed_enqueue

theorem passed (noWrap : s.NoWrap)
    (gate : f.sop = true → passthrough s f = true) (idle : s.entering = none) {s' : State}
    (held : s'.held = s.held) (owed : s'.owed = Function.update s.owed (metaSlot f)
      (if f.sop && isOrdered f then s.owed (metaSlot f) + 1 else s.owed (metaSlot f)))
    (leaving : s'.leaving = s.leaving) (entering : s'.entering = none) :
    Books calls (outs ++ [f]) s' := by
  refine ⟨?_, ?_, fun i => ?_⟩
  · rw [entering, ← idle]
    exact books.queued.congr held leaving
  · rw [queue_congr held]
    exact books.gated
  · dsimp only
    rw [departures_snoc, counted_of_passthrough gate]
    exact books.tally.depart noWrap owed i

theorem drained (noWrap : s.NoWrap) :
    Books calls (outs ++ ((drained s).2 1).toList) (drained s).1 := by
  have drain := books.queued.drained
  simp only [OrderTrackerInitiator.drained, Ports.ofOption_same]
  generalize s.drain discipline = result at drain ⊢
  cases drain with
  | quiet queued queue owed leaving =>
    refine ⟨queued, ?_, fun i => ?_⟩
    · rw [queue]
      exact books.gated
    · rw [toList_none, append_nil, ← books.tally i]
      exact congrArg (fun owed => (owed i).toNat + notes i calls) owed
  | @sends s' i f rest queued waiting queue own start free owed leaving =>
    refine ⟨queued, fun j => ?_, fun j => ?_⟩
    · exact fun g member => books.gated j g (mem_of_popped waiting queue member)
    · refine (books.tally.depart noWrap owed j).trans ?_
      dsimp only
      rw [toList_some, departures_snoc]
      change _ + (f.sop && i == j).toNat = _
      cases sop : f.sop with
      | true =>
        have slot : metaSlot f = i := by simpa [owner, sop] using own
        rw [slot, books.gated i f (by rw [waiting]; exact mem_cons_self) sop]
      | false => simp [counted, sop]

theorem received (starts : Starts s call) (room : NoOverflow s call)
    (noWrap : s.NoWrap) (follow : ∀ i, notes i (calls ++ [call]) ≤ departures i outs) :
    ∃ s₁, Books (calls ++ [call]) outs s₁ ∧ s₁.NoWrap ∧
      (step s call = OrderTrackerInitiator.drained s₁ ∨ ∃ f s', step s call = (s', Ports.emit 1 f) ∧
          (f.sop = true → passthrough s₁ f = true) ∧ Books (calls ++ [call]) (outs ++ [f]) s') := by
  have notified : Books _ _ (OrderTrackerInitiator.notified s call.notification) :=
    books.notified follow
  have noWrap' := noWrap.notified (toIniQueues_notified s call.notification)
  simp only [step]
  cases wr : call.wr with
  | none => exact ⟨_, notified, noWrap', .inl rfl⟩
  | some f =>
    have start : f.sop = true →
        (OrderTrackerInitiator.notified s call.notification).entering = none := by
      intro sop
      rw [entering_notified, State.entering, starts f wr sop]
      rfl
    have accept := accepted (OrderTrackerInitiator.notified s call.notification) f
    dsimp only
    generalize OrderTrackerInitiator.accept (OrderTrackerInitiator.notified s call.notification) f
      = result at accept ⊢
    cases accept with
    | @queued idx goes =>
      have room' := (room_notified s call.notification idx).mpr (room f wr idx goes)
      refine ⟨_, notified.enqueued goes start room', ?_, .inl rfl⟩
      intro i
      rw [owed_enqueue]
      exact noWrap' i
    | passed gate inner held owed leaving entering =>
      have idle : (OrderTrackerInitiator.notified s call.notification).entering = none := by
        cases sop : f.sop with
        | true => exact start sop
        | false => exact inner sop
      exact ⟨_, notified, noWrap', .inr ⟨f, _, rfl, gate,
        notified.passed noWrap' gate idle held owed leaving entering⟩⟩
    | stray inner idle => exact ⟨_, notified, noWrap', .inl rfl⟩

theorem after (starts : Starts s call) (room : NoOverflow s call)
    (noWrap : s.NoWrap) (follow : ∀ i, notes i (calls ++ [call]) ≤ departures i outs) :
    Books (calls ++ [call]) (outs ++ ((step s call).2 1).toList) (step.next s call) := by
  rcases books.received starts room noWrap follow with
    ⟨s₁, received, noWrap₁, drains | ⟨f, s', passes, _, passed⟩⟩
  · rw [Mealy.next, drains]
    exact received.drained noWrap₁
  · rw [Mealy.next, passes]
    simpa using passed

end Books

theorem books_init (memory : Fin 16 → Fin 32 → PendingWR) : Books [] [] (init memory) where
  queued := queued_init memory
  gated i f member := by simp [queue, init, held_init] at member
  tally _ := rfl

/-- A run of packets without overflow, in which notifications follow RO and SO transactions and no
counter wraps around. -/
structure Proper (s : State) (calls : List Call) : Prop where
  starts : Along step.next Starts s calls
  room : Along step.next NoOverflow s calls
  noWrap : Along step.next (fun s _ => s.NoWrap) s calls
  follow : NotesFollow step orders s calls

variable {calls : List Call} {memory : Fin 16 → Fin 32 → PendingWR}

theorem books_of_notes {calls : List Call} (starts : Along step.next Starts (init memory) calls)
    (room : Along step.next NoOverflow (init memory) calls)
    (noWrap : Along step.next (fun s _ => s.NoWrap) (init memory) calls)
    (follow : ∀ before call after, calls = before ++ call :: after → ∀ i,
      notes i (before ++ [call]) ≤ departures i (sent step (init memory) before)) :
    Books calls (sent step (init memory) calls) (step.final (init memory) calls) := by
  induction calls using reverseRecOn with
  | nil => exact books_init memory
  | append_singleton calls call ih =>
    have earlier := ih (along_append.mp starts).1 (along_append.mp room).1
      (along_append.mp noWrap).1 fun before previous after split =>
        follow before previous (after ++ [call]) (by simp [split])
    rw [sent_snoc, Mealy.final_snoc]
    exact earlier.after (along_append.mp starts).2.1 (along_append.mp room).2.1
      (along_append.mp noWrap).2.1 (follow calls call [] rfl)

theorem Proper.books (proper : Proper (init memory) calls) :
    Books calls (sent step (init memory) calls) (step.final (init memory) calls) := by
  refine books_of_notes proper.starts proper.room proper.noWrap ?_
  rintro before call after rfl i
  exact (proper.follow.split i).trans (orders_le_departures i _)

theorem owed_of_leaving {outs : List Flit} (books : Books calls outs s)
    (out : (drained s).2 1 = some f) (so : isRoiSo f = true) :
    s.owed (metaSlot f) = 0 := by
  have sop := sop_of_isRoiSo so
  have drain := books.queued.drained
  simp only [drained, Ports.ofOption_same] at out
  generalize s.drain discipline = result at drain out
  cases drain with
  | quiet => simp at out
  | @sends s' i g rest queued waiting queue own start free owed leaving =>
    obtain rfl : g = f := by simpa using out
    have slot : metaSlot g = i := by simpa [owner, sop] using own
    rw [slot]
    simpa [discipline] using free sop

/-- The gate holds in every run of packets in which no counter reaches its largest value. -/
theorem roi_gating (memory : Fin 16 → Fin 32 → PendingWR) (calls : List Call)
    (room : Along step.next NoOverflow (init memory) calls)
    (follow : NotesFollow step orders (init memory) calls)
    (meets : Along step.next (fun s call => Starts s call ∧ s.NoWrap) (init memory) calls) :
    Gated (init memory) calls := by
  rw [along_and] at meets
  rintro before call after rfl f out so
  have proper : Proper (init memory) before := {
    starts := (along_append.mp meets.1).1
    room := (along_append.mp room).1
    noWrap := (along_append.mp meets.2).1
    follow := follow.start }
  have bound := follow.split (metaSlot f)
  have counted := orders_le_departures (metaSlot f) (sent step (init memory) before)
  rcases proper.books.received (along_append.mp meets.1).2.1 (along_append.mp room).2.1
    (along_append.mp meets.2).2.1
    (fun i => (follow.split i).trans (orders_le_departures i _)) with
    ⟨s₁, books, _, leaves⟩
  have gateOpen : s₁.owed (metaSlot f) = 0 := by
    rcases leaves with drains | ⟨g, s', passes, gate, _⟩
    · rw [drains] at out
      exact owed_of_leaving books out so
    · rw [passes] at out
      obtain rfl : g = f := by simpa using out
      exact owed_of_passthrough so (gate (sop_of_isRoiSo so))
  have balance := books.tally (metaSlot f)
  rw [gateOpen] at balance
  change 0 + notes _ _ = departures _ _ at balance
  omega

/-- An RO transaction of one flit for slot 0 in mode ROI. -/
def sampleRo : Flit := { lane3 := 1 <<< 32, sop := true, eop := true }

/-- An SO transaction of one flit for slot 0 in mode ROI. -/
def gatedSo : Flit := { lane3 := 2 <<< 32, sop := true, eop := true }

def gatedCalls : List Call :=
  [{ wr := some sampleRo }, { wr := some gatedSo }, { notification := some {} }] ++
    replicate 15 ({} : Call)

theorem roi_gating_gatedCalls :
    sent step (init fun _ _ => default) gatedCalls = [sampleRo, gatedSo] ∧
      Gated (init fun _ _ => default) gatedCalls :=
  ⟨by decide +kernel, roi_gating _ gatedCalls (by decide +kernel) (by decide +kernel)
    (by decide +kernel)⟩

theorem step_sampleRo (s : State) : step s { wr := some sampleRo } = ({
      toIniQueues := s.raise 0
      inPacketInput := false
      curInputPassthrough := true
      curInputIni := 0 }, Ports.emit 1 sampleRo) := rfl

def flood (k : Nat) : List Call := replicate k { wr := some sampleRo }

theorem flood_succ (k : Nat) : flood (k + 1) = flood k ++ [{ wr := some sampleRo }] :=
  replicate_succ'

theorem run_flood (s : State) (k : Nat) :
    (step.final s (flood k)).owed 0 = s.owed 0 + BitVec.ofNat 32 k ∧
      sent step s (flood k) = replicate k sampleRo ∧
      Along step.next NoOverflow s (flood k) := by
  induction k with
  | zero => exact ⟨(BitVec.add_zero _).symm, rfl, trivial⟩
  | succ k ih =>
    obtain ⟨owed, sends, room⟩ := ih
    rw [flood_succ, Mealy.final_snoc, sent_snoc, Mealy.next, step_sampleRo, sends,
      replicate_succ', BitVec.ofNat_add, ← BitVec.add_assoc, ← owed]
    refine ⟨?_, by simp, along_append.mpr ⟨room, ?_, trivial⟩⟩
    · rw [owed_raise, Function.update_self]
      rfl
    · -- a flit that passes goes to no queue
      intro f member idx goes
      obtain rfl : sampleRo = f := Option.some.inj member
      exact (some_ne_none idx goes.symm).elim

theorem orders_replicate (k : Nat) : orders 0 (replicate k sampleRo) = k := by
  have counted : (sampleRo.sop && isOrdered sampleRo && metaSlot sampleRo == 0) = true := by decide
  rw [orders, countP_replicate, if_pos counted]

theorem step_gatedSo (gateOpen : s.owed 0 = 0) :
    (step s { wr := some gatedSo }).2 1 = some gatedSo ∧ NoOverflow s { wr := some gatedSo } := by
  have sop : gatedSo.sop = true := rfl
  have passes : passthrough s gatedSo = true := by
    change (s.owed 0 == 0) = true
    rw [gateOpen]
    rfl
  constructor
  · simp [step, notified, accept, sop, passes]
  · intro f member idx goes
    obtain rfl : gatedSo = f := Option.some.inj member
    simp [notified, State.queueFor, sop, passes] at goes

/-- After as many RO transactions as make the counter wrap around to zero, an SO transaction
passes although none of them has been notified. -/
theorem not_gated_of_wrap {k : Nat} (positive : 0 < k) (wraps : BitVec.ofNat 32 k = 0#32) :
    WellFramed (posted (flood k ++ [{ wr := some gatedSo }])) ∧
      Along step.next NoOverflow (init fun _ _ => default) (flood k ++ [{ wr := some gatedSo }]) ∧
      NotesFollow step orders (init fun _ _ => default) (flood k ++ [{ wr := some gatedSo }]) ∧
      ¬ Gated (init fun _ _ => default) (flood k ++ [{ wr := some gatedSo }]) := by
  obtain ⟨owed, sends, room⟩ := run_flood (init fun _ _ => default) k
  have calls : ∀ call ∈ flood k ++ [{ wr := some gatedSo }],
      call.wr = some sampleRo ∨ call.wr = some gatedSo := by
    intro call member
    rcases mem_append.mp member with earlier | last
    · exact .inl (by rw [eq_of_mem_replicate earlier])
    · exact .inr (by rw [mem_singleton.mp last])
  have quiet : ∀ call ∈ flood k ++ [{ wr := some gatedSo }], call.notification = none := by
    intro call member
    rcases mem_append.mp member with earlier | last
    · rw [eq_of_mem_replicate earlier]
    · rw [mem_singleton.mp last]
  have gateOpen : (step.final (init fun _ _ => default) (flood k)).owed 0 = 0 := by
    rw [owed, wraps]
    rfl
  refine ⟨wellFramed_of_scan (scan_singles fun f member => ?_),
    along_append.mpr ⟨room, (step_gatedSo gateOpen).2, trivial⟩, notesFollow_of_quiet quiet,
    fun gated => ?_⟩
  · obtain ⟨call, inRun, posts⟩ := mem_filterMap.mp member
    rcases calls call inRun with ro | so
    · obtain rfl : sampleRo = f := Option.some.inj (ro.symm.trans posts)
      exact ⟨rfl, rfl⟩
    · obtain rfl : gatedSo = f := Option.some.inj (so.symm.trans posts)
      exact ⟨rfl, rfl⟩
  · have notified := gated (flood k) _ [] rfl gatedSo (step_gatedSo gateOpen).1 (by decide)
    have slot : metaSlot gatedSo = 0 := by decide
    rw [slot, sends, orders_replicate, notes_eq_zero quiet] at notified
    omega

/-- 2^32 RO transactions of one flit and an SO transaction. -/
theorem not_gated_flood : WellFramed (posted (flood (2 ^ 32) ++ [{ wr := some gatedSo }])) ∧
      Along step.next NoOverflow (init fun _ _ => default)
        (flood (2 ^ 32) ++ [{ wr := some gatedSo }]) ∧
      NotesFollow step orders (init fun _ _ => default)
        (flood (2 ^ 32) ++ [{ wr := some gatedSo }]) ∧
      ¬ Gated (init fun _ _ => default) (flood (2 ^ 32) ++ [{ wr := some gatedSo }]) :=
  not_gated_of_wrap (Nat.two_pow_pos 32) (by decide)

end OpenURMA.OrderTrackerInitiator
