import OpenURMA.Ordering.OrderTrackerInitiator

/-!
# Strong order in the service mode ROI

The SO transactions of one initiator are to leave `UB_OrderTracker_Initiator` in the order in
which they arrived.  They do as long as the queue holds none of them whenever one passes it by.
-/

namespace OpenURMA.OrderTrackerInitiator

open Library IniQueues Function List Option Bool

def soOf (r : U32) (f : Flit) : Bool := isRoiSo f && UbMeta.iniRcId.get f == r

/-- The SO transactions sent are the first ones of those posted, for every initiator. -/
def StrongOrder (s : State) (calls : List Call) : Prop :=
  ∀ r, (sent step s calls).filter (soOf r) <+: (posted calls).filter (soOf r)

/-- No SO transaction arrives at an open gate while an earlier one of its initiator is queued. -/
def NoOvertaking (s : State) (call : Call) : Prop :=
  ∀ f ∈ call.wr, isRoiSo f = true →
    (notified s call.notification).owed (metaSlot f) = 0 →
      ∀ w ∈ s.held (metaSlot f), soOf (UbMeta.iniRcId.get f) w.f = false
deriving Decidable

/-- The SO transactions of an initiator: those posted are those sent followed by those queued. -/
structure InOrder (r : U32) (ins outs : List Flit) (s : State) : Prop where
  account : ins.filter (soOf r) =
    outs.filter (soOf r) ++ (s.queue discipline (iniSlot r)).filter (soOf r)
  slots : ∀ i, ∀ f ∈ s.queue discipline i, f.sop = true → metaSlot f = i

namespace InOrder

variable {r : U32} {ins outs : List Flit} {s : State} {s' : State}

theorem congr (inOrder : InOrder r ins outs s) (held : s'.held = s.held) :
    InOrder r ins outs s' := by
  have queue := queue_congr (d := discipline) held
  exact ⟨queue ▸ inOrder.account, queue ▸ inOrder.slots⟩

variable {f : Flit}

theorem slot_of_soOf (so : soOf r f = true) : f.sop = true ∧ metaSlot f = iniSlot r := by
  simp only [soOf, isRoiSo, and_eq_true, beq_iff_eq] at so
  exact ⟨so.1.1.1, by rw [metaSlot, so.2]⟩

theorem soOf_of_other {idx : Fin 16} (own : f.sop = true → metaSlot f = idx)
    (other : iniSlot r ≠ idx) : soOf r f = false := by
  rw [eq_false_iff]
  intro so
  obtain ⟨sop, slot⟩ := slot_of_soOf so
  exact other (slot.symm.trans (own sop))

variable (inOrder : InOrder r ins outs s)
include inOrder

theorem queued {idx : Fin 16} (own : f.sop = true → metaSlot f = idx) (room : s.Room idx)
    (enqueued : s'.toIniQueues = s.enqueue idx (PendingWR.of f)) :
    InOrder r (ins ++ [f]) outs s' := by
  have queue : s'.queue discipline =
      update (s.queue discipline) idx (s.queue discipline idx ++ [f]) := by
    rw [enqueued]
    exact queue_enqueue (d := discipline) room f
  refine ⟨?_, fun i g member sop => ?_⟩
  · rw [queue, filter_append, inOrder.account]
    by_cases same : iniSlot r = idx
    · rw [← same, update_self, filter_append, append_assoc]
    · rw [update_of_ne same]
      simp [soOf_of_other own same]
  · rcases mem_of_pushed queue member with old | ⟨rfl, rfl⟩
    · exact inOrder.slots i g old sop
    · exact own sop

theorem passed (alone : soOf r f = true → (s.queue discipline (iniSlot r)).filter (soOf r) = [])
    (held : s'.held = s.held) : InOrder r (ins ++ [f]) (outs ++ [f]) s' := by
  refine congr ⟨?_, inOrder.slots⟩ held
  rw [filter_append, filter_append, inOrder.account]
  cases so : soOf r f with
  | true => simp [so, alone so]
  | false => simp [so]

theorem stray (inner : f.sop = false) : InOrder r (ins ++ [f]) outs s := by
  refine ⟨?_, inOrder.slots⟩
  have none : soOf r f = false := by simp [soOf, isRoiSo, inner]
  simp [none, inOrder.account]

theorem drained : InOrder r ins (outs ++ ((drained s).2 1).toList) (drained s).1 := by
  have drain := IniQueues.drained discipline s.toIniQueues
  simp only [OrderTrackerInitiator.drained, Ports.ofOption_same]
  generalize s.drain discipline = result at drain ⊢
  cases drain with
  | quiet held =>
    rw [toList_none, append_nil]
    exact inOrder.congr held
  | @sends s' i w rest waiting turn held owed inPacket active =>
    have front : s.queue discipline i = w.f :: rest.map PendingWR.f := queue_of_waiting waiting
    have queue := queue_of_held (d := discipline) held
    have own : w.f.sop = true → metaSlot w.f = i := inOrder.slots i w.f (by simp [front])
    refine ⟨?_, fun j g member sop => ?_⟩
    · refine inOrder.account.trans ?_
      change _ = _ ++ (s'.queue discipline (iniSlot r)).filter _
      rw [queue, toList_some, filter_append]
      by_cases same : iniSlot r = i
      · have split : (w.f :: rest.map PendingWR.f).filter (soOf r) =
            [w.f].filter (soOf r) ++ (rest.map PendingWR.f).filter (soOf r) := by
          rw [← filter_append]
          rfl
        rw [same, update_self, front, append_assoc, split]
        rfl
      · rw [update_of_ne same]
        have none : soOf r (discipline.flit w) = false := soOf_of_other own same
        simp [none]
    · exact inOrder.slots j g (mem_of_popped front queue member) sop

theorem call {call : Call} (room : NoOverflow s call) (alone : NoOvertaking s call) :
    InOrder r (ins ++ call.wr.toList) (outs ++ ((step s call).2 1).toList) (step s call).1 := by
  have notified : InOrder r ins outs (notified s call.notification) :=
    inOrder.congr (held_notified s _)
  simp only [step]
  cases wr : call.wr with
  | none =>
    rw [toList_none, append_nil]
    exact notified.drained
  | some f =>
    have accept := accepted (OrderTrackerInitiator.notified s call.notification) f
    simp only [toList_some]
    generalize OrderTrackerInitiator.accept (OrderTrackerInitiator.notified s call.notification) f
      = result at accept ⊢
    cases accept with
    | @queued idx goes =>
      simp only [false_eq_true, if_false]
      refine (notified.queued ?_ ((room_notified s _ idx).mpr (room f wr idx goes)) rfl).drained
      exact metaSlot_of_queueFor goes
    | passed gate inner held owed leaving entering =>
      simp only [if_true, Ports.emit_same, toList_some]
      refine notified.passed (fun so => ?_) held
      have roiSo : isRoiSo f = true ∧ UbMeta.iniRcId.get f = r := by
        simpa [soOf] using so
      have gateOpen := owed_of_passthrough roiSo.1 (gate (slot_of_soOf so).1)
      have others := alone f wr roiSo.1 gateOpen
      rw [(slot_of_soOf so).2, roiSo.2, ← held_notified s call.notification] at others
      rw [filter_eq_nil_iff, queue]
      simpa [discipline] using others
    | stray inner idle =>
      simp only [false_eq_true, if_false]
      exact (notified.stray inner).drained

theorem run (calls : List Call) (room : Along step.next NoOverflow s calls)
    (alone : Along step.next NoOvertaking s calls) :
    InOrder r (ins ++ posted calls) (outs ++ sent step s calls) (step.final s calls) := by
  induction calls generalizing ins outs s with
  | nil => simpa [posted, sent] using inOrder
  | cons call calls ih =>
    have later := ih (inOrder.call room.1 alone.1) room.2 alone.2
    rw [posted_cons, sent_cons, Mealy.final_cons, ← append_assoc, ← append_assoc]
    exact later

end InOrder

theorem inOrder_init (r : U32) (memory : Fin 16 → Fin 32 → PendingWR) :
    InOrder r [] [] (init memory) where
  account := rfl
  slots i f member := by simp [queue, init, held_init] at member

/-- The SO transactions of every initiator keep their order in every run in which none arrives at
an open gate while an earlier one of its initiator is queued. -/
theorem strong_order (memory : Fin 16 → Fin 32 → PendingWR) (calls : List Call)
    (room : Along step.next NoOverflow (init memory) calls)
    (meets : Along step.next NoOvertaking (init memory) calls) :
    StrongOrder (init memory) calls := by
  intro r
  have inOrder := (inOrder_init r memory).run calls room meets
  exact ⟨_, inOrder.account.symm⟩

/-- An SO transaction of one flit of initiator 0, told apart by its TASSN. -/
def sampleSo (tassn : U64) : Flit :=
  { lane3 := (2 <<< 32) + (tassn <<< 16), sop := true, eop := true }

/-- The second of two SO transactions waits for the notification of the first. -/
def waitingCalls : List Call :=
  [{ wr := some (sampleSo 0) }, { wr := some (sampleSo 1) }, { notification := some {} }] ++
    replicate 15 ({} : Call)

theorem strong_order_waitingCalls :
    sent step (init fun _ _ => default) waitingCalls = [sampleSo 0, sampleSo 1] ∧
      StrongOrder (init fun _ _ => default) waitingCalls :=
  ⟨by decide +kernel, strong_order _ waitingCalls (by decide +kernel) (by decide +kernel)⟩

/-- The third transaction arrives together with the notification that opens the gate, while the
second still waits for its slot to be visited. -/
def overtakingCalls : List Call :=
  [{ wr := some (sampleSo 0) }, { wr := some (sampleSo 1) },
    { wr := some (sampleSo 2), notification := some {} }, { notification := some {} }] ++
    replicate 15 ({} : Call)

/-- The third transaction overtakes the second. -/
theorem not_strongOrder_overtakingCalls :
    Along step.next NoOverflow (init fun _ _ => default) overtakingCalls ∧
      posted overtakingCalls = [sampleSo 0, sampleSo 1, sampleSo 2] ∧
      sent step (init fun _ _ => default) overtakingCalls = [sampleSo 0, sampleSo 2, sampleSo 1] ∧
      ¬ StrongOrder (init fun _ _ => default) overtakingCalls := by
  have sends : sent step (init fun _ _ => default) overtakingCalls =
      [sampleSo 0, sampleSo 2, sampleSo 1] := by decide +kernel
  refine ⟨by decide +kernel, by decide, sends, fun ordered => ?_⟩
  have start := ordered 0
  rw [sends] at start
  exact absurd start (by decide)

end OpenURMA.OrderTrackerInitiator
