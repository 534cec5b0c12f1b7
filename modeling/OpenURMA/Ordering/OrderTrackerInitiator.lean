import OpenURMA.Ordering.Calls

/-!
# `UB_OrderTracker_Initiator`

In the service mode ROI a transaction tagged SO waits until no RO or SO transaction of its slot
awaits its response: it passes at once if the counter of the slot is zero, and is queued otherwise.
All other transactions pass; those tagged RO or SO are counted, whatever their service mode.
-/

namespace OpenURMA.OrderTrackerInitiator

open Library UbMeta IniQueues Function

structure PendingWR where
  f : Flit
  isSop : Bool
  isEop : Bool
  deriving Inhabited

structure State extends IniQueues PendingWR where
  inPacketInput : Bool
  curInputPassthrough : Bool
  curInputIni : Fin 16

def init (memory : Fin 16 → Fin 32 → PendingWR) : State where
  toIniQueues := IniQueues.init memory
  inPacketInput := false
  curInputPassthrough := false
  curInputIni := 0

def PendingWR.of (f : Flit) : PendingWR where
  f := f
  isSop := f.sop
  isEop := f.eop

def discipline : Discipline PendingWR where
  entry := PendingWR.of
  flit := PendingWR.f
  isEop := PendingWR.isEop
  starts _ outstanding := outstanding == 0
  counts w := w.isSop
  flit_entry _ := rfl
  isEop_entry _ := rfl

def passthrough (s : State) (m : Flit) : Bool :=
  svcMode.get m != svcRoi || odrExec.get m == odrNo ||
    odrExec.get m == odrRo ||
    (odrExec.get m == odrSo && s.owed (metaSlot m) == 0)

def isOrdered (m : Flit) : Bool := odrExec.get m == odrRo || odrExec.get m == odrSo

def accept (s : State) (f : Flit) : State × Bool :=
  if f.sop then
    let idx := metaSlot f
    if passthrough s f then
      ({ toIniQueues := if isOrdered f then s.raise idx else s.toIniQueues
         inPacketInput := !f.eop
         curInputPassthrough := true
         curInputIni := idx }, true)
    else
      ({ toIniQueues := s.enqueue idx (PendingWR.of f)
         inPacketInput := !f.eop
         curInputPassthrough := false
         curInputIni := idx }, false)
  else if s.inPacketInput then
    let inPacketInput := if f.eop then false else s.inPacketInput
    if s.curInputPassthrough then ({ s with inPacketInput }, true)
    else
      ({ s with
          toIniQueues := s.enqueue s.curInputIni (PendingWR.of f)
          inPacketInput }, false)
  else (s, false)

def notified (s : State) : Option Flit → State
  | none => s
  | some cn => { s with toIniQueues := s.notify cn }

def drained (s : State) : State × Ports Flit :=
  let result := s.drain discipline
  ({ s with toIniQueues := result.1 }, Ports.ofOption 1 result.2)

def step : Mealy State Call (Ports Flit) := fun s call =>
  let s := notified s call.notification
  match call.wr with
  | none => drained s
  | some f =>
    let (s, passes) := accept s f
    if passes then (s, Ports.emit 1 f) else drained s

/-- The queue of the packet being received, if it is queued. -/
def State.entering (s : State) : Option (Fin 16) :=
  if s.inPacketInput && !s.curInputPassthrough then some s.curInputIni else none

def State.queueFor (s : State) (f : Flit) : Option (Fin 16) :=
  if f.sop then (if passthrough s f then none else some (metaSlot f)) else s.entering

inductive Accepted (s : State) (f : Flit) : State × Bool → Prop where
  | queued {idx : Fin 16} (goes : s.queueFor f = some idx) :
      Accepted s f ({
        toIniQueues := s.enqueue idx (PendingWR.of f)
        inPacketInput := !f.eop
        curInputPassthrough := false
        curInputIni := idx }, false)
  | passed {s' : State} (gate : f.sop = true → passthrough s f = true)
      (inner : f.sop = false → s.entering = none)
      (held : s'.held = s.held)
      (owed : s'.owed = update s.owed (metaSlot f)
        (if f.sop && isOrdered f then s.owed (metaSlot f) + 1 else s.owed (metaSlot f)))
      (leaving : s'.leaving = s.leaving) (entering : s'.entering = none) :
      Accepted s f (s', true)
  | stray (inner : f.sop = false) (idle : s.entering = none) : Accepted s f (s, false)

section

variable {s : State} {f : Flit}

theorem accept_passing (sop : f.sop = true) (passes : passthrough s f = true) : accept s f = ({
      toIniQueues := if isOrdered f then s.raise (metaSlot f) else s.toIniQueues
      inPacketInput := !f.eop
      curInputPassthrough := true
      curInputIni := metaSlot f }, true) := by
  simp [accept, sop, passes]

theorem accept_waiting (sop : f.sop = true) (waits : passthrough s f = false) : accept s f = ({
      toIniQueues := s.enqueue (metaSlot f) (PendingWR.of f)
      inPacketInput := !f.eop
      curInputPassthrough := false
      curInputIni := metaSlot f }, false) := by
  simp [accept, sop, waits]

variable (sop : f.sop = false) (inside : s.inPacketInput = true)
include sop inside

theorem accept_passing_inner (passes : s.curInputPassthrough = true) :
    accept s f = ({ s with inPacketInput := !f.eop }, true) := by
  cases last : f.eop <;> simp [accept, sop, inside, passes, last]

theorem accept_waiting_inner (waits : s.curInputPassthrough = false) : accept s f = ({
      toIniQueues := s.enqueue s.curInputIni (PendingWR.of f)
      inPacketInput := !f.eop
      curInputPassthrough := false
      curInputIni := s.curInputIni }, false) := by
  cases last : f.eop <;> simp [accept, sop, inside, waits, last]

end

variable {f : Flit}

theorem accepted_head (s : State) (sop : f.sop = true) : Accepted s f (accept s f) := by
  cases passes : passthrough s f with
  | true =>
    rw [accept_passing sop passes]
    refine .passed (fun _ => passes) (fun inner => by simp [sop] at inner) ?_ ?_ ?_ ?_
    · cases isOrdered f
      · rfl
      · exact held_raise ..
    · rw [sop, Bool.true_and]
      cases isOrdered f
      · exact (update_eq_self _ _).symm
      · exact owed_raise ..
    · cases isOrdered f <;> rfl
    · simp [State.entering]
  | false =>
    rw [accept_waiting sop passes]
    exact .queued (by simp [State.queueFor, sop, passes])

theorem accepted_inner (s : State) (sop : f.sop = false) : Accepted s f (accept s f) := by
  cases inside : s.inPacketInput with
  | false =>
    have call : accept s f = (s, false) := by simp [accept, sop, inside]
    rw [call]
    exact .stray sop (by simp [State.entering, inside])
  | true =>
    cases passes : s.curInputPassthrough with
    | true =>
      rw [accept_passing_inner sop inside passes]
      refine .passed (fun start => by simp [sop] at start)
        (fun _ => by simp [State.entering, passes]) rfl ?_ rfl
        (by simp [State.entering, passes])
      rw [sop]
      exact (update_eq_self _ _).symm
    | false =>
      rw [accept_waiting_inner sop inside passes]
      exact .queued (by simp [State.queueFor, State.entering, sop, inside, passes])

theorem accepted (s : State) (f : Flit) : Accepted s f (accept s f) := by
  cases sop : f.sop with
  | true => exact accepted_head s sop
  | false => exact accepted_inner s sop

def isRoiSo (f : Flit) : Bool :=
  f.sop && svcMode.get f == svcRoi && odrExec.get f == odrSo

def NoOverflow (s : State) (call : Call) : Prop :=
  ∀ f ∈ call.wr, ∀ idx ∈ (notified s call.notification).queueFor f, s.Room idx
deriving Decidable

section

variable (s : State) (notification : Option Flit)

theorem entering_notified : (notified s notification).entering = s.entering := by
  cases notification <;> rfl

theorem toIniQueues_notified : (notified s notification).toIniQueues =
    notification.elim s.toIniQueues s.notify := by
  cases notification <;> rfl

theorem held_notified : (notified s notification).held = s.held := by
  cases notification with
  | none => rfl
  | some cn => exact held_notify

theorem room_notified (i : Fin 16) : (notified s notification).Room i ↔ s.Room i := by
  rw [room_iff, room_iff, held_notified]

end

theorem sop_of_isRoiSo (so : isRoiSo f = true) : f.sop = true := by
  simp only [isRoiSo, Bool.and_eq_true] at so
  exact so.1.1

theorem metaSlot_of_queueFor {s : State} {idx : Fin 16} (goes : s.queueFor f = some idx)
    (sop : f.sop = true) : metaSlot f = idx := by
  rw [State.queueFor, if_pos sop] at goes
  split at goes
  · simp at goes
  · exact Option.some.inj goes

theorem owed_of_passthrough {s : State} (so : isRoiSo f = true) (passes : passthrough s f = true) :
    s.owed (metaSlot f) = 0 := by
  simp only [isRoiSo, Bool.and_eq_true, beq_iff_eq] at so
  have notNo : odrSo ≠ odrNo := by decide
  have notRo : odrSo ≠ odrRo := by decide
  simpa [passthrough, so.1.2, so.2, notNo, notRo] using passes

end OpenURMA.OrderTrackerInitiator
