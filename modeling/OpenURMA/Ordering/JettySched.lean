import OpenURMA.Ordering.Calls

/-!
# `UB_Jetty_Sched`

The scheduler of work requests.  Flits posted by the host are queued per initiator and sent
packet by packet; a work request with the fence bit is started only while no Read or Atomic of
its queue is outstanding.
-/

namespace OpenURMA.JettySched

open Library IniQueues List Option

structure WR where
  f : Flit
  fence : Bool
  isSop : Bool
  isEop : Bool
  deriving Inhabited

structure State extends IniQueues WR where
  curInputIni : Fin 16
  inPacketInput : Bool

def init (memory : Fin 16 → Fin 32 → WR) : State where
  toIniQueues := IniQueues.init memory
  curInputIni := 0
  inPacketInput := false

def isReadAtomic (taop : U8) : Bool := taop == taopRead || isAtomic taop

/-- The entry of a flit; only metadata flits carry a fence bit. -/
def WR.of (f : Flit) : WR where
  f := f
  fence := f.sop && UbMeta.fence.get f
  isSop := f.sop
  isEop := f.eop

def discipline : Discipline WR where
  entry := WR.of
  flit := WR.f
  isEop := WR.isEop
  starts w outstanding := w.isSop && !(w.fence && outstanding > 0)
  counts w := w.isSop && isReadAtomic (UbMeta.taOpcode.get w.f)
  flit_entry _ := rfl
  isEop_entry _ := rfl

/-- Queue a flit of port 1; a flit outside of packets is dropped. -/
def accept (s : State) (f : Flit) : Option State :=
  if f.sop then
    let idx := metaSlot f
    some {
      toIniQueues := s.enqueue idx (WR.of f)
      curInputIni := idx
      inPacketInput := !f.eop }
  else if s.inPacketInput then
    some { s with
      toIniQueues := s.enqueue s.curInputIni (WR.of f)
      inPacketInput := if f.eop then false else s.inPacketInput }
  else none

def notified (s : State) : Option Flit → State
  | none => s
  | some cn => { s with toIniQueues := s.notify cn }

def drained (s : State) : State × Ports Flit :=
  let result := s.drain discipline
  ({ s with toIniQueues := result.1 }, Ports.ofOption 1 result.2)

def step : Mealy State Call (Ports Flit) := fun s call =>
  let s := notified s call.notification
  match call.wr with
  | none => drained s
  | some f =>
    match accept s f with
    | none => (s, Ports.silent)
    | some s => drained s

def State.entering (s : State) : Option (Fin 16) :=
  if s.inPacketInput then some s.curInputIni else none

theorem entering_notified (s : State) (notification : Option Flit) :
    (notified s notification).entering = s.entering := by
  cases notification <;> rfl

theorem toIniQueues_notified (s : State) (notification : Option Flit) :
    (notified s notification).toIniQueues = notification.elim s.toIniQueues s.notify := by
  cases notification <;> rfl

theorem room_notified (s : State) (notification : Option Flit) (i : Fin 16) :
    (notified s notification).Room i ↔ s.Room i := by
  cases notification with
  | none => rfl
  | some cn => exact room_notify i

theorem entering_of_owner_none {s : State} {f : Flit} (none : owner metaSlot s.entering f = none) :
    s.entering = Option.none := by
  unfold owner at none
  split at none
  · cases none
  · exact none

theorem accept_eq (s : State) (f : Flit) :
    accept s f = (owner metaSlot s.entering f).map fun idx => {
      toIniQueues := s.enqueue idx (WR.of f)
      curInputIni := idx
      inPacketInput := !f.eop } := by
  cases sop : f.sop with
  | true => simp [accept, owner, sop]
  | false =>
    cases inside : s.inPacketInput with
    | true => cases last : f.eop <;> simp [accept, owner, State.entering, sop, inside, last]
    | false => simp [accept, owner, State.entering, sop, inside]

def received (s : State) (call : Call) : State :=
  let s := notified s call.notification
  call.wr.elim s fun f => (accept s f).getD s

theorem step_received (s : State) (call : Call) :
    step s call = (received s call, Ports.silent) ∨ step s call = drained (received s call) := by
  simp only [step, received]
  cases call.wr with
  | none => exact .inr rfl
  | some f =>
    dsimp only [elim_some]
    cases accept (notified s call.notification) f with
    | none => exact .inl rfl
    | some s => exact .inr rfl

theorem toIniQueues_received (s : State) (call : Call) :
    (received s call).toIniQueues = (notified s call.notification).toIniQueues ∨
      ∃ idx w, (received s call).toIniQueues = (notified s call.notification).enqueue idx w := by
  simp only [received]
  cases call.wr with
  | none => exact .inl rfl
  | some f =>
    rw [elim_some, accept_eq]
    cases owner metaSlot (notified s call.notification).entering f with
    | none => exact .inl rfl
    | some idx => exact .inr ⟨idx, WR.of f, rfl⟩

theorem owed_received (s : State) (call : Call) :
    (received s call).owed = (notified s call.notification).owed := by
  rcases toIniQueues_received s call with same | ⟨idx, w, queued⟩
  · rw [same]
  · rw [queued, owed_enqueue]

theorem rrCursor_received (s : State) (call : Call) : (received s call).rrCursor = s.rrCursor := by
  have notified : (notified s call.notification).rrCursor = s.rrCursor := by
    rw [toIniQueues_notified]
    cases call.notification with
    | none => rfl
    | some cn => exact rrCursor_notify
  rcases toIniQueues_received s call with same | ⟨idx, w, queued⟩
  · rw [same, notified]
  · rw [queued, rrCursor_enqueue, notified]

/-- The flit of a call, if any, starts a packet only when none is being received. -/
def Starts (s : State) (call : Call) : Prop :=
  ∀ f ∈ call.wr, f.sop = true → s.entering = none
deriving Decidable

def NoOverflow (s : State) (call : Call) : Prop :=
  ∀ f ∈ call.wr, ∀ idx ∈ owner metaSlot s.entering f, s.Room idx
deriving Decidable

/-- Received flits `ins` and sent flits `outs` against the state: per slot, what has been
received is what has been sent followed by what is queued. -/
structure Ledger (ins outs : List Flit) (s : State) : Prop where
  entering : underway metaSlot ins = s.entering
  leaving : underway metaSlot outs = s.leaving
  queued : s.Queued discipline s.entering
  output : scan false outs = some s.leaving.isSome
  account : ∀ i, ofKey metaSlot i ins = ofKey metaSlot i outs ++ s.queue discipline i

theorem ledger_init (memory : Fin 16 → Fin 32 → WR) : Ledger [] [] (init memory) where
  entering := rfl
  leaving := rfl
  queued := queued_init memory
  output := rfl
  account _ := rfl

namespace Ledger

variable {ins outs : List Flit} {s : State} (ledger : Ledger ins outs s)
include ledger

theorem notified (notification : Option Flit) : Ledger ins outs (notified s notification) := by
  cases notification with
  | none => exact ledger
  | some cn =>
    refine ⟨ledger.entering, ?_, ledger.queued.notify cn, ?_, fun i => ?_⟩
    · exact ledger.leaving.trans (leaving_notify cn).symm
    · exact ledger.output.trans (by rw [← leaving_notify cn]; rfl)
    · refine (ledger.account i).trans ?_
      have kept : (s.notify cn).held = s.held := held_notify
      rw [← queue_congr (d := discipline) kept]
      rfl

theorem stray {f : Flit} (none : owner metaSlot s.entering f = none) :
    Ledger (ins ++ [f]) outs s := by
  have idle := entering_of_owner_none none
  refine ⟨?_, ledger.leaving, ledger.queued, ledger.output, fun i => ?_⟩
  · rw [underway_snoc, ledger.entering, advance, none, idle]
    simp
  · rw [ofKey_snoc, ledger.entering, none, ledger.account i]
    simp

theorem enqueued {f : Flit} {idx : Fin 16} (own : owner metaSlot s.entering f = some idx)
    (start : f.sop = true → s.entering = none) (room : s.Room idx) :
    Ledger (ins ++ [f]) outs {
      toIniQueues := s.enqueue idx (WR.of f), curInputIni := idx, inPacketInput := !f.eop } := by
  have entering : (if !f.eop then some idx else none) = advance metaSlot s.entering f := by
    rw [advance, own]
    cases f.eop <;> rfl
  refine ⟨?_, ?_, ?_, ?_, fun i => ?_⟩
  · rw [underway_snoc, ledger.entering]
    exact entering.symm
  · exact ledger.leaving.trans (leaving_enqueue idx _).symm
  · have queued := ledger.queued.enqueue own start room
    rw [← entering] at queued
    exact queued
  · exact ledger.output.trans (by rw [← leaving_enqueue idx (WR.of f)])
  · have queue := congrFun (queue_enqueue (d := discipline) room f) i
    refine Eq.trans ?_ (congrArg (ofKey metaSlot i outs ++ ·) queue.symm)
    rw [ofKey_snoc, ledger.entering, own, ledger.account i]
    by_cases same : i = idx
    · subst same
      simp
    · simp [same, Ne.symm same]

theorem drained : Ledger ins (outs ++ ((drained s).2 1).toList) (drained s).1 := by
  have call := ledger.queued.drained
  simp only [JettySched.drained, Ports.ofOption_same]
  generalize s.drain discipline = result at call ⊢
  cases call with
  | quiet queued queue owed leaving =>
    refine ⟨ledger.entering, ?_, queued, ?_, fun i => ?_⟩
    · rw [toList_none, append_nil, ledger.leaving]
      exact leaving.symm
    · rw [toList_none, append_nil, ledger.output]
      exact congrArg (fun slot => some slot.isSome) leaving.symm
    · rw [toList_none, append_nil, ledger.account i]
      exact congrArg (_ ++ ·) (congrFun queue.symm i)
  | @sends s' i f rest queued waiting queue own start free owed leaving =>
    refine ⟨ledger.entering, ?_, queued, ?_, fun j => ?_⟩
    · rw [toList_some, underway_snoc, ledger.leaving]
      exact leaving.symm
    · rw [toList_some, scan_snoc ledger.output start]
      refine Eq.trans ?_ (congrArg (fun slot => some slot.isSome) leaving.symm)
      rw [advance, own]
      cases f.eop <;> rfl
    · refine Eq.trans ?_ (congrArg (_ ++ ·) (congrFun queue.symm j))
      rw [toList_some, ofKey_snoc, ledger.leaving, own, ledger.account j]
      by_cases same : j = i
      · subst same
        simp [waiting]
      · simp [same, Ne.symm same]

theorem received {call : Call} (starts : Starts s call) (room : NoOverflow s call) :
    Ledger (ins ++ call.wr.toList) outs (received s call) := by
  have notified := ledger.notified call.notification
  simp only [JettySched.received]
  cases wr : call.wr with
  | none =>
    rw [toList_none, append_nil]
    exact notified
  | some f =>
    rw [toList_some, elim_some, accept_eq]
    cases own : owner metaSlot (JettySched.notified s call.notification).entering f with
    | none => exact notified.stray own
    | some idx =>
      apply notified.enqueued own
      · rw [entering_notified]
        exact starts f wr
      · rw [entering_notified] at own
        exact (room_notified s call.notification idx).mpr (room f wr idx own)

theorem call {call : Call} (starts : Starts s call) (room : NoOverflow s call) :
    Ledger (ins ++ call.wr.toList) (outs ++ ((step s call).2 1).toList) (step s call).1 := by
  have received := ledger.received starts room
  rcases step_received s call with early | drains
  · rw [early]
    simpa using received
  · rw [drains]
    exact received.drained

end Ledger

theorem Ledger.run {ins outs : List Flit} {s : State} (ledger : Ledger ins outs s)
    (calls : List Call) (starts : Along step.next Starts s calls)
    (room : Along step.next NoOverflow s calls) :
    Ledger (ins ++ posted calls) (outs ++ sent step s calls) (step.final s calls) := by
  induction calls generalizing ins outs s with
  | nil => simpa [posted, sent] using ledger
  | cons call calls ih =>
    have later := ih (ledger.call starts.1 room.1) starts.2 room.2
    rw [posted_cons, sent_cons, Mealy.final_cons, ← append_assoc, ← append_assoc]
    exact later

theorem entering_next (s : State) (call : Call) :
    (step.next s call).entering = call.wr.elim s.entering (advance metaSlot s.entering) := by
  simp only [Mealy.next, step]
  cases call.wr with
  | none => exact entering_notified s call.notification
  | some f =>
    simp only [accept_eq, entering_notified, elim_some, advance]
    cases own : owner metaSlot s.entering f with
    | none =>
      rw [map_none]
      exact (entering_notified s call.notification).trans (by simp [entering_of_owner_none own])
    | some idx =>
      cases last : f.eop <;> simp [drained, State.entering]

theorem along_starts {s : State} {calls : List Call} {inside : Bool}
    (framed : scan s.entering.isSome (posted calls) = some inside) :
    Along step.next Starts s calls := by
  induction calls generalizing s with
  | nil => trivial
  | cons call calls ih =>
    rw [posted_cons] at framed
    cases wr : call.wr with
    | none =>
      refine ⟨fun f member => by simp [wr] at member, ih ?_⟩
      rw [entering_next, wr]
      simpa [wr] using framed
    | some f =>
      rw [wr, toList_some, singleton_append, scan] at framed
      split at framed
      · next mark =>
        have after : (step.next s call).entering.isSome = !f.eop := by
          rw [entering_next, wr, elim_some, advance, owner]
          cases sop : f.sop with
          | true => cases f.eop <;> rfl
          | false =>
            have under : s.entering.isSome = true := by simpa [sop] using mark
            cases f.eop <;> simp [under]
        refine ⟨fun g member sop => ?_, ih (after ▸ framed)⟩
        obtain rfl : f = g := by simpa [wr] using member
        rw [sop] at mark
        simpa using mark
      · simp at framed

/-- At every moment of a run the scheduler has sent whole packets, the last of which may be under
way, and for every slot the flits received are those sent, in order, followed by those held. -/
theorem schedules_packets (memory : Fin 16 → Fin 32 → WR) (calls : List Call)
    (framed : WellFramed (posted calls)) (room : Along step.next NoOverflow (init memory) calls) :
    WellFramed (sent step (init memory) calls) ∧
      ∀ i, ofKey metaSlot i (posted calls) = ofKey metaSlot i (sent step (init memory) calls) ++
        (step.final (init memory) calls).queue discipline i := by
  obtain ⟨inside, scanned⟩ := framed.scan
  have ledger := (ledger_init memory).run calls (along_starts scanned) room
  exact ⟨wellFramed_of_scan ledger.output, ledger.account⟩

/-- Once nothing is held any more, the packets posted have been sent, those of each slot in the
order of posting. -/
theorem releases_packets {memory : Fin 16 → Fin 32 → WR} {calls : List Call}
    {packets : List Packet} (inputs : posted calls = packets.flatMap Packet.flits)
    (room : Along step.next NoOverflow (init memory) calls)
    (empty : ∀ i, (step.final (init memory) calls).queue discipline i = []) :
    ∃ released : List Packet, sent step (init memory) calls = released.flatMap Packet.flits ∧
        ∀ i, (released.filter fun p => metaSlot p.head = i) =
          packets.filter fun p => metaSlot p.head = i := by
  have scanned : scan false (posted calls) = some false := by rw [inputs, scan_packets]
  have ledger := (ledger_init memory).run calls (along_starts scanned) room
  have entering : (step.final (init memory) calls).entering = none := by
    rw [← ledger.entering, nil_append, inputs, underway_packets]
  have leaving : (step.final (init memory) calls).leaving = none := by
    cases under : (step.final (init memory) calls).leaving with
    | none => rfl
    | some i =>
      have framed := ledger.queued.framed i
      rw [empty i, entering, under] at framed
      simp [scan] at framed
  have output := ledger.output
  rw [leaving, nil_append] at output
  obtain ⟨released, part, split, _, closed⟩ := parse_of_scan output
  obtain rfl : part = [] := by simpa using closed
  rw [append_nil] at split
  refine ⟨released, split, fun i => packets_inj ?_⟩
  have account := ledger.account i
  rw [nil_append, nil_append, inputs, split, empty i, append_nil, ofKey_packets,
    ofKey_packets] at account
  exact account.symm

/-- A Write of two flits for slot 5, posted in two calls with a pause, one of one flit for slot 6,
and the calls until both have left. -/
def sampleCalls : List Call :=
  [{ wr := some { lane3 := (5 <<< 43) + 3, sop := true } }, {},
    { wr := some { lane0 := 7, eop := true } },
    { wr := some { lane3 := (6 <<< 43) + 3, sop := true, eop := true } }, {}, {}, {}, {}]

theorem schedules_packets_sampleCalls :
    sent step (init fun _ _ => default) sampleCalls = posted sampleCalls ∧
    WellFramed (sent step (init fun _ _ => default) sampleCalls) ∧
      ∀ i, ofKey metaSlot i (posted sampleCalls) =
        ofKey metaSlot i (sent step (init fun _ _ => default) sampleCalls) ++
          (step.final (init fun _ _ => default) sampleCalls).queue discipline i :=
  ⟨by decide, schedules_packets _ sampleCalls
    (wellFramed_of_scan (show scan false (posted sampleCalls) = some false by decide)) (by decide)⟩

end OpenURMA.JettySched
