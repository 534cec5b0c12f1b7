import OpenURMA.Library.RoundRobin
import OpenURMA.Ordering.JettySched

/-!
# Overtaking in `UB_Jetty_Sched`

Between packets the scheduler visits one queue a call, in turn, and starts a packet only in the
queue visited.  While a packet waits at the head of its queue and no fence blocks it, its queue is
not visited, so that no other queue is visited twice.
-/

namespace OpenURMA.JettySched

open Library List

/-- A packet waits for the whole of a call: no fence blocks it at the head of queue `i`, and it
stays there. -/
def Waits (i : Fin 16) (s : State) (call : Call) : Prop :=
  (received s call).Ready discipline i ∧
    ((step s call).1.q i).ring.head = ((received s call).q i).ring.head
deriving Decidable

def startedSlots (outs : List Flit) : List (Fin 16) := (outs.filter (·.sop)).map metaSlot

theorem startedSlots_append (outs more : List Flit) :
    startedSlots (outs ++ more) = startedSlots outs ++ startedSlots more := by
  simp [startedSlots]

section

variable {ins outs : List Flit} {s : State} {call : Call} {i : Fin 16}

/-- What a call can start while a packet waits: nothing, with the cursor at rest, or a packet of
another queue, the one visited. -/
inductive Turn (i : Fin 16) (s s' : State) (outs : List Flit) : Prop where
  | rest (cursor : s'.rrCursor = s.rrCursor) (started : startedSlots outs = [])
  | visit (cursor : s'.rrCursor = s.rrCursor + 1) (other : s.rrCursor ≠ i)
      (started : (startedSlots outs).Sublist [s.rrCursor])

variable {entering : Option (Fin 16)}

theorem started_drain (queued : s.Queued discipline entering) :
    startedSlots (s.drain discipline).2.toList = [] ∨
      s.drainInPacket = false ∧ startedSlots (s.drain discipline).2.toList = [s.rrCursor] := by
  cases sends : (s.drain discipline).2 with
  | none => exact .inl rfl
  | some f =>
    cases sop : f.sop with
    | false => exact .inl (by simp [startedSlots, sop])
    | true =>
      obtain ⟨idle, slot⟩ := queued.slot_started sends sop
      exact .inr ⟨idle, by simp [startedSlots, sop, slot]⟩

theorem turn_drained (queued : s.Queued discipline entering) (ready : s.Ready discipline i)
    (stays : ((drained s).1.q i).ring.head = (s.q i).ring.head) :
    Turn i s (drained s).1 ((drained s).2 1).toList := by
  have cursor := IniQueues.rrCursor_drain discipline s.toIniQueues
  have started := started_drain queued
  simp only [drained, Ports.ofOption_same]
  cases inside : s.drainInPacket with
  | true =>
    rw [inside, if_pos rfl] at cursor
    rw [inside] at started
    exact .rest cursor (started.resolve_right fun idle => Bool.noConfusion idle.1)
  | false =>
    rw [inside, if_neg Bool.false_ne_true] at cursor
    apply Turn.visit cursor (IniQueues.rrCursor_ne_of_stays inside ready stays)
    rcases started with none | ⟨_, one⟩
    · rw [none]
      exact nil_sublist _
    · rw [one]

theorem Ledger.turn (ledger : Ledger ins outs s) (starts : Starts s call)
    (room : NoOverflow s call) (waits : Waits i s call) :
    Turn i s (step s call).1 ((step s call).2 1).toList := by
  have cursor := rrCursor_received s call
  have queued := (ledger.received starts room).queued
  obtain ⟨ready, stays⟩ := waits
  rcases step_received s call with early | drains
  · rw [early]
    exact .rest cursor rfl
  · rw [drains] at stays ⊢
    rcases turn_drained queued ready stays with ⟨same, none⟩ | ⟨moved, other, one⟩
    · exact .rest (same.trans cursor) none
    · rw [cursor] at moved other one
      exact .visit moved other one

end

section

variable {ins outs : List Flit} {s : State} {calls : List Call} {i : Fin 16}

theorem Ledger.visited (ledger : Ledger ins outs s) (starts : Along step.next Starts s calls)
    (room : Along step.next NoOverflow s calls) (waits : Along step.next (Waits i) s calls) :
    ∃ count, (startedSlots (sent step s calls)).Sublist (visits s.rrCursor count) ∧
      i ∉ visits s.rrCursor count := by
  induction calls generalizing ins outs s with
  | nil => exact ⟨0, .slnil, not_mem_nil⟩
  | cons call calls ih =>
    obtain ⟨count, later, out⟩ := ih (ledger.call starts.1 room.1) starts.2 room.2 waits.2
    rw [sent_cons, startedSlots_append]
    rcases ledger.turn starts.1 room.1 waits.1 with ⟨same, none⟩ | ⟨moved, other, one⟩
    · rw [same] at later out
      rw [none, nil_append]
      exact ⟨count, later, out⟩
    · rw [moved] at later out
      refine ⟨count + 1, one.append later, ?_⟩
      rw [visits, mem_cons]
      exact not_or.mpr ⟨Ne.symm other, out⟩

end

/-- While the packet at the head of a queue waits and no fence blocks it, no other queue starts
two packets. -/
theorem not_overtaken_twice (memory : Fin 16 → Fin 32 → WR) (before during : List Call)
    (framed : WellFramed (posted (before ++ during)))
    (room : Along step.next NoOverflow (init memory) (before ++ during)) (i j : Fin 16)
    (waits : Along step.next (Waits i) (step.final (init memory) before) during) :
    (startedSlots (sent step (step.final (init memory) before) during)).count j ≤ 1 := by
  obtain ⟨inside, scanned⟩ := framed.scan
  have starts := along_append.mp (along_starts (s := init memory) scanned)
  rw [along_append] at room
  have ledger := (ledger_init memory).run before starts.1 room.1
  obtain ⟨count, visited, out⟩ := ledger.visited starts.2 room.2 waits
  exact nodup_iff_count_le_one.mp ((nodup_visits out).sublist visited) j

def singleWrite (slot : U64) : Flit := { lane3 := (slot <<< 43) + 3, sop := true, eop := true }

/-- The Write of slot 2 waits while that of slot 1, posted later, is sent. -/
theorem not_overtaken_twice_singleWrites :
    startedSlots (sent step (step.final (init fun _ _ => default) [{ wr := some (singleWrite 2) }])
        [{ wr := some (singleWrite 1) }]) = [1] ∧
      (startedSlots (sent step
        (step.final (init fun _ _ => default) [{ wr := some (singleWrite 2) }])
        [{ wr := some (singleWrite 1) }])).count 1 ≤ 1 :=
  ⟨by decide +kernel, not_overtaken_twice _ [{ wr := some (singleWrite 2) }]
    [{ wr := some (singleWrite 1) }]
    (wellFramed_of_scan (show scan false [singleWrite 2, singleWrite 1] = some false by decide))
    (by decide +kernel) 2 1 (by decide +kernel)⟩

end OpenURMA.JettySched
