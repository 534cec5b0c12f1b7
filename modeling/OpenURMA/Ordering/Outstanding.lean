import OpenURMA.Ordering.RoiGating

/-!
# What an SO transaction waits for

An SO transaction waits while the counter of its slot is not zero, so the counter should stand for
responses that can still arrive: those to the ROI, ROT and ROL transactions tagged RO or SO that
have left and have not been notified. But a UNO transaction tagged RO or SO raises the counter as
well although it has no response, and so does a transaction in mode ROI with the reserved tag.
-/

namespace OpenURMA.OrderTrackerInitiator

open Library UbMeta IniQueues List

/-- A transaction in mode ROI, ROT or ROL tagged RO or SO, by its metadata flit. -/
def answered (f : Flit) : Bool :=
  f.sop && isOrdered f &&
    (svcMode.get f == svcRoi || svcMode.get f == svcRot ||
      svcMode.get f == svcRol)

/-- The transactions of a slot among sent flits that get a response. -/
def answers (i : Fin 16) (outs : List Flit) : Nat :=
  outs.countP fun f => answered f && metaSlot f == i

/-- A UNO transaction is not tagged RO or SO, and one in mode ROI has one of the three tags. -/
def regular (f : Flit) : Bool :=
  (svcMode.get f != svcUno || !isOrdered f) &&
    (svcMode.get f != svcRoi || odrExec.get f == odrNo || isOrdered f)

/-- The metadata flit of a call, if any, is of a regular transaction. -/
def Regular (call : Call) : Prop := ∀ f ∈ call.wr, f.sop = true → regular f = true
deriving Decidable

theorem svcMode_cases (f : Flit) : svcMode.get f = svcRoi ∨ svcMode.get f = svcRot ∨
      svcMode.get f = svcRol ∨ svcMode.get f = svcUno := by
  have masked := svcMode.get_and_mask le_rfl f
  have below : (svcMode.get f).toNat < 4 := by
    rw [← masked, BitField.toNat_and_mask (by decide)]
    exact Nat.mod_lt _ (by decide)
  generalize svcMode.get f = mode at below
  unfold svcRoi svcRot svcRol svcUno
  bv_omega

theorem counted_eq_answered {f : Flit} (fine : f.sop = true → regular f = true) :
    counted f = answered f := by
  cases sop : f.sop with
  | false => simp [counted, answered, sop]
  | true =>
    have fine := fine sop
    cases ordered : isOrdered f with
    | true =>
      rcases svcMode_cases f with mode | mode | mode | mode
      · simp [counted, answered, sop, ordered, mode]
      · simp [counted, answered, sop, ordered, mode]
      · simp [counted, answered, sop, ordered, mode]
      · simp [regular, ordered, mode] at fine
    | false =>
      have closed : svcMode.get f ≠ svcRoi ∨ odrExec.get f = odrNo := by
        simpa [regular, ordered] using fine
      rcases closed with mode | tag
      · simp [counted, answered, sop, ordered, mode]
      · simp [counted, answered, sop, ordered, tag]

theorem answers_le_departures (i : Fin 16) (outs : List Flit) :
    answers i outs ≤ departures i outs := by
  apply countP_mono_left
  intro f _ answer
  simp only [answered, Bool.and_eq_true] at answer
  simp [counted, answer]

/-- Whatever holds of the posted flits holds of the flits sent and of those held. -/
structure Throughout (meets : Flit → Prop) (outs : List Flit) (s : State) : Prop where
  sent : ∀ f ∈ outs, meets f
  held : ∀ i, ∀ entry ∈ s.held i, meets entry.f

namespace Throughout

variable {meets : Flit → Prop} {outs : List Flit} {s : State} {f : Flit}

variable (throughout : Throughout meets outs s)
include throughout

theorem enqueue (here : meets f) (idx : Fin 16) {s' : State}
    (queues : s'.toIniQueues = s.enqueue idx (PendingWR.of f)) :
    Throughout meets outs s' := by
  refine ⟨throughout.sent, fun i entry member => ?_⟩
  rw [queues] at member
  by_cases room : s.Room idx
  · rcases mem_of_pushed (held_enqueue room) member with old | ⟨rfl, rfl⟩
    · exact throughout.held i entry old
    · exact here
  · rw [IniQueues.enqueue, if_pos (not_not.mp room)] at member
    exact throughout.held i entry member

theorem drained : Throughout meets (outs ++ ((drained s).2 1).toList) (drained s).1 := by
  have drain := IniQueues.drained discipline s.toIniQueues
  simp only [OrderTrackerInitiator.drained, Ports.ofOption_same]
  generalize s.drain discipline = result at drain ⊢
  cases drain with
  | quiet held =>
    refine ⟨by simpa using throughout.sent, ?_⟩
    rw [held]
    exact throughout.held
  | @sends s' i entry rest waiting turn held =>
    refine ⟨?_, fun j other member => ?_⟩
    · rw [Option.toList_some, forall_mem_append, forall_mem_singleton]
      exact ⟨throughout.sent, throughout.held i entry (by rw [waiting]; exact mem_cons_self)⟩
    · exact throughout.held j other (mem_of_popped waiting held member)

theorem call {call : Call} (here : ∀ f ∈ call.wr, meets f) :
    Throughout meets (outs ++ ((step s call).2 1).toList) (step.next s call) := by
  have notified : Throughout meets outs (notified s call.notification) :=
    ⟨throughout.sent, by rw [held_notified]; exact throughout.held⟩
  simp only [Mealy.next, step]
  cases wr : call.wr with
  | none => exact notified.drained
  | some f =>
    have accept := accepted (OrderTrackerInitiator.notified s call.notification) f
    dsimp only
    generalize OrderTrackerInitiator.accept (OrderTrackerInitiator.notified s call.notification) f
      = result at accept ⊢
    cases accept with
    | @queued idx goes => exact (notified.enqueue (here f wr) idx rfl).drained
    | @passed s' gate inner held owed leaving entering =>
      simp only [if_true, Ports.emit_same, Option.toList_some]
      refine ⟨?_, by rw [held]; exact notified.held⟩
      rw [forall_mem_append, forall_mem_singleton]
      exact ⟨throughout.sent, here f wr⟩
    | stray inner idle => exact notified.drained

theorem run {calls : List Call} (posts : ∀ call ∈ calls, ∀ f ∈ call.wr, meets f) :
    Throughout meets (outs ++ OpenURMA.sent step s calls) (step.final s calls) := by
  induction calls generalizing outs s with
  | nil => simpa [OpenURMA.sent] using throughout
  | cons call calls ih =>
    rw [forall_mem_cons] at posts
    rw [sent_cons, ← append_assoc]
    exact ih (throughout.call posts.1) posts.2

end Throughout

/-- In a run of regular transactions in which no counter reaches its largest value, the counter of
a slot is the number of its transactions in mode ROI, ROT or ROL tagged RO or SO that have left,
less those that have been notified. -/
theorem outstanding_eq (memory : Fin 16 → Fin 32 → PendingWR) (calls : List Call)
    (room : Along step.next NoOverflow (init memory) calls)
    (follow : NotesFollow step answers (init memory) calls)
    (meets : Along step.next (fun s call => Starts s call ∧ s.NoWrap ∧ Regular call) (init memory)
      calls) (i : Fin 16) :
    ((step.final (init memory) calls).owed i).toNat + notes i calls =
      answers i (sent step (init memory) calls) := by
  rw [along_and, along_and] at meets
  obtain ⟨starts, noWrap, regulars⟩ := meets
  have books := books_of_notes starts room noWrap fun before call after split i => by
    subst split
    exact (follow.split i).trans (answers_le_departures i _)
  have posts : ∀ call ∈ calls, Regular call := by
    intro call member
    obtain ⟨before, after, rfl⟩ := append_of_mem member
    exact (along_append.mp regulars).2.1
  have empty : Throughout (fun f => f.sop = true → regular f = true) [] (init memory) :=
    ⟨by simp, by simp [init, held_init]⟩
  have same : answers i (sent step (init memory) calls) =
      departures i (sent step (init memory) calls) := by
    refine countP_congr fun f member => ?_
    rw [counted_eq_answered ((empty.run posts).sent f (by simpa using member))]
  rw [same]
  exact books.tally i

/-- An RO and an SO transaction have left, and the first has been notified. -/
theorem outstanding_gatedCalls : answers 0 (sent step (init fun _ _ => default) gatedCalls) = 2 ∧
      ((step.final (init fun _ _ => default) gatedCalls).owed 0).toNat + notes 0 gatedCalls =
        answers 0 (sent step (init fun _ _ => default) gatedCalls) :=
  ⟨by decide +kernel, outstanding_eq _ gatedCalls (by decide +kernel) (by decide +kernel)
    (by decide +kernel) 0⟩

def taggedUno : Flit := { lane2 := 3 <<< 58, lane3 := 1 <<< 32, sop := true, eop := true }

/-- The counter stands at one after the UNO transaction, for which there is no response. -/
theorem outstanding_taggedUno :
    Along step.next NoOverflow (init fun _ _ => default) [{ wr := some taggedUno }] ∧
      NotesFollow step answers (init fun _ _ => default) [{ wr := some taggedUno }] ∧
      answers 0 (sent step (init fun _ _ => default) [{ wr := some taggedUno }]) = 0 ∧
      notes 0 [{ wr := some taggedUno }] = 0 ∧
      (step.final (init fun _ _ => default) [{ wr := some taggedUno }]).owed 0 = 1 := by
  decide +kernel

end OpenURMA.OrderTrackerInitiator
