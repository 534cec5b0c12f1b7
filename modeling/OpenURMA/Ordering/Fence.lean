import OpenURMA.Ordering.JettySched

/-!
# The fence of `UB_Jetty_Sched`

A work request with the fence bit waits until every Read and Atomic sent before it from its
queue has been answered.  The scheduler knows this from a 32-bit counter per queue: a Read or
Atomic that leaves raises it, a notification lowers it.
-/

namespace OpenURMA.JettySched

open Library IniQueues Function Mealy UbMeta Ports List Option

def reads (i : Fin 16) (outs : List Flit) : Nat :=
  outs.countP fun f => f.sop && isReadAtomic (taOpcode.get f) && metaSlot f == i

/-- When a work request with the fence bit starts to leave, every Read and Atomic sent before it
from its slot has been notified, and what was posted before it has left, in whole packets. -/
def Fenced (s : State) (calls : List Call) : Prop :=
  ∀ before call after, calls = before ++ call :: after →
    ∀ f, (step (step.final s before) call).2 1 = some f →
      f.sop = true → fence.get f = true →
        reads (metaSlot f) (sent step s before) = notes (metaSlot f) (before ++ [call]) ∧
        ∃ (packets : List Packet) (later : List Flit),
          ofKey metaSlot (metaSlot f) (sent step s before) = packets.flatMap Packet.flits ∧
          ofKey metaSlot (metaSlot f) (posted (before ++ [call])) =
            packets.flatMap Packet.flits ++ f :: later

variable {s : State} {calls : List Call}

section

variable {call : Call}

/-- A run of packets without overflow, in which notifications follow Reads and Atomics and no
counter wraps around. -/
structure Proper (s : State) (calls : List Call) : Prop where
  starts : Along step.next Starts s calls
  room : Along step.next NoOverflow s calls
  noWrap : Along step.next (fun s _ => s.NoWrap) s calls
  follow : NotesFollow step reads s calls

theorem Proper.init (proper : Proper s (calls ++ [call])) : Proper s calls where
  starts := (along_append.mp proper.starts).1
  room := (along_append.mp proper.room).1
  noWrap := (along_append.mp proper.noWrap).1
  follow := proper.follow.start

end

/-- The tally of a run: Reads and Atomics sent against notifications. -/
def Counted (calls : List Call) (outs : List Flit) (s : State) : Prop :=
  ∀ i, (s.owed i).toNat + notes i calls = reads i outs

variable {outs : List Flit}

section

variable {ins : List Flit} {call : Call}

theorem reads_snoc (i : Fin 16) (f : Flit) : reads i (outs ++ [f]) = reads i outs +
      (f.sop && isReadAtomic (taOpcode.get f) && metaSlot f == i).toNat :=
  countP_snoc ..

variable (counted : Counted calls outs s)
include counted

theorem Counted.notified (follow : ∀ i, notes i (calls ++ [call]) ≤ reads i outs) :
    Counted (calls ++ [call]) outs (notified s call.notification) :=
  Tally.notified counted follow (toIniQueues_notified s call.notification)

theorem Counted.drained (noWrap : s.NoWrap) (queued : s.Queued discipline s.entering) :
    Counted calls (outs ++ ((drained s).2 1).toList) (drained s).1 := by
  have drain := queued.drained
  simp only [JettySched.drained, ofOption_same]
  generalize s.drain discipline = result at drain ⊢
  cases drain with
  | quiet queued queue owed leaving =>
    intro i
    rw [toList_none, append_nil, ← counted i]
    exact congrArg (fun owed => (owed i).toNat + notes i calls) owed
  | @sends s' i f rest queued waiting queue own start free owed leaving =>
    have tally := Tally.depart counted noWrap owed
    intro j
    refine (tally j).trans ?_
    rw [toList_some, reads_snoc]
    change reads j outs + (f.sop && isReadAtomic (taOpcode.get f) && i == j).toNat = _
    cases sop : f.sop with
    | true =>
      have slot : metaSlot f = i := by simpa [owner, sop] using own
      rw [slot]
    | false => rfl

theorem Counted.after (ledger : Ledger ins outs s)
    (starts : Starts s call) (room : NoOverflow s call) (noWrap : s.NoWrap)
    (follow : ∀ i, notes i (calls ++ [call]) ≤ reads i outs) :
    Counted (calls ++ [call]) (outs ++ ((step s call).2 1).toList) (step.next s call) := by
  have notified : Counted (calls ++ [call]) outs (JettySched.notified s call.notification) :=
    counted.notified follow
  have noWrap' := noWrap.notified (toIniQueues_notified s call.notification)
  have counted₁ : Counted (calls ++ [call]) outs (received s call) := by
    intro i
    rw [owed_received]
    exact notified i
  rcases step_received s call with early | drains
  · rw [Mealy.next, early]
    simpa using counted₁
  · have noWrap₁ : (received s call).NoWrap := by
      intro i
      rw [owed_received]
      exact noWrap' i
    rw [Mealy.next, drains]
    exact counted₁.drained noWrap₁ (ledger.received starts room).queued

end

theorem books {memory : Fin 16 → Fin 32 → WR} (proper : Proper (init memory) calls) :
    Ledger (posted calls) (sent step (init memory) calls) (step.final (init memory) calls) ∧
      Counted calls (sent step (init memory) calls) (step.final (init memory) calls) := by
  induction calls using reverseRecOn with
  | nil => exact ⟨ledger_init memory, fun _ => rfl⟩
  | append_singleton calls call ih =>
    obtain ⟨ledger, counted⟩ := ih proper.init
    obtain ⟨starts, _⟩ := (along_append.mp proper.starts).2
    obtain ⟨room, _⟩ := (along_append.mp proper.room).2
    obtain ⟨noWrap, _⟩ := (along_append.mp proper.noWrap).2
    rw [posted_snoc, sent_snoc, final_snoc]
    refine ⟨ledger.call starts room, ?_⟩
    exact Counted.after counted ledger starts room noWrap proper.follow.split

/-- A metadata flit can leave: no packet is being sent, the flit is the first of its queue, and with
the fence bit the counter is zero. -/
theorem leaves {ins : List Flit} (ledger : Ledger ins outs s) {f : Flit}
    (out : (drained s).2 1 = some f) (sop : f.sop = true) :
    s.leaving = none ∧ (∃ rest, s.queue discipline (metaSlot f) = f :: rest) ∧
      (fence.get f = true → s.owed (metaSlot f) = 0) := by
  have drain := ledger.queued.drained
  simp only [drained, ofOption_same] at out
  generalize s.drain discipline = result at drain out
  cases drain with
  | quiet => simp at out
  | @sends s' i g rest queued waiting queue own start free owed leaving =>
    obtain rfl : g = f := by simpa using out
    have slot : metaSlot g = i := by simpa [owner, sop] using own
    have idle : s.leaving = none := by simpa [sop] using start
    refine ⟨idle, ⟨rest, slot ▸ waiting⟩, fun fence => ?_⟩
    have free' := free sop
    simp only [discipline, WR.of, sop, fence, Bool.and_self, Bool.true_and,
      Bool.not_eq_true', decide_eq_false_iff_not, gt_iff_lt, BitVec.not_lt] at free'
    rw [slot]
    exact BitVec.le_zero_iff.mp free'

/-- The fence holds in every run of packets in which no counter reaches its largest value. -/
theorem fence_holds (memory : Fin 16 → Fin 32 → WR) (calls : List Call)
    (room : Along step.next NoOverflow (init memory) calls)
    (follow : NotesFollow step reads (init memory) calls)
    (meets : Along step.next (fun s call => Starts s call ∧ s.NoWrap) (init memory) calls) :
    Fenced (init memory) calls := by
  rw [along_and] at meets
  rintro before call after rfl f out sop fence
  have proper : Proper (init memory) before := {
    starts := (along_append.mp meets.1).1
    room := (along_append.mp room).1
    noWrap := (along_append.mp meets.2).1
    follow := follow.start }
  obtain ⟨ledger, counted⟩ := books proper
  have tally := Counted.notified counted follow.split
  have received := ledger.received (along_append.mp meets.1).2.1 (along_append.mp room).2.1
  rcases step_received _ call with early | drains
  · rw [early] at out
    simp at out
  · rw [drains] at out
    obtain ⟨idle, ⟨later, waiting⟩, open_⟩ := leaves received out sop
    have balance := tally (metaSlot f)
    rw [← owed_received, open_ fence] at balance
    have framed := received.output
    rw [idle] at framed
    obtain ⟨packets, part, split, _, closed⟩ := parse_of_scan framed
    obtain rfl : part = [] := by simpa using closed
    refine ⟨by simpa using balance.symm, packets.filter fun p => metaSlot p.head = metaSlot f,
      later, ?_, ?_⟩
    · rw [split, append_nil, ofKey_packets]
    · rw [posted_snoc, received.account, waiting, split, append_nil, ofKey_packets]

def sampleRead : Flit := { lane3 := 6, sop := true, eop := true }

def fencedWrite : Flit := { lane3 := (1 <<< 35) + 3, sop := true, eop := true }

/-- The Read leaves, is notified, and the Write is posted when slot 0 is visited again. -/
def fencedCalls : List Call :=
  { wr := some sampleRead } :: replicate 14 ({} : Call) ++
    [{ notification := some {} }, { wr := some fencedWrite }]

theorem fence_holds_fencedCalls :
    sent step (init fun _ _ => default) fencedCalls = [sampleRead, fencedWrite] ∧
      Fenced (init fun _ _ => default) fencedCalls :=
  ⟨by decide +kernel, fence_holds _ fencedCalls (by decide +kernel) (by decide +kernel)
    (by decide +kernel)⟩

def round : List Call := { wr := some sampleRead } :: replicate 15 {}

def flood : Nat → List Call
  | 0 => []
  | k + 1 => flood k ++ round

/-- Nothing is queued or under way, and the counter of slot 0 stands at `count`. -/
structure Calm (s : State) (cursor : Fin 16) (count : U32) : Prop where
  empty : ∀ i, s.held i = []
  idle : s.drainInPacket = false
  cursor : s.rrCursor = cursor
  owed : s.owed 0 = count

structure Passes (s : State) (calls : List Call) (outs : List Flit) (s' : State) : Prop where
  final : step.final s calls = s'
  sent : sent step s calls = outs
  room : Along step.next NoOverflow s calls

theorem Passes.append {s₁ s₂ : State} {calls' : List Call} {outs' : List Flit}
    (first : Passes s calls outs s₁) (second : Passes s₁ calls' outs' s₂) :
    Passes s (calls ++ calls') (outs ++ outs') s₂ where
  final := by rw [final_append, first.final, second.final]
  sent := by
    rw [sent_append, first.final, first.sent, second.sent]
  room := along_append.mpr ⟨first.room, by
    have reached : calls.foldl step.next s = s₁ := first.final
    rw [reached]
    exact second.room⟩

namespace Calm

variable {cursor : Fin 16} {count : U32}

theorem room (calm : Calm s cursor count) (call : Call) : NoOverflow s call := by
  intro f _ idx _
  rw [room_iff, calm.empty]
  decide

theorem pause (calm : Calm s cursor count) :
    ∃ s', Passes s [{}] [] s' ∧ Calm s' (cursor + 1) count := by
  have call : step s {} = ({ s with rrCursor := s.rrCursor + 1 }, silent) := by
    simp only [step, notified, drained, drain_of_empty calm.idle (calm.empty _)]
    rfl
  refine ⟨_, ⟨rfl, ?_, calm.room _, trivial⟩, ?_⟩
  · simp [sent, call, Ports.sent_cons]
  · rw [final_cons, call]
    exact ⟨calm.empty, calm.idle, by rw [← calm.cursor]; rfl, calm.owed⟩

theorem pauses (calm : Calm s cursor count) (k : Nat) :
    ∃ s', Passes s (replicate k {}) [] s' ∧ Calm s' ((· + 1)^[k] cursor) count := by
  induction k with
  | zero => exact ⟨s, ⟨rfl, rfl, trivial⟩, calm⟩
  | succ k ih =>
    obtain ⟨s₁, first, calm₁⟩ := ih
    obtain ⟨s₂, last, calm₂⟩ := calm₁.pause
    rw [replicate_succ', iterate_succ_apply']
    exact ⟨s₂, first.append last, calm₂⟩

theorem post (calm : Calm s 0 count) {f : Flit} (sop : f.sop = true) (eop : f.eop = true)
    (slot : metaSlot f = 0) (starts : discipline.starts (WR.of f) count = true) :
    ∃ s', Passes s [{ wr := some f }] [f] s' ∧
      Calm s' 1 (if discipline.counts (WR.of f) then count + 1 else count) := by
  have room : s.Room 0 := by
    rw [room_iff, calm.empty]
    decide
  let s₁ := s.enqueue 0 (WR.of f)
  have cursor : s₁.rrCursor = 0 := rrCursor_enqueue.trans calm.cursor
  have held : s₁.held = update s.held 0 [WR.of f] := by
    rw [held_enqueue room, calm.empty]
    rfl
  have owed : s₁.owed = s.owed := owed_enqueue
  have waiting : s₁.held s₁.rrCursor = [WR.of f] := by
    rw [held, cursor, update_self]
  rcases drain_of_single (d := discipline)
    (drainInPacket_enqueue.trans calm.idle) waiting
    (by rw [owed, cursor, calm.owed]; exact starts) eop with
    ⟨s₂, drains, cursor₂, held₂, owed₂, idle₂⟩
  have call : step s { wr := some f } = (⟨s₂, 0, false⟩, emit 1 f) := by
    simp only [step, notified, accept, sop, eop, slot, if_true, drained, Bool.not_true]
    rw [show s.enqueue 0 (WR.of f) = s₁ from rfl, drains]
    rfl
  refine ⟨⟨s₂, 0, false⟩, ⟨?_, ?_, calm.room _, trivial⟩, ?_⟩
  · rw [final_cons, call, final_nil]
  · simp [sent, call, Ports.sent_cons]
  · refine ⟨fun i => ?_, idle₂, by rw [cursor₂, cursor]; rfl, ?_⟩
    · change s₂.held i = []
      rw [held₂, held, cursor]
      by_cases same : i = 0 <;> simp [same, calm.empty]
    · change s₂.owed 0 = _
      rw [owed₂, owed, cursor, update_self, calm.owed]

theorem round (calm : Calm s 0 count) :
    ∃ s', Passes s round [sampleRead] s' ∧ Calm s' 0 (count + 1) := by
  obtain ⟨s₁, posts, calm₁⟩ := calm.post (f := sampleRead) rfl rfl (by decide) (by rfl)
  obtain ⟨s₂, waits, calm₂⟩ := calm₁.pauses 15
  exact ⟨s₂, posts.append waits, calm₂⟩

theorem flood (calm : Calm s 0 count) (k : Nat) :
    ∃ s', Passes s (flood k) (replicate k sampleRead) s' ∧
      Calm s' 0 (count + BitVec.ofNat 32 k) := by
  induction k with
  | zero => exact ⟨s, ⟨rfl, rfl, trivial⟩, by simpa using calm⟩
  | succ k ih =>
    obtain ⟨s₁, first, calm₁⟩ := ih
    obtain ⟨s₂, last, calm₂⟩ := calm₁.round
    rw [replicate_succ']
    refine ⟨s₂, first.append last, ?_⟩
    rwa [BitVec.ofNat_add, ← BitVec.add_assoc]

end Calm

theorem calm_init (memory : Fin 16 → Fin 32 → WR) : Calm (init memory) 0 0 where
  empty := held_init memory
  idle := rfl
  cursor := rfl
  owed := rfl

theorem posted_flood (k : Nat) : posted (flood k) = replicate k sampleRead := by
  induction k with
  | zero => rfl
  | succ k ih =>
    rw [flood, posted_append, ih, replicate_succ']
    rfl

theorem notification_flood (k : Nat) : ∀ call ∈ flood k, call.notification = none := by
  induction k with
  | zero => simp [flood]
  | succ k ih =>
    have quiet : ∀ call ∈ round, call.notification = none := by decide
    exact forall_mem_append.mpr ⟨ih, quiet⟩

theorem reads_replicate (k : Nat) : reads 0 (replicate k sampleRead) = k := by
  have counted : (sampleRead.sop && isReadAtomic (taOpcode.get sampleRead) &&
      metaSlot sampleRead == 0) = true := by decide
  rw [reads, countP_replicate, if_pos counted]

theorem notification_run (k : Nat) (f : Flit) :
    ∀ call ∈ flood k ++ [{ wr := some f }], call.notification = none :=
  forall_mem_append.mpr ⟨notification_flood k, forall_mem_singleton.mpr rfl⟩

/-- After as many Reads as make the counter wrap around to zero, a fenced Write is sent although
none of them has been notified. -/
theorem not_fenced_of_wrap {k : Nat} (positive : 0 < k) (wraps : BitVec.ofNat 32 k = 0#32) :
    WellFramed (posted (flood k ++ [{ wr := some fencedWrite }])) ∧
      Along step.next NoOverflow (init fun _ _ => default)
        (flood k ++ [{ wr := some fencedWrite }]) ∧
      NotesFollow step reads (init fun _ _ => default) (flood k ++ [{ wr := some fencedWrite }]) ∧
      ¬ Fenced (init fun _ _ => default) (flood k ++ [{ wr := some fencedWrite }]) := by
  obtain ⟨s₁, floods, calm⟩ := (calm_init fun _ _ => default).flood k
  rw [wraps] at calm
  obtain ⟨s₂, posts, _⟩ := calm.post (f := fencedWrite) rfl rfl (by decide) (by rfl)
  have framed : scan false (posted (flood k ++ [{ wr := some fencedWrite }])) = some false := by
    rw [posted_append, posted_flood]
    refine scan_singles fun f member => ?_
    rcases mem_append.mp member with read | last
    · rw [eq_of_mem_replicate read]
      exact ⟨rfl, rfl⟩
    · rw [mem_singleton.mp last]
      exact ⟨rfl, rfl⟩
  refine ⟨wellFramed_of_scan framed, (floods.append posts).room, ?_, fun fenced => ?_⟩
  · exact notesFollow_of_quiet (notification_run k _)
  · have out : (step (step.final (init fun _ _ => default) (flood k))
        { wr := some fencedWrite }).2 1 = some fencedWrite := by
      have sends := posts.sent
      rw [sent, trace_cons, Ports.sent_cons, trace_nil, sent_nil,
        append_nil, toList_eq_singleton_iff] at sends
      rw [floods.final]
      exact sends
    have notified := (fenced (flood k) _ [] rfl fencedWrite out rfl (by decide)).1
    have slot : metaSlot fencedWrite = 0 := by decide
    rw [slot, floods.sent, reads_replicate, notes_eq_zero (notification_run k _)] at notified
    omega

/-- 2^32 Reads of one flit and a fenced Write. -/
theorem not_fenced_flood : WellFramed (posted (flood (2 ^ 32) ++ [{ wr := some fencedWrite }])) ∧
      Along step.next NoOverflow (init fun _ _ => default)
        (flood (2 ^ 32) ++ [{ wr := some fencedWrite }]) ∧
      NotesFollow step reads (init fun _ _ => default)
        (flood (2 ^ 32) ++ [{ wr := some fencedWrite }]) ∧
      ¬ Fenced (init fun _ _ => default) (flood (2 ^ 32) ++ [{ wr := some fencedWrite }]) :=
  not_fenced_of_wrap (Nat.two_pow_pos 32) (by decide)

end OpenURMA.JettySched
