import Mathlib.Data.List.Chain
import OpenURMA.Ordering.JettySched
import OpenURMA.Ordering.OrderTrackerInitiator

/-!
# Whole packets

`UB_Jetty_Sched` and `UB_OrderTracker_Initiator` are to put out whole packets. A queue that is full
drops single flits. And in `UB_OrderTracker_Initiator` what passes and what leaves the queues uses
the same port: a packet can pass while another one is being sent from its queue, and in a call
without input a queue can start while a packet is passing.
-/

namespace OpenURMA

open Library Packet List Option

def grown (current : List Flit) (f : Flit) : List Flit := if f.eop then [] else current ++ [f]

variable {stream : List Packet} {current outs more : List Flit} {f : Flit} {idx : Fin 16}
variable {lost : Bool}

namespace IniQueues

variable {α : Type} {d : Discipline α}

/-- The flits of the packet being sent that have left queue `i`. -/
def lead (s : IniQueues α) (part : List Flit) (i : Fin 16) : List Flit :=
  if s.leaving = some i then part else []

/-- The flits of the packet being received that have gone to queue `i`. -/
def tail (entering : Option (Fin 16)) (current : List Flit) (i : Fin 16) : List Flit :=
  if entering = some i then current else []

/-- The element has sent whole packets and `part` of another one; `current` has come of the packet
that goes to the queue `entering` or passes. Each queue, with what has left of its first packet,
holds whole packets and what has come of the last one. -/
structure Shipping (d : Discipline α) (stream : List Packet) (entering : Option (Fin 16))
    (passing : Bool) (current part outs : List Flit) (s : IniQueues α) : Prop where
  queued : s.Queued d entering
  active : s.Active
  inside : current.isEmpty = !(entering.isSome || passing)
  intake : current = [] ∨ ∃ p ∈ stream, ∃ missing, missing ≠ [] ∧ p.flits = current ++ missing
  sent : ∃ packets : List Packet,
    outs = packets.flatMap flits ++ part ∧ ∀ p ∈ packets, p ∈ stream
  under : Partial part
  outside : part.isEmpty = !(s.leaving.isSome || passing)
  passes : passing = true → entering = none ∧ s.leaving = none ∧ part = current
  queues : ∀ i, ∃ packets : List Packet, (∀ p ∈ packets, p ∈ stream) ∧
    s.lead part i ++ s.queue d i = packets.flatMap flits ++ tail entering current i

theorem shipping_init (memory : Fin 16 → Fin 32 → α) :
    Shipping d stream none false [] [] [] (init memory) where
  queued := queued_init memory
  active impossible := by cases impossible
  inside := rfl
  intake := .inl rfl
  sent := ⟨[], rfl, by simp⟩
  under := .nil
  outside := rfl
  passes impossible := by cases impossible
  queues _ := ⟨[], by simp, rfl⟩

variable {entering : Option (Fin 16)} {s' : IniQueues α}

namespace Shipping

variable {passing : Bool} {part : List Flit}
variable {s : IniQueues α}

section

variable (shipping : Shipping d stream entering passing current part outs s)
include shipping

theorem congr (held : s'.held = s.held) (active : s'.Active) (leaving : s'.leaving = s.leaving) :
    Shipping d stream entering passing current part outs s' := by
  have queue := queue_congr (d := d) held
  have lead : s'.lead part = s.lead part := by
    funext i
    rw [lead, leaving]
    rfl
  refine ⟨shipping.queued.congr held leaving, active, shipping.inside, shipping.intake,
    shipping.sent, shipping.under, ?_, ?_, ?_⟩
  · rw [leaving]
    exact shipping.outside
  · rw [leaving]
    exact shipping.passes
  · rw [queue, lead]
    exact shipping.queues

theorem notify (cn : Flit) :
    Shipping d stream entering passing current part outs (s.notify cn) := by
  refine shipping.congr held_notify ?_ (leaving_notify cn)
  intro inside
  rw [drainInPacket_notify] at inside
  rw [drainActiveIni_notify]
  exact shipping.active inside

theorem partial_current : Partial current := by
  rcases shipping.intake with rfl | ⟨p, _, missing, more, split⟩
  · exact .nil
  · exact p.partial_of_split split more

theorem partial_tail (i : Fin 16) : Partial (tail entering current i) := by
  unfold tail
  split
  · exact shipping.partial_current
  · exact .nil

theorem scan_outs : scan false outs = some (s.leaving.isSome || passing) := by
  obtain ⟨packets, rfl, _⟩ := shipping.sent
  rw [scan_append, scan_packets, bind_some, shipping.under.scan, shipping.outside,
    Bool.not_not]

theorem scan_of_sop (busy : (s.leaving.isSome || passing) = true) (sop : f.sop = true) :
    scan false (outs ++ [f]) = none := by
  rw [scan_append, shipping.scan_outs, busy, bind_some, scan, if_neg (by simp [sop])]

end

variable {p : Packet}

theorem intake_grown {p : Packet} (known : p ∈ stream) (next : p.flits = current ++ f :: more) :
    grown current f = [] ∨
      ∃ p ∈ stream, ∃ missing, missing ≠ [] ∧ p.flits = grown current f ++ missing := by
  have last := (p.marks next).2
  unfold grown
  cases more with
  | nil => exact .inl (if_pos last)
  | cons g more =>
    rw [if_neg (by simp [last])]
    exact .inr ⟨p, known, g :: more, cons_ne_nil _ _, by simp [next]⟩

theorem isEmpty_grown : (grown current f).isEmpty = f.eop := by
  unfold grown
  cases f.eop <;> simp

section

variable (next : p.flits = current ++ f :: more)
include next

theorem packets_grown (known : p ∈ stream)
    {packets : List Packet} (members : ∀ q ∈ packets, q ∈ stream) :
    ∃ packets' : List Packet, (∀ q ∈ packets', q ∈ stream) ∧
      packets.flatMap flits ++ (current ++ [f]) = packets'.flatMap flits ++ grown current f := by
  have last := (p.marks next).2
  unfold grown
  cases more with
  | nil =>
    refine ⟨packets ++ [p], ?_, ?_⟩
    · rw [forall_mem_append]
      exact ⟨members, by simpa using known⟩
    · rw [last, isEmpty_nil, if_pos rfl, flatMap_append, flatMap_singleton,
        next, append_nil]
  | cons g more =>
    rw [if_neg (by simp [last])]
    exact ⟨packets, members, rfl⟩

theorem entering_of_sop (shipping : Shipping d stream entering false current part outs s)
    (sop : f.sop = true) :
    entering = none := by
  have inside := shipping.inside
  rw [Bool.or_false] at inside
  rw [(p.marks next).1, inside] at sop
  simpa using sop

theorem tail_of_entering (before : entering = if f.sop then none else some idx) :
    tail entering current idx = current := by
  unfold tail
  cases sop : f.sop with
  | true =>
    rw [(p.marks next).1] at sop
    rw [isEmpty_iff.mp sop]
    split <;> rfl
  | false =>
    rw [sop, if_neg (by simp)] at before
    rw [if_pos before]

theorem queues_enqueue (shipping : Shipping d stream entering false current part outs s)
    (known : p ∈ stream)
    (before : entering = if f.sop then none else some idx) (room : s.Room idx) (i : Fin 16) :
    ∃ packets : List Packet, (∀ p ∈ packets, p ∈ stream) ∧
      s.lead part i ++ (s.enqueue idx (d.entry f)).queue d i = packets.flatMap flits ++
          tail (if f.eop then none else some idx) (grown current f) i := by
  obtain ⟨packets, members, account⟩ := shipping.queues i
  rw [queue_enqueue room]
  by_cases same : i = idx
  · subst same
    obtain ⟨packets', members', whole⟩ := packets_grown next known members
    refine ⟨packets', members', ?_⟩
    rw [tail_of_entering next before] at account
    rw [Function.update_self, ← append_assoc, account, append_assoc, whole]
    congr 1
    unfold tail grown
    cases f.eop <;> simp
  · refine ⟨packets, members, ?_⟩
    rw [Function.update_of_ne same, account]
    congr 1
    unfold tail
    rw [before]
    cases f.sop <;> cases f.eop <;> simp [Ne.symm same]

theorem enqueue (shipping : Shipping d stream entering false current part outs s)
    (known : p ∈ stream) (own : owner metaSlot entering f = some idx) (room : s.Room idx) :
    Shipping d stream (advance metaSlot entering f) false (grown current f) part outs
      (s.enqueue idx (d.entry f)) := by
  have start := fun sop => shipping.entering_of_sop next sop
  have before := entering_of_owner own start
  have after : advance metaSlot entering f = if f.eop then none else some idx := by
    rw [advance, own]
  refine ⟨shipping.queued.enqueue own start room, ?_, ?_, intake_grown known next, shipping.sent,
    shipping.under, ?_, by simp, fun i => ?_⟩
  · intro inPacket
    rw [drainInPacket_enqueue] at inPacket
    rw [drainActiveIni_enqueue]
    exact shipping.active inPacket
  · rw [isEmpty_grown, after]
    cases f.eop <;> rfl
  · rw [leaving_enqueue]
    exact shipping.outside
  · rw [lead, leaving_enqueue, after]
    exact shipping.queues_enqueue next known before room i

theorem pass (shipping : Shipping d stream none passing current part outs s) (known : p ∈ stream)
    (free : s.leaving = none) (held : s'.held = s.held)
    (active : s'.Active) (leaving : s'.leaving = s.leaving) :
    Shipping d stream none (!f.eop) (grown current f) (grown current f) (outs ++ [f]) s' := by
  have same := shipping.congr held active leaving
  have sofar : part = current := by
    cases on : passing with
    | true => exact (shipping.passes on).2.2
    | false =>
      have outside := shipping.outside
      have inside := shipping.inside
      rw [free, on] at outside
      rw [on] at inside
      rw [isEmpty_iff.mp outside, isEmpty_iff.mp inside]
  refine ⟨same.queued, active, ?_, intake_grown known next, ?_, ?_, ?_,
    fun _ => ⟨rfl, leaving.trans free, rfl⟩, fun i => ?_⟩
  · rw [isEmpty_grown]
    simp
  · obtain ⟨packets, rfl, members⟩ := shipping.sent
    obtain ⟨packets', members', whole⟩ := packets_grown next known members
    exact ⟨packets', by rw [sofar, append_assoc, whole], members'⟩
  · rcases intake_grown known next with empty | ⟨q, _, missing, rest, split⟩
    · rw [empty]
      exact .nil
    · exact q.partial_of_split split rest
  · rw [isEmpty_grown, leaving, free]
    simp
  · obtain ⟨packets, members, account⟩ := same.queues i
    refine ⟨packets, members, ?_⟩
    rw [lead, leaving, free] at account ⊢
    exact account

end

theorem first_complete {rest : List Flit} {packets : List Packet} {last : List Flit}
    (under : Partial part) (others : Partial last) (eop : f.eop = true)
    (account : part ++ f :: rest = packets.flatMap flits ++ last) :
    ∃ p packets', packets = p :: packets' ∧ p.flits = part ++ [f] ∧
      rest = packets'.flatMap flits ++ last := by
  cases packets with
  | nil =>
    have member : f ∈ last := by
      rw [flatMap_nil, nil_append] at account
      simp [← account]
    exact absurd eop (by simp [others.more f member])
  | cons p packets =>
    rw [flatMap_cons, append_assoc, append_cons] at account
    obtain ⟨flits, later⟩ := eopLast_append_inj (eopLast_snoc under.more eop) p.eop_last account
    exact ⟨p, packets, rfl, flits.symm, later⟩

section

variable {i : Fin 16}

theorem turn_of_owner (own : owner metaSlot s.leaving f = some i)
    (start : f.sop = !s.leaving.isSome) : s.leaving = none ∨ s.leaving = some i := by
  cases under : s.leaving with
  | none => exact .inl rfl
  | some j =>
    rw [under] at own start
    have inner : f.sop = false := by simpa using start
    rw [owner, inner] at own
    exact .inr own

variable (turn : s.leaving = none ∨ s.leaving = some i)
include turn

variable (shipping : Shipping d stream entering false current part outs s)
include shipping

theorem lead_of_turn : s.lead part i = part := by
  have outside := shipping.outside
  unfold lead
  rcases turn with idle | mine
  · rw [idle] at outside ⊢
    rw [isEmpty_iff.mp outside]
    rfl
  · rw [if_pos mine]

theorem queues_of_ne {rest : List Flit} (queue : s'.queue d = Function.update (s.queue d) i rest)
    (after : s'.leaving = if f.eop then none else some i) (part' : List Flit) {j : Fin 16}
    (other : j ≠ i) :
    ∃ packets : List Packet, (∀ p ∈ packets, p ∈ stream) ∧ s'.lead part' j ++ s'.queue d j =
        packets.flatMap flits ++ tail entering current j := by
  have nothing : s.lead part j = [] := by
    unfold lead
    rcases turn with idle | mine
    · rw [idle]
      rfl
    · rw [mine, if_neg (by simpa using Ne.symm other)]
  obtain ⟨packets, members, account⟩ := shipping.queues j
  refine ⟨packets, members, ?_⟩
  rw [nothing] at account
  rw [queue, Function.update_of_ne other, lead, after, if_neg]
  · exact account
  · cases f.eop <;> simp [Ne.symm other]

end

theorem split_queue {rest last : List Flit} {packets : List Packet} (under : Partial part)
    (others : Partial last) (members : ∀ p ∈ packets, p ∈ stream)
    (account : part ++ f :: rest = packets.flatMap flits ++ last) :
    ∃ gone kept : List Packet, (∀ p ∈ gone, p ∈ stream) ∧ (∀ p ∈ kept, p ∈ stream) ∧
      part ++ [f] = gone.flatMap flits ++ grown part f ∧
      grown part f ++ rest = kept.flatMap flits ++ last := by
  unfold grown
  cases eop : f.eop with
  | true =>
    obtain ⟨p, kept, rfl, flits, remaining⟩ := first_complete under others eop account
    rw [forall_mem_cons] at members
    exact ⟨[p], kept, by simpa using members.1, members.2, by simp [flits], remaining⟩
  | false => exact ⟨[], packets, by simp, members, rfl, by simpa using account⟩

theorem sends (shipping : Shipping d stream entering false current part outs s)
    {s' : IniQueues α} {i : Fin 16} {rest : List Flit} (queued : s'.Queued d entering)
    (active : s'.Active) (waiting : s.queue d i = f :: rest)
    (queue : s'.queue d = Function.update (s.queue d) i rest)
    (own : owner metaSlot s.leaving f = some i) (start : f.sop = !s.leaving.isSome)
    (leaving : s'.leaving = advance metaSlot s.leaving f) :
    Shipping d stream entering false current (grown part f) (outs ++ [f]) s' := by
  have turn := turn_of_owner own start
  have after : s'.leaving = if f.eop then none else some i := by rw [leaving, advance, own]
  have mark : f.sop = part.isEmpty := by rw [start, shipping.outside, Bool.or_false]
  obtain ⟨packets, members, account⟩ := shipping.queues i
  rw [lead_of_turn turn shipping, waiting] at account
  obtain ⟨gone, kept, known', members', whole, remaining⟩ :=
    split_queue shipping.under (shipping.partial_tail i) members account
  obtain ⟨done, rfl, known⟩ := shipping.sent
  refine ⟨queued, active, shipping.inside, shipping.intake, ⟨done ++ gone, ?_, ?_⟩, ?_, ?_,
    by simp, fun j => ?_⟩
  · rw [flatMap_append, append_assoc, append_assoc, whole]
  · rw [forall_mem_append]
    exact ⟨known, known'⟩
  · unfold grown
    cases eop : f.eop with
    | true => exact .nil
    | false => exact shipping.under.snoc mark eop
  · rw [isEmpty_grown, after]
    cases f.eop <;> rfl
  · by_cases same : j = i
    · subst same
      refine ⟨kept, members', ?_⟩
      rw [queue, Function.update_self, ← remaining]
      congr 1
      unfold lead grown
      rw [after]
      cases f.eop <;> simp
    · exact queues_of_ne turn shipping queue after _ same

theorem drained (shipping : Shipping d stream entering false current part outs s) :
    ∃ part', Shipping d stream entering false current part' (outs ++ (drain d s).2.toList)
      (drain d s).1 := by
  have active := shipping.active.drain d
  have call := shipping.queued.drained
  generalize drain d s = result at call active ⊢
  cases call with
  | @quiet s' queued queue owed leaving =>
    refine ⟨part, ?_⟩
    rw [toList_none, append_nil]
    refine ⟨queued, active, shipping.inside, shipping.intake, shipping.sent, shipping.under, ?_,
      by simp, fun i => ?_⟩
    · rw [leaving]
      exact shipping.outside
    · rw [queue, lead, leaving]
      exact shipping.queues i
  | @sends s' i f rest queued waiting queue own start free owed leaving =>
    exact ⟨_, shipping.sends queued active waiting queue own start leaving⟩

theorem begins_packet {queue others : List Flit} (under : Partial part)
    (split : part ++ queue = p.flits ++ others) :
    ∃ missing, missing ≠ [] ∧ p.flits = part ++ missing := by
  have framed : EopLast p.flits := p.eop_last
  have ends : ∃ init last, p.flits = init ++ [last] ∧ last.eop = true := by
    refine ⟨_, _, (dropLast_append_getLast (by simp [flits])).symm, ?_⟩
    rw [← dropLast_append_getLast (l := p.flits) (by simp [flits])] at framed
    exact (eopLast_split framed).2
  obtain ⟨init, last, shape, eop⟩ := ends
  rcases append_eq_append_iff.mp split with ⟨missing, flits, _⟩ | ⟨extra, flits, _⟩
  · refine ⟨missing, ?_, flits⟩
    rintro rfl
    rw [append_nil] at flits
    have member : last ∈ part := by simp [← flits, shape]
    exact absurd eop (by simp [under.more last member])
  · have member : last ∈ part := by simp [flits, shape]
    exact absurd eop (by simp [under.more last member])

theorem part_of_leaving (shipping : Shipping d stream entering false current part outs s)
    {i : Fin 16} (under : s.leaving = some i) :
    ∃ p ∈ stream, ∃ missing, missing ≠ [] ∧ p.flits = part ++ missing := by
  have outside := shipping.outside
  rw [under] at outside
  have nonempty : part ≠ [] := by
    rintro rfl
    cases outside
  obtain ⟨packets, known, account⟩ := shipping.queues i
  rw [lead, if_pos under] at account
  cases packets with
  | cons p packets =>
    rw [flatMap_cons, append_assoc] at account
    obtain ⟨missing, more, split⟩ := begins_packet shipping.under account
    exact ⟨p, known p (by simp), missing, more, split⟩
  | nil =>
    -- it is the packet on its way in
    rw [flatMap_nil, nil_append] at account
    have received : tail entering current i ≠ [] := by
      intro none
      rw [none] at account
      exact nonempty (append_eq_nil_iff.mp account).1
    have here : tail entering current i = current := by
      unfold tail at received ⊢
      split at received
      · next own => exact if_pos own
      · exact absurd rfl received
    rw [here] at account received
    rcases shipping.intake with none | ⟨p, member, missing, more, split⟩
    · exact absurd none received
    · refine ⟨p, member, s.queue d i ++ missing, by simp [more], ?_⟩
      rw [split, ← account, append_assoc]

theorem whole (shipping : Shipping d stream entering passing current part outs s) :
    Whole stream outs := by
  obtain ⟨packets, rfl, members⟩ := shipping.sent
  refine ⟨packets, part, rfl, members, ?_⟩
  cases passing with
  | true =>
    rw [(shipping.passes rfl).2.2]
    exact shipping.intake
  | false =>
    cases under : s.leaving with
    | none =>
      have outside := shipping.outside
      rw [under] at outside
      exact .inl (isEmpty_iff.mp outside)
    | some i => exact .inr (shipping.part_of_leaving under)

end Shipping

/-- The element against the packets received and sent; `lost`: the last flit received was dropped.
The queues know nothing of a packet that is being dropped. -/
structure Ships (d : Discipline α) (stream : List Packet) (lost : Bool)
    (entering : Option (Fin 16)) (passing : Bool) (current outs : List Flit)
    (s : IniQueues α) : Prop where
  inside : current.isEmpty = !(entering.isSome || passing)
  kept : passing = true → lost = false
  ledger : ∃ part, Shipping d stream (if lost then none else entering) passing
    (if lost then [] else current) part outs s

/-- What has been sent is whole, and so is what is held, with what has left of it; the last packet
of either may be on its way. -/
structure Intact (d : Discipline α) (stream : List Packet) (outs : List Flit)
    (s : IniQueues α) : Prop where
  sent : Whole stream outs
  held : ∀ i, ∃ gone, gone <:+ outs ∧ (s.leaving ≠ some i → gone = []) ∧
    Whole stream (gone ++ s.queue d i)

theorem ships_init (memory : Fin 16 → Fin 32 → α) :
    Ships d stream false none false [] [] (init memory) where
  inside := rfl
  kept _ := rfl
  ledger := ⟨[], shipping_init memory⟩

namespace Ships

variable {passing : Bool}
variable {s : IniQueues α}

/-- Between packets it makes no difference whether the last one has been dropped. -/
theorem plain (ships : Ships d stream lost entering passing current outs s)
    (fresh : lost = true → current = []) :
    ∃ part, Shipping d stream entering passing current part outs s := by
  have ledger := ships.ledger
  cases lost with
  | false => exact ledger
  | true =>
    have inside := ships.inside
    rw [fresh rfl] at inside ⊢
    obtain ⟨idle, _⟩ : entering = none ∧ passing = false := by simpa using inside
    rw [idle]
    exact ledger

theorem leaving_of_passing (ships : Ships d stream lost entering true current outs s) :
    s.leaving = none := by
  obtain ⟨part, shipping⟩ := ships.ledger
  exact (shipping.passes rfl).2.1

theorem scan_of_sop (ships : Ships d stream lost entering passing current outs s)
    (busy : (s.leaving.isSome || passing) = true) (sop : f.sop = true) :
    scan false (outs ++ [f]) = none := by
  obtain ⟨part, shipping⟩ := ships.ledger
  exact shipping.scan_of_sop busy sop

theorem notify (ships : Ships d stream lost entering passing current outs s) (cn : Flit) :
    Ships d stream lost entering passing current outs (s.notify cn) := by
  obtain ⟨part, shipping⟩ := ships.ledger
  exact ⟨ships.inside, ships.kept, part, shipping.notify cn⟩

theorem enqueue (ships : Ships d stream lost entering false current outs s) {p : Packet}
    (known : p ∈ stream) (next : p.flits = current ++ f :: more)
    (own : owner metaSlot entering f = some idx)
    (same : f.sop = false → (s.Room idx ↔ lost = false)) :
    Ships d stream (!decide (s.Room idx)) (advance metaSlot entering f) false (grown current f)
      outs (s.enqueue idx (d.entry f)) := by
  have fresh : f.sop = true → current = [] := by
    intro sop
    rw [(p.marks next).1] at sop
    exact isEmpty_iff.mp sop
  refine ⟨?_, by simp, ?_⟩
  · rw [Shipping.isEmpty_grown, advance, own]
    cases f.eop <;> rfl
  · by_cases room : s.Room idx
    · have plain : ∃ part, Shipping d stream entering false current part outs s := by
        refine ships.plain fun dropped => fresh ?_
        by_contra inner
        have kept := (same (by simpa using inner)).mp room
        rw [kept] at dropped
        cases dropped
      obtain ⟨part, shipping⟩ := plain
      refine ⟨part, ?_⟩
      simpa [room] using shipping.enqueue next known own room
    · have full : s.enqueue idx (d.entry f) = s := if_pos (not_not.mp room)
      rw [full]
      simp only [room, decide_false, Bool.not_false, if_true]
      cases sop : f.sop with
      | true =>
        have empty := fresh sop
        obtain ⟨part, shipping⟩ := ships.plain fun _ => empty
        have inside := shipping.inside
        rw [empty] at shipping inside
        have idle : entering = none := by simpa using inside
        rw [idle] at shipping
        exact ⟨part, shipping⟩
      | false =>
        have dropped : lost = true := by
          by_contra kept
          exact room ((same sop).mpr (by simpa using kept))
        have ledger := ships.ledger
        rw [dropped] at ledger
        exact ledger

theorem pass (ships : Ships d stream lost none passing current outs s) {p : Packet}
    (known : p ∈ stream) (next : p.flits = current ++ f :: more) (free : s.leaving = none)
    (held : s'.held = s.held) (active : s.Active → s'.Active) (leaving : s'.leaving = s.leaving) :
    Ships d stream false none (!f.eop) (grown current f) (outs ++ [f]) s' := by
  have plain : ∃ part, Shipping d stream none passing current part outs s := by
    refine ships.plain fun dropped => ?_
    have gated : passing = false := by
      by_contra on
      have kept := ships.kept (by simpa using on)
      rw [dropped] at kept
      cases kept
    simpa [gated] using ships.inside
  obtain ⟨part, shipping⟩ := plain
  refine ⟨?_, fun _ => rfl, _, shipping.pass next known free held (active shipping.active) leaving⟩
  rw [Shipping.isEmpty_grown]
  simp

theorem drained (ships : Ships d stream lost entering false current outs s) :
    Ships d stream lost entering false current (outs ++ (drain d s).2.toList) (drain d s).1 := by
  obtain ⟨part, shipping⟩ := ships.ledger
  exact ⟨ships.inside, ships.kept, shipping.drained⟩

theorem idle (ships : Ships d stream lost entering true current outs s) :
    ((drain d s).2 = none → Ships d stream lost entering true current
        (outs ++ (drain d s).2.toList) (drain d s).1) ∧
      ((drain d s).2 ≠ none → scan false (outs ++ (drain d s).2.toList) = none) := by
  obtain ⟨part, shipping⟩ := ships.ledger
  have active := shipping.active.drain d
  have call := shipping.queued.drained
  generalize drain d s = result at call active ⊢
  cases call with
  | @quiet s' queued queue owed leaving =>
    refine ⟨fun _ => ⟨ships.inside, ships.kept, part, ?_⟩, fun some => absurd rfl some⟩
    have held : s'.held = s.held := by
      funext i
      rw [queued.entries, shipping.queued.entries, queue]
    rw [toList_none, append_nil]
    exact shipping.congr held active leaving
  | @sends s' i f rest queued waiting queue own start free owed leaving =>
    refine ⟨by simp, fun _ => ships.scan_of_sop (by simp) ?_⟩
    rw [start, ships.leaving_of_passing]
    rfl

theorem intact (ships : Ships d stream lost entering passing current outs s) :
    s.Intact d stream outs := by
  obtain ⟨part, shipping⟩ := ships.ledger
  refine ⟨shipping.whole, fun i => ⟨s.lead part i, ?_, fun other => if_neg other, ?_⟩⟩
  · obtain ⟨packets, rfl, _⟩ := shipping.sent
    unfold lead
    split
    · exact suffix_append _ _
    · exact nil_suffix
  · obtain ⟨packets, members, account⟩ := shipping.queues i
    refine ⟨packets, _, account, members, ?_⟩
    generalize (if lost then none else entering) = target
    unfold tail
    by_cases here : target = some i
    · rw [if_pos here]
      exact shipping.intake
    · exact .inl (if_neg here)

end Ships

end IniQueues

def Feeds (stream : List Packet) (current coming : List Flit) : Prop :=
  ∃ (rest : List Flit) (later : List Packet),
    coming <+: rest ++ later.flatMap flits ∧ (∀ p ∈ later, p ∈ stream) ∧
      (current = [] ∧ rest = [] ∨ rest ≠ [] ∧ ∃ p ∈ stream, p.flits = current ++ rest)

variable {coming : List Flit}

namespace Feeds

theorem start (inputs : coming <+: stream.flatMap flits) : Feeds stream [] coming :=
  ⟨[], stream, inputs, fun _ member => member, .inl ⟨rfl, rfl⟩⟩

theorem after {p : Packet} {rest : List Flit} {later : List Packet}
    (inputs : coming <+: rest ++ later.flatMap flits) (others : ∀ q ∈ later, q ∈ stream)
    (known : p ∈ stream) (split : p.flits = current ++ f :: rest) :
    Feeds stream (grown current f) coming := by
  have last := (p.marks split).2
  refine ⟨rest, later, inputs, others, ?_⟩
  unfold grown
  cases rest with
  | nil => exact .inl ⟨if_pos last, rfl⟩
  | cons g rest =>
    rw [if_neg (by simp [last])]
    exact .inr ⟨cons_ne_nil _ _, p, known, by simp [split]⟩

theorem cons (feeds : Feeds stream current (f :: coming)) :
    ∃ p ∈ stream, ∃ more, p.flits = current ++ f :: more ∧
      Feeds stream (grown current f) coming := by
  rcases feeds with ⟨rest, later, inputs, others, ⟨rfl, rfl⟩ | ⟨more, p, known, split⟩⟩
  · cases later with
    | nil => simp at inputs
    | cons p later =>
      rw [forall_mem_cons] at others
      rw [nil_append, flatMap_cons, flits, cons_append,
        cons_prefix_cons] at inputs
      obtain ⟨rfl, inputs⟩ := inputs
      exact ⟨p, others.1, p.rest, rfl, after inputs others.2 others.1 rfl⟩
  · obtain ⟨g, rest, rfl⟩ := exists_cons_of_ne_nil more
    rw [cons_append, cons_prefix_cons] at inputs
    obtain ⟨rfl, inputs⟩ := inputs
    exact ⟨p, known, rest, split, after inputs others known split⟩

end Feeds

def Packet.postings (p : Packet) : List Call := p.flits.map fun f => { wr := some f }

variable {calls : List Call}

section

variable {σ : Type} (step : Mealy σ Call (Ports Flit)) (room : σ → Call → Prop)
variable [∀ s call, Decidable (room s call)]

def fates (s : σ) : List Call → List (Flit × Bool)
  | [] => []
  | call :: calls =>
    (call.wr.toList.map fun f => (f, !decide (room s call))) ++ fates (step.next s call) calls

def Shared (history : List (Flit × Bool)) : Prop :=
  history.IsChain fun before after => after.1.sop = false → after.2 = before.2
deriving Decidable

/-- A call, with whether the last flit received has been dropped. -/
def track (now : σ × Bool) (call : Call) : σ × Bool :=
  (step.next now.1 call, call.wr.elim now.2 fun _ => !decide (room now.1 call))

/-- A flit inside a packet finds room exactly if the flit before did. -/
def Steady (now : σ × Bool) (call : Call) : Prop :=
  ∀ f ∈ call.wr, f.sop = false → (room now.1 call ↔ now.2 = false)

instance (now : σ × Bool) (call : Call) : Decidable (Steady room now call) :=
  inferInstanceAs (Decidable (∀ f ∈ call.wr, _))

variable {step room}

theorem steady_iff (s : σ) (lost : Bool) (calls : List Call) (before : Flit) :
    Along (track step room) (Steady room) (s, lost) calls ↔
      Shared ((before, lost) :: fates step room s calls) := by
  induction calls generalizing s lost before with
  | nil => simp [Along, Shared, fates]
  | cons call calls ih =>
    rw [Along, fates]
    cases wr : call.wr with
    | none => simpa [Steady, track, wr] using ih (step.next s call) lost before
    | some f =>
      rw [toList_some, map_singleton, singleton_append, Shared,
        isChain_cons_cons]
      refine and_congr ?_ ?_
      · by_cases fits : room s call <;> cases lost <;> simp [Steady, wr, fits]
      · simpa [track, wr, Shared] using ih (step.next s call) (!decide (room s call)) f

/-- Whether anything was dropped before the first packet makes no difference. -/
theorem shared_cons_iff (feeds : Feeds stream [] (posted calls)) (s : σ) (before : Flit × Bool) :
    Shared (before :: fates step room s calls) ↔ Shared (fates step room s calls) := by
  rw [Shared, isChain_cons]
  refine and_iff_right ?_
  induction calls generalizing s with
  | nil => simp [fates]
  | cons call calls ih =>
    rw [posted_cons] at feeds
    rw [fates]
    cases wr : call.wr with
    | none =>
      rw [wr, toList_none, nil_append] at feeds
      exact ih feeds _
    | some f =>
      rw [wr, toList_some, singleton_append] at feeds
      obtain ⟨p, _, more, next, _⟩ := feeds.cons
      have split : p.flits = [] ++ f :: more := next
      have sop : f.sop = true := (p.marks split).1
      intro after first inner
      obtain rfl : (f, !decide (room s call)) = after := by simpa using first
      simp [sop] at inner

theorem steady_of_room {s : σ} (fits : Along step.next room s calls) :
    Along (track step room) (Steady room) (s, false) calls := by
  induction calls generalizing s with
  | nil => trivial
  | cons call calls ih =>
    refine ⟨fun f _ _ => by simpa using fits.1, ?_⟩
    have kept : track step room (s, false) call = (step.next s call, false) := by
      cases wr : call.wr <;> simp [track, wr, fits.1]
    rw [kept]
    exact ih fits.2

variable (step room)

theorem steady_iff_shared (feeds : Feeds stream [] (posted calls)) (s : σ) :
    Along (track step room) (Steady room) (s, false) calls ↔ Shared (fates step room s calls) :=
  (steady_iff _ _ _ default).trans (shared_cons_iff feeds _ _)

/-- Overflow keeps packets whole: what a run has sent and what it holds is whole packets, and of
no packet has only a part been dropped. -/
def KeepsWhole {α : Type} (d : Discipline α) (queues : σ → IniQueues α) (stream : List Packet)
    (s : σ) (calls : List Call) : Prop :=
  (queues (step.final s calls)).Intact d stream (sent step s calls) ∧
    Shared (fates step room s calls)

end

namespace JettySched

variable {s : State}

def Ships (stream : List Packet) (lost : Bool) (current outs : List Flit) (s : State) : Prop :=
  s.toIniQueues.Ships discipline stream lost s.entering false current outs

namespace Ships

variable (ships : Ships stream lost current outs s)
include ships

theorem notified (notification : Option Flit) :
    Ships stream lost current outs (notified s notification) := by
  cases notification with
  | none => exact ships
  | some cn => exact IniQueues.Ships.notify ships cn

theorem drained : Ships stream lost current (outs ++ ((drained s).2 1).toList) (drained s).1 := by
  have out : (JettySched.drained s).2 1 = (s.drain discipline).2 := Ports.ofOption_same ..
  rw [out]
  exact IniQueues.Ships.drained ships

theorem call {call : Call} (feeds : Feeds stream current (call.wr.toList ++ coming))
    (steady : Steady NoOverflow (s, lost) call) :
    ∃ current', Ships stream (track step NoOverflow (s, lost) call).2 current'
        (outs ++ ((step s call).2 1).toList) (step s call).1 ∧ Feeds stream current' coming := by
  have ready := ships.notified call.notification
  cases wr : call.wr with
  | none =>
    rw [wr, toList_none, nil_append] at feeds
    simp only [step, track, wr]
    exact ⟨current, ready.drained, feeds⟩
  | some f =>
    rw [wr, toList_some, singleton_append] at feeds
    obtain ⟨p, known, more, next, later⟩ := feeds.cons
    refine ⟨grown current f, ?_, later⟩
    have own : ∃ idx, owner metaSlot s.entering f = some idx := by
      unfold owner
      split
      · exact ⟨_, rfl⟩
      · next inner =>
        rw [(p.marks next).1, ships.inside] at inner
        exact ne_none_iff_exists'.mp (by simpa using inner)
    obtain ⟨idx, own⟩ := own
    have fits : NoOverflow s call ↔ s.Room idx := by simp [NoOverflow, wr, own]
    have same := steady f wr
    rw [fits] at same
    rw [← room_notified s call.notification] at same fits
    rw [← entering_notified s call.notification] at own
    have queued := IniQueues.Ships.enqueue ready known next own same
    simp only [step, track, wr, accept_eq, own, fits, map_some, elim_some]
    refine drained ?_
    have entering : (if !f.eop then some idx else none) =
        advance metaSlot (JettySched.notified s call.notification).entering f := by
      rw [advance, own]
      cases f.eop <;> rfl
    unfold Ships State.entering
    rw [entering]
    exact queued

theorem run (feeds : Feeds stream current (posted calls))
    (steady : Along (track step NoOverflow) (Steady NoOverflow) (s, lost) calls) :
    ∃ lost' current', Ships stream lost' current' (outs ++ sent step s calls)
      (step.final s calls) := by
  induction calls generalizing lost current outs s with
  | nil => exact ⟨lost, current, by simpa [sent] using ships⟩
  | cons call calls ih =>
    rw [posted_cons] at feeds
    rw [sent_cons, ← append_assoc]
    obtain ⟨current', ships', feeds'⟩ := ships.call feeds steady.1
    exact ih ships' feeds' steady.2

end Ships

theorem keepsWhole_iff (memory : Fin 16 → Fin 32 → WR)
    (inputs : posted calls <+: stream.flatMap flits) :
    KeepsWhole step NoOverflow discipline State.toIniQueues stream (init memory) calls ↔
      Along (track step NoOverflow) (Steady NoOverflow) (init memory, false) calls := by
  have feeds := Feeds.start inputs
  have steady := steady_iff_shared step NoOverflow feeds (init memory)
  refine ⟨fun keeps => steady.mpr keeps.2, fun fits => ⟨?_, steady.mp fits⟩⟩
  have ships : Ships stream false [] [] (init memory) := IniQueues.ships_init memory
  obtain ⟨lost, current, after⟩ := ships.run feeds fits
  exact after.intact

end JettySched

namespace OrderTrackerInitiator

variable {s : State}

def State.passing (s : State) : Bool := s.inPacketInput && s.curInputPassthrough

/-- A packet that passes arrives while none is being sent from a queue, and in a call without input
while a packet is passing the queue visited is empty or closed. -/
def Clear (s : State) (call : Call) : Prop :=
  let t := notified s call.notification
  (∀ f ∈ call.wr, f.sop = true → passthrough t f = true → t.leaving = none) ∧
    (call.wr.isNone = true → t.passing = true →
      (t.held t.rrCursor).isEmpty = true ∨ t.owed t.rrCursor ≠ 0)
deriving Decidable

theorem inside_eq (s : State) : (s.entering.isSome || s.passing) = s.inPacketInput := by
  unfold State.entering State.passing
  cases s.inPacketInput <;> cases s.curInputPassthrough <;> rfl

/-- What becomes of a flit of a well-framed stream. -/
inductive Placed (s : State) (f : Flit) : State × Bool → Prop where
  | passed {s' : State} (goes : s.queueFor f = none) (idle : s.entering = none)
      (gate : f.sop = true → passthrough s f = true) (inner : f.sop = false → s.passing = true)
      (held : s'.held = s.held) (active : s.Active → s'.Active)
      (leaving : s'.leaving = s.leaving) (entering : s'.entering = none)
      (passing : s'.passing = !f.eop) : Placed s f (s', true)
  | queued {idx : Fin 16} (goes : s.queueFor f = some idx)
      (own : owner metaSlot s.entering f = some idx) (passing : s.passing = false)
      (gate : f.sop = true → passthrough s f = false) :
      Placed s f ({
        toIniQueues := s.enqueue idx (PendingWR.of f)
        inPacketInput := !f.eop
        curInputPassthrough := false
        curInputIni := idx }, false)

theorem placed_head (sop : f.sop = true) (outside : s.inPacketInput = false) :
    Placed s f (accept s f) := by
  cases passes : passthrough s f with
  | true =>
    rw [accept_passing sop passes]
    refine .passed (by simp [State.queueFor, sop, passes]) (by simp [State.entering, outside])
      (fun _ => passes) (fun inner => by simp [sop] at inner) ?_ ?_ ?_ (by simp [State.entering])
      (by simp [State.passing])
    · cases isOrdered f
      · rfl
      · exact IniQueues.held_raise ..
    · cases isOrdered f <;> exact id
    · cases isOrdered f <;> rfl
  | false =>
    rw [accept_waiting sop passes]
    exact .queued (by simp [State.queueFor, sop, passes]) (by simp [owner, sop])
      (by simp [State.passing, outside]) (fun _ => passes)

theorem placed_inner (sop : f.sop = false) (inside : s.inPacketInput = true) :
    Placed s f (accept s f) := by
  cases passes : s.curInputPassthrough with
  | true =>
    have idle : s.entering = none := by simp [State.entering, passes]
    rw [accept_passing_inner sop inside passes]
    exact .passed (by simp [State.queueFor, sop, idle]) idle (fun start => by simp [sop] at start)
      (fun _ => by simp [State.passing, inside, passes]) rfl id rfl
      (by simp [State.entering, passes]) (by simp [State.passing, passes])
  | false =>
    have entering : s.entering = some s.curInputIni := by
      simp [State.entering, inside, passes]
    rw [accept_waiting_inner sop inside passes]
    exact .queued (by simp [State.queueFor, sop, entering]) (by simp [owner, sop, entering])
      (by simp [State.passing, passes]) (fun start => by simp [sop] at start)

def Ships (stream : List Packet) (lost : Bool) (current outs : List Flit) (s : State) : Prop :=
  s.toIniQueues.Ships discipline stream lost s.entering s.passing current outs

namespace Ships

variable (ships : Ships stream lost current outs s)
include ships

theorem notified (notification : Option Flit) :
    Ships stream lost current outs (notified s notification) := by
  cases notification with
  | none => exact ships
  | some cn => exact IniQueues.Ships.notify ships cn

theorem placed {p : Packet} (next : p.flits = current ++ f :: more) : Placed s f (accept s f) := by
  have mark := (p.marks next).1
  have inside := ships.inside
  rw [inside_eq, ← mark] at inside
  cases sop : f.sop with
  | true => exact placed_head sop (by simpa [sop] using inside)
  | false => exact placed_inner sop (by simpa [sop] using inside)

theorem drained (passing : s.passing = false) :
    Ships stream lost current (outs ++ ((drained s).2 1).toList) (drained s).1 := by
  have out : (OrderTrackerInitiator.drained s).2 1 = (s.drain discipline).2 :=
    Ports.ofOption_same ..
  unfold Ships at ships
  rw [passing] at ships
  rw [out]
  change IniQueues.Ships discipline stream lost s.entering s.passing current _ _
  rw [passing]
  exact IniQueues.Ships.drained ships

theorem idle (passing : s.passing = true) :
    ((s.held s.rrCursor).isEmpty = true ∨ s.owed s.rrCursor ≠ 0 →
        Ships stream lost current (outs ++ ((OrderTrackerInitiator.drained s).2 1).toList)
          (OrderTrackerInitiator.drained s).1) ∧
      (¬((s.held s.rrCursor).isEmpty = true ∨ s.owed s.rrCursor ≠ 0) →
        scan false (outs ++ ((OrderTrackerInitiator.drained s).2 1).toList) = none) := by
  have out : (OrderTrackerInitiator.drained s).2 1 = (s.drain discipline).2 :=
    Ports.ofOption_same ..
  unfold Ships at ships
  rw [passing] at ships
  have between : s.drainInPacket = false := by
    obtain ⟨part, shipping⟩ := ships.ledger
    exact shipping.active.leaving_eq_none_iff.mp ships.leaving_of_passing
  have closed : (s.held s.rrCursor).isEmpty = true ∨ s.owed s.rrCursor ≠ 0 ↔
      (s.drain discipline).2 = none := by
    rw [IniQueues.drain_eq_none_iff between]
    cases s.held s.rrCursor with
    | nil => simp
    | cons entry rest => simp [discipline]
  rw [closed, out]
  change (_ → IniQueues.Ships discipline stream lost s.entering s.passing current _ _) ∧ _
  rw [passing]
  exact IniQueues.Ships.idle ships

/-- Nothing is being sent from a queue when a flit passes: the first flit of its packet found it
so, and the others keep it. -/
theorem free_of_clear (clear : f.sop = true → s.leaving = none)
    (inner : f.sop = false → s.passing = true) :
    s.leaving = none := by
  cases sop : f.sop with
  | true => exact clear sop
  | false =>
    unfold Ships at ships
    rw [inner sop] at ships
    exact ships.leaving_of_passing

theorem passes {p : Packet} (known : p ∈ stream) (next : p.flits = current ++ f :: more)
    (free : s.leaving = none) {s' : State} (idle : s.entering = none) (held : s'.held = s.held)
    (active : s.Active → s'.Active) (leaving : s'.leaving = s.leaving)
    (entering : s'.entering = none) (passing : s'.passing = !f.eop) :
    Ships stream false (grown current f) (outs ++ [f]) s' := by
  unfold Ships at ships ⊢
  rw [idle] at ships
  rw [entering, passing]
  exact ships.pass known next free held active leaving

theorem queued {p : Packet} (known : p ∈ stream) (next : p.flits = current ++ f :: more)
    (own : owner metaSlot s.entering f = some idx) (passing : s.passing = false)
    (same : f.sop = false → (s.Room idx ↔ lost = false)) :
    Ships stream (!decide (s.Room idx)) (grown current f) outs {
      toIniQueues := s.enqueue idx (PendingWR.of f)
      inPacketInput := !f.eop
      curInputPassthrough := false
      curInputIni := idx } := by
  unfold Ships at ships
  rw [passing] at ships
  have queued := IniQueues.Ships.enqueue ships known next own same
  have entering : (if !f.eop && !false then some idx else none) =
      advance metaSlot s.entering f := by
    rw [advance, own]
    cases f.eop <;> rfl
  have gated : (!f.eop && false) = false := Bool.and_false _
  unfold Ships State.entering State.passing
  rw [entering, gated]
  exact queued

theorem call {call : Call} (feeds : Feeds stream current (call.wr.toList ++ coming))
    (steady : Steady NoOverflow (s, lost) call) :
    (Clear s call → ∃ current', Ships stream (track step NoOverflow (s, lost) call).2 current'
        (outs ++ ((step s call).2 1).toList) (step s call).1 ∧ Feeds stream current' coming) ∧
      (¬Clear s call → scan false (outs ++ ((step s call).2 1).toList) = none) := by
  have ready := ships.notified call.notification
  have rooms := room_notified s call.notification
  unfold Steady NoOverflow at steady
  unfold Clear
  simp only [step, track, NoOverflow, ← rooms] at steady ⊢
  generalize OrderTrackerInitiator.notified s call.notification = t at ready steady ⊢
  cases wr : call.wr with
  | none =>
    rw [wr, toList_none, nil_append] at feeds
    dsimp only
    cases passing : t.passing with
    | false => exact ⟨fun _ => ⟨current, ready.drained passing, feeds⟩, by simp⟩
    | true =>
      obtain ⟨kept, broken⟩ := ready.idle passing
      refine ⟨fun clear => ⟨current, kept (clear.2 rfl rfl), feeds⟩, fun unclear => broken ?_⟩
      intro closed
      exact unclear ⟨by simp, fun _ _ => closed⟩
  | some f =>
    rw [wr, toList_some, singleton_append] at feeds
    obtain ⟨p, known, more, next, later⟩ := feeds.cons
    have placed := ready.placed next
    simp only [wr, mem_some_iff, forall_eq'] at steady
    simp only [elim_some, mem_some_iff, forall_eq', isNone_some,
      Bool.false_eq_true, false_implies, and_true]
    generalize accept t f = result at placed ⊢
    cases placed with
    | passed goes idle gate inner held active leaving entering passing =>
      simp only [goes, if_true, Ports.emit_same, toList_some]
      constructor
      · intro clear
        refine ⟨grown current f, ?_, later⟩
        have free := ready.free_of_clear (fun sop => clear sop (gate sop)) inner
        simpa using ready.passes known next free idle held active leaving entering passing
      · intro unclear
        obtain ⟨sop, _, busy⟩ := by simpa using unclear
        refine IniQueues.Ships.scan_of_sop ready ?_ sop
        rw [isSome_iff_ne_none.mpr busy, Bool.true_or]
    | queued goes own passing gate =>
      simp only [goes, Bool.false_eq_true, if_false, mem_some_iff, forall_eq'] at steady ⊢
      have queued := ready.queued known next own passing steady
      refine ⟨fun _ => ⟨grown current f, queued.drained (Bool.and_false _), later⟩, ?_⟩
      intro unclear
      refine absurd (fun sop passes => ?_) unclear
      rw [gate sop] at passes
      cases passes

theorem run (feeds : Feeds stream current (posted calls))
    (steady : Along (track step NoOverflow) (Steady NoOverflow) (s, lost) calls) :
    (Along step.next Clear s calls → ∃ lost' current', Ships stream lost' current'
        (outs ++ sent step s calls) (step.final s calls)) ∧
      (scan false (outs ++ sent step s calls) ≠ none → Along step.next Clear s calls) := by
  induction calls generalizing lost current outs s with
  | nil => exact ⟨fun _ => ⟨lost, current, by simpa [sent] using ships⟩, fun _ => trivial⟩
  | cons call calls ih =>
    rw [posted_cons] at feeds
    rw [sent_cons, ← append_assoc]
    obtain ⟨kept, broken⟩ := ships.call feeds steady.1
    constructor
    · rintro ⟨clear, rest⟩
      obtain ⟨current', ships', feeds'⟩ := kept clear
      exact (ih ships' feeds' steady.2).1 rest
    · intro framed
      have clear : Clear s call := by
        by_contra unclear
        rw [scan_append, broken unclear] at framed
        exact framed rfl
      obtain ⟨current', ships', feeds'⟩ := kept clear
      exact ⟨clear, (ih ships' feeds' steady.2).2 framed⟩

end Ships

variable (memory : Fin 16 → Fin 32 → PendingWR)

theorem ships_init : Ships stream false [] [] (init memory) :=
  IniQueues.ships_init memory

/-- Without overflow, packets leave one after another exactly if what passes and what leaves the
queues never meet. -/
theorem contiguous_iff {calls : List Call} (inputs : posted calls <+: stream.flatMap flits)
    (room : Along step.next NoOverflow (init memory) calls) :
    Whole stream (sent step (init memory) calls) ↔ Along step.next Clear (init memory) calls := by
  have runs := (ships_init memory).run (.start inputs) (steady_of_room room)
  refine ⟨fun whole => runs.2 whole.scan, fun clear => ?_⟩
  obtain ⟨lost, current, after⟩ := runs.1 clear
  exact after.intact.sent

/-- An RO transaction of one flit for slot 0 in mode ROI. -/
def taggedRo : Packet where
  head := { lane3 := 1 <<< 32, sop := true, eop := true }
  rest := []
  sop_head := rfl
  sop_rest := sop_nil
  eop_last := rfl

/-- An SO transaction of two flits for slot 0 in mode ROI. -/
def taggedSo : Packet where
  head := { lane3 := 2 <<< 32, sop := true }
  rest := [{ eop := true }]
  sop_head := rfl
  sop_rest := sop_end
  eop_last := by decide

/-- The SO transaction waits for the notification of the RO transaction; `idle` calls later
another RO transaction arrives. -/
def meeting (idle : Nat) : List Call :=
  taggedRo.postings ++ taggedSo.postings ++ [{ notification := some {} }] ++
    replicate idle ({} : Call) ++ taggedRo.postings

/-- The SO transaction has left when the RO transaction arrives. -/
theorem contiguous_meeting :
    Whole [taggedRo, taggedSo, taggedRo] (sent step (init fun _ _ => default) (meeting 15)) :=
  (contiguous_iff (fun _ _ => default) (by decide) (by decide +kernel)).mpr (by decide +kernel)

/-- The RO transaction passes between the flits of the SO transaction. -/
theorem not_contiguous_meeting :
    posted (meeting 14) <+: [taggedRo, taggedSo, taggedRo].flatMap flits ∧
      Along step.next NoOverflow (init fun _ _ => default) (meeting 14) ∧
      ¬Whole [taggedRo, taggedSo, taggedRo] (sent step (init fun _ _ => default) (meeting 14)) := by
  have mixed : scan false (sent step (init fun _ _ => default) (meeting 14)) = none := by
    decide +kernel
  exact ⟨by decide, by decide +kernel, fun whole => whole.scan mixed⟩

theorem keepsWhole_iff (inputs : posted calls <+: stream.flatMap flits) :
    KeepsWhole step NoOverflow discipline State.toIniQueues stream (init memory) calls ↔
      Along (track step NoOverflow) (Steady NoOverflow) (init memory, false) calls ∧
        Along step.next Clear (init memory) calls := by
  have feeds := Feeds.start inputs
  have steady := steady_iff_shared step NoOverflow feeds (init memory)
  constructor
  · intro keeps
    have fits := steady.mpr keeps.2
    exact ⟨fits, ((ships_init memory).run feeds fits).2 keeps.1.sent.scan⟩
  · rintro ⟨fits, clear⟩
    obtain ⟨lost, current, after⟩ := ((ships_init memory).run feeds fits).1 clear
    exact ⟨after.intact, steady.mp fits⟩

end OrderTrackerInitiator

/-- Both elements keep packets whole exactly in the runs in which a flit inside a packet finds room
if and only if the flit before it did, and, in `UB_OrderTracker_Initiator`, what passes and what
leaves the queues never meet. -/
theorem overflow_iff {stream : List Packet} {calls : List Call}
    (inputs : posted calls <+: stream.flatMap flits) (requests : Fin 16 → Fin 32 → JettySched.WR)
    (pending : Fin 16 → Fin 32 → OrderTrackerInitiator.PendingWR) :
    (KeepsWhole JettySched.step JettySched.NoOverflow JettySched.discipline
        JettySched.State.toIniQueues stream (JettySched.init requests) calls ↔
      Along (track JettySched.step JettySched.NoOverflow) (Steady JettySched.NoOverflow)
        (JettySched.init requests, false) calls) ∧
    (KeepsWhole OrderTrackerInitiator.step OrderTrackerInitiator.NoOverflow
        OrderTrackerInitiator.discipline OrderTrackerInitiator.State.toIniQueues stream
        (OrderTrackerInitiator.init pending) calls ↔
      Along (track OrderTrackerInitiator.step OrderTrackerInitiator.NoOverflow)
          (Steady OrderTrackerInitiator.NoOverflow) (OrderTrackerInitiator.init pending, false)
          calls ∧ Along OrderTrackerInitiator.step.next OrderTrackerInitiator.Clear
          (OrderTrackerInitiator.init pending) calls) :=
  ⟨JettySched.keepsWhole_iff requests inputs, OrderTrackerInitiator.keepsWhole_iff pending inputs⟩

/-- A Read of one flit for slot 0, tagged RO in mode ROI. -/
def plainRead : Packet where
  head := { lane3 := (1 <<< 32) + 6, sop := true, eop := true }
  rest := []
  sop_head := rfl
  sop_rest := by simp
  eop_last := rfl

/-- A Write for slot 0 with the fence bit, tagged SO in mode ROI. -/
def longWrite (inner : Nat) : Packet where
  head := { lane3 := (1 <<< 35) + (2 <<< 32) + 3, sop := true }
  rest := replicate inner {} ++ [{ eop := true }]
  sop_head := rfl
  sop_rest f member := by
    rcases mem_append.mp member with inside | last
    · rw [eq_of_mem_replicate inside]
    · rw [mem_singleton.mp last]
  eop_last := by
    rw [← cons_append]
    refine eopLast_snoc ?_ rfl
    rw [forall_mem_cons]
    exact ⟨rfl, fun f member => by rw [eq_of_mem_replicate member]⟩

/-- A Write that waits for the Read fills the queue; the next one is dropped. -/
theorem overflow_longWrite : KeepsWhole JettySched.step JettySched.NoOverflow JettySched.discipline
        JettySched.State.toIniQueues [plainRead, longWrite 29, longWrite 0]
        (JettySched.init fun _ _ => default)
        (plainRead.postings ++ (longWrite 29).postings ++ (longWrite 0).postings) ∧
      KeepsWhole OrderTrackerInitiator.step OrderTrackerInitiator.NoOverflow
        OrderTrackerInitiator.discipline OrderTrackerInitiator.State.toIniQueues
        [plainRead, longWrite 29, longWrite 0] (OrderTrackerInitiator.init fun _ _ => default)
        (plainRead.postings ++ (longWrite 29).postings ++ (longWrite 0).postings) := by
  have inputs : posted (plainRead.postings ++ (longWrite 29).postings ++
      (longWrite 0).postings) <+:
      [plainRead, longWrite 29, longWrite 0].flatMap flits := by decide
  have both := overflow_iff inputs (fun _ _ => default) (fun _ _ => default)
  exact ⟨both.1.mpr (by decide +kernel), both.2.mpr (by decide +kernel)⟩

/-- The queue is full in the middle of a Write: the scheduler drops its last flits only. -/
theorem not_overflow_longWrite : posted (plainRead.postings ++ (longWrite 32).postings) <+:
        [plainRead, longWrite 32].flatMap flits ∧
      ¬KeepsWhole JettySched.step JettySched.NoOverflow JettySched.discipline
        JettySched.State.toIniQueues [plainRead, longWrite 32] (JettySched.init fun _ _ => default)
        (plainRead.postings ++ (longWrite 32).postings) := by
  have split : ¬Shared (fates JettySched.step JettySched.NoOverflow
      (JettySched.init fun _ _ => default) (plainRead.postings ++ (longWrite 32).postings)) := by
    decide +kernel
  exact ⟨by decide, fun keeps => split keeps.2⟩

end OpenURMA
