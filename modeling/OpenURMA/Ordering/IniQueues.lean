import OpenURMA.Framing
import OpenURMA.Library.Ring
import OpenURMA.Opcode

/-!
# Queues per initiator

`UB_Jetty_Sched` and `UB_OrderTracker_Initiator` hold flits back in sixteen ring buffers, one for
each value of the low four bits of the initiator's id. In a call they visit one ring, in turn, and
may start a packet there, which is sent to its end before the next ring is visited. A counter per
ring tells how many transactions await their response. What is queued, when a packet may be started
and what is counted is given by a `Discipline`.
-/

namespace OpenURMA

open Library Function Ring List BitVec

def iniSlot (ini : U32) : Fin 16 :=
  ⟨(ini &&& 15).toNat, BitField.and_15_lt ini⟩

def metaSlot (m : Flit) : Fin 16 := iniSlot (UbMeta.iniRcId.get m)

def notifiedSlot (cn : Flit) : Fin 16 := iniSlot ((cn.get 0 &&& 0xFFFFF).setWidth 32)

structure IniQ (α : Type) where
  ring : Ring 32 α
  outstanding : U32

structure IniQueues (α : Type) where
  q : Fin 16 → IniQ α
  rrCursor : Fin 16
  drainActiveIni : Option (Fin 16)
  drainInPacket : Bool

/-- How an element fills and drains its queues. -/
structure Discipline (α : Type) where
  entry : Flit → α
  flit : α → Flit
  isEop : α → Bool
  starts : α → U32 → Bool
  counts : α → Bool
  flit_entry : ∀ f, flit (entry f) = f
  isEop_entry : ∀ f, isEop (entry f) = f.eop

namespace IniQueues

variable {α : Type} {d : Discipline α}

def init (memory : Fin 16 → Fin 32 → α) : IniQueues α where
  q i := ⟨⟨memory i, 0, 0⟩, 0⟩
  rrCursor := 0
  drainActiveIni := none
  drainInPacket := false

section

variable (s : IniQueues α)

def setQ (idx : Fin 16) (queue : IniQ α) : IniQueues α :=
  { s with q := update s.q idx queue }

def notify (cn : Flit) : IniQueues α :=
  let idx := notifiedSlot cn
  if (s.q idx).outstanding > 0 then
    s.setQ idx { s.q idx with outstanding := (s.q idx).outstanding - 1 }
  else s

def raise (idx : Fin 16) : IniQueues α :=
  s.setQ idx { s.q idx with outstanding := (s.q idx).outstanding + 1 }

def enqueue (idx : Fin 16) (entry : α) : IniQueues α :=
  if (s.q idx).ring.Full then s
  else s.setQ idx { s.q idx with ring := (s.q idx).ring.push entry }

end

section

variable (d : Discipline α) (s : IniQueues α)

def pick : IniQueues α :=
  let i := s.rrCursor
  let s₁ := { s with rrCursor := s.rrCursor + 1 }
  if ¬ (s.q i).ring.Empty ∧ d.starts (s.q i).ring.front (s.q i).outstanding = true then
    { s₁ with drainActiveIni := some i, drainInPacket := true }
  else s₁

def send (i : Fin 16) : IniQueues α :=
  let entry := (s.q i).ring.front
  let s₁ := s.setQ i {
    ring := (s.q i).ring.pop
    outstanding := if d.counts entry then (s.q i).outstanding + 1 else (s.q i).outstanding }
  if d.isEop entry then { s₁ with drainInPacket := false, drainActiveIni := none } else s₁

/-- Send from the active queue.  The local `drain_idx` of the C code is read only while a packet
is under way, and then it is `drain_active_ini`. -/
def sendActive : IniQueues α × Option Flit :=
  match s.drainActiveIni with
  | none => (s, none)
  | some i =>
    if s.drainInPacket = true ∧ ¬ (s.q i).ring.Empty then
      (send d s i, some (d.flit (s.q i).ring.front))
    else (s, none)

def drain : IniQueues α × Option Flit :=
  sendActive d (if s.drainInPacket then s else pick d s)

end

def held (s : IniQueues α) (i : Fin 16) : List α := (s.q i).ring.contents

def owed (s : IniQueues α) (i : Fin 16) : U32 := (s.q i).outstanding

def Room (s : IniQueues α) (i : Fin 16) : Prop := ¬ (s.q i).ring.Full
deriving Decidable

theorem held_init (memory : Fin 16 → Fin 32 → α) (i : Fin 16) : (init memory).held i = [] :=
  rfl

theorem held_setQ (s : IniQueues α) (idx : Fin 16) (queue : IniQ α) :
    (s.setQ idx queue).held = update s.held idx queue.ring.contents := by
  funext i
  by_cases same : i = idx
  · subst same
    simp [held, setQ]
  · simp [held, setQ, same]

theorem owed_setQ (s : IniQueues α) (idx : Fin 16) (queue : IniQ α) :
    (s.setQ idx queue).owed = update s.owed idx queue.outstanding := by
  funext i
  by_cases same : i = idx
  · subst same
    simp [owed, setQ]
  · simp [owed, setQ, same]

variable {s : IniQueues α} {i : Fin 16}

theorem room_iff : s.Room i ↔ (s.held i).length + 1 ≠ 32 := by
  rw [Room, full_iff]
  rfl

theorem held_raise (s : IniQueues α) (idx : Fin 16) : (s.raise idx).held = s.held := by
  rw [raise, held_setQ]
  exact update_eq_self idx s.held

theorem owed_raise (s : IniQueues α) (idx : Fin 16) :
    (s.raise idx).owed = update s.owed idx (s.owed idx + 1) :=
  owed_setQ ..

variable {idx : Fin 16}

section

variable {s : IniQueues α} {entry : α}

theorem held_enqueue (room : s.Room idx) :
    (s.enqueue idx entry).held = update s.held idx (s.held idx ++ [entry]) := by
  rw [enqueue, if_neg room, held_setQ, contents_push room]
  rfl

@[simp] theorem owed_enqueue : (s.enqueue idx entry).owed = s.owed := by
  unfold enqueue
  split
  · rfl
  · rw [owed_setQ]
    exact update_eq_self idx s.owed

@[simp] theorem drainInPacket_enqueue : (s.enqueue idx entry).drainInPacket = s.drainInPacket := by
  unfold enqueue
  split <;> rfl

@[simp] theorem rrCursor_enqueue : (s.enqueue idx entry).rrCursor = s.rrCursor := by
  unfold enqueue
  split <;> rfl

@[simp] theorem drainActiveIni_enqueue :
    (s.enqueue idx entry).drainActiveIni = s.drainActiveIni := by
  unfold enqueue
  split <;> rfl

end

section

variable {s : IniQueues α} {cn : Flit}

@[simp] theorem held_notify : (s.notify cn).held = s.held := by
  simp only [notify]
  split
  · rw [held_setQ]
    exact update_eq_self _ s.held
  · rfl

theorem room_notify (i : Fin 16) : (s.notify cn).Room i ↔ s.Room i := by
  rw [room_iff, room_iff, held_notify]

theorem owed_notify : (s.notify cn).owed = update s.owed (notifiedSlot cn)
      (if s.owed (notifiedSlot cn) > 0 then s.owed (notifiedSlot cn) - 1
        else s.owed (notifiedSlot cn)) := by
  simp only [notify]
  change (if s.owed (notifiedSlot cn) > 0 then _ else _ : IniQueues α).owed = _
  split
  · rw [owed_setQ]
    rfl
  · rw [update_eq_self]

@[simp] theorem drainInPacket_notify : (s.notify cn).drainInPacket = s.drainInPacket := by
  simp only [notify]
  split <;> rfl

@[simp] theorem drainActiveIni_notify : (s.notify cn).drainActiveIni = s.drainActiveIni := by
  simp only [notify]
  split <;> rfl

@[simp] theorem rrCursor_notify : (s.notify cn).rrCursor = s.rrCursor := by
  simp only [notify]
  split <;> rfl

end

inductive Drained (d : Discipline α) (s : IniQueues α) : IniQueues α × Option Flit → Prop where
  | quiet {s' : IniQueues α} (held : s'.held = s.held) (owed : s'.owed = s.owed)
      (inPacket : s'.drainInPacket = s.drainInPacket)
      (active : s'.drainActiveIni = s.drainActiveIni) : Drained d s (s', none)
  | sends {s' : IniQueues α} {i : Fin 16} {entry : α} {rest : List α}
      (waiting : s.held i = entry :: rest)
      (turn : s.drainInPacket = true ∧ s.drainActiveIni = some i ∨
        s.drainInPacket = false ∧ d.starts entry (s.owed i) = true)
      (held : s'.held = update s.held i rest)
      (owed : s'.owed = update s.owed i
        (if d.counts entry then s.owed i + 1 else s.owed i))
      (inPacket : s'.drainInPacket = !d.isEop entry)
      (active : s'.drainActiveIni = if d.isEop entry then none else some i) :
      Drained d s (s', some (d.flit entry))

theorem drained_send {s s₁ : IniQueues α} {i : Fin 16} (queues : s₁.q = s.q)
    (waiting : ¬ (s.q i).ring.Empty) (inPacket : s₁.drainInPacket = true)
    (active : s₁.drainActiveIni = some i)
    (turn : s.drainInPacket = true ∧ s.drainActiveIni = some i ∨
      s.drainInPacket = false ∧ d.starts (s.q i).ring.front (s.owed i) = true) :
    Drained d s (send d s₁ i, some (d.flit (s₁.q i).ring.front)) := by
  have held : s₁.held = s.held := by
    funext j
    rw [IniQueues.held, queues]
    rfl
  have owed : s₁.owed = s.owed := by
    funext j
    rw [IniQueues.owed, queues]
    rfl
  rw [queues]
  refine .sends (contents_pop waiting) turn ?_ ?_ ?_ ?_
  · rw [← held, ← queues]
    simp only [send]
    split <;> exact held_setQ ..
  · rw [← owed, ← queues]
    simp only [send]
    split <;> exact owed_setQ ..
  · rw [← queues]
    cases last : d.isEop (s₁.q i).ring.front <;> simp [send, last, setQ, inPacket]
  · rw [← queues]
    cases last : d.isEop (s₁.q i).ring.front <;> simp [send, last, setQ, active]

theorem sendActive_of_waiting (active : s.drainActiveIni = some i)
    (inPacket : s.drainInPacket = true) (waiting : ¬ (s.q i).ring.Empty) :
    sendActive d s = (send d s i, some (d.flit (s.q i).ring.front)) := by
  rw [sendActive, active]
  exact if_pos ⟨inPacket, waiting⟩

theorem sendActive_of_idle (idle : s.drainInPacket = false) : sendActive d s = (s, none) := by
  unfold sendActive
  cases s.drainActiveIni with
  | none => rfl
  | some i => exact if_neg (by simp [idle])

def Ready (d : Discipline α) (s : IniQueues α) (i : Fin 16) : Prop :=
  ¬ (s.q i).ring.Empty ∧ d.starts (s.q i).ring.front (s.owed i) = true
deriving Decidable

def started (s : IniQueues α) (i : Fin 16) : IniQueues α :=
  { s with rrCursor := i + 1, drainActiveIni := some i, drainInPacket := true }

theorem drain_of_ready (idle : s.drainInPacket = false) (ready : s.Ready d s.rrCursor) :
    drain d s = (send d (s.started s.rrCursor) s.rrCursor,
      some (d.flit (s.q s.rrCursor).ring.front)) := by
  have picked : pick d s = s.started s.rrCursor := if_pos ready
  rw [drain, if_neg (by simp [idle]), picked]
  exact sendActive_of_waiting rfl rfl ready.1

theorem drain_of_not_ready (idle : s.drainInPacket = false) (blocked : ¬ s.Ready d s.rrCursor) :
    drain d s = ({ s with rrCursor := s.rrCursor + 1 }, none) := by
  have picked : pick d s = { s with rrCursor := s.rrCursor + 1 } := if_neg blocked
  rw [drain, if_neg (by simp [idle]), picked]
  exact sendActive_of_idle idle

theorem drained (d : Discipline α) (s : IniQueues α) : Drained d s (drain d s) := by
  cases inPacket : s.drainInPacket with
  | true =>
    rw [drain, if_pos inPacket]
    cases active : s.drainActiveIni with
    | none =>
      rw [sendActive, active]
      exact .quiet rfl rfl rfl rfl
    | some i =>
      by_cases waiting : (s.q i).ring.Empty
      · rw [sendActive, active]
        simp only [waiting, not_true_eq_false, and_false, if_false]
        exact .quiet rfl rfl rfl rfl
      · rw [sendActive_of_waiting active inPacket waiting]
        exact drained_send rfl waiting inPacket active (.inl ⟨inPacket, active⟩)
  | false =>
    by_cases ready : s.Ready d s.rrCursor
    · rw [drain_of_ready inPacket ready]
      exact drained_send rfl ready.1 rfl rfl (.inr ⟨inPacket, ready.2⟩)
    · rw [drain_of_not_ready inPacket ready]
      exact .quiet rfl rfl rfl rfl

theorem drain_of_empty (idle : s.drainInPacket = false) (empty : s.held s.rrCursor = []) :
    drain d s = ({ s with rrCursor := s.rrCursor + 1 }, none) :=
  drain_of_not_ready idle fun ready => ready.1 (contents_eq_nil_iff.mp empty)

variable {rest : List α}

theorem ready_iff {entry : α} (waiting : s.held i = entry :: rest) :
    s.Ready d i ↔ d.starts entry (s.owed i) = true := by
  have some : ¬ (s.q i).ring.Empty := by
    rw [← contents_eq_nil_iff]
    exact fun empty => by simp [held, empty] at waiting
  have front := (cons.inj (waiting.symm.trans (contents_pop some))).1
  rw [Ready, ← front]
  exact and_iff_right some

theorem drain_of_single (idle : s.drainInPacket = false) {entry : α}
    (waiting : s.held s.rrCursor = [entry]) (starts : d.starts entry (s.owed s.rrCursor) = true)
    (last : d.isEop entry = true) :
    ∃ s', drain d s = (s', some (d.flit entry)) ∧ s'.rrCursor = s.rrCursor + 1 ∧
      s'.held = update s.held s.rrCursor [] ∧ s'.owed = update s.owed s.rrCursor
        (if d.counts entry then s.owed s.rrCursor + 1 else s.owed s.rrCursor) ∧
      s'.drainInPacket = false := by
  have ready := (ready_iff waiting).mpr starts
  obtain ⟨front, rest⟩ := cons.inj (waiting.symm.trans (contents_pop ready.1))
  refine ⟨send d (s.started s.rrCursor) s.rrCursor, ?_, ?_, ?_, ?_, ?_⟩
  · rw [front]
    exact drain_of_ready idle ready
  all_goals simp only [send, started, ← front, last, if_true]
  · rfl
  · rw [rest]
    exact held_setQ s _ _
  · exact owed_setQ s _ _

theorem drain_eq_none_iff (idle : s.drainInPacket = false) :
    (drain d s).2 = none ↔ ∀ entry rest, s.held s.rrCursor = entry :: rest →
      d.starts entry (s.owed s.rrCursor) = false := by
  by_cases ready : s.Ready d s.rrCursor
  · have front := contents_pop ready.1
    rw [drain_of_ready idle ready]
    simp only [reduceCtorEq, false_iff]
    intro blocked
    exact Bool.false_ne_true ((blocked _ _ front).symm.trans ready.2)
  · rw [drain_of_not_ready idle ready]
    simp only [true_iff]
    intro entry rest waiting
    rw [ready_iff waiting] at ready
    exact Bool.not_eq_true _ ▸ ready

theorem rrCursor_sendActive (d : Discipline α) (s : IniQueues α) :
    (sendActive d s).1.rrCursor = s.rrCursor := by
  unfold sendActive send
  split
  · rfl
  · dsimp only
    split
    · split <;> rfl
    · rfl

theorem rrCursor_drain (d : Discipline α) (s : IniQueues α) :
    (drain d s).1.rrCursor = if s.drainInPacket then s.rrCursor else s.rrCursor + 1 := by
  rw [drain, rrCursor_sendActive]
  split
  · rfl
  · simp only [pick]
    split <;> rfl

theorem head_drain (idle : s.drainInPacket = false) (ready : s.Ready d s.rrCursor) :
    ((drain d s).1.q s.rrCursor).ring.head = Ring.next (s.q s.rrCursor).ring.head := by
  have sent : ((send d (s.started s.rrCursor) s.rrCursor).q s.rrCursor).ring =
      (s.q s.rrCursor).ring.pop := by
    simp only [send, setQ]
    split <;> simp only [update_self] <;> rfl
  rw [drain_of_ready idle ready, sent]
  rfl

def Active (s : IniQueues α) : Prop := s.drainInPacket = true → s.drainActiveIni.isSome = true

theorem Active.drain (active : s.Active) (d : Discipline α) : (drain d s).1.Active := by
  have call := drained d s
  generalize IniQueues.drain d s = result at call ⊢
  cases call with
  | quiet held owed inPacket at_i =>
    intro inside
    rw [inPacket] at inside
    rw [at_i]
    exact active inside
  | sends waiting turn held owed inPacket at_i =>
    intro inside
    rw [inPacket] at inside
    rw [at_i, if_neg (by simpa using inside)]
    rfl

section

variable {β : Type} {queues queues' : Fin 16 → List β} {i j : Fin 16} {a b : β} {rest : List β}

theorem mem_of_popped (waiting : queues i = a :: rest)
    (popped : queues' = update queues i rest) (member : b ∈ queues' j) :
    b ∈ queues j := by
  rw [popped] at member
  by_cases same : j = i
  · subst same
    rw [update_self] at member
    rw [waiting]
    exact mem_cons_of_mem a member
  · rwa [update_of_ne same] at member

theorem mem_of_pushed (pushed : queues' = update queues i (queues i ++ [a]))
    (member : b ∈ queues' j) : b ∈ queues j ∨ j = i ∧ b = a := by
  rw [pushed] at member
  by_cases same : j = i
  · subst same
    rw [update_self, mem_append, mem_singleton] at member
    exact member.imp_right fun last => ⟨rfl, last⟩
  · rw [update_of_ne same] at member
    exact .inl member

end

def queue (d : Discipline α) (s : IniQueues α) (i : Fin 16) : List Flit := (s.held i).map d.flit

def leaving (s : IniQueues α) : Option (Fin 16) :=
  if s.drainInPacket then s.drainActiveIni else none

theorem Active.leaving_eq_none_iff (active : s.Active) :
    s.leaving = none ↔ s.drainInPacket = false := by
  unfold leaving
  cases inside : s.drainInPacket with
  | true =>
    have some := active inside
    rw [Option.isSome_iff_ne_none] at some
    simpa using some
  | false => simp

/-- Every queue holds whole packets of its slot, save what has left of the packet being sent and
what is to come of the packet being received. -/
structure Queued (d : Discipline α) (entering : Option (Fin 16)) (s : IniQueues α) : Prop where
  entries : ∀ i, s.held i = (s.queue d i).map d.entry
  slots : ∀ i, ∀ f ∈ s.queue d i, f.sop = true → metaSlot f = i
  framed : ∀ i, scan (decide (s.leaving = some i)) (s.queue d i) =
    some (decide (entering = some i))

variable {s : IniQueues α} {entering : Option (Fin 16)}

theorem queued_init (memory : Fin 16 → Fin 32 → α) : Queued d none (init memory) where
  entries _ := rfl
  slots i f member := by simp [queue, held_init] at member
  framed i := rfl

variable {s' : IniQueues α}

theorem queue_congr (held : s'.held = s.held) : s'.queue d = s.queue d := by
  funext i
  rw [queue, held]
  rfl

theorem queue_of_waiting {w : α} (waiting : s.held i = w :: rest) :
    s.queue d i = d.flit w :: rest.map d.flit := by
  rw [queue, waiting]
  rfl

theorem Queued.congr (queued : Queued d entering s) (held : s'.held = s.held)
    (leaving : s'.leaving = s.leaving) : Queued d entering s' := by
  have queue := queue_congr (d := d) held
  refine ⟨fun i => ?_, fun i => ?_, fun i => ?_⟩
  · rw [held, queue]
    exact queued.entries i
  · rw [queue]
    exact queued.slots i
  · rw [leaving, queue]
    exact queued.framed i

theorem leaving_enqueue (idx : Fin 16) (entry : α) : (s.enqueue idx entry).leaving = s.leaving := by
  rw [leaving, leaving, drainInPacket_enqueue, drainActiveIni_enqueue]

theorem leaving_notify (cn : Flit) : (s.notify cn).leaving = s.leaving := by
  rw [leaving, leaving, drainInPacket_notify, drainActiveIni_notify]

theorem Queued.notify (queued : Queued d entering s) (cn : Flit) :
    Queued d entering (s.notify cn) :=
  queued.congr held_notify (leaving_notify cn)

theorem queue_enqueue (room : s.Room idx) (f : Flit) :
    (s.enqueue idx (d.entry f)).queue d = update (s.queue d) idx (s.queue d idx ++ [f]) := by
  funext i
  rw [queue, held_enqueue room]
  by_cases same : i = idx
  · subst same
    simp [queue, d.flit_entry]
  · simp [queue, same]

variable {f : Flit}

theorem entering_of_owner (own : owner metaSlot entering f = some idx)
    (start : f.sop = true → entering = none) :
    entering = if f.sop then none else some idx := by
  cases sop : f.sop with
  | true => exact start sop
  | false => simpa [owner, sop] using own

theorem Queued.enqueue (queued : Queued d entering s) (own : owner metaSlot entering f = some idx)
    (start : f.sop = true → entering = none) (room : s.Room idx) :
    Queued d (advance metaSlot entering f) (s.enqueue idx (d.entry f)) := by
  have before := entering_of_owner own start
  have after : advance metaSlot entering f = if f.eop then none else some idx := by
    rw [advance, own]
  refine ⟨fun i => ?_, fun i => ?_, fun i => ?_⟩
  · rw [queue_enqueue room, held_enqueue room]
    by_cases same : i = idx
    · subst same
      simp only [update_self, map_append, map_singleton, queued.entries i]
    · simp only [update_of_ne same, queued.entries i]
  · intro g member sop
    rcases mem_of_pushed (queue_enqueue room f) member with old | ⟨rfl, rfl⟩
    · exact queued.slots i g old sop
    · simpa [owner, sop] using own
  · rw [queue_enqueue room, leaving_enqueue, after]
    by_cases same : i = idx
    · subst same
      rw [update_self, scan_snoc (queued.framed i) (by rw [before]; simp)]
      cases f.eop <;> simp
    · rw [update_of_ne same, queued.framed i]
      cases f.sop <;> cases f.eop <;> simp [before, Ne.symm same]

/-- What a drain can do: nothing, or send the next flit of the packet being sent, or the first flit
of a packet that may be started. -/
inductive QueuesDrained (d : Discipline α) (entering : Option (Fin 16)) (s : IniQueues α) :
    IniQueues α × Option Flit → Prop where
  | quiet {s' : IniQueues α} (queued : Queued d entering s') (queue : s'.queue d = s.queue d)
      (owed : s'.owed = s.owed) (leaving : s'.leaving = s.leaving) :
      QueuesDrained d entering s (s', none)
  | sends {s' : IniQueues α} {i : Fin 16} {f : Flit} {rest : List Flit}
      (queued : Queued d entering s') (waiting : s.queue d i = f :: rest)
      (queue : s'.queue d = update (s.queue d) i rest)
      (own : owner metaSlot s.leaving f = some i)
      (start : f.sop = !s.leaving.isSome)
      (free : f.sop = true → d.starts (d.entry f) (s.owed i) = true)
      (owed : s'.owed = update s.owed i
        (if d.counts (d.entry f) then s.owed i + 1 else s.owed i))
      (leaving : s'.leaving = advance metaSlot s.leaving f) :
      QueuesDrained d entering s (s', some f)

theorem Queued.owner_front (queued : Queued d entering s) {rest : List Flit}
    (waiting : s.queue d i = f :: rest) (turn : s.leaving = some i ∨ s.leaving = none) :
    f.sop = !s.leaving.isSome ∧ owner metaSlot s.leaving f = some i ∧
      scan (!f.eop) rest = some (decide (entering = some i)) := by
  have framed := queued.framed i
  rw [waiting, scan] at framed
  split at framed
  · next mark =>
    refine ⟨?_, ?_, framed⟩
    · rcases turn with active | idle
      · rw [mark, active]
        simp
      · rw [mark, idle]
        simp
    · rcases turn with active | idle
      · have inner : f.sop = false := by rw [mark, active]; simp
        rw [owner, inner, active]
        rfl
      · have sop : f.sop = true := by rw [mark, idle]; simp
        rw [owner, if_pos sop, queued.slots i f (by simp [waiting]) sop]
  · simp at framed

theorem queue_of_held (held : s'.held = update s.held i rest) :
    s'.queue d = update (s.queue d) i (rest.map d.flit) := by
  funext j
  rw [queue, held]
  by_cases same : j = i
  · subst same
    simp
  · simp [queue, same]

section

variable (queued : Queued d entering s)
include queued

theorem Queued.pop {w : α} (waiting : s.held i = w :: rest)
    (turn : s.leaving = some i ∨ s.leaving = none) (held : s'.held = update s.held i rest)
    (leaving : s'.leaving = if (d.flit w).eop then none else some i) :
    Queued d entering s' := by
  have front := queue_of_waiting (d := d) waiting
  have scanned := (queued.owner_front front turn).2.2
  have queue := queue_of_held (d := d) held
  refine ⟨fun j => ?_, fun j f member => ?_, fun j => ?_⟩
  · rw [held, queue]
    by_cases same : j = i
    · subst same
      have entries := queued.entries j
      rw [front, waiting, map_cons] at entries
      simpa only [update_self] using (cons.inj entries).2
    · simpa only [update_of_ne same] using queued.entries j
  · exact queued.slots j f (mem_of_popped front queue member)
  · rw [queue, leaving]
    by_cases same : j = i
    · subst same
      rw [update_self, ← scanned]
      cases (d.flit w).eop <;> simp
    · rw [update_of_ne same, ← queued.framed j]
      congr 1
      rcases turn with inside | idle
      · cases (d.flit w).eop <;> simp [inside, Ne.symm same]
      · cases (d.flit w).eop <;> simp [idle, Ne.symm same]

theorem Queued.entry_front {w : α} (waiting : s.held i = w :: rest) : w = d.entry (d.flit w) := by
  have entries := queued.entries i
  rw [queue, waiting, map_cons, map_cons] at entries
  exact (cons.inj entries).1

theorem Queued.drained : QueuesDrained d entering s (drain d s) := by
  have call := IniQueues.drained d s
  generalize drain d s = result at call ⊢
  cases call with
  | @quiet s' held owed inPacket active =>
    have leaving : s'.leaving = s.leaving := by
      rw [leaving, inPacket, active]
      rfl
    exact .quiet (queued.congr held leaving) (queue_congr held) owed leaving
  | @sends s' i w rest waiting turn held owed inPacket active =>
    have front := queue_of_waiting (d := d) waiting
    have entry := queued.entry_front waiting
    have last : d.isEop w = (d.flit w).eop := by rw [entry, d.isEop_entry, d.flit_entry]
    have turn' : s.leaving = some i ∨ s.leaving = none := by
      rcases turn with ⟨inside, at_i⟩ | ⟨idle, _⟩
      · exact .inl (by rw [leaving, if_pos inside, at_i])
      · exact .inr (by rw [leaving, idle]; rfl)
    obtain ⟨start, own, _⟩ := queued.owner_front front turn'
    have leaving : s'.leaving = if (d.flit w).eop then none else some i := by
      rw [leaving, inPacket, active, last]
      cases (d.flit w).eop <;> rfl
    refine .sends (i := i) (queued.pop waiting turn' held leaving) front (queue_of_held held)
      own start ?_ ?_ ?_
    · intro sop
      rcases turn with ⟨inside, at_i⟩ | ⟨_, starts⟩
      · rw [start, IniQueues.leaving, if_pos inside, at_i] at sop
        simp at sop
      · rwa [← entry]
    · rw [← entry]
      exact owed
    · rw [leaving, advance, own]

theorem Queued.slot_started (sends : (drain d s).2 = some f) (sop : f.sop = true) :
    s.drainInPacket = false ∧ metaSlot f = s.rrCursor := by
  cases inside : s.drainInPacket with
  | true =>
    have call := IniQueues.drained d s
    generalize drain d s = result at call sends
    cases call with
    | quiet => simp at sends
    | @sends s' i w rest waiting turn =>
      obtain rfl : d.flit w = f := Option.some.inj sends
      have front := queue_of_waiting (d := d) waiting
      have active : s.leaving = some i := by
        rw [leaving, if_pos inside]
        simpa [inside] using turn
      have inner := (queued.owner_front front (.inl active)).1
      rw [sop, active] at inner
      simp at inner
  | false =>
    refine ⟨rfl, ?_⟩
    by_cases ready : s.Ready d s.rrCursor
    · rw [drain_of_ready inside ready] at sends
      apply queued.slots _ _ _ sop
      have front := contents_pop ready.1
      rw [queue, held, front, map_cons, ← Option.some.inj sends]
      exact mem_cons_self
    · simp [drain_of_not_ready inside ready] at sends

end

theorem rrCursor_ne_of_stays (idle : s.drainInPacket = false) (ready : s.Ready d i)
    (stays : ((drain d s).1.q i).ring.head = (s.q i).ring.head) :
    s.rrCursor ≠ i := by
  rintro rfl
  rw [head_drain idle ready] at stays
  exact next_ne (by decide) _ stays

/-- Every counter is the number of counted departures less the number of notifications. -/
def Tally (s : IniQueues α) (departed notified : Fin 16 → Nat) : Prop :=
  ∀ i, (s.owed i).toNat + notified i = departed i

/-- No counter stands at its largest value. -/
def NoWrap (s : IniQueues α) : Prop := ∀ i, (s.owed i).toNat + 1 < 2 ^ 32
deriving Decidable

variable {departed notified : Fin 16 → Nat}

theorem Tally.notify (tally : Tally s departed notified) {cn : Flit}
    (follows : notified (notifiedSlot cn) < departed (notifiedSlot cn)) :
    Tally (s.notify cn) departed fun i => notified i + (notifiedSlot cn == i).toNat := by
  have balance := tally (notifiedSlot cn)
  have positive : s.owed (notifiedSlot cn) > 0 := by
    rw [gt_iff_lt, lt_def]
    change 0 < _
    omega
  have lowered : (s.owed (notifiedSlot cn) - 1).toNat = (s.owed (notifiedSlot cn)).toNat - 1 :=
    toNat_sub_of_le (by rw [le_def]; change 1 ≤ _; omega)
  intro i
  dsimp only
  rw [owed_notify, if_pos positive]
  by_cases same : i = notifiedSlot cn
  · subst same
    rw [update_self, lowered, beq_self_eq_true, Bool.toNat_true]
    omega
  · rw [update_of_ne same, beq_false_of_ne (Ne.symm same), Bool.toNat_false]
    exact tally i

theorem NoWrap.notify (noWrap : s.NoWrap) (cn : Flit) : (s.notify cn).NoWrap := by
  intro i
  have bound := noWrap i
  rw [owed_notify]
  by_cases same : i = notifiedSlot cn
  · subst same
    rw [update_self]
    split
    · next positive =>
      rw [toNat_sub_of_le (by
        rw [gt_iff_lt, lt_def] at positive
        rw [le_def]
        exact positive)]
      omega
    · exact bound
  · rwa [update_of_ne same]

theorem Tally.depart (tally : Tally s departed notified) (noWrap : s.NoWrap) {counted : Bool}
    (owed : s'.owed = update s.owed i (if counted then s.owed i + 1 else s.owed i)) :
    Tally s' (fun j => departed j + (counted && i == j).toNat) notified := by
  have bound := noWrap i
  have balance := tally i
  have raised : (s.owed i + 1).toNat = (s.owed i).toNat + 1 := by
    rw [toNat_add]
    exact Nat.mod_eq_of_lt bound
  intro j
  dsimp only
  rw [owed]
  by_cases same : j = i
  · subst same
    rw [update_self, beq_self_eq_true, Bool.and_true]
    cases counted with
    | true =>
      rw [if_pos rfl, raised, Bool.toNat_true]
      omega
    | false => exact balance
  · rw [update_of_ne same, beq_false_of_ne (Ne.symm same), Bool.and_false]
    exact tally j

end IniQueues

end OpenURMA
