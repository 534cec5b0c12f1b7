import OpenURMA.Library.Run
import OpenURMA.Ordering.IniQueues

/-!
# `UB_OrderTracker_Target`

In the service mode ROT a transaction tagged SO is passed on only if its TASSN follows the one in
the register of its slot, and is deferred in a ring of the slot otherwise; RO and SO transactions
that are passed on set the register.

The element is defined over any type with a view as flits: `step id` is the element itself, and
other views let a flit carry what a proof wants to know of it, such as the number of its transaction
(`step_map`).
-/

namespace OpenURMA.OrderTrackerTarget

open Library Function UbMeta Ring Ports Option

variable {φ ψ : Type}

structure PendingTxn (φ : Type) where
  fA : φ
  validA : Bool
  validB : Bool
  tassn : U16
  deriving Inhabited

structure TgtState (φ : Type) where
  queue : Ring 8 (PendingTxn φ)
  execCompleteTassn : U16

structure State (φ : Type) where
  ini : Fin 16 → TgtState φ
  sawMeta : Bool
  curIdx : Option (Fin 16)

def init (memory : Fin 16 → Fin 8 → PendingTxn φ) : State φ where
  ini i := ⟨⟨fun j => { memory i j with validA := false, validB := false }, 0, 0⟩, 0xFFFF⟩
  sawMeta := false
  curIdx := some 0

def State.setIni (s : State φ) (idx : Fin 16) (t : TgtState φ) : State φ :=
  { s with ini := update s.ini idx t }

section

variable (view : φ → Flit)

def tassnOf (f : φ) : U16 := iniTassn.get (view f)

def buffer (t : TgtState φ) (f : φ) (ts : U16) : TgtState φ :=
  if t.queue.Full then t
  else
    let entry := { t.queue.cells t.queue.tail with fA := f, validA := true, tassn := ts }
    { t with queue := t.queue.push entry }

/-- The metadata flit of a transaction in mode ROT. -/
def execute (t : TgtState φ) (f : φ) : TgtState φ × Option φ :=
  let exec := odrExec.get (view f)
  let ts := tassnOf view f
  if exec == odrNo then (t, some f)
  else if exec == odrRo then ({ t with execCompleteTassn := ts }, some f)
  else if ts == t.execCompleteTassn + 1 then ({ t with execCompleteTassn := ts }, some f)
  else (buffer t f ts, none)

/-- The find-and-attach loop: the first deferred transaction without a second flit takes it. -/
def attach (queue : Ring 8 (PendingTxn φ)) : Option (Ring 8 (PendingTxn φ)) :=
  ((List.finRange 8).find? fun j => (queue.cells j).validA && !(queue.cells j).validB).map
    fun j => queue.write j { queue.cells j with validB := true }

/-- A flit from port 1 and what it puts on the output port. -/
def receive (s : State φ) (f : φ) : State φ × Option φ :=
  if (view f).sop then
    if svcMode.get (view f) != svcRot then
      ({ s with sawMeta := true, curIdx := none }, some f)
    else
      let idx := metaSlot (view f)
      let result := execute view (s.ini idx) f
      ({ s.setIni idx result.1 with sawMeta := true, curIdx := some idx }, result.2)
  else if s.sawMeta then
    let s₁ := { s with sawMeta := if (view f).eop then false else s.sawMeta }
    match s.curIdx with
    | none => (s₁, some f)
    | some idx =>
      match attach (s.ini idx).queue with
      | none => (s₁, some f)
      | some queue => (s₁.setIni idx { s.ini idx with queue := queue }, none)
  else (s, none)

/-- Send the first deferred transaction of a slot if it is due. -/
def drain (t : TgtState φ) : TgtState φ × Option φ :=
  let txn := t.queue.front
  if ¬ t.queue.Empty ∧ txn.validA = true ∧ txn.tassn = t.execCompleteTassn + 1 then
    let cleared := { txn with validA := false, validB := false }
    (⟨(t.queue.write t.queue.head cleared).pop, txn.tassn⟩, some txn.fA)
  else (t, none)

/-- The second part of a call: drain the current slot unless a flit has been put out. -/
def finish (s : State φ) : Option φ → State φ × Option φ
  | some f => (s, some f)
  | none =>
    match s.curIdx with
    | none => (s, none)
    | some idx => ((s.setIni idx (drain (s.ini idx)).1), (drain (s.ini idx)).2)

def step : Mealy (State φ) (Option φ) (Ports φ) := fun s input =>
  let received := match input with
    | none => (s, none)
    | some f => receive view s f
  let result := finish received.1 received.2
  (result.1, ofOption 1 result.2)

end

section

variable (g : φ → ψ)

def PendingTxn.map (txn : PendingTxn φ) : PendingTxn ψ :=
  ⟨g txn.fA, txn.validA, txn.validB, txn.tassn⟩

def TgtState.map (t : TgtState φ) : TgtState ψ :=
  ⟨t.queue.map (PendingTxn.map g), t.execCompleteTassn⟩

def State.map (s : State φ) : State ψ := ⟨fun i => (s.ini i).map g, s.sawMeta, s.curIdx⟩

theorem map_setIni (s : State φ) (idx : Fin 16) (t : TgtState φ) :
    (s.setIni idx t).map g = (s.map g).setIni idx (t.map g) := by
  have slots : (fun i => (update s.ini idx t i).map g) =
      update (fun i => (s.ini i).map g) idx (t.map g) :=
    (comp_update (TgtState.map g) s.ini idx t)
  simp only [State.map, State.setIni, slots]

theorem buffer_map (t : TgtState φ) (f : φ) (ts : U16) :
    buffer (t.map g) (g f) ts = (buffer t f ts).map g := by
  have full : (t.map g).queue.Full ↔ t.queue.Full := Iff.rfl
  simp only [buffer, full]
  split
  · rfl
  · simp only [TgtState.map, map_push]
    rfl

theorem attach_map (queue : Ring 8 (PendingTxn φ)) :
    attach (queue.map (PendingTxn.map g)) = (attach queue).map (map (PendingTxn.map g)) := by
  rw [attach, attach, map_map]
  refine congrFun (congrArg Option.map (funext fun j => ?_)) _
  exact (map_write (PendingTxn.map g) queue j { queue.cells j with validB := true }).symm

theorem drain_map (t : TgtState φ) : drain (t.map g) = ((drain t).1.map g, (drain t).2.map g) := by
  have due : (¬ (t.map g).queue.Empty ∧ (t.map g).queue.front.validA = true ∧
      (t.map g).queue.front.tassn = (t.map g).execCompleteTassn + 1) ↔
      (¬ t.queue.Empty ∧ t.queue.front.validA = true ∧
        t.queue.front.tassn = t.execCompleteTassn + 1) := Iff.rfl
  simp only [drain, due]
  split
  · refine Prod.ext ?_ rfl
    simp only [TgtState.map, Ring.pop, Ring.write, map, comp_update]
    rfl
  · rfl

theorem finish_map (s : State φ) (out : Option φ) :
    finish (s.map g) (out.map g) = ((finish s out).1.map g, (finish s out).2.map g) := by
  cases out with
  | some f => rfl
  | none =>
    have current : (s.map g).curIdx = s.curIdx := rfl
    simp only [finish, map_none, current]
    cases s.curIdx with
    | none => rfl
    | some idx =>
      have drained : drain ((s.map g).ini idx) = _ := drain_map g (s.ini idx)
      simp only [drained, map_setIni]

variable {view : φ → Flit} {view' : ψ → Flit} (same : ∀ f, view' (g f) = view f)
include same

theorem execute_map (t : TgtState φ) (f : φ) :
    execute view' (t.map g) (g f) = ((execute view t f).1.map g, (execute view t f).2.map g) := by
  have reg : (t.map g).execCompleteTassn = t.execCompleteTassn := rfl
  have tassn : tassnOf view' (g f) = tassnOf view f := congrArg iniTassn.get (same f)
  simp only [execute, tassn, same, buffer_map, reg]
  repeat' split
  all_goals rfl

variable (s : State φ)

theorem receive_map (f : φ) :
    receive view' (s.map g) (g f) = ((receive view s f).1.map g, (receive view s f).2.map g) := by
  have slot : ∀ i, (s.map g).ini i = (s.ini i).map g := fun _ => rfl
  have flag : (s.map g).sawMeta = s.sawMeta := rfl
  have current : (s.map g).curIdx = s.curIdx := rfl
  simp only [receive, same, slot, execute_map g same, flag, current]
  split
  · split
    · rfl
    · simp only [← map_setIni]
      rfl
  · split
    · split
      · rfl
      · next idx _ =>
        have attached : attach ((s.ini idx).map g).queue = _ := attach_map g (s.ini idx).queue
        rw [attached]
        cases attach (s.ini idx).queue with
        | none => rfl
        | some queue =>
          simp only [map_some, map_none, map_setIni]
          rfl
    · rfl

theorem step_map (input : Option φ) : step view' (s.map g) (input.map g) =
      ((step view s input).1.map g, ofOption 1 (((step view s input).2 1).map g)) := by
  cases input with
  | none =>
    simp only [step, map_none, ofOption_same]
    rw [← map_none g, finish_map]
  | some f =>
    simp only [step, map_some, receive_map g same, finish_map, ofOption_same]

theorem final_map (inputs : List (Option φ)) :
    (step view').final (s.map g) (inputs.map (Option.map g)) =
      ((step view).final s inputs).map g := by
  induction inputs generalizing s with
  | nil => rfl
  | cons input inputs ih =>
    rw [List.map_cons, Mealy.final_cons, Mealy.final_cons, step_map g same]
    exact ih _

theorem sent_map (inputs : List (Option φ)) :
    Ports.sent 1 ((step view').trace (s.map g) (inputs.map (Option.map g))) =
      (Ports.sent 1 ((step view).trace s inputs)).map g := by
  induction inputs generalizing s with
  | nil => rfl
  | cons input inputs ih =>
    rw [List.map_cons, Mealy.trace_cons, Mealy.trace_cons, Ports.sent_cons,
      Ports.sent_cons, step_map g same]
    dsimp only
    rw [ih, ofOption_same, List.map_append, toList_map]

end

/-- A slot as it is meant: the register and the transactions deferred, oldest first. -/
structure Slot (φ : Type) where
  reg : U16
  deferred : List φ

variable (view : φ → Flit)

/-- Send the oldest deferred transaction if it is due. -/
def Slot.release (q : Slot φ) : Slot φ × Option φ :=
  match q.deferred with
  | [] => (q, none)
  | f :: rest => if tassnOf view f = q.reg + 1 then (⟨tassnOf view f, rest⟩, some f) else (q, none)

/-- A transaction that has to wait joins the others if there is room. -/
def Slot.defer (q : Slot φ) (f : φ) : Slot φ :=
  if q.deferred.length < 7 then { q with deferred := q.deferred ++ [f] } else q

/-- What the metadata flit of a transaction in mode ROT does. -/
def Slot.execute (q : Slot φ) (f : φ) : Slot φ × Option φ :=
  let exec := odrExec.get (view f)
  if exec = odrNo then (q, some f)
  else if exec = odrRo ∨ tassnOf view f = q.reg + 1 then
    ({ q with reg := tassnOf view f }, some f)
  else (q.defer f, none)

/-- The state of a slot stands for `q`: what is in the ring is valid and kept with its TASSN. -/
structure TgtState.Holds (t : TgtState φ) (q : Slot φ) : Prop where
  reg : t.execCompleteTassn = q.reg
  entries : t.queue.contents.map (fun txn => (txn.fA, txn.validA, txn.tassn)) =
    q.deferred.map fun f => (f, true, tassnOf view f)

namespace TgtState.Holds

variable {view} {t : TgtState φ} {q : Slot φ} (holds : t.Holds view q)
include holds

theorem full_iff : t.queue.Full ↔ q.deferred.length = 7 := by
  have same := congrArg List.length holds.entries
  rw [List.length_map, List.length_map] at same
  rw [Ring.full_iff, same]
  omega

theorem length_le : q.deferred.length ≤ 7 := by
  have same := congrArg List.length holds.entries
  rw [List.length_map, List.length_map, length_contents] at same
  have := t.queue.count_lt
  omega

theorem buffer (f : φ) : (buffer t f (tassnOf view f)).Holds view (q.defer f) := by
  have small := holds.length_le
  rw [OrderTrackerTarget.buffer, Slot.defer]
  by_cases full : t.queue.Full
  · rw [if_pos full, if_neg (by have := holds.full_iff.mp full; omega)]
    exact holds
  · have room := mt holds.full_iff.mpr full
    rw [if_neg full, if_pos (by omega)]
    refine ⟨holds.reg, ?_⟩
    simp only [contents_push full, List.map_append, holds.entries, List.map_cons, List.map_nil]

theorem attach {queue : Ring 8 (PendingTxn φ)} (found : attach t.queue = some queue) :
    TgtState.Holds view { t with queue := queue } q := by
  rw [OrderTrackerTarget.attach, map_eq_some_iff] at found
  obtain ⟨j, -, rfl⟩ := found
  refine ⟨holds.reg, ?_⟩
  rw [← holds.entries]
  exact map_contents_write rfl

theorem execute (f : φ) : (execute view t f).1.Holds view (q.execute view f).1 ∧
      (execute view t f).2 = (q.execute view f).2 := by
  simp only [OrderTrackerTarget.execute, Slot.execute, beq_iff_eq]
  split
  · exact ⟨holds, rfl⟩
  · split
    · next ro =>
      rw [if_pos (.inl ro)]
      exact ⟨⟨rfl, holds.entries⟩, rfl⟩
    · next notRo =>
      rw [holds.reg]
      split
      · next due =>
        rw [if_pos (.inr due)]
        exact ⟨⟨rfl, holds.entries⟩, rfl⟩
      · next early =>
        rw [if_neg (not_or.mpr ⟨notRo, early⟩)]
        exact ⟨holds.buffer f, rfl⟩

theorem drain : (drain t).1.Holds view (q.release view).1 ∧ (drain t).2 = (q.release view).2 := by
  by_cases empty : t.queue.Empty
  · have none : q.deferred = [] := by
      simpa [contents_eq_nil_iff.mpr empty] using holds.entries.symm
    rw [OrderTrackerTarget.drain, if_neg fun due => due.1 empty, Slot.release, none]
    exact ⟨holds, rfl⟩
  · have entries := holds.entries
    rw [contents_pop empty, List.map_cons] at entries
    cases deferred : q.deferred with
    | nil =>
      rw [deferred] at entries
      cases entries
    | cons f rest =>
      rw [deferred, List.map_cons, List.cons.injEq, Prod.mk.injEq, Prod.mk.injEq] at entries
      obtain ⟨⟨flit, valid, tassn⟩, entries⟩ := entries
      simp only [OrderTrackerTarget.drain, empty, not_false_eq_true, true_and, valid, tassn,
        holds.reg, Slot.release, deferred]
      split
      · refine ⟨⟨rfl, ?_⟩, congrArg some flit⟩
        change List.map _ (Ring.pop _).contents = _
        rw [contents_pop_write empty, entries]
      · exact ⟨⟨holds.reg, holds.entries⟩, rfl⟩

end TgtState.Holds

structure Tracker (φ : Type) where
  slots : Fin 16 → Slot φ
  current : Option (Fin 16)

def isRot (f : Flit) : Bool := f.sop && svcMode.get f == svcRot

section

variable (a : Tracker φ)

def Tracker.put (idx : Fin 16) (q : Slot φ) : Tracker φ :=
  ⟨update a.slots idx q, some idx⟩

theorem Tracker.slots_put (idx : Fin 16) (q : Slot φ) :
    (a.put idx q).slots = update a.slots idx q := rfl

def Tracker.release : Tracker φ × Option φ :=
  match a.current with
  | none => (a, none)
  | some idx => (a.put idx ((a.slots idx).release view).1, ((a.slots idx).release view).2)

/-- Drain the current slot unless a flit has been put out. -/
def Tracker.finish : Option φ → Tracker φ × Option φ
  | some f => (a, some f)
  | none => a.release view

def Tracker.arrive (f : φ) : Tracker φ × Option φ :=
  let idx := metaSlot (view f)
  let result := (a.slots idx).execute view f
  (a.put idx result.1).finish view result.2

end

/-- The calls: what they receive, what they do to the slots and what they send.  Whether a flit
that is no metadata flit is sent on depends on more than the slots. -/
inductive Tracker.Moves (a : Tracker φ) : Option φ → Tracker φ → Option φ → Prop where
  | other {f : φ} : (view f).sop = true → isRot (view f) = false →
      Moves a (some f) { a with current := none } (some f)
  | inner {f : φ} : (view f).sop = false → Moves a (some f) a (some f)
  | quiet {input : Option φ} : (∀ f ∈ input, (view f).sop = false) →
      Moves a input (a.release view).1 (a.release view).2
  | arrive {f : φ} : isRot (view f) = true →
      Moves a (some f) (a.arrive view f).1 (a.arrive view f).2

structure State.StandsFor (s : State φ) (a : Tracker φ) : Prop where
  slots : ∀ i, (s.ini i).Holds view (a.slots i)
  current : s.curIdx = a.current

namespace State.StandsFor

variable {view} {s : State φ} {a : Tracker φ} (stands : s.StandsFor view a)
include stands

theorem put {idx : Fin 16} {t : TgtState φ} {q : Slot φ}
    (holds : t.Holds view q) {s' : State φ} (ini : s'.ini = update s.ini idx t)
    (current : s'.curIdx = some idx) : s'.StandsFor view (a.put idx q) := by
  refine ⟨fun i => ?_, current⟩
  rw [ini, Tracker.slots_put]
  by_cases same : i = idx
  · subst same
    rw [update_self, update_self]
    exact holds
  · rw [update_of_ne same, update_of_ne same]
    exact stands.slots i

theorem finish (out : Option φ) : (finish s out).1.StandsFor view (a.finish view out).1 ∧
      (finish s out).2 = (a.finish view out).2 := by
  cases out with
  | some f => exact ⟨stands, rfl⟩
  | none =>
    simp only [OrderTrackerTarget.finish, Tracker.finish, Tracker.release, ← stands.current]
    split
    · exact ⟨stands, rfl⟩
    · next idx here =>
      have drained := (stands.slots idx).drain
      exact ⟨stands.put drained.1 rfl here, drained.2⟩

theorem receive_inner {f : φ} (inner : (view f).sop = false) :
    (receive view s f).1.StandsFor view a ∧
      ((receive view s f).2 = some f ∨ (receive view s f).2 = none) := by
  simp only [receive, inner, Bool.false_eq_true, if_false]
  split
  · split
    · exact ⟨⟨stands.slots, stands.current⟩, .inl rfl⟩
    · next idx here =>
      split
      · exact ⟨⟨stands.slots, stands.current⟩, .inl rfl⟩
      · next queue found =>
        refine ⟨⟨fun i => ?_, stands.current⟩, .inr rfl⟩
        change TgtState.Holds view (update s.ini idx _ i) _
        by_cases same : i = idx
        · subst same
          rw [update_self]
          exact (stands.slots i).attach found
        · rw [update_of_ne same]
          exact stands.slots i
  · exact ⟨stands, .inr rfl⟩

theorem step (input : Option φ) : ∃ a', a.Moves view input a' ((step view s input).2 1) ∧
      (step view s input).1.StandsFor view a' := by
  simp only [OrderTrackerTarget.step, ofOption_same]
  cases input with
  | none =>
    have finished := stands.finish none
    refine ⟨_, ?_, finished.1⟩
    rw [finished.2]
    exact .quiet (by simp)
  | some f =>
    cases sop : (view f).sop with
    | false =>
      rcases stands.receive_inner sop with ⟨received, passed | absorbed⟩
      · simp only [passed]
        exact ⟨a, .inner sop, received⟩
      · have finished := received.finish none
        simp only [absorbed]
        refine ⟨_, ?_, finished.1⟩
        rw [finished.2]
        exact .quiet (by simpa using sop)
    | true =>
      cases rot : isRot (view f) with
      | false =>
        have mode : (svcMode.get (view f) != svcRot) = true := by
          simpa [isRot, sop] using rot
        simp only [receive, sop, mode, if_true]
        exact ⟨_, .other sop rot, stands.slots, rfl⟩
      | true =>
        have mode : (svcMode.get (view f) != svcRot) = false := by
          simpa [isRot, sop] using rot
        simp only [receive, sop, mode, if_true, Bool.false_eq_true, if_false]
        have executed := (stands.slots (metaSlot (view f))).execute f
        have placed : StandsFor view { s.setIni (metaSlot (view f)) _ with
            sawMeta := true, curIdx := some (metaSlot (view f)) } _ :=
          stands.put executed.1 rfl rfl
        have arrived := placed.finish (execute view (s.ini (metaSlot (view f))) f).2
        refine ⟨_, ?_, arrived.1⟩
        rw [arrived.2, executed.2]
        exact .arrive rot

end State.StandsFor

def Tracker.fresh : Tracker φ := ⟨fun _ => ⟨0xFFFF, []⟩, some 0⟩

theorem standsFor_init (memory : Fin 16 → Fin 8 → PendingTxn φ) :
    (init memory).StandsFor view Tracker.fresh :=
  ⟨fun _ => ⟨rfl, rfl⟩, rfl⟩

end OpenURMA.OrderTrackerTarget
