import OpenURMA.Memory.HbmWrite
import OpenURMA.Memory.MrTable
import OpenURMA.Transport.Pipeline

/-!
# Requests that the memory table rejects

The target's write path as the topology wires it: port 1 of `UB_MR_Table` feeds
`UB_Txn_Dispatch`, port 2 of the dispatcher feeds `UB_HBM_Write`, and its output reaches
`UB_Completion_Gen`.  The verdict on a request is known at its extension flit, when the
metadata flit has already gone down the path.
-/

namespace OpenURMA

open Library MrTable Ports

structure Target where
  table : MrTable.State
  dispatch : TxnDispatch.State
  memory : HbmWrite.State
  haveMeta : Bool

namespace Target

variable {t u : Target} {p : Packet} {e : Flit} {payload : List Flit}

def passed (t : Target) (flits : List Flit) : List Flit :=
  Ports.sent 1 (MrTable.step.trace t.table flits)

def dispatched (t : Target) (port : Nat) (flits : List Flit) : List Flit :=
  Ports.sent port (TxnDispatch.step.trace t.dispatch (t.passed flits))

def handled (t : Target) (flits : List Flit) : List Flit :=
  Ports.sent 1 (HbmWrite.step.trace t.memory (t.dispatched 2 flits))

def responses (t : Target) (flits : List Flit) : List Flit :=
  Ports.sent 1 (CompletionGen.step.trace t.haveMeta (t.handled flits))

/-- The four elements after the flits have gone through. -/
def after (t : Target) (flits : List Flit) : Target where
  table := MrTable.step.final t.table flits
  dispatch := TxnDispatch.step.final t.dispatch (t.passed flits)
  memory := HbmWrite.step.final t.memory (t.dispatched 2 flits)
  haveMeta := CompletionGen.step.final t.haveMeta (t.handled flits)

/-- Two targets treat the next request alike: the same flits leave each element and the same
memory results. -/
structure Alike (t u : Target) (next : Packet) : Prop where
  refused : Ports.sent 2 (MrTable.step.trace t.table next.flits) =
    Ports.sent 2 (MrTable.step.trace u.table next.flits)
  dispatched : ∀ port, t.dispatched port next.flits = u.dispatched port next.flits
  responses : t.responses next.flits = u.responses next.flits
  memory : (t.after next.flits).memory.hbm = (u.after next.flits).memory.hbm

/-- The request leaves no trace: no byte is written, no success is reported, and the next
request is treated as if this one had not been sent. -/
structure NoEffect (t : Target) (p : Packet) : Prop where
  memory : (t.after p.flits).memory.hbm = t.memory.hbm
  unanswered : ∀ f ∈ t.responses p.flits, f.sop = true → UbMeta.rspst.get f ≠ rspstOk
  next : ∀ next : Packet, Alike (t.after p.flits) t next

theorem passed_packet (t : Target) (p : Packet) :
    ∃ rest, t.passed p.flits = p.head :: rest ∧ ∀ f ∈ rest, f.sop = false := by
  have call : (MrTable.step t.table p.head).2 = emit 1 p.head := by
    rw [MrTable.step, if_pos p.sop_head]
  refine ⟨Ports.sent 1 (MrTable.step.trace (MrTable.step t.table p.head).1 p.rest), ?_, ?_⟩
  · rw [passed, Packet.flits, Mealy.trace_cons, Ports.sent_cons, call, emit_same]
    rfl
  · exact fun f => sop_of_mem_sent p.sop_rest

theorem dispatched_packet (t : Target) (port : Nat) (p : Packet) : t.dispatched port p.flits =
      if TxnDispatch.route (UbMeta.taOpcode.get p.head) = port then t.passed p.flits else [] := by
  obtain ⟨rest, shape, inner⟩ := passed_packet t p
  rw [dispatched, shape, TxnDispatch.trace_request t.dispatch p.sop_head inner]
  split
  · next same => rw [same, sent_map_emit]
  · next other => exact sent_map_emit_other (Ne.symm other) _

theorem sent_request (s : HbmWrite.State) {m : Flit} (sop : m.sop = true) (flits : List Flit) :
    Ports.sent 1 (HbmWrite.step.trace s (m :: flits)) =
      m :: Ports.sent 1 (HbmWrite.step.trace (HbmWrite.step s m).1 flits) := by
  have call : (HbmWrite.step s m).2 = emit 1 m := by
    rw [HbmWrite.step, if_pos sop]
  rw [Mealy.trace_cons, Ports.sent_cons, call, emit_same]
  rfl

section

variable (t : Target) (p : Packet) (shape : p.rest = e :: payload)
variable (write : isWriteClass (UbMeta.taOpcode.get p.head) = true)
variable (refused : ¬ Admits t.table.table e)
include shape write refused

/-- The write handler receives the metadata and the payload without the extension flit. -/
theorem dispatched_refused : t.dispatched 2 p.flits = p.head :: payload := by
  have notRead := (isWriteClass_spec write).2.2.2
  have port : TxnDispatch.route (UbMeta.taOpcode.get p.head) = 2 := by
    rw [TxnDispatch.route, if_neg (by simpa using notRead), if_pos write]
  rw [dispatched_packet, if_pos port]
  exact (MrTable.run_refused t.table p shape (isWriteClass_spec write).2.2.1 refused).2.2

theorem responses_refused : CompletionGen.build p.head ∈ t.responses p.flits := by
  have handled : ∃ rest, t.handled p.flits = p.head :: rest := by
    rw [handled, dispatched_refused t p shape write refused]
    exact ⟨_, sent_request t.memory p.sop_head payload⟩
  obtain ⟨rest, handled⟩ := handled
  have call : CompletionGen.step t.haveMeta p.head =
      (true, emit 1 (CompletionGen.build p.head)) := by
    rw [CompletionGen.step, if_pos p.sop_head]
  rw [responses, handled, (run_of_emit call rest).2]
  exact List.mem_cons_self

/-- No rejected write is without effect: each one is answered with success. -/
theorem not_noEffect_of_refused : ¬ NoEffect t p := by
  intro noEffect
  have answer := responses_refused t p shape write refused
  have sop : (CompletionGen.build p.head).sop = true :=
    (CompletionGen.stamp.sop_build p.head).trans p.sop_head
  exact noEffect.unanswered _ answer sop (CompletionGen.rspst_build p.head)

end

/-- All elements at rest, no region registered and the memory all zero. -/
def fresh : Target where
  table := MrTable.init fun _ => default
  dispatch := TxnDispatch.init
  memory := HbmWrite.init
  haveMeta := false

/-- A Write to an unknown TokenID whose payload spells out an extension flit of its own. -/
def forgedWrite : Packet where
  head := { lane3 := 3, sop := true }
  rest := [{ lane0 := 0x1000, lane1 := 0x2800000005 }, { lane0 := 16, lane1 := 0x800000000 },
    { lane0 := 0xFF, eop := true }]
  sop_head := Eq.refl true
  sop_rest := by decide
  eop_last := by decide

theorem not_noEffect_of_refused_forgedWrite :
    ¬ Admits fresh.table.table { lane0 := 0x1000, lane1 := 0x2800000005 } ∧
      ¬ NoEffect fresh forgedWrite :=
  ⟨by decide, not_noEffect_of_refused fresh forgedWrite rfl (by decide) (by decide)⟩

/-- The rejected write stores a byte at an address of its own choice and is answered with
success. -/
theorem forgedWrite_effect : ¬ Admits fresh.table.table { lane0 := 0x1000, lane1 := 0x2800000005 } ∧
      (fresh.after forgedWrite.flits).memory.hbm 16 = 0xFF ∧ fresh.memory.hbm 16 = 0 ∧
      (fresh.responses forgedWrite.flits).map (fun f => (f.sop, UbMeta.rspst.get f)) =
        [(true, rspstOk), (false, 0), (false, 0)] ∧
      ¬ NoEffect fresh forgedWrite := by
  refine ⟨by decide, by decide, by decide, by decide, ?_⟩
  intro noEffect
  exact absurd (congrFun noEffect.memory 16) (by decide)

end Target

end OpenURMA
