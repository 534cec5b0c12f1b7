import OpenURMA.Ordering.RotTransactions

/-!
# Execution order in the service mode ROT

The target is to pass on an SO transaction only after every RO and SO transaction of the same
initiator with a lower number.  An RO transaction is passed on whatever is missing, and its TASSN
goes into the register; the SO transaction after it then finds its turn come.
-/

namespace OpenURMA.OrderTrackerTarget

open Library
open Prod (fst)

/-- Each call fits, and an RO transaction that an SO transaction follows comes when all RO and SO
transactions below it have been sent. -/
structure KeepsOrder (r : U32) (kind : ℕ → Kind) (h : Recorded) (input : Option Txn) : Prop where
  fits : Fits r (h.sequencer r) input
  cautious : ∀ x ∈ input, isTxn r x = true → (h.sequencer r).Cautious kind x.2

instance (kind : ℕ → Kind) (q : Sequencer) (n : ℕ) : Decidable (q.Cautious kind n) :=
  inferInstanceAs (Decidable (_ → _ → ∀ u < n, _))

instance (r : U32) (kind : ℕ → Kind) (h : Recorded) (input : Option Txn) :
    Decidable (KeepsOrder r kind h input) :=
  decidable_of_iff
    (Fits r (h.sequencer r) input ∧
      ∀ x ∈ input, isTxn r x = true → (h.sequencer r).Cautious kind x.2)
    ⟨fun both => ⟨both.1, both.2⟩, fun keeps => ⟨keeps.fits, keeps.cautious⟩⟩

variable {r : U32} {kind : ℕ → Kind} {h : Recorded} {input : Option Txn}

theorem strict_of_onTrack (onTrack : OnTrack r kind h) :
    ∀ n ∈ (h.sequencer r).waiting, kind n = .strict := by
  obtain ⟨a, stands, -, tracks⟩ := onTrack
  rw [(sequencer_of_standsFor stands).1]
  intro n member
  obtain ⟨x, deferred, rfl⟩ := List.mem_map.mp member
  exact (tracks.own x deferred).2.2

theorem orderly_record (onTrack : OnTrack r kind h) (orderly : (h.sequencer r).Orderly kind)
    (genuine : ∀ x ∈ input, isTxn r x = true → Genuine kind x) (keeps : KeepsOrder r kind h input) :
    OnTrack r kind (record h input) ∧ ((record h input).sequencer r).Orderly kind := by
  have strict := strict_of_onTrack onTrack
  rcases onTrack.record genuine keeps.fits with ⟨onTrack', ⟨step, -⟩ | ⟨-, step⟩⟩
  · refine ⟨onTrack', orderly.step strict step fun n arrives => ?_⟩
    obtain ⟨x, member, own, rfl⟩ := mem_of_arrivalOf arrives
    exact keeps.cautious x member own
  · exact ⟨onTrack', orderly.step strict step (by simp)⟩

theorem orderly_run (inputs : List (Option Txn)) (onTrack : OnTrack r kind h)
    (orderly : (h.sequencer r).Orderly kind)
    (genuine : ∀ x, some x ∈ inputs → isTxn r x = true → Genuine kind x)
    (keeps : Along record (KeepsOrder r kind) h inputs) :
    ((inputs.foldl record h).sequencer r).Orderly kind := by
  induction inputs generalizing h with
  | nil => exact orderly
  | cons input inputs ih =>
    have after := orderly_record onTrack orderly
      (fun x member => genuine x (by simp [Option.mem_def.mp member])) keeps.1
    exact ih after.1 after.2 (fun x member => genuine x (by simp [member])) keeps.2

/-- The transactions of an initiator, of any kinds, arrive in any order among any other flits. The
SO transactions are sent in order in every run whose calls all meet the condition. -/
theorem rot_order (r : U32) (kind : ℕ → Kind) (memory : Fin 16 → Fin 8 → PendingTxn Txn)
    (inputs : List (Option Txn))
    (genuine : ∀ x, some x ∈ inputs → isTxn r x = true → Genuine kind x)
    (keeps : Along record (KeepsOrder r kind) (init memory, []) inputs) :
    let outs := Ports.sent 1 ((step fst).trace (init memory) inputs)
    Sequencer.InOrder kind (numbers r outs) ∧
      outs.map fst = Ports.sent 1 ((step id).trace
        (init fun i j => (memory i j).map fst) (inputs.map (Option.map fst))) := by
  intro outs
  refine ⟨?_, ?_⟩
  · have orderly := orderly_run inputs (onTrack_init r kind memory) Sequencer.orderly_start
      genuine keeps
    rw [foldl_record] at orderly
    exact orderly.inOrder
  · exact (map_run memory inputs).1

/-- Two SO transactions in the wrong order, then an RO transaction and an SO transaction. -/
def mixedInputs : List (Option Txn) :=
  [some (sampleTxn 2 1), some (sampleTxn 2 0), none, some (sampleTxn 1 2), some (sampleTxn 2 3)]

def mixedKinds (n : ℕ) : Kind := if n = 2 then .relaxed else .strict

theorem rot_order_mixedInputs :
    numbers 0 (Ports.sent 1 ((step fst).trace (init fun _ _ => default) mixedInputs)) =
        [0, 1, 2, 3] ∧ Sequencer.InOrder mixedKinds
        (numbers 0 (Ports.sent 1 ((step fst).trace (init fun _ _ => default) mixedInputs))) :=
  ⟨by decide +kernel, (rot_order 0 mixedKinds _ mixedInputs
    (by
      intro x member
      simp only [mixedInputs, List.mem_cons, Option.some.injEq, reduceCtorEq, false_or,
        List.not_mem_nil, or_false] at member
      rcases member with rfl | rfl | rfl | rfl <;> decide)
    (by decide +kernel)).1⟩

def lateInputs : List (Option Txn) :=
  [some (sampleTxn 1 1), some (sampleTxn 2 2), some (sampleTxn 2 0)]

def lateKinds (n : ℕ) : Kind := if n = 1 then .relaxed else .strict

/-- The SO transaction 2 is sent before transaction 0 has arrived. -/
theorem not_inOrder_lateInputs :
    (∀ x ∈ lateInputs.reduceOption, isTxn 0 x = true ∧ Genuine lateKinds x) ∧
      numbers 0 (Ports.sent 1 ((step fst).trace (init fun _ _ => default) lateInputs)) =
        [1, 2] ∧ ¬ Sequencer.InOrder lateKinds
        (numbers 0 (Ports.sent 1 ((step fst).trace (init fun _ _ => default) lateInputs))) := by
  have sends : numbers 0
      (Ports.sent 1 ((step fst).trace (init fun _ _ => default) lateInputs)) = [1, 2] := by
    decide +kernel
  refine ⟨by decide, sends, fun ordered => ?_⟩
  rw [sends] at ordered
  exact absurd (ordered [1] 2 [] rfl rfl 0 (by decide) (by decide)) (by decide)

end OpenURMA.OrderTrackerTarget
