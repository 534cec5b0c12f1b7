import OpenURMA.Transport.Completions
import OpenURMA.Transport.Reordering

/-!
# Requests from one node to the other

The transmit path, the wire and the receive path put together.  Each stage keeps a count or a
buffer of its own; a stream of requests leaves all of them in step.
-/

namespace OpenURMA.TransmitPath

open Library UbMeta List EthDecap
open EthEncap (encode Finishes)
open TpChannelTx (Counts Sender counts_init)

/-- The fields that the wire carries and that no stage of the transmit path writes. -/
def keptSlots : List Slot := steadySlots.filter fun slot => ∀ w ∈ writtenSlots, w.Disjoint slot

/-- The request `p`, the one with number `n` from `node`, as it comes out at the target. -/
structure Arrives (node : U32) (n : ℕ) (p q : Packet) : Prop where
  psn : (psn.get q.head).toNat = n % 2 ^ 24
  scna : scna.get q.head = node
  kept {α : Type} [FieldValue α] (field : Field α) :
    field.toSlot ∈ keptSlots → field.get q.head = field.get p.head

variable {nth : NthBuild.State} {tx : TpChannelTx.State} {dest : U32} {n : ℕ}

theorem arrives {p : Packet} (counts : Counts tx dest n)
    (reliable : svcMode.get p.head ≠ svcUno) (addressed : dcna.get p.head = dest) {d : State}
    (contents : d.contents = padded (encode (transmit nth tx p).head (transmit nth tx p).rest)) :
    Arrives (nth.localScna &&& BitField.mask 32 24) n p (packetOf (parse d)) := by
  have own : dcna.get (BtahBuild.stamp.packet p).head = dest :=
    (BtahBuild.get_build (by decide) p.head).trans addressed
  have frame : TwoNodes.DataFrame (transmit nth tx p) _ n _ :=
    (TwoNodes.requestFrame_reliable nth counts (reliable_btah reliable) own).1
  have rtp : nthNlp.get (transmit nth tx p).head ≠ nthNlpUtph := by
    rw [(TwoNodes.isRtphData_iff.mp frame.data).1]
    decide
  have carried {α : Type} [FieldValue α] {field : Field α} (steady : field.toSlot ∈ steadySlots) :
      field.get (packetOf (parse d)).head = field.get (transmit nth tx p).head := by
    rw [head_packetOf contents, get_arrival rtp steady]
  refine ⟨?_, (carried (by simp [steadySlots])).trans frame.source, fun field member => ?_⟩
  · rw [carried (by simp [steadySlots])]
    exact frame.psn
  · obtain ⟨steady, other⟩ := mem_filter.mp member
    rw [carried steady, get_transmit reliable (of_decide_eq_true other)]

end OpenURMA.TransmitPath
