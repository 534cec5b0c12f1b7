import OpenURMA.Library.DirectMapped
import OpenURMA.Transport.ChannelTx

/-!
# Allocation of PSNs

The low six bits of the destination select the channel, and a channel that belongs to another
destination is taken over and starts at PSN 0. The packets to each destination are numbered
consecutively exactly if no destination loses its channel between two of its packets.
-/

namespace OpenURMA.TpChannelTx

open Library UbMeta List

def destination (p : Packet) : U32 := dcna.get p.head

def psnsTo (dest : U32) (stream : List Flit) : List ℕ :=
  (stream.filter fun f => f.sop && dcna.get f == dest).map fun f =>
    (psn.get f).toNat

/-- The packets to each destination carry the PSNs 0, 1, 2, … cut to 24 bits. -/
def ConsecutivePsns (packets : List Packet) (stream : List Flit) : Prop :=
  ∀ dest, psnsTo dest stream =
    (range ((packets.map destination).count dest)).map (· % 2 ^ 24)

theorem psnsTo_append (dest : U32) (first second : List Flit) :
    psnsTo dest (first ++ second) = psnsTo dest first ++ psnsTo dest second := by
  rw [psnsTo, filter_append, map_append]
  rfl

theorem psnsTo_flits (dest : U32) (p : Packet) :
    psnsTo dest p.flits = if dcna.get p.head = dest then [(psn.get p.head).toNat] else [] := by
  have inner : p.rest.filter (fun f => f.sop && dcna.get f == dest) = [] := by
    rw [filter_eq_nil_iff]
    intro f member
    simp [p.sop_rest f member]
  rw [psnsTo, Packet.flits, filter_cons, inner, p.sop_head, Bool.true_and]
  by_cases addressed : dcna.get p.head = dest <;> simp [addressed]

section

variable {s : State} {shown : U32 → ℕ} {f : Flit}

theorem counts_tick (counts : ∀ dest, Counts s dest (shown dest))
    (reliable : svcMode.get f ≠ svcUno) (dest : U32) :
    Counts (stamp s f).1 dest (tick idx shown (dcna.get f) dest) := by
  rw [tick]
  by_cases own : dest = dcna.get f
  · rw [if_pos own, own]
    exact ((counts _).stamp reliable rfl).1
  · rw [if_neg own, stamp_reliable reliable rfl, Counts]
    by_cases same : idx dest = idx (dcna.get f)
    · rw [if_pos same, same, State.chan_setChan, openChan_countPacket_other _ own]
      rfl
    · rw [if_neg same]
      have kept : ∀ c, (s.setChan (idx (dcna.get f)) c).chan (idx dest) =
          s.chan (idx dest) := fun c => Function.update_of_ne same ..
      rw [kept]
      exact counts dest

theorem psnsTo_send {s : State} {before : List U32}
    (counts : ∀ dest, Counts s dest (shownAfter idx before dest)) (dest : U32)
    {packets : List Packet} (reliable : ∀ p ∈ packets, svcMode.get p.head ≠ svcUno) :
    psnsTo dest ((send s packets).flatMap Packet.flits) =
      ((issued idx before (packets.map destination)).filter fun e => e.1 = dest).map
        (·.2 % 2 ^ 24) := by
  induction packets generalizing s before with
  | nil => rfl
  | cons p packets ih =>
    have own := reliable p (by simp)
    have numbered := ((counts (destination p)).stamp own rfl).2
    have addressed : dcna.get (stamp s p.head).2 = destination p := by
      rw [stamp_reliable own rfl, get_stampRtp (by decide)]
      rfl
    have later : ∀ dest, Counts (stamp s p.head).1 dest
        (shownAfter idx (before ++ [destination p]) dest) := by
      intro dest
      rw [shownAfter_snoc]
      exact counts_tick counts own dest
    rw [send, flatMap_cons, psnsTo_append, psnsTo_flits,
      ih later fun q member => reliable q (by simp [member]), map_cons, issued,
      filter_cons]
    change (if dcna.get (stamp s p.head).2 = dest then _ else _) ++ _ = _
    rw [addressed]
    by_cases here : destination p = dest
    · rw [if_pos here, if_pos (by simpa using here), map_cons, ← numbered]
      rfl
    · rw [if_neg here, if_neg (by simpa using here)]
      rfl

end

/-- The packets to each destination are numbered 0, 1, 2, … exactly if each one, unless a multiple
of 2²⁴ packets went to its destination before, finds the channel of its destination: the last packet
before it in the same slot has the same destination. -/
theorem consecutivePsns_iff (memory : Fin 64 → Chan) {packets : List Packet}
    (reliable : ∀ p ∈ packets, svcMode.get p.head ≠ svcUno) {calls : List Offer}
    (inputs : calls.filterMap (·.flit) = packets.flatMap Packet.flits) :
    ConsecutivePsns packets (Ports.sent 1 (step.trace (init memory) calls)) ↔
      Undisturbed idx (2 ^ 24) (packets.map destination) := by
  have counts : ∀ dest, Counts (init memory) dest (shownAfter idx [] dest) :=
    counts_init memory
  have sent : Ports.sent 1 (step.trace (init memory) calls) =
      (send (init memory) packets).flatMap Packet.flits :=
    sent_rest_send calls (fun _ => rfl) (forall_mem_nil _) inputs
  rw [← shownRight_iff_undisturbed, ← consecutive_iff_shownRight, ConsecutivePsns, sent]
  refine forall_congr' fun dest => ?_
  rw [psnsTo_send counts dest reliable, Consecutive, count_nil, range_eq_range']

def plainTo (dest : BitVec 24) : Packet where
  head := { lane0 := dest.setWidth 64, sop := true, eop := true }
  rest := []
  sop_head := rfl
  sop_rest := sop_nil
  eop_last := rfl

def offers (packets : List Packet) : List Offer :=
  (packets.flatMap Packet.flits).map fun f => ⟨some f, none⟩

theorem undisturbed_alternate :
    Undisturbed idx (2 ^ 24) ([plainTo 1, plainTo 2, plainTo 1].map destination) := by
  have dests : [plainTo 1, plainTo 2, plainTo 1].map destination = [1, 2, 1] := by decide
  have apart : idx 1#32 ≠ idx 2#32 := by decide
  rw [dests]
  refine undisturbed_of_injOn ?_ (2 ^ 24)
  simp [apart, apart.symm]

theorem consecutivePsns_alternate : ConsecutivePsns [plainTo 1, plainTo 2, plainTo 1]
      (Ports.sent 1 (step.trace (init fun _ => default)
        (offers [plainTo 1, plainTo 2, plainTo 1]))) := by
  have reliable : ∀ p ∈ [plainTo 1, plainTo 2, plainTo 1],
      svcMode.get p.head ≠ svcUno := by
    decide
  exact (consecutivePsns_iff (fun _ => default) reliable rfl).mpr undisturbed_alternate

theorem not_consecutivePsns_collision : ¬ConsecutivePsns [plainTo 1, plainTo 65, plainTo 1]
      (Ports.sent 1 (step.trace (init fun _ => default)
        (offers [plainTo 1, plainTo 65, plainTo 1]))) := by
  intro consecutive
  exact absurd (consecutive 1) (by decide)

end OpenURMA.TpChannelTx
