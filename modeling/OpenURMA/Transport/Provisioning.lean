import OpenURMA.Transport.ChannelRx

/-!
# Provisioning a receive channel

The signal that provisions a channel of `UB_TPChannel_RX` sets the expected PSN to 0 and leaves the
bitmap as it was.  `base_psn` and `max_rcv_psn` are left as well, but no decision depends on them.
-/

namespace OpenURMA.TpChannelRx

open Library Function UbMeta List BitVec

def provision (s : State) (sparam : U32) (lparam0 lparam1 : U64) : State :=
  let i := idx sparam
  { s with rxchan := update s.rxchan i { s.rxchan i with
      remoteCna := sparam, epsn := 0, rolMode := lparam0.setWidth 8
      oooEnabled := lparam1.setWidth 8, valid := true } }

/-- What becomes of each packet: its flits that are passed on, and the descriptors. -/
def treatment : State → List Packet → List (List Flit × List Flit)
  | _, [] => []
  | s, p :: packets => (forwarded s p, acknowledged s p) :: treatment (deliver s p) packets

/-- A channel without the fields that are never read. -/
def erase (c : RxChan) : RxChan := { c with basePsn := 0, maxRcvPsn := 0 }

theorem erase_noteMax (psn : U32) (c : RxChan) : erase (noteMax psn c) = erase c := by
  unfold noteMax
  split <;> rfl

theorem erase_slide (bound : ℕ) (c : RxChan) : erase (whileUpTo slideGuard slideBody bound c) =
      whileUpTo slideGuard (fun c => erase (slideBody c)) bound (erase c) := by
  apply view_whileUpTo
  · exact fun _ => rfl
  · exact fun _ => rfl

section

variable {c c' : RxChan} {s s' : State} {cna : U32} {p : Packet}

theorem exists_of_erase (same : erase c = erase c') :
    ∃ base highest, c' = { c with basePsn := base, maxRcvPsn := highest } := by
  refine ⟨c'.basePsn, c'.maxRcvPsn, ?_⟩
  cases c
  cases c'
  simpa [erase, eq_comm] using same

theorem openChannel_congr (same : erase c = erase c') (scna psn : U32) :
    erase (openChannel c scna psn) = erase (openChannel c' scna psn) := by
  obtain ⟨base, highest, rfl⟩ := exists_of_erase same
  unfold openChannel
  dsimp only
  split <;> rfl

theorem receivePsn_congr (same : erase c = erase c') (psn : U32) :
    erase (receivePsn c psn).1 = erase (receivePsn c' psn).1 ∧
      (receivePsn c psn).2 = (receivePsn c' psn).2 := by
  obtain ⟨base, highest, rfl⟩ := exists_of_erase same
  unfold receivePsn
  dsimp only
  split
  · simp only [erase_noteMax, erase_slide, and_true]
    rfl
  · split
    · split
      · simp only [erase_noteMax, and_true]
        rfl
      · simp only [erase_noteMax, same, and_true]
    · split <;> exact ⟨same, rfl⟩

theorem packet_congr (sender : scna.get p.head = cna)
    (same : erase (s.rxchan (idx cna)) = erase (s'.rxchan (idx cna))) :
    forwarded s p = forwarded s' p ∧ acknowledged s p = acknowledged s' p ∧
      erase ((deliver s p).rxchan (idx cna)) = erase ((deliver s' p).rxchan (idx cna)) := by
  have checked : erase (checkMeta s p.head).1 = erase (checkMeta s' p.head).1 ∧
      (checkMeta s p.head).2 = (checkMeta s' p.head).2 := by
    unfold checkMeta
    rw [sender]
    exact receivePsn_congr (openChannel_congr same _ _) _
  obtain ⟨base, highest, other⟩ := exists_of_erase checked.1
  refine ⟨?_, ?_, ?_⟩
  · simp only [forwarded_eq, passedMeta, checked.2, other]
  · simp only [acknowledged_eq, descriptor, checked.2, other]
  · simp only [deliver_eq, nextState, sender, update_self]
    exact checked.1

theorem treatment_congr {packets : List Packet} (sender : ∀ p ∈ packets, scna.get p.head = cna)
    (same : erase (s.rxchan (idx cna)) = erase (s'.rxchan (idx cna))) :
    treatment s packets = treatment s' packets := by
  induction packets generalizing s s' with
  | nil => rfl
  | cons p packets ih =>
    obtain ⟨passed, acked, next⟩ := packet_congr (sender p mem_cons_self) same
    rw [treatment, treatment, passed, acked,
      ih (fun q member => sender q (mem_cons_of_mem _ member)) next]

end

def probe (cna psn : U32) : Packet where
  head := UbMeta.psn.set psn (scna.set cna { sop := true, eop := true })
  rest := []
  sop_head := by simp
  sop_rest := sop_nil
  eop_last := by simp [EopLast]

section

variable {cna psn : U32} (source : cna.toNat < 2 ^ 24)
include source

theorem scna_probe : scna.get (probe cna psn).head = cna := by
  rw [probe, Field.get_set_disjoint (by decide)]
  apply eq_of_toNat_eq
  rw [Field.toNat_get_set _ (by decide)]
  exact Nat.mod_eq_of_lt source

theorem acknowledged_probe (s : State) (rol : U64) {ooo : U64} (selective : ooo.setWidth 8 ≠ 0#8)
    (ahead : psn = 1 ∨ psn = 2) :
    (acknowledged (provision s cna rol ooo) (probe cna psn)).map Flit.lane3 =
      [(s.rxchan (idx cna)).bitmap ||| (1#64 <<< psn.toNat)] := by
  have scna : scna.get (probe cna psn).head = cna := scna_probe source
  have number : UbMeta.psn.get (probe cna psn).head = psn := by
    apply eq_of_toNat_eq
    rw [probe, Field.toNat_get_set _ (by decide)]
    rcases ahead with rfl | rfl <;> rfl
  have stays : openChannel ((provision s cna rol ooo).rxchan (idx cna)) cna psn =
      (provision s cna rol ooo).rxchan (idx cna) := by
    simp [openChannel, provision]
  have checked : checkMeta (provision s cna rol ooo) (probe cna psn).head =
      (noteMax psn { (provision s cna rol ooo).rxchan (idx cna) with
        bitmap := (s.rxchan (idx cna)).bitmap ||| (1#64 <<< psn.toNat) },
        { inWindow := true, isOoo := true }) := by
    rw [checkMeta, scna, number, stays]
    rcases ahead with rfl | rfl <;>
      simp [receivePsn, signedDiff, provision, selective, BitVec.slt]
  rw [acknowledged_eq, checked]
  simp only [descriptor, if_true, map_cons, map_nil, noteMax]
  split <;> rfl

end

theorem eq_zero_of_or {b : U64} (one : b ||| (1#64 <<< 1) = 1#64 <<< 1)
    (two : b ||| (1#64 <<< 2) = 1#64 <<< 2) : b = 0 := by
  have absorb : ∀ x : U64, b &&& (b ||| x) = b := by
    intro x
    ext i
    simp
    tauto
  have first := absorb (1#64 <<< 1)
  have second := absorb (1#64 <<< 2)
  rw [one] at first
  rw [two, ← first, BitVec.and_assoc] at second
  rw [← first, ← second]
  simp

/-- A provisioned channel treats its source as a fresh one does exactly if no packet is marked in
the bitmap that it was left with. -/
theorem provisioned_fresh_iff (s : State) (memory : Fin 16 → U32) {cna : U32}
    (source : cna.toNat < 2 ^ 24) (rol : U64) {ooo : U64} (selective : ooo.setWidth 8 ≠ 0#8) :
    (∀ packets : List Packet, (∀ p ∈ packets, scna.get p.head = cna) →
      treatment (provision s cna rol ooo) packets =
        treatment (provision (init memory) cna rol ooo) packets) ↔
      (s.rxchan (idx cna)).bitmap = 0 := by
  constructor
  · intro alike
    have answers : ∀ psn : U32, psn = 1 ∨ psn = 2 →
        (s.rxchan (idx cna)).bitmap ||| (1#64 <<< psn.toNat) = 1#64 <<< psn.toNat := by
      intro psn ahead
      have same := alike [probe cna psn] (by simpa using scna_probe source)
      have acked := congrArg (List.map Flit.lane3) (Prod.mk.inj (List.cons.inj same).1).2
      rw [acknowledged_probe source s rol selective ahead,
        acknowledged_probe source (init memory) rol selective ahead] at acked
      simpa [init] using acked
    exact eq_zero_of_or (answers 1 (.inl rfl)) (answers 2 (.inr rfl))
  · intro clear packets sender
    apply treatment_congr sender
    simp only [provision, update_self, erase, clear]
    rfl

theorem provisioned_fresh_iff_init :
    treatment (provision (init fun _ => 0) 1 0 1) [probe 1 0, probe 1 1] =
      treatment (provision (init fun _ => 7) 1 0 1) [probe 1 0, probe 1 1] :=
  (provisioned_fresh_iff (init fun _ => 0) (fun _ => 7) (by decide) 0 (by decide)).mpr rfl _
    (by decide)

/-- Packet 1 has been lost before the channel is provisioned again; afterwards number 1 is taken
for received. -/
theorem not_fresh_afterLoss :
    let earlier := step.final (init fun _ => 0) ((probe 1 0).flits ++ (probe 1 2).flits)
    (treatment (provision earlier 1 0 1) [probe 1 0, probe 1 1]).map Prod.fst =
        [(probe 1 0).flits, []] ∧
      (treatment (provision (init fun _ => 0) 1 0 1) [probe 1 0, probe 1 1]).map Prod.fst =
        [(probe 1 0).flits, (probe 1 1).flits] := by
  decide +kernel

end OpenURMA.TpChannelRx
