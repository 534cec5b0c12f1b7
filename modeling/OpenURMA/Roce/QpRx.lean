import OpenURMA.Transport.Window

/-!
# `RoCE_QP_RX`, the go-back-N receiver

A queue pair takes the PSN of its first packet and from then on only the next one in sequence.
What is behind is acknowledged again, what is ahead is refused.  That packets are passed whole and
in sequence, whatever is lost, repeated or reordered, is shown against a receiver that has nothing
but the packets it has passed.
-/

namespace OpenURMA.Roce.QpRx

open Library RoceMeta Function Ports Packet List BitVec Nat Option
open TpChannelRx (signedDiff signedDiff_ahead signedDiff_behind toNat_and_psnMask)

structure Qp where
  localQpn : U32
  epsn : U32
  emsn : U32
  valid : Bool
  deriving Inhabited

structure State where
  qp : Fin 16 → Qp
  inWindow : Bool
  isDup : Bool
  deriving Inhabited

def init (memory : State) : State :=
  { memory with qp := fun i => { memory.qp i with valid := false } }

def openQp (q : Qp) (qpn psn : U32) : Qp := if !q.valid then ⟨qpn, psn, 0, true⟩ else q

def receivePsn (q : Qp) (psn : U32) : Qp × Bool × Bool :=
  let diff := signedDiff psn q.epsn
  if diff == 0 then
    ({ q with epsn := (q.epsn + 1) &&& 0xFFFFFF, emsn := q.emsn + 1 }, true, false)
  else (q, false, BitVec.slt diff 0)

def descriptor (qpn psn : U32) (ok : Bool) : Flit where
  lane0 := qpn.setWidth 64
  lane1 := psn.setWidth 64
  lane2 := 0x11
  lane3 := if ok then 0x00 else 0x60
  sop := true
  eop := true

def takeMeta (s : State) (f : Flit) : State × Flit :=
  let qpn := destQp.get f
  let (q, inWindow, isDup) := receivePsn (openQp (s.qp (idx qpn)) qpn (psn.get f)) (psn.get f)
  (⟨update s.qp (idx qpn) q, inWindow, isDup⟩,
    descriptor qpn ((q.epsn - 1) &&& 0xFFFFFF) (inWindow || isDup))

def step : Mealy State Flit (Ports Flit) := fun s f =>
  if f.sop then
    let taken := takeMeta s f
    (taken.1, if taken.1.inWindow then put 1 f (emit 2 taken.2) else emit 2 taken.2)
  else (s, if s.inWindow then emit 1 f else silent)

theorem gated : Gated step State.inWindow := by
  intro s f inner
  simp [step, inner]

abbrev qpnOf (p : Packet) : U32 := destQp.get p.head

abbrev psnOf (p : Packet) : U32 := psn.get p.head

/-- The packet of a queue pair that was passed last; `past` has the latest packet first. -/
def lastOf (past : List Packet) (qpn : U32) : Option Packet := past.find? (qpnOf · == qpn)

/-- How far a PSN is ahead of the one that follows the packet passed last. -/
def lead (past : List Packet) (p : Packet) : ℕ :=
  match lastOf past (qpnOf p) with
  | none => 0
  | some last => ((psnOf p).toNat + 2 ^ 24 - ((psnOf last).toNat + 1)) % 2 ^ 24

/-- A receiver that passes the next packet in sequence, refuses those ahead, and reports the PSN
passed last. -/
def goBackN : Mealy (List Packet) Packet (List Flit × Flit) := fun past p =>
  let past' := if lead past p = 0 then p :: past else past
  (past', if lead past p = 0 then p.flits else [],
    descriptor (qpnOf p) ((lastOf past' (qpnOf p)).elim 0 psnOf)
      (lead past p = 0 || 2 ^ 23 ≤ lead past p))

theorem psnOf_lt (p : Packet) : (psnOf p).toNat < 2 ^ 24 := by
  rw [psnOf, ← Field.get_and_mask psn (le_refl 24) p.head, BitField.toNat_and_mask (by omega)]
  exact mod_lt _ (by decide)

theorem receivePsn_eq {q : Qp} {psn : U32} {d : ℕ} (small : d < 2 ^ 24)
    (expected : q.epsn.toNat < 2 ^ 24) (stamped : psn.toNat = (q.epsn.toNat + d) % 2 ^ 24) :
    receivePsn q psn =
      if d = 0 then ({ q with epsn := (q.epsn + 1) &&& 0xFFFFFF, emsn := q.emsn + 1 }, true, false)
      else (q, false, 2 ^ 23 ≤ d) := by
  have low : q.epsn.toNat = q.epsn.toNat % 2 ^ 24 := (mod_eq_of_lt expected).symm
  rw [receivePsn]
  rcases lt_or_ge d (2 ^ 23) with near | far
  · have distance := signedDiff_ahead near stamped low
    have zero : signedDiff psn q.epsn = 0 ↔ d = 0 := by
      rw [← toNat_inj, distance]
      rfl
    have positive : BitVec.slt (signedDiff psn q.epsn) 0#32 = false := by
      rw [slt_zero_eq_msb, msb_eq_false_iff_two_mul_lt, distance]
      omega
    simp only [beq_iff_eq, zero]
    split
    · rfl
    · rw [decide_eq_false (not_le.mpr near)]
      exact congrArg (q, false, ·) positive
  · have behind : BitVec.slt (signedDiff psn q.epsn) 0 = true :=
      signedDiff_behind (s := q.epsn.toNat + d) (d := 2 ^ 24 - d) (by omega) (by omega) stamped
        (by omega)
    have other : signedDiff psn q.epsn ≠ 0 := by
      intro zero
      rw [zero] at behind
      exact absurd behind (by decide)
    simp only [beq_iff_eq, other, if_false, if_neg (show ¬d = 0 by omega), behind]
    rw [decide_eq_true far]

/-- The record of a queue pair expects what follows the packet passed last. -/
def Tracks (known : U32 → Prop) (s : State) (past : List Packet) : Prop :=
  ∀ qpn, known qpn →
    match lastOf past qpn with
    | none => (s.qp (idx qpn)).valid = false
    | some last => (s.qp (idx qpn)).valid = true ∧
        (s.qp (idx qpn)).epsn.toNat = ((psnOf last).toNat + 1) % 2 ^ 24

theorem pred_succ {e : U32} (small : e.toNat < 2 ^ 24) :
    (((e + 1) &&& 0xFFFFFF) - 1) &&& 0xFFFFFF = e := by
  apply eq_of_toNat_eq
  rw [toNat_and_psnMask, toNat_sub, toNat_and_psnMask, toNat_add]
  change (2 ^ 32 - 1 + (_ + 1) % 2 ^ 32 % 2 ^ 24) % 2 ^ 32 % 2 ^ 24 = _
  omega

section

variable {known : U32 → Prop} {s : State} {past : List Packet} {p : Packet}

theorem lead_lt : lead past p < 2 ^ 24 := by
  unfold lead
  split <;> omega

theorem Tracks.opened (tracks : Tracks known s past) (own : known (qpnOf p)) :
    let q := openQp (s.qp (idx (qpnOf p))) (qpnOf p) (psnOf p)
    q.valid = true ∧ q.epsn.toNat < 2 ^ 24 ∧
      (psnOf p).toNat = (q.epsn.toNat + lead past p) % 2 ^ 24 ∧
      ∀ last, lastOf past (qpnOf p) = some last →
        q.epsn.toNat = ((psnOf last).toNat + 1) % 2 ^ 24 := by
  have state := tracks _ own
  have bound := psnOf_lt p
  unfold lead openQp
  cases found : lastOf past (qpnOf p) with
  | none =>
    rw [found] at state
    simp only [state, Bool.not_false, if_true, add_zero, reduceCtorEq, false_implies,
      implies_true, and_true, true_and]
    exact ⟨bound, (mod_eq_of_lt bound).symm⟩
  | some last =>
    rw [found] at state
    have bound' := psnOf_lt last
    simp only [state.1, Bool.not_true, Bool.false_eq_true, if_false, state.2]
    refine ⟨trivial, by omega, by omega, ?_⟩
    rintro _ ⟨⟩
    rfl

theorem lastOf_cons : lastOf (p :: past) (qpnOf p) = some p :=
  find?_cons_of_pos (by simp)

theorem lastOf_cons_of_ne {qpn : U32} (other : qpnOf p ≠ qpn) :
    lastOf (p :: past) qpn = lastOf past qpn :=
  find?_cons_of_neg (by simpa using other)

theorem Tracks.packet (tracks : Tracks known s past) (own : known (qpnOf p))
    (apart : ∀ qpn, known qpn → idx qpn = idx (qpnOf p) → qpn = qpnOf p) :
    Tracks known (step.final s p.flits) (goBackN past p).1 ∧
      Ports.sent 1 (step.trace s p.flits) = (goBackN past p).2.1 ∧
      Ports.sent 2 (step.trace s p.flits) = [(goBackN past p).2.2] := by
  obtain ⟨valid, small, stamped, expected⟩ := tracks.opened own
  obtain ⟨final, passed, acked⟩ := gated.packet s p
  have verdict := receivePsn_eq lead_lt small stamped
  have head : step s p.head = ((takeMeta s p.head).1,
      if (takeMeta s p.head).1.inWindow then put 1 p.head (emit 2 (takeMeta s p.head).2)
      else emit 2 (takeMeta s p.head).2) := if_pos p.sop_head
  have others (q : Qp) {qpn : U32} (wanted : known qpn) (other : qpn ≠ qpnOf p) :
      update s.qp (idx (qpnOf p)) q (idx qpn) = s.qp (idx qpn) :=
    update_of_ne (fun same => other (apart qpn wanted same)) ..
  rw [final, passed, acked, head]
  simp only [takeMeta, goBackN, verdict]
  by_cases next : lead past p = 0
  · have same : psnOf p = (openQp (s.qp (idx (qpnOf p))) (qpnOf p) (psnOf p)).epsn := by
      apply eq_of_toNat_eq
      rw [stamped, next, add_zero, mod_eq_of_lt small]
    simp only [next, if_true, decide_true, Bool.true_or]
    refine ⟨fun qpn wanted => ?_, by simp [flits], ?_⟩
    · by_cases here : qpn = qpnOf p
      · subst here
        rw [lastOf_cons]
        simp only [update_self, toNat_and_psnMask, valid, true_and]
        rw [← same, toNat_add]
        exact mod_mod_of_dvd _ (by decide)
      · rw [lastOf_cons_of_ne (Ne.symm here)]
        simpa only [others _ wanted here] using tracks qpn wanted
    · rw [lastOf_cons, elim_some, ← same, pred_succ (psnOf_lt p)]
      simp
  · obtain ⟨last, found⟩ : ∃ last, lastOf past (qpnOf p) = some last := by
      rw [← ne_none_iff_exists']
      intro none
      simp [lead, none] at next
    have before : ((openQp (s.qp (idx (qpnOf p))) (qpnOf p) (psnOf p)).epsn - 1) &&& 0xFFFFFF =
        psnOf last := by
      apply eq_of_toNat_eq
      have bound := psnOf_lt last
      rw [toNat_and_psnMask, toNat_sub, expected last found]
      change (2 ^ 32 - 1 + _) % 2 ^ 32 % _ = _
      omega
    have unopened : openQp (s.qp (idx (qpnOf p))) (qpnOf p) (psnOf p) = s.qp (idx (qpnOf p)) := by
      have state := tracks _ own
      rw [found] at state
      simp [openQp, state.1]
    simp only [next, if_false, decide_false, Bool.false_or, before, found, elim_some]
    refine ⟨?_, by simp, by simp⟩
    rw [unopened, update_eq_self]
    exact tracks

theorem Tracks.run (tracks : Tracks known s past) {packets : List Packet}
    (own : ∀ p ∈ packets, known (qpnOf p))
    (apart : ∀ p ∈ packets, ∀ qpn, known qpn → idx qpn = idx (qpnOf p) → qpn = qpnOf p) :
    Ports.sent 1 (step.trace s (packets.flatMap flits)) =
      (goBackN.trace past packets).flatMap Prod.fst ∧
      Ports.sent 2 (step.trace s (packets.flatMap flits)) =
        (goBackN.trace past packets).map Prod.snd := by
  induction packets generalizing s past with
  | nil => exact ⟨rfl, rfl⟩
  | cons p packets ih =>
    rw [forall_mem_cons] at own apart
    obtain ⟨next, passed, acked⟩ := tracks.packet own.1 apart.1
    obtain ⟨passed', acked'⟩ := ih next own.2 apart.2
    rw [flatMap_cons, Mealy.trace_append, Ports.sent_append, Ports.sent_append, passed, acked,
      passed', acked']
    exact ⟨rfl, rfl⟩

end

def passed (past : List Packet) : List Packet → List Packet
  | [] => []
  | p :: packets =>
    if lead past p = 0 then p :: passed (p :: past) packets else passed past packets

def psnsOf (qpn : U32) (packets : List Packet) : List ℕ :=
  (packets.filter (qpnOf · == qpn)).map fun p => (psnOf p).toNat

def Consecutive (first : ℕ) : List ℕ → Prop
  | [] => True
  | n :: rest => n = first % 2 ^ 24 ∧ Consecutive (n + 1) rest

section

variable {past packets : List Packet} {qpn : U32}

theorem passed_sublist (past packets : List Packet) : (passed past packets).Sublist packets := by
  induction packets generalizing past with
  | nil => exact .slnil
  | cons p packets ih =>
    rw [passed]
    split
    · exact (ih _).cons_cons p
    · exact (ih _).cons p

theorem flatMap_goBackN (past packets : List Packet) :
    (goBackN.trace past packets).flatMap Prod.fst = (passed past packets).flatMap flits := by
  induction packets generalizing past with
  | nil => rfl
  | cons p packets ih =>
    rw [Mealy.trace_cons, flatMap_cons, ih, passed, goBackN]
    split <;> rfl

theorem final_goBackN (past packets : List Packet) :
    goBackN.final past packets = (passed past packets).reverse ++ past := by
  induction packets generalizing past with
  | nil => rfl
  | cons p packets ih =>
    rw [Mealy.final_cons, ih, passed, goBackN]
    split <;> simp

theorem psnsOf_cons_of_ne {p : Packet} (other : qpnOf p ≠ qpn) :
    psnsOf qpn (p :: packets) = psnsOf qpn packets := by
  rw [psnsOf, filter_cons_of_neg (by simpa using other)]
  rfl

theorem psnsOf_cons (p : Packet) :
    psnsOf (qpnOf p) (p :: packets) = (psnOf p).toNat :: psnsOf (qpnOf p) packets := by
  rw [psnsOf, filter_cons_of_pos (by simp)]
  rfl

theorem consecutive_passed {last : Packet} (found : lastOf past qpn = some last) :
    Consecutive ((psnOf last).toNat + 1) (psnsOf qpn (passed past packets)) := by
  induction packets generalizing past last with
  | nil => trivial
  | cons p packets ih =>
    rw [passed]
    by_cases same : qpnOf p = qpn
    · subst same
      split
      · next zero =>
        rw [psnsOf_cons]
        refine ⟨?_, ih lastOf_cons⟩
        have bound := psnOf_lt p
        have bound' := psnOf_lt last
        simp only [lead, found] at zero
        omega
      · exact ih found
    · split
      · rw [psnsOf_cons_of_ne same]
        exact ih ((lastOf_cons_of_ne same).trans found)
      · exact ih found

theorem consecutive_first {first : Packet} (none : lastOf past qpn = none)
    (found : packets.find? (qpnOf · == qpn) = some first) :
    ∃ rest, psnsOf qpn (passed past packets) = (psnOf first).toNat :: rest ∧
      Consecutive ((psnOf first).toNat + 1) rest := by
  induction packets generalizing past with
  | nil => cases found
  | cons p packets ih =>
    rw [passed]
    by_cases same : qpnOf p = qpn
    · subst same
      obtain rfl : p = first := by simpa using found
      rw [if_pos (by simp [lead, none]), psnsOf_cons]
      exact ⟨_, rfl, consecutive_passed lastOf_cons⟩
    · rw [find?_cons_of_neg (by simpa using same)] at found
      split
      · rw [psnsOf_cons_of_ne same]
        exact ih ((lastOf_cons_of_ne same).trans none) found
      · exact ih none found

end

/-- The element passes whole packets, for every queue pair those with consecutive PSNs from its
first one on, and its descriptors are those of `goBackN`. -/
theorem go_back_n (memory : State) (packets : List Packet)
    (distinct : ∀ p ∈ packets, ∀ r ∈ packets, idx (qpnOf p) = idx (qpnOf r) → qpnOf p = qpnOf r) :
    Ports.sent 1 (step.trace (init memory) (packets.flatMap flits)) =
      (passed [] packets).flatMap flits ∧
      (passed [] packets).Sublist packets ∧
      (∀ qpn first, packets.find? (qpnOf · == qpn) = some first →
        ∃ rest, psnsOf qpn (passed [] packets) = (psnOf first).toNat :: rest ∧
          Consecutive ((psnOf first).toNat + 1) rest) ∧
      Ports.sent 2 (step.trace (init memory) (packets.flatMap flits)) =
        (goBackN.trace [] packets).map Prod.snd ∧
      ∀ before, goBackN.final [] before = (passed [] before).reverse := by
  have tracks : Tracks (fun qpn => ∃ p ∈ packets, qpn = qpnOf p) (init memory) [] :=
    fun _ _ => rfl
  obtain ⟨flits, acks⟩ := tracks.run (fun p member => ⟨p, member, rfl⟩)
    (by rintro p member _ ⟨r, member', rfl⟩ same; exact distinct r member' p member same)
  refine ⟨flits.trans (flatMap_goBackN ..), passed_sublist .., fun qpn first => ?_, acks,
    fun before => ?_⟩
  · exact consecutive_first rfl
  · rw [final_goBackN, append_nil]

/-- Two queue pairs, a packet ahead of its turn and a repeated one. -/
def sampleArrivals : List Packet :=
  [(1, 5), (2, 9), (1, 7), (1, 6), (1, 5)].map fun (qpn, number) =>
    { head := psn.set number (destQp.set qpn { sop := true, eop := true })
      rest := []
      sop_head := by simp
      sop_rest := sop_nil
      eop_last := by simp [EopLast] }

theorem go_back_n_sampleArrivals : (passed [] sampleArrivals).map psnOf = [5, 9, 6] ∧
      Ports.sent 1 (step.trace (init default) (sampleArrivals.flatMap flits)) =
        (passed [] sampleArrivals).flatMap flits :=
  ⟨by decide, (go_back_n default sampleArrivals (by decide)).1⟩

end OpenURMA.Roce.QpRx
