import OpenURMA.Transport.ChannelRx

/-!
# The receive window of a channel

The channel record of `UB_TPChannel_RX` implements a sliding window over unbounded
sequence numbers, of which it sees the low 24 bits, as long as arrivals stay within half
the PSN space of the expected number.
-/

namespace OpenURMA.TpChannelRx

open Library Receiver BitVec Bool Finset

theorem toNat_and_psnMask (x : U32) : (x &&& 0xFFFFFF).toNat = x.toNat % 2 ^ 24 := by
  rw [show (0xFFFFFF : U32) = BitField.mask 32 24 by decide, BitField.toNat_and_mask (by omega)]

variable {psn : U32} {epsn : U32}

theorem toNat_psnDiff {s n : ℕ} (stamped : psn.toNat = s % 2 ^ 24)
    (expected : epsn.toNat = n % 2 ^ 24) :
    ((psn - epsn) &&& 0xFFFFFF).toNat = (2 ^ 24 - n % 2 ^ 24 + s) % 2 ^ 24 := by
  rw [toNat_and_psnMask, toNat_sub, stamped, expected]
  omega

theorem and_signBit {x : U32} (narrow : x.toNat < 2 ^ 24) :
    (x &&& 0x800000 != 0) = decide (2 ^ 23 ≤ x.toNat) := by
  have bit : (x &&& 0x800000 != 0) = x.getLsbD 23 := by
    rw [show (0x800000 : U32) = twoPow 32 23 by decide, and_twoPow]
    cases x.getLsbD 23 <;> rfl
  rw [bit, getLsbD, Nat.testBit_eq_decide_div_mod_eq]
  congr 1
  apply propext
  omega

theorem signedDiff_ahead {n d : ℕ} (near : d < 2 ^ 23)
    (stamped : psn.toNat = (n + d) % 2 ^ 24) (expected : epsn.toNat = n % 2 ^ 24) :
    (signedDiff psn epsn).toNat = d := by
  have low := toNat_psnDiff stamped expected
  have distance : ((psn - epsn) &&& 0xFFFFFF).toNat = d := by omega
  rw [signedDiff, and_signBit (by omega), distance, if_neg (by simpa using near)]
  exact distance

theorem signedDiff_behind {s d : ℕ} (behind : 0 < d) (near : d ≤ 2 ^ 23)
    (stamped : psn.toNat = s % 2 ^ 24) (expected : epsn.toNat = (s + d) % 2 ^ 24) :
    BitVec.slt (signedDiff psn epsn) 0 = true := by
  have low := toNat_psnDiff stamped expected
  have distance : ((psn - epsn) &&& 0xFFFFFF).toNat = 2 ^ 24 - d := by omega
  have extended : signedDiff psn epsn = ((psn - epsn) &&& 0xFFFFFF) ||| 0xFF000000 := by
    rw [signedDiff, and_signBit (by omega), distance, if_pos (by simp; omega)]
  change BitVec.slt _ 0#32 = true
  rw [extended, slt_zero_eq_msb, msb_or, show (0xFF000000 : U32).msb = true by
    decide, Bool.or_true]

/-- The channel expects the number `n` and marks the numbers of `got` above it. -/
structure Aligned (c : RxChan) (n : ℕ) (got : Finset ℕ) : Prop where
  epsn : c.epsn.toNat = n % 2 ^ 24
  basePsn : c.basePsn = c.epsn
  bitmap : ∀ i < 64, c.bitmap.getLsbD i = decide (n + i ∈ got)

def Refines (c : RxChan) (r : Receiver 64) : Prop := Aligned c r.next r.got

section

variable {c : RxChan} {n : ℕ} {got : Finset ℕ}

theorem slideGuard_eq (aligned : Aligned c n got) : slideGuard c = decide (n ∈ got) := by
  have bit : slideGuard c = c.bitmap.getLsbD 0 := by
    rw [slideGuard, show (1 : U64) = twoPow 64 0 by decide, and_twoPow]
    cases c.bitmap.getLsbD 0 <;> rfl
  rw [bit, aligned.bitmap 0 (by omega), Nat.add_zero]

theorem aligned_slideBody (aligned : Aligned c n got) (covered : n + 64 ∉ got) :
    Aligned (slideBody c) (n + 1) got where
  epsn := by
    have expected := aligned.epsn
    change ((c.epsn + 1) &&& 0xFFFFFF).toNat = _
    rw [toNat_and_psnMask, toNat_add, expected]
    change (n % 2 ^ 24 + 1) % 2 ^ 32 % 2 ^ 24 = _
    omega
  basePsn := rfl
  bitmap i inside := by
    change (c.bitmap >>> 1).getLsbD i = _
    rw [getLsbD_ushiftRight, show n + 1 + i = n + (1 + i) by omega]
    by_cases last : 1 + i < 64
    · exact aligned.bitmap (1 + i) last
    · rw [getLsbD_of_ge _ _ (by omega), show 1 + i = 64 by omega]
      simpa using covered

theorem slide_runs {c : RxChan} {n : ℕ} (aligned : Aligned c n got)
    (covered : ∀ k, n + 64 ≤ k → k ∉ got) :
    ∃ c', Runs slideGuard slideBody c (firstMissing got n - n) c' ∧
      Aligned c' (firstMissing got n) got := by
  by_cases present : n ∈ got
  · have forward := @le_firstMissing got (n + 1)
    have next := aligned_slideBody aligned (covered (n + 64) le_rfl)
    obtain ⟨c', runs, aligned'⟩ := slide_runs next (fun k beyond => covered k (by omega))
    rw [firstMissing_of_mem present]
    refine ⟨c', ?_, aligned'⟩
    rw [show firstMissing got (n + 1) - n = firstMissing got (n + 1) - (n + 1) + 1 by omega]
    exact runs.succ (by rw [slideGuard_eq aligned, decide_eq_true present])
  · rw [firstMissing_of_notMem present, Nat.sub_self]
    exact ⟨c, .of_stopped (by rw [slideGuard_eq aligned, decide_eq_false present]), aligned⟩
termination_by firstMissing got n - n
decreasing_by
  have same := firstMissing_of_mem present
  omega

end

theorem aligned_noteMax {c : RxChan} {n : ℕ} {got : Finset ℕ} (aligned : Aligned c n got)
    (psn : U32) : Aligned (noteMax psn c) n got := by
  unfold noteMax
  split
  · exact ⟨aligned.epsn, aligned.basePsn, aligned.bitmap⟩
  · exact aligned

def flagsOf : Verdict → Flags
  | .inOrder => { inWindow := true }
  | .ahead => { inWindow := true, isOoo := true }
  | .behind => { isDup := true }
  | .beyond => {}

/-- An arrival stays within half the PSN space of the expected number. -/
def Near (n s : ℕ) : Prop := s ≤ n + 2 ^ 23 ∧ n ≤ s + 2 ^ 23
deriving Decidable

variable {c : RxChan} {r : Receiver 64} {s : ℕ}

theorem advance_runs (refines : Refines c r) :
    ∃ rounds ≤ 64, ∃ c', Runs slideGuard slideBody (slideBody c) rounds c' ∧
      Refines c' r.advance := by
  have covered : ∀ k, r.next + 64 ≤ k → k ∉ r.got := fun k beyond member => by
    have := r.bounded k member
    omega
  have shifted := aligned_slideBody refines (covered _ le_rfl)
  have inserted : Aligned (slideBody c) (r.next + 1) (insert r.next r.got) := by
    refine ⟨shifted.epsn, shifted.basePsn, fun i inside => ?_⟩
    have other : r.next + 1 + i ≠ r.next := by omega
    simp [shifted.bitmap i inside, other]
  have covered' : ∀ k, r.next + 1 + 64 ≤ k → k ∉ insert r.next r.got := fun k beyond member => by
    rcases mem_insert.mp member with rfl | member
    · omega
    · exact covered k (by omega) member
  obtain ⟨c', runs, aligned⟩ := slide_runs inserted covered'
  refine ⟨_, ?_, c', runs, aligned⟩
  have stop : firstMissing (insert r.next r.got) (r.next + 1) ≤ r.next + 64 := by
    by_contra beyond
    have member := mem_of_lt_firstMissing (n := r.next + 64)
      (show r.next + 1 ≤ r.next + 64 by omega) (not_le.mp beyond)
    rcases mem_insert.mp member with same | member
    · omega
    · exact covered _ le_rfl member
  omega

theorem receivePsn_behind {d : ℕ} (behind : 0 < d) (near : d ≤ 2 ^ 23)
    (stamped : psn.toNat = s % 2 ^ 24) (expected : c.epsn.toNat = (s + d) % 2 ^ 24) :
    receivePsn c psn = (c, flagsOf .behind) := by
  have negative : BitVec.slt (signedDiff psn c.epsn) 0 = true :=
    signedDiff_behind behind near stamped expected
  have nonzero : (signedDiff psn c.epsn == 0) = false := by
    rw [beq_eq_false_iff_ne]
    intro zero
    rw [zero] at negative
    revert negative
    decide
  have notPositive : BitVec.slt 0 (signedDiff psn c.epsn) = false := by
    rw [slt_eq_decide] at negative ⊢
    simp only [decide_eq_true_eq, decide_eq_false_iff_not] at negative ⊢
    omega
  simp only [receivePsn, nonzero, notPositive, negative, false_eq_true, if_false,
    Bool.false_and, if_true, flagsOf]

theorem receivePsn_inOrder (refines : Refines c r) (stamped : psn.toNat = r.next % 2 ^ 24) :
    (receivePsn c psn).2 = flagsOf .inOrder ∧ Refines (receivePsn c psn).1 r.advance := by
  have zero : signedDiff psn c.epsn = 0 := by
    apply eq_of_toNat_eq
    exact signedDiff_ahead (n := r.next) (d := 0) (by omega) stamped refines.epsn
  obtain ⟨rounds, bound, c', runs, advanced⟩ := advance_runs refines
  simp only [receivePsn, zero, BEq.rfl, if_true, runs.whileUpTo_eq bound]
  exact ⟨rfl, aligned_noteMax advanced psn⟩

theorem receivePsn_ahead (refines : Refines c r) (enabled : c.oooEnabled ≠ 0)
    (stamped : psn.toNat = s % 2 ^ 24) (after : r.next < s) (near : s < r.next + 2 ^ 23) :
    (s < r.next + 64 → (receivePsn c psn).2 = flagsOf .ahead ∧
      Aligned (receivePsn c psn).1 r.next (insert s r.got)) ∧
    (r.next + 64 ≤ s → receivePsn c psn = (noteMax psn c, flagsOf .beyond)) := by
  have distance : (signedDiff psn c.epsn).toNat = s - r.next :=
    signedDiff_ahead (n := r.next) (by omega)
      (by rw [stamped, Nat.add_sub_cancel' after.le]) refines.epsn
  have nonzero : (signedDiff psn c.epsn == 0) = false := by
    rw [beq_eq_false_iff_ne]
    intro zero
    rw [zero] at distance
    change 0 = _ at distance
    omega
  have positive : BitVec.slt 0 (signedDiff psn c.epsn) = true := by
    have value : (signedDiff psn c.epsn).toInt = (s - r.next : ℕ) := by
      rw [toInt_eq_toNat_of_lt (by omega), distance]
    rw [slt_eq_decide, decide_eq_true_eq, value]
    change (0 : Int) < _
    omega
  have allowed : (c.oooEnabled != 0) = true := by simpa using enabled
  constructor
  · intro inside
    have call : receivePsn c psn = (noteMax psn
        { c with bitmap := c.bitmap ||| (1#64 <<< (s - r.next)) }, flagsOf .ahead) := by
      rw [receivePsn]
      simp only [nonzero, positive, allowed, distance, false_eq_true, if_false,
        Bool.and_self, if_true]
      rw [if_pos (by omega)]
      rfl
    rw [call]
    refine ⟨rfl, ?_⟩
    apply aligned_noteMax
    refine ⟨refines.epsn, refines.basePsn, fun i small => ?_⟩
    change (c.bitmap ||| (1#64 <<< (s - r.next))).getLsbD i = _
    rw [getLsbD_or, refines.bitmap i small, ← twoPow_eq, getLsbD_twoPow]
    by_cases here : i = s - r.next
    · have number : r.next + i = s := by omega
      rw [number, decide_eq_true (mem_insert_self s r.got),
        decide_eq_true (show s - r.next < 64 by omega), decide_eq_true here.symm,
        Bool.and_self, Bool.or_true]
    · have number : r.next + i ≠ s := by omega
      simp [number, Ne.symm here]
  · intro outside
    rw [receivePsn]
    simp only [nonzero, positive, allowed, distance, false_eq_true, if_false,
      Bool.and_self, if_true]
    rw [if_neg (by omega)]
    rfl

/-- How the code sees an arrival: exactly half the PSN space ahead looks like behind. -/
def seenAs (r : Receiver 64) (s : ℕ) : Verdict :=
  if s = r.next + 2 ^ 23 then .behind else r.verdict s

theorem accepts_seenAs (r : Receiver 64) (s : ℕ) :
    (seenAs r s).accepts = (r.verdict s).accepts := by
  unfold seenAs
  split
  · next half => rw [verdict_beyond (by omega)]; rfl
  · rfl

theorem receivePsn_refines (refines : Refines c r) (enabled : c.oooEnabled ≠ 0)
    (stamped : psn.toNat = s % 2 ^ 24) (near : Near r.next s) :
    (receivePsn c psn).2 = flagsOf (seenAs r s) ∧ Refines (receivePsn c psn).1 (r.arrive s) := by
  by_cases half : s = r.next + 2 ^ 23
  · have expected : c.epsn.toNat = (s + 2 ^ 23) % 2 ^ 24 := by
      rw [refines.epsn]
      omega
    rw [seenAs, if_pos half, receivePsn_behind (by omega) le_rfl stamped expected,
      arrive_refused (.inr (by omega))]
    exact ⟨rfl, refines⟩
  rw [seenAs, if_neg half]
  rcases Nat.lt_trichotomy s r.next with before | rfl | after
  · have expected : c.epsn.toNat = (s + (r.next - s)) % 2 ^ 24 := by
      rw [refines.epsn, Nat.add_sub_cancel' before.le]
    rw [verdict_behind before,
      receivePsn_behind (by omega) (by have := near.2; omega) stamped expected,
      arrive_refused (.inl before)]
    exact ⟨rfl, refines⟩
  · rw [verdict_next, arrive_inOrder]
    exact receivePsn_inOrder refines stamped
  · obtain ⟨marked, refused⟩ :=
        receivePsn_ahead refines enabled stamped after (by have := near.1; omega)
    by_cases inside : s < r.next + 64
    · rw [verdict_ahead after inside, arrive_ahead after inside]
      exact marked inside
    · rw [verdict_beyond (by omega), refused (by omega), arrive_refused (.inr (by omega))]
      exact ⟨rfl, aligned_noteMax refines psn⟩

end OpenURMA.TpChannelRx
