import OpenURMA.Library.Run
import OpenURMA.Memory.AtomicCas

/-!
# The indices used on `hbm`

`UB_HBM_Write` and `UB_Atomic_CAS` compare the end of an access with the size of their memory,
in 64 bits.  An access that ends at 2^64 or beyond comes out small and is let through.
-/

namespace OpenURMA

open Library UbExt List Nat

def touched (off : U64) (count : Nat) : List Nat :=
  (range count).map fun i => (off + BitVec.ofNat 64 i).toNat

theorem touched_succ (off : U64) (count : Nat) :
    touched off (count + 1) = off.toNat :: touched (off + 1) count := by
  rw [touched, range_succ_eq_map, map_cons, map_map]
  congr 1
  · rw [BitVec.add_zero]
  · apply map_congr_left
    intro i _
    rw [Function.comp_apply, succ_eq_add_one, Nat.add_comm, BitVec.ofNat_add, ← BitVec.add_assoc]
    rfl

variable {off : U64}

/-- An access whose end passes the comparison is inside the memory exactly if its end does not
wrap around. -/
theorem touched_inside_iff {count : Nat} (short : count ≤ 32)
    (guard : (off.toNat + count) % 2 ^ 64 ≤ 65536) :
    (∀ index ∈ touched off count, index < 65536) ↔ off.toNat + count < 2 ^ 64 := by
  constructor
  · intro inside
    cases count with
    | zero => exact off.isLt
    | succ count =>
      have first : off.toNat < 65536 := inside off.toNat (by rw [touched_succ]; exact .head _)
      omega
  · intro noWrap index member
    rw [touched, mem_map] at member
    obtain ⟨i, low, rfl⟩ := member
    rw [mem_range] at low
    rw [mod_eq_of_lt noWrap] at guard
    rw [BitVec.toNat_add, BitVec.toNat_ofNat]
    omega

variable {index : Nat}

namespace HbmWrite

section

variable (s : State)

/-- The number of bytes that a payload flit brings. -/
def take : U32 := if s.curRemaining > 32 then 32 else s.curRemaining

variable (f : Flit)

/-- The store loop that a call runs, if any: the address of its first byte, and its bytes. -/
def stores : Option (U64 × List Byte) :=
  let off := address f
  let len := UbExt.length f
  if f.sop then none
  else if s.sawMeta && !s.sawExt then
    if f.eop && len ≤ 8 && off + len.setWidth 64 ≤ hbmSize then
      some (off, (range len.toNat).map fun i => octet (i * 8) (opData f))
    else none
  else if s.sawMeta && s.sawExt && s.curRemaining > 0 then
    if s.curAddr + (take s).setWidth 64 ≤ hbmSize then
      some (s.curAddr, (f.getData 32).take (take s).toNat)
    else none
  else none

theorem hbm_startWrite : (startWrite s f).hbm = if f.eop && UbExt.length f ≤ 8 &&
          address f + (UbExt.length f).setWidth 64 ≤ hbmSize then store s.hbm (address f)
          ((range (UbExt.length f).toNat).map fun i => octet (i * 8) (opData f)) else s.hbm := by
  unfold startWrite
  cases f.eop <;> rfl

theorem hbm_writePayload :
    (writePayload s f).hbm = if s.curAddr + (take s).setWidth 64 ≤ hbmSize then
        store s.hbm s.curAddr ((f.getData 32).take (take s).toNat) else s.hbm := by
  unfold writePayload
  cases f.eop <;> rfl

theorem hbm_step : (step s f).1.hbm =
      ((stores s f).map fun (off, octets) => store s.hbm off octets).getD s.hbm := by
  cases inner : f.sop with
  | true => simp [step, stores, inner]
  | false =>
    cases first : s.sawMeta && !s.sawExt with
    | true =>
      simp only [step, stores, inner, first, Bool.false_eq_true, if_false, if_true, hbm_startWrite]
      split <;> rfl
    | false =>
      cases more : s.sawMeta && s.sawExt && decide (s.curRemaining > 0) with
      | true =>
        simp only [step, stores, inner, first, more, Bool.false_eq_true, if_false, if_true,
          hbm_writePayload]
        split <;> rfl
      | false =>
        simp only [step, stores, inner, first, more, Bool.false_eq_true, if_false]
        rfl

def indices : List Nat :=
  ((stores s f).map fun (off, octets) => touched off octets.length).getD []

end

theorem store_of_not_mem {octets : List Byte} {hbm : Buffer}
    (other : index ∉ touched off octets.length) : store hbm off octets index = hbm index := by
  induction octets generalizing off hbm with
  | nil => rfl
  | cons byte octets ih =>
    rw [length_cons, touched_succ, mem_cons, not_or] at other
    rw [store, ih other.2, Function.update_of_ne other.1]

theorem hbm_step_of_not_mem {s : State} {f : Flit} (other : index ∉ indices s f) :
    (step s f).1.hbm index = s.hbm index := by
  rw [hbm_step]
  unfold indices at other
  cases loop : stores s f with
  | none => rfl
  | some access =>
    rw [loop] at other
    exact store_of_not_mem other

def NoWrap (s : State) (f : Flit) : Prop :=
  f.sop = false → s.sawMeta = true →
    if s.sawExt then s.curAddr.toNat + min 32 s.curRemaining.toNat < 2 ^ 64
    else f.eop = true → (UbExt.length f).toNat ≤ 8 →
      (address f).toNat + (UbExt.length f).toNat < 2 ^ 64

theorem toNat_take (s : State) : (take s).toNat = min 32 s.curRemaining.toNat := by
  have limit : (32 : U32).toNat = 32 := rfl
  simp only [take, gt_iff_lt, BitVec.lt_def]
  split <;> omega

theorem le_hbmSize_iff {len : U32} :
    off + len.setWidth 64 ≤ hbmSize ↔ (off.toNat + len.toNat) % 2 ^ 64 ≤ 65536 := by
  have small := len.isLt
  have wide : len.toNat % 2 ^ 64 = len.toNat := mod_eq_of_lt (by omega)
  rw [BitVec.le_def, BitVec.toNat_add, BitVec.toNat_setWidth, wide]
  rfl

theorem guarded_iff (off : U64) {len : U32} (short : len.toNat ≤ 32) {octets : List Byte}
    (size : octets.length = len.toNat) :
    (∀ index ∈ ((if off + len.setWidth 64 ≤ hbmSize then some (off, octets) else none).map
        fun (access : U64 × List Byte) => touched access.1 access.2.length).getD [],
      index < 65536) ↔ off.toNat + len.toNat < 2 ^ 64 := by
  by_cases passes : off + len.setWidth 64 ≤ hbmSize
  · rw [if_pos passes, Option.map_some, Option.getD_some, size]
    exact touched_inside_iff short (le_hbmSize_iff.mp passes)
  · rw [if_neg passes]
    rw [le_hbmSize_iff] at passes
    have small := off.isLt
    constructor
    · intro _
      omega
    · intro _ index member
      cases member

theorem indices_inside_iff (s : State) (f : Flit) :
    (∀ index ∈ indices s f, index < 65536) ↔ NoWrap s f := by
  cases inner : f.sop with
  | true => simp [indices, stores, NoWrap, inner]
  | false =>
    cases saw : s.sawMeta with
    | false => simp [indices, stores, NoWrap, inner, saw]
    | true =>
      cases ext : s.sawExt with
      | false =>
        by_cases short : f.eop = true ∧ (UbExt.length f).toNat ≤ 8
        · have small : UbExt.length f ≤ 8#32 := short.2
          have octets : ((range (UbExt.length f).toNat).map fun i =>
              octet (i * 8) (opData f)).length = (UbExt.length f).toNat := by simp
          have within := guarded_iff (address f) (by omega) octets
          simpa [indices, stores, NoWrap, inner, saw, ext, short, small] using within
        · have idle : (f.eop && decide (UbExt.length f ≤ 8)) = false := by
            rw [← Bool.not_eq_true, Bool.and_eq_true, decide_eq_true_eq]
            exact short
          simp only [indices, stores, NoWrap, inner, saw, ext, idle]
          simpa using fun last len => absurd ⟨last, len⟩ short
      | true =>
        by_cases some : s.curRemaining > 0
        · have octets : ((f.getData 32).take (take s).toNat).length = (take s).toNat := by
            rw [length_take, Flit.getData_length, toNat_take]
            omega
          have within := guarded_iff s.curAddr (by rw [toNat_take]; omega) octets
          have pending : 0#32 < s.curRemaining := some
          simpa [indices, stores, NoWrap, inner, saw, ext, pending, toNat_take] using within
        · have done : s.curRemaining.toNat = 0 := by
            rw [gt_iff_lt, BitVec.lt_def] at some
            exact Nat.eq_zero_of_not_pos some
          have zero : s.curRemaining = 0#32 := BitVec.eq_of_toNat_eq done
          have small := s.curAddr.isLt
          simp [indices, stores, NoWrap, inner, saw, ext, zero, small]

end HbmWrite

namespace AtomicCas

/-- The indices of `hbm` that a call uses, read and possibly written. -/
def indices (s : State) (f : Flit) : List Nat :=
  if !f.sop && s.sawMeta && accesses s f then touched (address f) 8 else []

def NoWrap (s : State) (f : Flit) : Prop :=
  f.sop = false → s.sawMeta = true → isAtomic s.curOp = true →
    (address f).toNat + 8 < 2 ^ 64

theorem hbm_step_of_not_mem {s : State} {f : Flit} (other : index ∉ indices s f) :
    (step s f).1.hbm index = s.hbm index := by
  cases inner : f.sop with
  | true => simp [step, inner]
  | false =>
    cases saw : s.sawMeta with
    | false => simp [step, inner, saw]
    | true =>
      cases inside : accesses s f with
      | false =>
        simp only [step, inner, saw, inside, Bool.false_eq_true, if_false, if_true]
        cases f.eop <;> rfl
      | true =>
        simp only [indices, inner, saw, inside] at other
        have same : modify s.curOp (address f) (opData f)
            ((tokenValue f).setWidth 64) s.hbm index = s.hbm index := by
          unfold modify
          cases result s.curOp (load s.hbm (address f)) (opData f)
              ((tokenValue f).setWidth 64) with
          | none => rfl
          | some word =>
            exact HbmWrite.store_of_not_mem (by rw [wordOctets_length]; exact other)
        rw [step_inner saw inner inside]
        cases f.eop <;> exact same

theorem indices_inside_iff (s : State) (f : Flit) :
    (∀ index ∈ indices s f, index < 65536) ↔ NoWrap s f := by
  have passes : address f + 8 ≤ hbmSize ↔ ((address f).toNat + 8) % 2 ^ 64 ≤ 65536 := by
    rw [BitVec.le_def, BitVec.toNat_add]
    rfl
  have small := (address f).isLt
  by_cases awaited : f.sop = false ∧ s.sawMeta = true ∧ isAtomic s.curOp = true
  · obtain ⟨inner, saw, atomic⟩ := awaited
    simp only [indices, NoWrap, accesses, inner, saw, atomic, Bool.not_false, Bool.true_and,
      decide_eq_true_eq, true_implies]
    split
    · next passed => exact touched_inside_iff (by omega) (passes.mp passed)
    · next refused =>
      rw [passes] at refused
      constructor
      · intro _
        omega
      · intro _ index member
        cases member
  · have idle : (!f.sop && s.sawMeta && accesses s f) = false := by
      rw [← Bool.not_eq_true]
      simp only [accesses, Bool.and_eq_true, Bool.not_eq_true']
      tauto
    rw [indices, idle]
    simpa [NoWrap] using fun inner saw atomic => absurd ⟨inner, saw, atomic⟩ awaited

end AtomicCas

/-- Every index used on `hbm` in a run of `UB_HBM_Write` is inside the memory exactly if no access
of the run wraps around, and the same for `UB_Atomic_CAS`. -/
theorem hbm_indices_inside_iff (w : HbmWrite.State) (a : AtomicCas.State) (flits : List Flit) :
    (Along HbmWrite.step.next (fun s f => ∀ index ∈ HbmWrite.indices s f, index < 65536) w flits ↔
        Along HbmWrite.step.next HbmWrite.NoWrap w flits) ∧
      (Along AtomicCas.step.next (fun s f => ∀ index ∈ AtomicCas.indices s f, index < 65536) a
          flits ↔ Along AtomicCas.step.next AtomicCas.NoWrap a flits) := by
  simp only [HbmWrite.indices_inside_iff, AtomicCas.indices_inside_iff, and_self]

/-- A request for the last 8 bytes of the address space. -/
def lastWord : List Flit :=
  [{ lane3 := 0x09, sop := true },
    { lane0 := 0xFFFFFFFFFFFFFFF8, lane1 := 8 <<< 32, lane3 := 1, eop := true }]

/-- Both elements take it for one inside their memory. -/
theorem lastWord_outside :
    ¬Along HbmWrite.step.next (fun s f => ∀ index ∈ HbmWrite.indices s f, index < 65536)
        HbmWrite.init lastWord ∧
      ¬Along AtomicCas.step.next (fun s f => ∀ index ∈ AtomicCas.indices s f, index < 65536)
        AtomicCas.init lastWord := by
  decide

end OpenURMA
