import OpenURMA.Library.Sequencer
import OpenURMA.Ordering.OrderTrackerTarget

/-!
# The transactions of one initiator in the service mode ROT

A flit carries only the low sixteen bits of the number of its transaction. Here every flit comes
with the whole number, which the element does not see (`sent_map`). As long as the numbers it
compares are less than 2^16 apart, the slot of the initiator works as a `Sequencer` does.
-/

namespace OpenURMA.OrderTrackerTarget

open Library Function Tracker Sequencer List
open Prod (fst snd)

abbrev Txn := Flit × ℕ

/-- The metadata flit of a transaction of initiator `r` in mode ROT. -/
def isMeta (r : U32) (f : Flit) : Bool := isRot f && UbMeta.iniRcId.get f == r

def isTxn (r : U32) (x : Txn) : Bool := isMeta r x.1

def kindOf (exec : U8) : Kind :=
  if exec = odrNo then .free else if exec = odrRo then .relaxed else .strict

def Txn.kind (x : Txn) : Kind := kindOf (UbMeta.odrExec.get x.1)

/-- The flit carries the low bits of the number and the tag that the transaction has. -/
def Genuine (kind : ℕ → Kind) (x : Txn) : Prop :=
  tassnOf fst x = BitVec.ofNat 16 x.2 ∧ x.kind = kind x.2
deriving Decidable

/-- The transactions of the initiator among flits. -/
def txns (r : U32) (xs : List Txn) : List Txn := xs.filter (isTxn r)

def numbers (r : U32) (xs : List Txn) : List ℕ := (txns r xs).map snd

/-- One above the number of the last RO or SO transaction among flits. -/
def following (r : U32) (xs : List Txn) : ℕ :=
  match ((txns r xs).filter (·.kind != .free)).getLast? with
  | none => 0
  | some x => x.2 + 1

/-- The sequencer that a slot and the flits sent so far stand for. -/
def Slot.sequencer (r : U32) (q : Slot Txn) (outs : List Txn) : Sequencer :=
  ⟨following r outs, q.deferred.map snd, numbers r outs⟩

/-- The transactions sent so far and those deferred. -/
def Slot.owned (r : U32) (q : Slot Txn) (outs : List Txn) : List Txn := txns r outs ++ q.deferred

section

variable {r : U32} {outs : List Txn} {x : Txn}

theorem isTxn_of_other (other : metaSlot x.1 ≠ iniSlot r) : isTxn r x = false := by
  rw [Bool.eq_false_iff]
  intro own
  rw [isTxn, isMeta, Bool.and_eq_true, beq_iff_eq] at own
  exact other (congrArg iniSlot own.2)

theorem isRot_of_isTxn (own : isTxn r x = true) : isRot x.1 = true ∧ metaSlot x.1 = iniSlot r := by
  rw [isTxn, isMeta, Bool.and_eq_true, beq_iff_eq] at own
  exact ⟨own.1, congrArg iniSlot own.2⟩

theorem sequencer_other (q : Slot Txn) (other : isTxn r x = false) :
    q.sequencer r (outs ++ [x]) = q.sequencer r outs := by
  simp [Slot.sequencer, following, numbers, txns, other]

theorem owned_other (q : Slot Txn) (other : isTxn r x = false) :
    q.owned r (outs ++ [x]) = q.owned r outs := by
  simp [Slot.owned, txns, other]

theorem owned_own (q : Slot Txn) (own : isTxn r x = true) :
    (q.owned r (outs ++ [x])).Perm (q.owned r outs ++ [x]) := by
  have split : txns r (outs ++ [x]) = txns r outs ++ [x] := by simp [txns, own]
  rw [Slot.owned, Slot.owned, split, append_assoc, append_assoc]
  exact perm_append_comm.append_left _

theorem sequencer_free (q : Slot Txn) (own : isTxn r x = true) (free : x.kind = .free) :
    q.sequencer r (outs ++ [x]) =
      { q.sequencer r outs with done := (q.sequencer r outs).done ++ [x.2] } := by
  simp [Slot.sequencer, following, numbers, txns, own, free]

theorem following_ordered (own : isTxn r x = true) (ordered : x.kind ≠ .free) :
    following r (outs ++ [x]) = x.2 + 1 := by
  simp [following, txns, own, ordered]

theorem sequencer_run (reg : U16) (q : Slot Txn) (own : isTxn r x = true)
    (ordered : x.kind ≠ .free) :
    (⟨reg, q.deferred⟩ : Slot Txn).sequencer r (outs ++ [x]) = (q.sequencer r outs).run x.2 := by
  simp only [Slot.sequencer, following_ordered own ordered, Sequencer.run]
  simp [numbers, txns, own]

end

/-- The numbers compared are less than 2^16 apart. -/
def Near (q : Sequencer) (n : ℕ) : Prop :=
  (n < q.next + 2 ^ 16 ∧ q.next < n + 2 ^ 16) ∧
    ∀ m ∈ q.waiting, n + 1 < m + 2 ^ 16 ∧ m + 1 < n + 2 ^ 16
deriving Decidable

variable {r : U32} {kind : ℕ → Kind} {q : Slot Txn} {outs : List Txn} {x : Txn}

/-- The register holds the number of the last RO or SO transaction, and the slot defers SO
transactions of the initiator. -/
structure Tracks (r : U32) (kind : ℕ → Kind) (q : Slot Txn) (outs : List Txn) : Prop where
  reg : q.reg + 1 = BitVec.ofNat 16 (following r outs)
  own : ∀ x ∈ q.deferred, isTxn r x = true ∧ Genuine kind x ∧ kind x.2 = .strict
  near : ∀ x ∈ q.deferred, x.2 < following r outs + 2 ^ 16 ∧ following r outs < x.2 + 2 ^ 16
  pairs : q.deferred.Pairwise fun x y => y.2 + 1 < x.2 + 2 ^ 16 ∧ x.2 + 1 < y.2 + 2 ^ 16

namespace Tracks

theorem start (r : U32) (kind : ℕ → Kind) : Tracks r kind ⟨0xFFFF, []⟩ [] where
  reg := (by decide : (0xFFFF : U16) + 1 = BitVec.ofNat 16 0)
  own _ member := absurd member not_mem_nil
  near _ member := absurd member not_mem_nil
  pairs := .nil

theorem due_iff (tracks : Tracks r kind q outs) (genuine : Genuine kind x)
    (near : x.2 < following r outs + 2 ^ 16 ∧ following r outs < x.2 + 2 ^ 16) :
    tassnOf fst x = q.reg + 1 ↔ x.2 = following r outs := by
  rw [genuine.1, tracks.reg, ← BitVec.toNat_inj, BitVec.toNat_ofNat, BitVec.toNat_ofNat]
  omega

theorem passed (tracks : Tracks r kind q outs) (passes : isTxn r x = true → x.kind = .free) :
    Tracks r kind q (outs ++ [x]) := by
  have same : following r (outs ++ [x]) = following r outs := by
    cases own : isTxn r x with
    | false => simp [following, txns, own]
    | true => simp [following, txns, own, passes own]
  exact ⟨same ▸ tracks.reg, tracks.own, same ▸ tracks.near, tracks.pairs⟩

theorem ran {rest : List Txn} (genuine : Genuine kind x) (own : isTxn r x = true)
    (ordered : x.kind ≠ .free)
    (others : ∀ y ∈ rest, isTxn r y = true ∧ Genuine kind y ∧ kind y.2 = .strict)
    (near : ∀ y ∈ rest, y.2 + 1 < x.2 + 2 ^ 16 ∧ x.2 + 1 < y.2 + 2 ^ 16)
    (pairs : rest.Pairwise fun x y => y.2 + 1 < x.2 + 2 ^ 16 ∧ x.2 + 1 < y.2 + 2 ^ 16) :
    Tracks r kind ⟨tassnOf fst x, rest⟩ (outs ++ [x]) := by
  refine ⟨?_, others, fun y member => ?_, pairs⟩
  · rw [following_ordered own ordered, genuine.1, BitVec.ofNat_add]
    rfl
  · rw [following_ordered own ordered]
    have := near y member
    omega

theorem ordered_of_strict (genuine : Genuine kind x) (strict : kind x.2 = .strict) :
    x.kind ≠ .free := by
  rw [genuine.2, strict]
  exact Kind.noConfusion

variable (tracks : Tracks r kind q outs)
include tracks

theorem release : Tracks r kind (q.release fst).1 (outs ++ (q.release fst).2.toList) ∧
      (q.release fst).1.sequencer r (outs ++ (q.release fst).2.toList) =
        (q.sequencer r outs).release ∧
      (q.release fst).1.owned r (outs ++ (q.release fst).2.toList) = q.owned r outs := by
  rw [Slot.release]
  cases shape : q.deferred with
  | nil => simpa [Sequencer.release, Slot.sequencer, shape] using tracks
  | cons x rest =>
    have own := tracks.own
    have near := tracks.near
    have pairs := tracks.pairs
    rw [shape] at own near pairs
    obtain ⟨isOwn, genuine, strict⟩ := own x (by simp)
    have due := tracks.due_iff genuine (near x (by simp))
    have ordered := ordered_of_strict genuine strict
    have waiting : (q.sequencer r outs).waiting = x.2 :: rest.map snd := by
      simp [Slot.sequencer, shape]
    simp only [due, Sequencer.release, waiting]
    by_cases now : x.2 = following r outs
    · have turn : x.2 = (q.sequencer r outs).next := now
      rw [if_pos now, if_pos turn]
      rw [pairwise_cons] at pairs
      refine ⟨ran genuine isOwn ordered (fun y member => own y (by simp [member]))
        pairs.1 pairs.2, sequencer_run _ ⟨q.reg, rest⟩ isOwn ordered, ?_⟩
      simp [Slot.owned, txns, isOwn, shape]
    · have early : x.2 ≠ (q.sequencer r outs).next := now
      rw [if_neg now, if_neg early]
      simpa using tracks

theorem defer (own : isTxn r x = true) (genuine : Genuine kind x)
    (strict : kind x.2 = .strict) (near : Near (q.sequencer r outs) x.2) :
    Tracks r kind (q.defer x) outs ∧ ((q.defer x).sequencer r outs = (q.sequencer r outs).push x.2 ∧
          (q.defer x).owned r outs = q.owned r outs ++ [x] ∨
        7 ≤ q.deferred.length ∧ q.defer x = q) := by
  rw [Slot.defer]
  by_cases room : q.deferred.length < 7
  · rw [if_pos room]
    refine ⟨⟨tracks.reg, ?_, ?_, ?_⟩, .inl ⟨?_, ?_⟩⟩
    · exact forall_mem_append.mpr ⟨tracks.own, forall_mem_singleton.mpr ⟨own, genuine, strict⟩⟩
    · exact forall_mem_append.mpr ⟨tracks.near, forall_mem_singleton.mpr near.1⟩
    · refine pairwise_append.mpr ⟨tracks.pairs, pairwise_singleton .., ?_⟩
      intro y member z single
      rw [mem_singleton.mp single]
      exact near.2 y.2 (mem_map_of_mem member)
    · simp [Slot.sequencer, Sequencer.push]
    · simp [Slot.owned]
  · rw [if_neg room]
    exact ⟨tracks, .inr ⟨not_lt.mp room, rfl⟩⟩

/-- A transaction of the initiator arrives: it is sent at once, or it is not due and is handed to
`defer`. -/
theorem execute (own : isTxn r x = true)
    (genuine : Genuine kind x) (near : x.kind ≠ .free → Near (q.sequencer r outs) x.2) :
    ((q.execute fst x).2 = some x ∧ Tracks r kind (q.execute fst x).1 (outs ++ [x]) ∧
        Step kind (q.sequencer r outs) (some x.2) ((q.execute fst x).1.sequencer r (outs ++ [x])) ∧
        ((q.execute fst x).1.owned r (outs ++ [x])).Perm (q.owned r outs ++ [x])) ∨
      (q.execute fst x = (q.defer x, none) ∧ kind x.2 = .strict ∧
        x.2 ≠ (q.sequencer r outs).next) := by
  have kinds := genuine.2
  rw [Txn.kind, kindOf] at kinds
  simp only [Slot.execute]
  split at kinds
  · next no =>
    rw [if_pos no]
    have free : x.kind = .free := genuine.2.trans kinds.symm
    refine .inl ⟨rfl, tracks.passed fun _ => free, ?_, owned_own q own⟩
    rw [sequencer_free q own free]
    exact .free kinds.symm
  · next ordered =>
    rw [if_neg ordered]
    have notFree : x.kind ≠ .free := by
      rw [genuine.2, ← kinds]
      split <;> exact Kind.noConfusion
    have close := near notFree
    have due := tracks.due_iff genuine close.1
    have others : ∀ y ∈ q.deferred, y.2 + 1 < x.2 + 2 ^ 16 ∧ x.2 + 1 < y.2 + 2 ^ 16 :=
      fun y member => (close.2 y.2 (mem_map_of_mem member)).symm
    by_cases now : UbMeta.odrExec.get x.1 = odrRo ∨ tassnOf fst x = q.reg + 1
    · rw [if_pos now]
      refine .inl ⟨rfl, ran genuine own notFree tracks.own others tracks.pairs, ?_,
        owned_own q own⟩
      rw [sequencer_run _ q own notFree]
      refine .run ?_
      split at kinds
      · exact .inl kinds.symm
      · next notRo => exact .inr ⟨kinds.symm, due.mp (now.resolve_left notRo)⟩
    · rw [if_neg now]
      rw [if_neg fun ro => now (.inl ro)] at kinds
      exact .inr ⟨rfl, kinds.symm, fun turn => now (.inr (due.mpr turn))⟩

end Tracks

def Placed (a : Tracker Txn) : Prop := ∀ i, ∀ x ∈ (a.slots i).deferred, metaSlot x.1 = i

def Tracker.Defers (P : Fin 16 → Txn → Prop) (a : Tracker Txn) : Prop :=
  ∀ i, ∀ x ∈ (a.slots i).deferred, P i x

theorem mem_of_release (q : Slot Txn) : (∀ x ∈ (q.release fst).1.deferred, x ∈ q.deferred) ∧
      ∀ x ∈ (q.release fst).2, x ∈ q.deferred := by
  rw [Slot.release]
  split
  · exact ⟨fun x member => member, by simp⟩
  · next y rest shape =>
    split
    · refine ⟨fun x member => ?_, fun x same => ?_⟩
      · rw [shape]
        exact mem_cons_of_mem _ member
      · rw [shape, ← Option.some.inj same]
        exact mem_cons_self
    · exact ⟨fun x member => member, by simp⟩

theorem mem_of_execute (q : Slot Txn) (x : Txn) :
    (∀ y ∈ (q.execute fst x).1.deferred, y ∈ q.deferred ∨ y = x) ∧
      ∀ y ∈ (q.execute fst x).2, y = x := by
  simp only [Slot.execute]
  split
  · exact ⟨fun y member => .inl member, fun y same => (Option.some.inj same).symm⟩
  · split
    · exact ⟨fun y member => .inl member, fun y same => (Option.some.inj same).symm⟩
    · refine ⟨fun y member => ?_, by simp⟩
      rw [Slot.defer] at member
      split at member
      · simpa using member
      · exact .inl member

variable {a a' : Tracker Txn} {input out : Option Txn}

section

variable {P : Fin 16 → Txn → Prop} {idx : Fin 16} (all : a.Defers P)
include all

theorem Tracker.Defers.put (new : ∀ x ∈ q.deferred, P idx x) : (a.put idx q).Defers P := by
  intro i x member
  rw [slots_put] at member
  by_cases same : i = idx
  · rw [same, update_self] at member
    exact same ▸ new x member
  · rw [update_of_ne same] at member
    exact all i x member

theorem Tracker.Defers.release :
    (a.release fst).1.Defers P ∧ ∀ y ∈ (a.release fst).2, ∃ i, P i y := by
  rw [Tracker.release]
  split
  · exact ⟨all, by simp⟩
  · next idx _ =>
    refine ⟨all.put fun x member => all idx x ((mem_of_release _).1 x member), ?_⟩
    exact fun y sent => ⟨idx, all idx y ((mem_of_release _).2 y sent)⟩

theorem Tracker.Defers.arrived {x : Txn} (new : P (metaSlot x.1) x) :
    (a.put (metaSlot x.1) ((a.slots (metaSlot x.1)).execute fst x).1).Defers P := by
  refine all.put fun y member => ?_
  rcases (mem_of_execute _ x).1 y member with old | rfl
  · exact all _ y old
  · exact new

theorem Tracker.Defers.moves (moves : a.Moves fst input a' out)
    (new : ∀ x ∈ input, isRot x.1 = true → P (metaSlot x.1) x) :
    a'.Defers P ∧ ∀ y ∈ out, y ∈ input ∨ ∃ i, P i y := by
  cases moves with
  | other => exact ⟨all, fun y sent => .inl sent⟩
  | inner => exact ⟨all, fun y sent => .inl sent⟩
  | quiet => exact ⟨all.release.1, fun y sent => .inr (all.release.2 y sent)⟩
  | @arrive x rot =>
    have arrived := all.arrived (new x rfl rot)
    have own := (mem_of_execute (a.slots (metaSlot x.1)) x).2
    rw [arrive]
    cases passed : ((a.slots (metaSlot x.1)).execute fst x).2 with
    | some y =>
      refine ⟨arrived, fun z sent => .inl ?_⟩
      cases sent
      exact congrArg some (own y passed).symm
    | none => exact ⟨arrived.release.1, fun y sent => .inr (arrived.release.2 y sent)⟩

end

theorem Placed.arrived (placed : Placed a) (x : Txn) :
    Placed (a.put (metaSlot x.1) ((a.slots (metaSlot x.1)).execute fst x).1) :=
  Defers.arrived (P := fun i x => metaSlot x.1 = i) placed rfl

theorem Placed.moves (placed : Placed a) (moves : a.Moves fst input a' out) : Placed a' :=
  (Defers.moves (P := fun i x => metaSlot x.1 = i) placed moves fun _ _ _ => rfl).1

def Tracker.sequencer (r : U32) (a : Tracker Txn) (outs : List Txn) : Sequencer :=
  (a.slots (iniSlot r)).sequencer r outs

def arrivalOf (r : U32) (input : Option Txn) : Option ℕ := (input.filter (isTxn r)).map snd

/-- The call is one of the sequencer: no other initiator orders transactions in the slot, and the
numbers compared are less than 2^16 apart. -/
structure Fits (r : U32) (q : Sequencer) (input : Option Txn) : Prop where
  alone : ∀ x ∈ input, isRot x.1 = true → metaSlot x.1 = iniSlot r → x.kind ≠ .free →
    isTxn r x = true
  near : ∀ x ∈ input, isTxn r x = true → x.kind ≠ .free → Near q x.2

instance (r : U32) (q : Sequencer) (input : Option Txn) : Decidable (Fits r q input) :=
  decidable_of_iff
    ((∀ x ∈ input, isRot x.1 = true → metaSlot x.1 = iniSlot r → x.kind ≠ .free →
        isTxn r x = true) ∧
      ∀ x ∈ input, isTxn r x = true → x.kind ≠ .free → Near q x.2)
    ⟨fun both => ⟨both.1, both.2⟩, fun fits => ⟨fits.alone, fits.near⟩⟩

/-- The transaction that arrives has to wait and finds no room. -/
def Lost (r : U32) (q : Slot Txn) (input : Option Txn) : Prop :=
  ∃ x ∈ input, isTxn r x = true ∧ (q.execute fst x).2 = none ∧ 7 ≤ q.deferred.length

section

theorem sequencer_put_other {idx : Fin 16} (other : iniSlot r ≠ idx) :
    (a.put idx q).slots (iniSlot r) = a.slots (iniSlot r) := by
  rw [slots_put, update_of_ne other]

theorem Tracks.released (tracks : Tracks r kind (a.slots (iniSlot r)) outs) (placed : Placed a) :
    Tracks r kind ((a.release fst).1.slots (iniSlot r)) (outs ++ (a.release fst).2.toList) ∧
      ((a.release fst).1.sequencer r (outs ++ (a.release fst).2.toList) =
        if a.current = some (iniSlot r) then (a.sequencer r outs).release else a.sequencer r outs) ∧
      ((a.release fst).1.slots (iniSlot r)).owned r (outs ++ (a.release fst).2.toList) =
        (a.slots (iniSlot r)).owned r outs := by
  rw [Tracker.release]
  cases a.current with
  | none => simpa [sequencer] using tracks
  | some idx =>
    simp only [sequencer, Option.some.injEq]
    by_cases same : idx = iniSlot r
    · subst same
      rw [if_pos rfl, slots_put, update_self]
      exact tracks.release
    · rw [if_neg same, sequencer_put_other (Ne.symm same)]
      cases sent : ((a.slots idx).release fst).2 with
      | none => simpa using tracks
      | some y =>
        have slot : metaSlot y.1 = idx :=
          placed idx y ((mem_of_release _).2 y sent)
        have notOwn : isTxn r y = false := isTxn_of_other (slot.symm ▸ same)
        rw [Option.toList_some, sequencer_other _ notOwn, owned_other _ notOwn]
        exact ⟨tracks.passed (by simp [notOwn]), rfl, rfl⟩

/-- What a call amounts to for the initiator: a step of its sequencer, which takes the transaction
that arrives if it is not lost. -/
structure Amounts (r : U32) (kind : ℕ → Kind) (a : Tracker Txn) (outs : List Txn)
    (input : Option Txn) (a' : Tracker Txn) (out : Option Txn) : Prop where
  tracks : Tracks r kind (a'.slots (iniSlot r)) (outs ++ out.toList)
  step : Step kind (a.sequencer r outs) (arrivalOf r input)
        (a'.sequencer r (outs ++ out.toList)) ∧
      ((a'.slots (iniSlot r)).owned r (outs ++ out.toList)).Perm
        ((a.slots (iniSlot r)).owned r outs ++ txns r input.toList) ∨
    Lost r (a.slots (iniSlot r)) input ∧
      Step kind (a.sequencer r outs) none (a'.sequencer r (outs ++ out.toList))

theorem mem_of_arrivalOf {n : ℕ} (arrives : n ∈ arrivalOf r input) :
    ∃ x ∈ input, isTxn r x = true ∧ x.2 = n := by
  obtain ⟨x, found, same⟩ := Option.map_eq_some_iff.mp arrives
  obtain ⟨member, own⟩ := Option.filter_eq_some_iff.mp found
  exact ⟨x, member, own, same⟩

theorem arrivalOf_none (foreign : ∀ x ∈ input, isTxn r x = false) :
    arrivalOf r input = none ∧ txns r input.toList = [] := by
  cases input with
  | none => exact ⟨rfl, rfl⟩
  | some x => simp [arrivalOf, Option.filter, txns, foreign x rfl]

variable (tracks : Tracks r kind (a.slots (iniSlot r)) outs)
include tracks

theorem amounts_passed (same : a'.slots (iniSlot r) = a.slots (iniSlot r))
    (foreign : isTxn r x = false) :
    Amounts r kind a outs (some x) a' (some x) := by
  have arrival : arrivalOf r (some x) = none ∧ txns r (some x).toList = [] :=
    arrivalOf_none (by simpa using foreign)
  refine ⟨?_, .inl ⟨?_, ?_⟩⟩
  · rw [same]
    exact tracks.passed (by simp [foreign])
  · rw [arrival.1, sequencer, sequencer, same, Option.toList_some, sequencer_other _ foreign]
    exact .idle
  · rw [arrival.2, same, Option.toList_some, owned_other _ foreign, append_nil]

theorem amounts_released {b : Tracker Txn} (placed : Placed b)
    (same : b.slots (iniSlot r) = a.slots (iniSlot r)) (foreign : ∀ x ∈ input, isTxn r x = false) :
    Amounts r kind a outs input (b.release fst).1 (b.release fst).2 := by
  have released := Tracks.released (same ▸ tracks : Tracks r kind (b.slots (iniSlot r)) outs) placed
  refine ⟨released.1, .inl ⟨?_, ?_⟩⟩
  · have before : b.sequencer r outs = a.sequencer r outs := by
      rw [sequencer, sequencer, same]
    rw [(arrivalOf_none foreign).1, released.2.1, before]
    split
    · exact .chance
    · exact .idle
  · rw [(arrivalOf_none foreign).2, released.2.2, same, append_nil]

theorem amounts_own (placed : Placed a) (own : isTxn r x = true) (genuine : Genuine kind x)
    (near : x.kind ≠ .free → Near (a.sequencer r outs) x.2) :
    Amounts r kind a outs (some x) (a.arrive fst x).1 (a.arrive fst x).2 := by
  have slot := (isRot_of_isTxn own).2
  have arrival : arrivalOf r (some x) = some x.2 := by simp [arrivalOf, Option.filter, own]
  have taken : txns r (some x).toList = [x] := by simp [txns, own]
  have placed' := placed.arrived x
  rw [arrive]
  simp only [slot] at placed' ⊢
  rcases tracks.execute own genuine near with
    ⟨sent, tracks', step, account⟩ | ⟨waits, strict, early⟩
  · simp only [sent, Tracker.finish]
    refine ⟨?_, .inl ⟨?_, ?_⟩⟩
    · rw [slots_put, update_self]
      exact tracks'
    · rw [arrival, sequencer, sequencer, slots_put, update_self]
      exact step
    · rw [taken, slots_put, update_self]
      exact account
  · have close := near (Tracks.ordered_of_strict genuine strict)
    have deferred := tracks.defer own genuine strict close
    rw [waits] at placed' ⊢
    simp only [Tracker.finish] at placed' ⊢
    have here : (a.put (iniSlot r) ((a.slots (iniSlot r)).defer x)).slots (iniSlot r) =
        (a.slots (iniSlot r)).defer x := by
      rw [slots_put, update_self]
    have released := Tracks.released (here.symm ▸ deferred.1 :
      Tracks r kind ((a.put (iniSlot r) _).slots (iniSlot r)) outs) placed'
    have current : (a.put (iniSlot r) ((a.slots (iniSlot r)).defer x)).current =
        some (iniSlot r) := rfl
    rw [if_pos current] at released
    refine ⟨released.1, ?_⟩
    rw [released.2.1, released.2.2, sequencer, sequencer, here]
    rcases deferred.2 with ⟨pushed, account⟩ | ⟨full, same⟩
    · rw [pushed, arrival, account, taken]
      exact .inl ⟨.wait strict early, .rfl⟩
    · refine .inr ⟨⟨x, rfl, own, congrArg snd waits, full⟩, ?_⟩
      rw [same]
      exact .chance

theorem amounts_of_moves (placed : Placed a) (moves : a.Moves fst input a' out)
    (genuine : ∀ x ∈ input, isTxn r x = true → Genuine kind x)
    (fits : Fits r (a.sequencer r outs) input) : Amounts r kind a outs input a' out := by
  have notTxn : ∀ x : Txn, x.1.sop = false → isTxn r x = false := by
    intro x inner
    simp [isTxn, isMeta, isRot, inner]
  cases moves with
  | @other x sop notRot => exact amounts_passed tracks rfl (by simp [isTxn, isMeta, notRot])
  | @inner x inner => exact amounts_passed tracks rfl (notTxn x inner)
  | quiet inner =>
    exact amounts_released tracks placed rfl fun x member => notTxn x (inner x member)
  | @arrive x rot =>
    cases own : isTxn r x with
    | true =>
      exact amounts_own tracks placed own (genuine x rfl own) (fits.near x rfl own)
    | false =>
      have placed' := placed.arrived x
      have out := (mem_of_execute (a.slots (metaSlot x.1)) x).2
      rw [arrive]
      -- a transaction of another initiator has another slot, or does not order
      have same : (a.put (metaSlot x.1)
          ((a.slots (metaSlot x.1)).execute fst x).1).slots (iniSlot r) =
          a.slots (iniSlot r) := by
        by_cases here : metaSlot x.1 = iniSlot r
        · have free : x.kind = .free := by
            by_contra ordered
            simp [fits.alone x rfl rot here ordered] at own
          have no : UbMeta.odrExec.get x.1 = odrNo := by
            by_contra ordered
            simp only [Txn.kind, kindOf, if_neg ordered] at free
            split at free <;> cases free
          rw [here, slots_put, update_self, Slot.execute, if_pos no]
        · exact sequencer_put_other (Ne.symm here)
      revert out
      cases ((a.slots (metaSlot x.1)).execute fst x).2 with
      | some y =>
        intro out
        rw [out y rfl]
        exact amounts_passed tracks same own
      | none =>
        intro _
        exact amounts_released tracks placed' same (by simpa using own)

end

/-- The element together with the flits it has sent so far. -/
abbrev Recorded := State Txn × List Txn

def record (h : Recorded) (input : Option Txn) : Recorded :=
  ((step fst h.1 input).1, h.2 ++ ((step fst h.1 input).2 1).toList)

def Recorded.sequencer (r : U32) (h : Recorded) : Sequencer :=
  ⟨following r h.2, (h.1.ini (iniSlot r)).queue.contents.map fun txn => txn.fA.2, numbers r h.2⟩

/-- The transactions of an initiator that a recorded run has sent, and those it has deferred. -/
def Recorded.owned (r : U32) (h : Recorded) : List Txn :=
  txns r h.2 ++ (h.1.ini (iniSlot r)).queue.contents.map PendingTxn.fA

theorem map_owned (r : U32) (h : Recorded) :
    (h.owned r).map snd = (h.sequencer r).done ++ (h.sequencer r).waiting := by
  rw [Recorded.owned, map_append, map_map]
  rfl

theorem foldl_record (h : Recorded) (inputs : List (Option Txn)) :
    inputs.foldl record h = ((step fst).final h.1 inputs,
      h.2 ++ Ports.sent 1 ((step fst).trace h.1 inputs)) := by
  induction inputs generalizing h with
  | nil => simp
  | cons input inputs ih =>
    rw [foldl_cons, ih, Mealy.final_cons, Mealy.trace_cons, Ports.sent_cons,
      ← append_assoc]
    rfl

/-- The element that does not see the numbers sends the same and ends in the same state. -/
theorem map_run (memory : Fin 16 → Fin 8 → PendingTxn Txn) (inputs : List (Option Txn)) :
    (Ports.sent 1 ((step fst).trace (init memory) inputs)).map fst =
        Ports.sent 1 ((step id).trace (init fun i j => (memory i j).map fst)
          (inputs.map (Option.map fst))) ∧
      ((step fst).final (init memory) inputs).map fst =
        (step id).final (init fun i j => (memory i j).map fst) (inputs.map (Option.map fst)) := by
  have same : ∀ x : Txn, id (fst x) = fst x := fun _ => rfl
  exact ⟨(sent_map fst same (init memory) inputs).symm,
    (final_map fst same (init memory) inputs).symm⟩

def OnTrack (r : U32) (kind : ℕ → Kind) (h : Recorded) : Prop :=
  ∃ a : Tracker Txn, h.1.StandsFor fst a ∧ Placed a ∧
    Tracks r kind (a.slots (iniSlot r)) h.2

theorem onTrack_init (r : U32) (kind : ℕ → Kind) (memory : Fin 16 → Fin 8 → PendingTxn Txn) :
    OnTrack r kind (init memory, []) :=
  ⟨fresh, standsFor_init fst memory,
    fun _ _ member => absurd member not_mem_nil, Tracks.start r kind⟩

theorem sequencer_of_standsFor {h : Recorded} (stands : h.1.StandsFor fst a) :
    h.sequencer r = a.sequencer r h.2 ∧ h.owned r = (a.slots (iniSlot r)).owned r h.2 := by
  have entries := congrArg (map fst) (stands.slots (iniSlot r)).entries
  have flits : (h.1.ini (iniSlot r)).queue.contents.map PendingTxn.fA =
      (a.slots (iniSlot r)).deferred := by
    simpa [comp_def] using entries
  refine ⟨?_, ?_⟩
  · rw [Recorded.sequencer, sequencer, Slot.sequencer, ← flits, map_map]
    rfl
  · rw [Recorded.owned, Slot.owned, flits]

/-- The transaction that arrives is to be deferred and the ring of its slot is full. -/
def Overflows (r : U32) (h : Recorded) (input : Option Txn) : Prop :=
  ∃ x ∈ input, isTxn r x = true ∧ (execute fst (h.1.ini (iniSlot r)) x).2 = none ∧
    (h.1.ini (iniSlot r)).queue.Full

instance (r : U32) (h : Recorded) (input : Option Txn) : Decidable (Overflows r h input) :=
  inferInstanceAs (Decidable (∃ x ∈ input, _))

theorem OnTrack.record {h : Recorded} (onTrack : OnTrack r kind h)
    (genuine : ∀ x ∈ input, isTxn r x = true → Genuine kind x)
    (fits : Fits r (h.sequencer r) input) :
    OnTrack r kind (record h input) ∧
      (Step kind (h.sequencer r) (arrivalOf r input) ((record h input).sequencer r) ∧
          ((record h input).owned r).Perm (h.owned r ++ txns r input.toList) ∨ Overflows r h input ∧
          Step kind (h.sequencer r) none ((record h input).sequencer r)) := by
  obtain ⟨a, stands, placed, tracks⟩ := onTrack
  obtain ⟨a', moves, stands'⟩ := stands.step input
  have before := sequencer_of_standsFor (r := r) stands
  have after := sequencer_of_standsFor (r := r) (h := OrderTrackerTarget.record h input) stands'
  rw [before.1] at fits
  rw [before.1, before.2, after.1, after.2]
  have amounts := amounts_of_moves tracks placed moves genuine fits
  refine ⟨⟨a', stands', placed.moves moves, amounts.tracks⟩, amounts.step.imp_right ?_⟩
  rintro ⟨⟨x, member, own, waits, full⟩, step⟩
  have holds := stands.slots (iniSlot r)
  refine ⟨⟨x, member, own, (holds.execute x).2.trans waits, holds.full_iff.mpr ?_⟩, step⟩
  have small := holds.length_le
  omega

/-- The metadata flit of a transaction of initiator 0 in mode ROT. -/
def sampleTxn (exec : U64) (n : ℕ) : Txn :=
  ({ lane2 := 1 <<< 58, lane3 := (exec <<< 32) + (BitVec.ofNat 64 n <<< 16), sop := true,
     eop := true }, n)

end OpenURMA.OrderTrackerTarget
