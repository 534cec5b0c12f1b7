import OpenURMA.Transport.RetransBuffer

/-!
# Packets in flight

Every reliable packet that has been sent and not been acknowledged is to be in a slot. The slots of
a channel are compared with a record of the packets sent and acknowledged; each operation on the
slots keeps up with the record as long as there are at most eight packets in flight.
-/

namespace OpenURMA.RetransBuffer

open Library Function BitField List Nat

/-- The flits of each reliable packet that has been passed on, whether the last packet is still
under way, and how many packets are acknowledged. -/
structure Record where
  sent : List (List Flit) := []
  inside : Bool := false
  acked : ℕ := 0

def reliable (f : Flit) : Bool := UbMeta.svcMode.get f != svcUno

variable {f : Flit}

namespace Record

def pass (r : Record) (f : Flit) : Record :=
  if f.sop then
    if reliable f then { r with sent := r.sent ++ [[f]], inside := !f.eop }
    else { r with inside := false }
  else if r.inside then
    { r with sent := r.sent.modify (r.sent.length - 1) (· ++ [f]), inside := !f.eop }
  else r

@[simp] theorem acked_pass (r : Record) (f : Flit) : (r.pass f).acked = r.acked := by
  unfold pass
  split
  · split <;> rfl
  · split <;> rfl

theorem sent_pass_head (r : Record) (sop : f.sop = true) (rel : reliable f = true) :
    (r.pass f).sent = r.sent ++ [[f]] := by
  rw [pass, if_pos sop, if_pos rel]

theorem sent_pass_inner {r : Record} (inner : f.sop = false) (inside : r.inside = true) :
    (r.pass f).sent = r.sent.modify (r.sent.length - 1) (· ++ [f]) := by
  rw [pass, if_neg (by simp [inner]), if_pos inside]

def ack (r : Record) (k : ℕ) : Record := { r with acked := max r.acked (k + 1) }

end Record

/-- The slot holds a packet, as far as it has been passed on: its metadata flit and the flit
behind it. -/
structure Slot.Holds (slot : Slot) (flits : List Flit) : Prop where
  validA : slot.validA = true
  flitA : flits.head? = some slot.flitA
  psn : slot.psn = UbMeta.psn.get slot.flitA
  flitB : ∀ f, flits[1]? = some f → slot.validB = true ∧ slot.flitB = f

namespace Slot.Holds

variable {slot : Slot} {flits : List Flit}

theorem snoc (holds : slot.Holds flits)
    (second : ∀ m, flits = [m] → slot.validB = true ∧ slot.flitB = f) :
    slot.Holds (flits ++ [f]) := by
  obtain ⟨validA, flitA, psn, flitB⟩ := holds
  cases flits with
  | nil => cases flitA
  | cons m rest =>
    refine ⟨validA, flitA, psn, fun g found => ?_⟩
    cases rest with
    | nil =>
      obtain rfl : f = g := by simpa using found
      exact second m rfl
    | cons h rest => exact flitB g found

theorem withFlitB (holds : slot.Holds flits) (open' : slot.validB = false) (f : Flit) :
    Holds { slot with flitB := f, validB := true } flits := by
  refine ⟨holds.validA, holds.flitA, holds.psn, fun g found => ?_⟩
  have taken := (holds.flitB g found).1
  rw [open'] at taken
  cases taken

end Slot.Holds

structure Stores (c : ChanRtx) (r : Record) : Prop where
  acked : r.acked ≤ r.sent.length
  fits : r.sent.length ≤ r.acked + 8
  basePsn : c.basePsn.toNat = r.acked % 2 ^ 24
  inFlight : c.inFlight.toNat = r.sent.length - r.acked
  held : ∀ (j : Fin 8) flits, r.sent[r.acked + j]? = some flits → (c.slots j).Holds flits
  fresh : ∀ (j : Fin 8) m, r.sent.length = r.acked + j + 1 →
    r.sent[r.acked + j]? = some [m] → (c.slots j).validB = false
  unused : ∀ j : Fin 8, r.sent.length ≤ r.acked + j →
    (c.slots j).validA = false ∧ (c.slots j).validB = false

theorem toNat_offset (psn base : U32) :
    (offset psn base).toNat = (psn.toNat + (2 ^ 32 - base.toNat)) % 2 ^ 24 := by
  rw [offset, show (0xFFFFFF : U32) = mask 32 24 by decide,
    toNat_and_mask (by omega), BitVec.toNat_sub]
  omega

section

variable {psn base : U32} {k acked : ℕ}

theorem offset_of_le (number : psn.toNat = k % 2 ^ 24) (first : base.toNat = acked % 2 ^ 24)
    (new : acked ≤ k) (near : k < acked + 8) : (offset psn base).toNat = k - acked := by
  rw [toNat_offset, number, first]
  omega

theorem offset_of_lt (number : psn.toNat = k % 2 ^ 24) (first : base.toNat = acked % 2 ^ 24)
    (old : k < acked) (recent : acked ≤ k + (2 ^ 24 - 8)) : 8 ≤ (offset psn base).toNat := by
  rw [toNat_offset, number, first]
  omega

end

section

variable {slots : Fin 8 → Slot} {off : ℕ} {j : Fin 8}

theorem freed_of_lt (inside : j + (off + 1) < 8) :
    freed slots off j = slots ⟨j + (off + 1), inside⟩ := by
  have front : ¬8 - (off + 1) ≤ j.val := by omega
  have kept : ¬j.val + (off + 1) ≤ off := by omega
  simp only [freed, if_neg front, dif_pos inside, if_neg kept]

theorem freed_of_le (outside : 8 ≤ j + (off + 1)) :
    (freed slots off j).validA = false ∧ (freed slots off j).validB = false := by
  have back : 8 - (off + 1) ≤ j.val := by omega
  simp only [freed, if_pos back, and_self]

variable {flits : List Flit}

/-- What an acknowledgement leaves in the window comes from further up. -/
theorem freed_of_found {r : Record} {k : ℕ} (fits : r.sent.length ≤ r.acked + 8) (new : r.acked ≤ k)
    (found : r.sent[k + 1 + j]? = some flits) :
    ∃ i : Fin 8, freed slots (k - r.acked) j = slots i ∧ r.acked + i = k + 1 + j := by
  have present := (List.getElem?_eq_some_iff.mp found).1
  have inside : j + (k - r.acked + 1) < 8 := by omega
  refine ⟨_, freed_of_lt inside, ?_⟩
  change r.acked + (j + (k - r.acked + 1)) = _
  omega

end

/-- The slot has a metadata flit and room for the flit behind it. -/
def Slot.isOpen (slot : Slot) : Bool := slot.validA && !slot.validB

theorem slots_storeExt (c : ChanRtx) (f : Flit) (j : Fin 8) :
    (storeExt c f).slots j = if (c.slots j).isOpen = true ∧ ∀ i > j, (c.slots i).isOpen = false then
        { c.slots j with flitB := f, validB := true }
      else c.slots j := by
  unfold storeExt
  cases place : Fin.findRev? fun j => (c.slots j).validA && !(c.slots j).validB with
  | none =>
    have full : (c.slots j).isOpen = false := Fin.findRev?_eq_none_iff.mp place j
    rw [if_neg (by simp [full])]
  | some last =>
    obtain ⟨vacant, above⟩ := Fin.findRev?_eq_some_iff.mp place
    change update _ _ _ _ = _
    by_cases here : j = last
    · rw [here, update_self, if_pos ⟨vacant, above⟩]
    · rw [update_of_ne here, if_neg]
      rintro ⟨own, higher⟩
      rcases lt_or_gt_of_ne here with below | beyond
      · exact absurd vacant (by simpa [Slot.isOpen] using higher last below)
      · exact absurd own (by simpa [Slot.isOpen] using above j beyond)

theorem storeExt_rest (c : ChanRtx) (f : Flit) :
    (storeExt c f).basePsn = c.basePsn ∧ (storeExt c f).inFlight = c.inFlight := by
  unfold storeExt
  split <;> exact ⟨rfl, rfl⟩

theorem slots_markResent (c : ChanRtx) (i j : Fin 8) : (markResent c j).slots i = { c.slots i with
      alreadyRetransmitted := if i = j then true else (c.slots i).alreadyRetransmitted } := by
  change update _ _ _ _ = _
  by_cases here : i = j
  · rw [here, update_self, if_pos rfl]
  · rw [update_of_ne here, if_neg here]

section

variable {c : ChanRtx} {psn : U32} {off : ℕ}

theorem takeTpack_inside (distance : (offset psn c.basePsn).toNat = off) (small : off < 8) :
    (takeTpack c psn).slots = freed c.slots off ∧
      (takeTpack c psn).basePsn.toNat = (c.basePsn.toNat + off + 1) % 2 ^ 24 ∧
      (takeTpack c psn).inFlight.toNat = c.inFlight.toNat - (off + 1) := by
  have inside : offset psn c.basePsn < 8 := by
    rw [BitVec.lt_def, distance]
    exact small
  have count : (offset psn c.basePsn + 1).toNat = off + 1 := by
    rw [BitVec.toNat_add, distance]
    exact mod_eq_of_lt (by change off + 1 < 2 ^ 32; omega)
  rw [takeTpack, if_pos inside]
  refine ⟨by rw [distance], ?_, ?_⟩
  · change ((c.basePsn + offset psn c.basePsn + 1) &&& 0xFFFFFF).toNat = _
    rw [show (0xFFFFFF : U32) = mask 32 24 by decide, toNat_and_mask (by omega),
      BitVec.toNat_add, BitVec.toNat_add, distance]
    change ((c.basePsn.toNat + off) % 2 ^ 32 + 1) % 2 ^ 32 % 2 ^ 24 = _
    omega
  · change (if c.inFlight > offset psn c.basePsn + 1 then
      c.inFlight - (offset psn c.basePsn + 1) else 0).toNat = _
    by_cases more : c.inFlight > offset psn c.basePsn + 1
    · have order : (offset psn c.basePsn + 1).toNat < c.inFlight.toNat := BitVec.lt_def.mp more
      rw [if_pos more, BitVec.toNat_sub_of_le (BitVec.le_def.mpr (by omega)), count]
    · have order : ¬(offset psn c.basePsn + 1).toNat < c.inFlight.toNat := fun lt =>
        more (BitVec.lt_def.mpr lt)
      rw [if_neg more]
      change 0 = _
      omega

theorem takeTpack_outside (outside : 8 ≤ (offset psn c.basePsn).toNat) : takeTpack c psn = c := by
  rw [takeTpack, if_neg]
  rw [BitVec.lt_def]
  exact not_lt.mpr outside

end

namespace Stores

variable {c : ChanRtx} {r : Record} {flits : List Flit}

theorem tpack (stores : Stores c r) {k : ℕ} {psn : U32} (known : k < r.sent.length)
    (recent : r.acked ≤ k + (2 ^ 24 - 8)) (stamped : psn.toNat = k % 2 ^ 24) :
    Stores (takeTpack c psn) (r.ack k) := by
  have fits := stores.fits
  by_cases old : k < r.acked
  · have same : r.ack k = r := by rw [Record.ack, max_eq_left (by omega)]
    rw [takeTpack_outside (offset_of_lt stamped stores.basePsn old recent), same]
    exact stores
  · have acked : (r.ack k).acked = k + 1 := max_eq_right (by omega)
    have new := not_lt.mp old
    have off := offset_of_le stamped stores.basePsn new (by omega)
    obtain ⟨slots, basePsn, inFlight⟩ := takeTpack_inside off (by omega)
    refine ⟨?_, ?_, ?_, ?_, fun j flits found => ?_, fun j m last found => ?_, fun j none => ?_⟩
    · rw [acked]
      exact known
    · rw [acked]
      exact fits.trans (by omega)
    · rw [basePsn, acked, stores.basePsn]
      omega
    · rw [inFlight, acked, stores.inFlight]
      change r.sent.length - r.acked - _ = r.sent.length - (k + 1)
      omega
    · rw [acked] at found
      obtain ⟨i, moved, index⟩ := freed_of_found fits new found
      rw [slots, moved]
      exact stores.held i flits (index ▸ found)
    · rw [acked] at found last
      obtain ⟨i, moved, index⟩ := freed_of_found fits new found
      rw [slots, moved]
      exact stores.fresh i m (index ▸ last) (index ▸ found)
    · rw [acked] at none
      rw [slots]
      by_cases inside : j + (k - r.acked + 1) < 8
      · rw [freed_of_lt inside]
        exact stores.unused _ (none.trans (by change k + 1 + j ≤ r.acked + (j + _); omega))
      · exact freed_of_le (by omega)

theorem markResent (stores : Stores c r) (j : Fin 8) : Stores (markResent c j) r := by
  refine ⟨stores.acked, stores.fits, stores.basePsn, stores.inFlight, fun i flits found => ?_,
    fun i m last found => ?_, fun i none => ?_⟩
  · rw [slots_markResent]
    obtain ⟨validA, flitA, psn, flitB⟩ := stores.held i flits found
    exact ⟨validA, flitA, psn, flitB⟩
  · rw [slots_markResent]
    exact stores.fresh i m last found
  · rw [slots_markResent]
    exact stores.unused i none

theorem store_eq (stores : Stores c r) (stamped : (UbMeta.psn.get f).toNat = r.sent.length % 2 ^ 24)
    {off : Fin 8} (next : r.sent.length = r.acked + off) :
    (RetransBuffer.store c f).slots = update c.slots off { c.slots off with
        flitA := f, validA := true, alreadyRetransmitted := false, psn := UbMeta.psn.get f } ∧
      (RetransBuffer.store c f).basePsn.toNat = r.acked % 2 ^ 24 ∧
      (RetransBuffer.store c f).inFlight.toNat = off + 1 := by
  let base := if c.inFlight == 0 then UbMeta.psn.get f else c.basePsn
  have count := stores.inFlight
  have baseEq : base.toNat = r.acked % 2 ^ 24 := by
    by_cases empty : c.inFlight = 0
    · rw [empty] at count
      change 0 = _ at count
      rw [show base = UbMeta.psn.get f from if_pos (by simp [empty]), stamped]
      congr 1
      omega
    · rw [show base = c.basePsn from if_neg (by simpa using empty)]
      exact stores.basePsn
  have distance : (offset (UbMeta.psn.get f) base).toNat = off := by
    rw [offset_of_le stamped baseEq stores.acked (by omega)]
    omega
  have inside : (offset (UbMeta.psn.get f) base).toNat < 8 := distance ▸ off.isLt
  have place : (⟨(offset (UbMeta.psn.get f) base).toNat, inside⟩ : Fin 8) = off :=
    Fin.ext distance
  have stored : RetransBuffer.store c f = {
      slots := update c.slots ⟨_, inside⟩ { c.slots ⟨_, inside⟩ with
        flitA := f, validA := true, alreadyRetransmitted := false, psn := UbMeta.psn.get f }
      basePsn := base
      inFlight := c.inFlight + 1 } := dif_pos inside
  rw [stored, place]
  refine ⟨rfl, baseEq, ?_⟩
  change (c.inFlight + 1).toNat = _
  rw [BitVec.toNat_add, count]
  exact mod_eq_of_lt (by change _ + 1 < 2 ^ 32; omega) |>.trans (by change _ + 1 = _; omega)

theorem sent_head (sop : f.sop = true) (rel : reliable f = true) {off : Fin 8}
    (next : r.sent.length = r.acked + off) {j : Fin 8}
    (found : (r.pass f).sent[(r.pass f).acked + j]? = some flits) :
    (j = off ∧ flits = [f]) ∨ (j ≠ off ∧ r.sent[r.acked + j]? = some flits) := by
  rw [r.sent_pass_head sop rel, Record.acked_pass] at found
  by_cases here : j = off
  · rw [here, ← next, getElem?_concat_length] at found
    exact .inl ⟨here, (Option.some.inj found).symm⟩
  · have inside := (List.getElem?_eq_some_iff.mp found).1
    have other : j.val ≠ off.val := fun same => here (Fin.ext same)
    rw [length_append, length_singleton] at inside
    rw [getElem?_append_left (by omega)] at found
    exact .inr ⟨here, found⟩

theorem store (stores : Stores c r) (sop : f.sop = true) (rel : reliable f = true)
    (stamped : (UbMeta.psn.get f).toNat = r.sent.length % 2 ^ 24)
    (room : r.sent.length < r.acked + 8) : Stores (store c f) (r.pass f) := by
  have acked := stores.acked
  let off : Fin 8 := ⟨r.sent.length - r.acked, by omega⟩
  have next : r.sent.length = r.acked + off := (Nat.add_sub_cancel' acked).symm
  obtain ⟨slots, basePsn, inFlight⟩ := stores.store_eq stamped next
  have length : (r.pass f).sent.length = r.sent.length + 1 := by
    rw [r.sent_pass_head sop rel, length_append]
    rfl
  refine ⟨?_, ?_, ?_, ?_, fun j flits found => ?_, fun j m last found => ?_, fun j none => ?_⟩
  · rw [length, Record.acked_pass]
    omega
  · rw [length, Record.acked_pass]
    omega
  · rw [Record.acked_pass, basePsn]
  · rw [inFlight, length, Record.acked_pass]
    omega
  · rw [slots]
    rcases sent_head sop rel next found with ⟨here, rfl⟩ | ⟨other, before⟩
    · rw [here, update_self]
      exact ⟨rfl, rfl, rfl, by simp⟩
    · rw [update_of_ne other]
      exact stores.held j flits before
  · have here : j = off := by
      rw [length, Record.acked_pass] at last
      exact Fin.ext (by omega)
    rw [slots, here, update_self]
    exact (stores.unused off (by omega)).2
  · rw [length, Record.acked_pass] at none
    have other : j ≠ off := by
      rintro rfl
      omega
    rw [slots, update_of_ne other]
    exact stores.unused j (by omega)

theorem sent_inner (inner : f.sop = false) (inside : r.inside = true) {j : Fin 8}
    (found : (r.pass f).sent[(r.pass f).acked + j]? = some flits) :
    ∃ old, r.sent[r.acked + j]? = some old ∧
      flits = if r.sent.length = r.acked + j + 1 then old ++ [f] else old := by
  rw [Record.sent_pass_inner inner inside, Record.acked_pass, getElem?_modify] at found
  obtain ⟨old, before, rfl⟩ := Option.map_eq_some_iff.mp found
  have present := (List.getElem?_eq_some_iff.mp before).1
  refine ⟨old, before, ?_⟩
  by_cases last : r.sent.length = r.acked + j + 1
  · rw [if_pos last, if_pos (by omega)]
  · rw [if_neg last, if_neg (by omega)]

theorem storeExt (stores : Stores c r) (inner : f.sop = false) (inside : r.inside = true) :
    Stores (storeExt c f) (r.pass f) := by
  have length : (r.pass f).sent.length = r.sent.length := by
    rw [Record.sent_pass_inner inner inside, length_modify]
  -- the last packet has more than its metadata flit now
  have stale : ∀ (j : Fin 8) (m : Flit), (r.pass f).sent.length = (r.pass f).acked + j + 1 →
      (r.pass f).sent[(r.pass f).acked + j]? ≠ some [m] := by
    intro j m last found
    rw [length, Record.acked_pass] at last
    obtain ⟨old, before, shape⟩ := sent_inner inner inside found
    rw [if_pos last] at shape
    have nonempty := (stores.held j old before).flitA
    cases old with
    | nil => cases nonempty
    | cons g rest => simp at shape
  obtain ⟨basePsn, inFlight⟩ := storeExt_rest c f
  refine ⟨?_, ?_, ?_, ?_, fun j flits found => ?_, fun j m last found => ?_, fun j none => ?_⟩
  · rw [length, Record.acked_pass]
    exact stores.acked
  · rw [length, Record.acked_pass]
    exact stores.fits
  · rw [basePsn, Record.acked_pass]
    exact stores.basePsn
  · rw [inFlight, length, Record.acked_pass]
    exact stores.inFlight
  · obtain ⟨old, before, rfl⟩ := sent_inner inner inside found
    have holds := stores.held j old before
    rw [slots_storeExt]
    by_cases top : (c.slots j).isOpen = true ∧ ∀ i > j, (c.slots i).isOpen = false
    · have vacant : (c.slots j).validB = false := by
        simpa [Slot.isOpen, holds.validA] using top.1
      rw [if_pos top]
      split
      · exact (holds.withFlitB vacant f).snoc fun _ _ => ⟨rfl, rfl⟩
      · exact holds.withFlitB vacant f
    · rw [if_neg top]
      split
      · next last =>
        refine holds.snoc fun m single => absurd ⟨?_, fun i above => ?_⟩ top
        · rw [single] at before
          simp [Slot.isOpen, holds.validA, stores.fresh j m last before]
        · have order : j.val < i.val := above
          simp [Slot.isOpen, (stores.unused i (by omega)).1]
      · exact holds
  · exact absurd found (stale j m last)
  · rw [length, Record.acked_pass] at none
    have free := stores.unused j none
    rw [slots_storeExt, if_neg (by simp [Slot.isOpen, free.1])]
    exact free

end Stores

end OpenURMA.RetransBuffer
