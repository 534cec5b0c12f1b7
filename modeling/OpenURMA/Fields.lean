import OpenURMA.Flit

/-!
# The fields of metadata and extension flits

Every `ub_meta` accessor is `lane_get` or `lane_set` at a fixed lane, bit position and
width, so a field is its position together with the C type its getter returns.  The
laws of fields are those of bit fields of a word, lifted to flits.
-/

namespace OpenURMA

open Library BitField BitVec List

namespace Flit

def laneGet (f : Flit) (lane : Fin 4) (lo width : Nat) : U64 :=
  BitField.get lo width (f.get lane)

def laneSet (f : Flit) (lane : Fin 4) (lo width : Nat) (v : U64) : Flit :=
  f.set lane (BitField.set lo width v (f.get lane))

end Flit

structure Slot where
  lane : Fin 4
  lo : Nat
  width : Nat
  fits : lo + width ≤ 64 := by decide

namespace Slot

def get (slot : Slot) (f : Flit) : U64 := f.laneGet slot.lane slot.lo slot.width

def set (slot : Slot) (v : U64) (f : Flit) : Flit :=
  f.laneSet slot.lane slot.lo slot.width v

def Disjoint (first second : Slot) : Prop :=
  first.lane ≠ second.lane ∨ first.lo + first.width ≤ second.lo ∨
    second.lo + second.width ≤ first.lo
deriving Decidable

theorem Disjoint.symm {first second : Slot} (disjoint : first.Disjoint second) :
    second.Disjoint first := by
  rcases disjoint with lane | below | above
  · exact .inl (Ne.symm lane)
  · exact .inr (.inr below)
  · exact .inr (.inl above)

variable (slot : Slot)

theorem get_set_same (v : U64) (f : Flit) : slot.get (slot.set v f) = v &&& mask 64 slot.width := by
  rw [get, set, Flit.laneGet, Flit.laneSet, Flit.get_set_same, BitField.get_set_same slot.fits]

theorem get_set_disjoint {written read : Slot} (disjoint : written.Disjoint read)
    (v : U64) (f : Flit) : read.get (written.set v f) = read.get f := by
  rw [get, get, set, Flit.laneGet, Flit.laneGet, Flit.laneSet]
  by_cases sameLane : written.lane = read.lane
  · rw [← sameLane, Flit.get_set_same]
    exact BitField.get_set_disjoint written.fits
      (disjoint.resolve_left (· sameLane)) _ _
  · rw [Flit.get_set_ne _ sameLane]

theorem get_and_mask (f : Flit) : slot.get f &&& mask 64 slot.width = slot.get f :=
  BitField.get_and_mask _ _ _

@[simp] theorem sop_set (v : U64) (f : Flit) : (slot.set v f).sop = f.sop := Flit.sop_set _ _ _

@[simp] theorem eop_set (v : U64) (f : Flit) : (slot.set v f).eop = f.eop := Flit.eop_set _ _ _

@[simp] theorem get_setSop (b : Bool) (f : Flit) : slot.get (f.setSop b) = slot.get f := by
  simp only [get, Flit.laneGet, Flit.get_setSop]

@[simp] theorem get_setEop (b : Bool) (f : Flit) : slot.get (f.setEop b) = slot.get f := by
  simp only [get, Flit.laneGet, Flit.get_setEop]

end Slot

/-- The C types that accessors take and return. -/
class FieldValue (α : Type) where
  toWord : α → U64
  ofWord : U64 → α

instance {n : Nat} : FieldValue (BitVec n) where
  toWord v := v.setWidth 64
  ofWord v := v.setWidth n

instance : FieldValue Bool where
  toWord v := if v then 1 else 0
  ofWord v := v != 0

structure Field (α : Type) extends Slot

namespace Field

variable {α : Type} [FieldValue α]

section

variable (field : Field α)

def get (f : Flit) : α := FieldValue.ofWord (field.toSlot.get f)

def set (v : α) (f : Flit) : Flit :=
  field.toSlot.set (FieldValue.toWord v) f

theorem get_congr {f g : Flit}
    (equal : field.toSlot.get f = field.toSlot.get g) : field.get f = field.get g := by
  rw [get, get, equal]

theorem get_eq (f : Flit) :
    field.get f = FieldValue.ofWord (BitField.get field.lo field.width (f.get field.lane)) := rfl

theorem set_eq (v : α) (f : Flit) : field.set v f = f.set field.lane
    (BitField.set field.lo field.width (FieldValue.toWord v) (f.get field.lane)) := rfl

theorem get_set_disjoint {β : Type} [FieldValue β] {written : Field α}
    {read : Field β} (disjoint : written.Disjoint read.toSlot) (v : α) (f : Flit) :
    read.get (written.set v f) = read.get f :=
  read.get_congr (Slot.get_set_disjoint disjoint _ f)

@[simp] theorem sop_set (v : α) (f : Flit) : (field.set v f).sop = f.sop := Slot.sop_set _ _ _

@[simp] theorem eop_set (v : α) (f : Flit) : (field.set v f).eop = f.eop := Slot.eop_set _ _ _

@[simp] theorem get_setSop (b : Bool) (f : Flit) :
    field.get (f.setSop b) = field.get f := field.get_congr (Slot.get_setSop _ b f)

@[simp] theorem get_setEop (b : Bool) (f : Flit) :
    field.get (f.setEop b) = field.get f := field.get_congr (Slot.get_setEop _ b f)

end

variable {n : Nat}

section

variable (field : Field (BitVec n))

theorem getLsbD_get (f : Flit) (index : Nat) :
    (field.get f).getLsbD index = (decide (index < n) && decide (index < field.width) &&
        (f.get field.lane).getLsbD (field.lo + index)) := by
  rw [get, FieldValue.ofWord, instFieldValueBitVec, getLsbD_setWidth, Slot.get,
    Flit.laneGet, BitField.getLsbD_get]
  grind

theorem get_and_mask {width : Nat} (wide : field.width ≤ width)
    (f : Flit) : field.get f &&& mask n width = field.get f := by
  apply eq_of_getLsbD_eq
  intro index inside
  rw [getLsbD_and, getLsbD_mask, getLsbD_get]
  grind

theorem ofWord_toWord (v : BitVec n) :
    FieldValue.ofWord (FieldValue.toWord v &&& mask 64 field.width) = v &&& mask n field.width := by
  have fits := field.fits
  apply eq_of_getLsbD_eq
  intro index inside
  rw [FieldValue.ofWord, FieldValue.toWord, instFieldValueBitVec, getLsbD_setWidth,
    getLsbD_and, getLsbD_setWidth, getLsbD_and, getLsbD_mask, getLsbD_mask]
  grind

theorem get_set_same (v : BitVec n) (f : Flit) :
    field.get (field.set v f) = v &&& mask n field.width := by
  rw [get, set, Slot.get_set_same, ofWord_toWord field]

theorem toNat_get_set (narrow : field.width < n) (v : BitVec n)
    (f : Flit) : (field.get (field.set v f)).toNat = v.toNat % 2 ^ field.width := by
  rw [get_set_same, toNat_and_mask narrow]

theorem toWord_get (wide : field.width ≤ n) (f : Flit) :
    FieldValue.toWord (field.get f) = field.toSlot.get f := by
  apply eq_of_getLsbD_eq
  intro index inside
  rw [FieldValue.toWord, instFieldValueBitVec, getLsbD_setWidth, getLsbD_get,
    Slot.get, Flit.laneGet, BitField.getLsbD_get]
  grind

end

theorem toWord_get_bool (field : Field Bool) (single : field.width = 1) (f : Flit) :
    FieldValue.toWord (field.get f) = field.toSlot.get f := by
  have oneBit : mask 64 1 = 1 := by decide
  have cases : field.toSlot.get f = 0 ∨ field.toSlot.get f = 1 := by
    rw [Slot.get, Flit.laneGet, BitField.get, single, oneBit]
    have bit := and_one_eq_setWidth_ofBool_getLsbD
      (x := f.get field.lane >>> field.lo)
    cases low : (f.get field.lane >>> field.lo).getLsbD 0 with
    | false => exact .inl (by rw [low] at bit; exact bit)
    | true => exact .inr (by rw [low] at bit; exact bit)
  rw [get]
  rcases cases with zero | one
  · rw [zero]; rfl
  · rw [one]; rfl

end Field

structure Write where
  slot : Slot
  value : U64

def Field.write {α : Type} [FieldValue α] (field : Field α) (v : α) : Write where
  slot := field.toSlot
  value := FieldValue.toWord v

namespace Write

def apply : List Write → Flit → Flit
  | [], f => f
  | w :: writes, f => apply writes (w.slot.set w.value f)

def Separate (writes : List Write) : Prop :=
  writes.Pairwise fun first second => first.slot.Disjoint second.slot

theorem apply_append (first second : List Write) (f : Flit) :
    apply (first ++ second) f = apply second (apply first f) := by
  induction first generalizing f with
  | nil => rfl
  | cons w first ih => exact ih _

theorem get_apply_disjoint {slot : Slot} (writes : List Write)
    (disjoint : ∀ w ∈ writes, w.slot.Disjoint slot) (f : Flit) :
    slot.get (apply writes f) = slot.get f := by
  induction writes generalizing f with
  | nil => rfl
  | cons w writes ih =>
    rw [apply, ih (fun v member => disjoint v (by simp [member])),
      Slot.get_set_disjoint (disjoint w (by simp))]

variable {writes : List Write}

theorem field_get_apply_other {α : Type} [FieldValue α] {field : Field α} {slots : List Slot}
    (addressed : writes.map slot = slots) (other : ∀ slot ∈ slots, slot.Disjoint field.toSlot)
    (f : Flit) :
    field.get (apply writes f) = field.get f := by
  refine field.get_congr (get_apply_disjoint writes (fun w member => ?_) f)
  exact other w.slot (addressed ▸ mem_map_of_mem member)

theorem framing_apply (writes : List Write) (f : Flit) :
    (apply writes f).sop = f.sop ∧ (apply writes f).eop = f.eop := by
  induction writes generalizing f with
  | nil => exact ⟨rfl, rfl⟩
  | cons w writes ih =>
    rw [apply, (ih _).1, (ih _).2]
    exact ⟨Slot.sop_set .., Slot.eop_set ..⟩

theorem get_apply (separate : Separate writes) {w : Write} (member : w ∈ writes) (f : Flit) :
    w.slot.get (apply writes f) = w.value &&& mask 64 w.slot.width := by
  induction writes generalizing f with
  | nil => simp at member
  | cons v writes ih =>
    rw [Separate, pairwise_cons] at separate
    rcases mem_cons.mp member with rfl | member
    · rw [apply, get_apply_disjoint writes
        (fun u inside => (separate.1 u inside).symm), Slot.get_set_same]
    · rw [apply]
      exact ih separate.2 member _

/-- The positions of the calls decide whether they are separate, so it is enough to look at calls
with sample values at the same positions. -/
theorem separate_of_slots (sample : List Write) (slots : writes.map slot = sample.map slot)
    (disjoint : (sample.map slot).Pairwise Slot.Disjoint) : Separate writes := by
  rw [← slots, pairwise_map] at disjoint
  exact disjoint

theorem field_get_apply {n : Nat} {field : Field (BitVec n)} {v : BitVec n}
    (separate : Separate writes) (member : field.write v ∈ writes) (f : Flit) :
    field.get (apply writes f) = v &&& mask n field.width := by
  have read : field.toSlot.get (apply writes f) = _ := get_apply separate member f
  rw [Field.get, read]
  exact field.ofWord_toWord v

theorem field_get_apply_of_fits {α : Type} [FieldValue α] {field : Field α} {v : α}
    {writes : List Write} (separate : Separate writes) (member : field.write v ∈ writes)
    (fits : FieldValue.ofWord (FieldValue.toWord v &&& mask 64 field.width) = v)
    (f : Flit) : field.get (apply writes f) = v := by
  have read : field.toSlot.get (apply writes f) = _ := get_apply separate member f
  rw [Field.get, read]
  exact fits

end Write

namespace UbMeta

-- lane 0: NTH
def dcna : Field U32 := { lane := 0, lo := 0, width := 24 }
def scna : Field U32 := { lane := 0, lo := 24, width := 24 }
def lbf : Field U8 := { lane := 0, lo := 48, width := 8 }
def sl : Field U8 := { lane := 0, lo := 56, width := 4 }
def nthNlp : Field U8 := { lane := 0, lo := 60, width := 3 }
def valid : Field Bool := { lane := 0, lo := 63, width := 1 }

-- lane 1: RTPH
def tpOpcode : Field U8 := { lane := 1, lo := 0, width := 8 }
def tpVer : Field U8 := { lane := 1, lo := 8, width := 2 }
def padding : Field U8 := { lane := 1, lo := 10, width := 2 }
def rtphNlp : Field U8 := { lane := 1, lo := 12, width := 4 }
def srcTpn : Field U32 := { lane := 1, lo := 16, width := 24 }
def dstTpn : Field U32 := { lane := 1, lo := 40, width := 24 }

-- lane 2: PSN, TPMSN and flags
def psn : Field U32 := { lane := 2, lo := 0, width := 24 }
def tpmsn : Field U32 := { lane := 2, lo := 24, width := 24 }
def rspst : Field U8 := { lane := 2, lo := 48, width := 3 }
def rspinfo : Field U8 := { lane := 2, lo := 51, width := 5 }
def aFlag : Field Bool := { lane := 2, lo := 56, width := 1 }
def fFlag : Field Bool := { lane := 2, lo := 57, width := 1 }
def svcMode : Field U8 := { lane := 2, lo := 58, width := 2 }
def isResponse : Field Bool := { lane := 2, lo := 60, width := 1 }
def lastPkt : Field Bool := { lane := 2, lo := 61, width := 1 }

-- lane 3: BTAH
def taOpcode : Field U8 := { lane := 3, lo := 0, width := 8 }
def taVer : Field U8 := { lane := 3, lo := 8, width := 2 }
def eeBits : Field U8 := { lane := 3, lo := 10, width := 2 }
def tvEn : Field Bool := { lane := 3, lo := 12, width := 1 }
def poison : Field Bool := { lane := 3, lo := 13, width := 1 }
def targetHint : Field Bool := { lane := 3, lo := 14, width := 1 }
def udFlag : Field Bool := { lane := 3, lo := 15, width := 1 }
def iniTassn : Field U16 := { lane := 3, lo := 16, width := 16 }
def odr : Field U8 := { lane := 3, lo := 32, width := 3 }
def odrExec : Field U8 := { lane := 3, lo := 32, width := 2 }
def odrCompl : Field Bool := { lane := 3, lo := 34, width := 1 }
def fence : Field Bool := { lane := 3, lo := 35, width := 1 }
def mtEn : Field Bool := { lane := 3, lo := 36, width := 1 }
def fce : Field Bool := { lane := 3, lo := 37, width := 1 }
def retry : Field Bool := { lane := 3, lo := 38, width := 1 }
def alloc : Field Bool := { lane := 3, lo := 39, width := 1 }
def iniRcType : Field U8 := { lane := 3, lo := 40, width := 2 }
def eBit : Field Bool := { lane := 3, lo := 42, width := 1 }
def iniRcId : Field U32 := { lane := 3, lo := 43, width := 20 }

end UbMeta

/-! ## Extension flit

The `ub_ext` accessors spell their masks out one by one. -/

namespace UbExt

def address (f : Flit) : U64 := f.get 0

def setAddress (v : U64) (f : Flit) : Flit := f.set 0 v

def tokenId (f : Flit) : U32 :=
  (f.get 1 &&& ((1#64 <<< 20) - 1#64)).setWidth 32

def setTokenId (v : U32) (f : Flit) : Flit :=
  f.set 1 ((f.get 1 &&& ~~~((1#64 <<< 20) - 1#64)) |||
    (v.setWidth 64 &&& ((1#64 <<< 20) - 1#64)))

def length (f : Flit) : U32 := (f.get 1 >>> 32).setWidth 32

def setLength (v : U32) (f : Flit) : Flit :=
  f.set 1 ((f.get 1 &&& 0x00000000FFFFFFFF#64) ||| (v.setWidth 64 <<< 32))

def tokenValue (f : Flit) : U32 := (f.get 2 &&& 0xFFFFFFFF#64).setWidth 32

def setTokenValue (v : U32) (f : Flit) : Flit :=
  f.set 2 ((f.get 2 &&& ~~~0xFFFFFFFF#64) ||| v.setWidth 64)

def mtHint (f : Flit) : U8 := ((f.get 2 >>> 32) &&& 0xFF#64).setWidth 8

def setMtHint (v : U8) (f : Flit) : Flit :=
  f.set 2 ((f.get 2 &&& ~~~(0xFF#64 <<< 32)) ||| (v.setWidth 64 <<< 32))

def mtTcType (f : Flit) : U8 := ((f.get 2 >>> 40) &&& 0x3#64).setWidth 8

def setMtTcType (v : U8) (f : Flit) : Flit :=
  f.set 2 ((f.get 2 &&& ~~~(0x3#64 <<< 40)) ||| ((v.setWidth 64 &&& 0x3#64) <<< 40))

def mtTcId (f : Flit) : U32 :=
  ((f.get 2 >>> 42) &&& ((1#64 <<< 20) - 1#64)).setWidth 32

def setMtTcId (v : U32) (f : Flit) : Flit :=
  f.set 2 ((f.get 2 &&& ~~~(((1#64 <<< 20) - 1#64) <<< 42)) |||
    ((v.setWidth 64 &&& ((1#64 <<< 20) - 1#64)) <<< 42))

def opData (f : Flit) : U64 := f.get 3

def setOpData (v : U64) (f : Flit) : Flit := f.set 3 v

/-! The positions these accessors address. -/

def addressField : Field U64 := { lane := 0, lo := 0, width := 64 }
def tokenIdField : Field U32 := { lane := 1, lo := 0, width := 20 }
def lengthField : Field U32 := { lane := 1, lo := 32, width := 32 }
def tokenValueField : Field U32 := { lane := 2, lo := 0, width := 32 }
def mtHintField : Field U8 := { lane := 2, lo := 32, width := 8 }
def mtTcTypeField : Field U8 := { lane := 2, lo := 40, width := 2 }
def mtTcIdField : Field U32 := { lane := 2, lo := 42, width := 20 }
def opDataField : Field U64 := { lane := 3, lo := 0, width := 64 }

theorem setWidth_and_mask {k width : Nat} (fits : k ≤ width) (v : BitVec k) :
    v.setWidth 64 &&& mask 64 width = v.setWidth 64 := by
  apply eq_of_getLsbD_eq
  intro index inside
  rw [getLsbD_and, getLsbD_mask, getLsbD_setWidth]
  by_cases low : index < k
  · simp [show index < width by omega, inside]
  · simp [getLsbD_of_ge v index (by omega)]

theorem mask_20 : (1#64 <<< 20) - 1#64 = mask 64 20 := by decide

theorem mask_32 : 0xFFFFFFFF#64 = mask 64 32 := by decide

theorem mask_8 : 0xFF#64 = mask 64 8 := by decide

theorem mask_2 : 0x3#64 = mask 64 2 := by decide

theorem mask_64 : mask 64 64 = allOnes 64 := by decide

theorem get_whole (word : U64) : BitField.get 0 64 word = word := by
  rw [BitField.get, mask_64, ushiftRight_zero, and_allOnes]

theorem set_whole (v word : U64) : BitField.set 0 64 v word = v := by
  rw [BitField.set, mask_64, shiftLeft_zero, shiftLeft_zero, and_allOnes]
  simp

theorem address_eq (f : Flit) : address f = addressField.get f := by
  simp only [address, addressField, Field.get_eq, get_whole, FieldValue.ofWord, setWidth_eq]

theorem setAddress_eq (v : U64) (f : Flit) : setAddress v f = addressField.set v f := by
  simp only [setAddress, addressField, Field.set_eq, set_whole, FieldValue.toWord, setWidth_eq]

theorem opData_eq (f : Flit) : opData f = opDataField.get f := by
  simp only [opData, opDataField, Field.get_eq, get_whole, FieldValue.ofWord, setWidth_eq]

theorem setOpData_eq (v : U64) (f : Flit) : setOpData v f = opDataField.set v f := by
  simp only [setOpData, opDataField, Field.set_eq, set_whole, FieldValue.toWord, setWidth_eq]

theorem tokenId_eq (f : Flit) : tokenId f = tokenIdField.get f := by
  simp only [tokenId, mask_20, tokenIdField, Field.get_eq, BitField.get, ushiftRight_zero,
    FieldValue.ofWord]

theorem setTokenId_eq (v : U32) (f : Flit) : setTokenId v f = tokenIdField.set v f := by
  simp only [setTokenId, mask_20, tokenIdField, Field.set_eq, BitField.set, shiftLeft_zero,
    FieldValue.toWord]

theorem length_eq (f : Flit) : length f = lengthField.get f := by
  have whole : (f.get 1 >>> 32) &&& mask 64 32 = f.get 1 >>> 32 := by
    apply eq_of_getLsbD_eq
    intro index inside
    rw [getLsbD_and, getLsbD_mask, getLsbD_ushiftRight]
    by_cases low : index < 32
    · simp [low, inside]
    · simp [getLsbD_of_ge (f.get 1) (32 + index) (by omega)]
  simp only [length, lengthField, Field.get_eq, BitField.get, whole, FieldValue.ofWord]

theorem setLength_eq (v : U32) (f : Flit) : setLength v f = lengthField.set v f := by
  have maskEq : 0x00000000FFFFFFFF#64 = ~~~(mask 64 32 <<< 32) := by decide
  simp only [setLength, maskEq, lengthField, Field.set_eq, BitField.set,
    setWidth_and_mask (Nat.le_refl 32), FieldValue.toWord]

theorem tokenValue_eq (f : Flit) : tokenValue f = tokenValueField.get f := by
  simp only [tokenValue, mask_32, tokenValueField, Field.get_eq, BitField.get, ushiftRight_zero,
    FieldValue.ofWord]

theorem setTokenValue_eq (v : U32) (f : Flit) : setTokenValue v f = tokenValueField.set v f := by
  simp only [setTokenValue, mask_32, tokenValueField, Field.set_eq, BitField.set, shiftLeft_zero,
    setWidth_and_mask (Nat.le_refl 32), FieldValue.toWord]

theorem mtHint_eq (f : Flit) : mtHint f = mtHintField.get f := by
  simp only [mtHint, mask_8, mtHintField, Field.get_eq, BitField.get, FieldValue.ofWord]

theorem setMtHint_eq (v : U8) (f : Flit) : setMtHint v f = mtHintField.set v f := by
  simp only [setMtHint, mask_8, mtHintField, Field.set_eq, BitField.set,
    setWidth_and_mask (Nat.le_refl 8), FieldValue.toWord]

theorem mtTcType_eq (f : Flit) : mtTcType f = mtTcTypeField.get f := by
  simp only [mtTcType, mask_2, mtTcTypeField, Field.get_eq, BitField.get, FieldValue.ofWord]

theorem setMtTcType_eq (v : U8) (f : Flit) : setMtTcType v f = mtTcTypeField.set v f := by
  simp only [setMtTcType, mask_2, mtTcTypeField, Field.set_eq, BitField.set, FieldValue.toWord]

theorem mtTcId_eq (f : Flit) : mtTcId f = mtTcIdField.get f := by
  simp only [mtTcId, mask_20, mtTcIdField, Field.get_eq, BitField.get, FieldValue.ofWord]

theorem setMtTcId_eq (v : U32) (f : Flit) : setMtTcId v f = mtTcIdField.set v f := by
  simp only [setMtTcId, mask_20, mtTcIdField, Field.set_eq, BitField.set, FieldValue.toWord]

end UbExt

namespace Roce

-- The `roce_meta` accessors of `roce_flit.hpp` that the modelled elements use.

namespace RoceMeta

def opcode : Field U8 := { lane := 0, lo := 0, width := 8 }
def tver : Field U8 := { lane := 0, lo := 8, width := 2 }
def padcnt : Field U8 := { lane := 0, lo := 10, width := 2 }
def se : Field Bool := { lane := 0, lo := 12, width := 1 }
def m : Field Bool := { lane := 0, lo := 13, width := 1 }
def fecn : Field Bool := { lane := 0, lo := 14, width := 1 }
def becn : Field Bool := { lane := 0, lo := 15, width := 1 }
def pkey : Field U16 := { lane := 0, lo := 16, width := 16 }
def destQp : Field U32 := { lane := 0, lo := 32, width := 24 }
def aFlag : Field Bool := { lane := 0, lo := 56, width := 1 }
def valid : Field Bool := { lane := 0, lo := 57, width := 1 }
def psn : Field U32 := { lane := 1, lo := 0, width := 24 }
def msn : Field U32 := { lane := 1, lo := 24, width := 24 }
def syndrome : Field U8 := { lane := 1, lo := 48, width := 8 }
def isResponse : Field Bool := { lane := 1, lo := 56, width := 1 }
def srcQp : Field U32 := { lane := 2, lo := 0, width := 24 }

end RoceMeta

def idx (qpn : U32) : Fin 16 := ⟨(qpn &&& 15).toNat, BitField.and_15_lt qpn⟩

end Roce

end OpenURMA
