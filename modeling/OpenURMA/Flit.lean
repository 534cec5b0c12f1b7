import OpenURMA.Library.Buffer
import OpenURMA.Library.Element
import Mathlib.Algebra.GroupWithZero.Nat
import Mathlib.Tactic.FinCases

/-!
# Flits and their fields

`openclicknp::flit_t` as the pipeline uses it: four 64-bit lanes, whose 32 bytes in little-endian
order are the flit's data, and the start- and end-of-packet marks (bits 0 and 1 of byte 32 in the
image that the provider and the kernel module build). The `ub_meta` and `ub_ext` accessors of
`ub_flit.hpp` are field positions over these lanes.
-/

namespace OpenURMA

open Library List

abbrev U8 := BitVec 8
abbrev U16 := BitVec 16
abbrev U32 := BitVec 32
abbrev U64 := BitVec 64

-- The sizes of the tables, so that a literal slot needs no proof of its own.
instance (priority := 1100) lanes : NeZero 4 := ⟨by decide⟩
instance (priority := 1100) slots8 : NeZero 8 := ⟨by decide⟩
instance (priority := 1100) slots16 : NeZero 16 := ⟨by decide⟩
instance (priority := 1100) slots64 : NeZero 64 := ⟨by decide⟩
instance (priority := 1100) slots256 : NeZero 256 := ⟨by decide⟩

structure Flit where
  lane0 : U64 := 0
  lane1 : U64 := 0
  lane2 : U64 := 0
  lane3 : U64 := 0
  sop : Bool := false
  eop : Bool := false
  deriving DecidableEq, Inhabited

namespace Flit

def get (f : Flit) : Fin 4 → U64
  | 0 => f.lane0
  | 1 => f.lane1
  | 2 => f.lane2
  | 3 => f.lane3

def set (f : Flit) (lane : Fin 4) (v : U64) : Flit :=
  match lane with
  | 0 => { f with lane0 := v }
  | 1 => { f with lane1 := v }
  | 2 => { f with lane2 := v }
  | 3 => { f with lane3 := v }

def setSop (f : Flit) (b : Bool) : Flit := { f with sop := b }

def setEop (f : Flit) (b : Bool) : Flit := { f with eop := b }

section

variable (f : Flit)
include f

@[simp] theorem get_set_same (lane : Fin 4) (v : U64) : (f.set lane v).get lane = v := by
  fin_cases lane <;> rfl

theorem get_set_ne {lane other : Fin 4} (different : lane ≠ other)
    (v : U64) : (f.set lane v).get other = f.get other := by
  fin_cases lane <;> fin_cases other <;> first | rfl | exact (different rfl).elim

@[simp] theorem sop_set (lane : Fin 4) (v : U64) : (f.set lane v).sop = f.sop := by
  fin_cases lane <;> rfl

@[simp] theorem eop_set (lane : Fin 4) (v : U64) : (f.set lane v).eop = f.eop := by
  fin_cases lane <;> rfl

section

variable (b : Bool)

@[simp] theorem get_setSop (lane : Fin 4) : (f.setSop b).get lane = f.get lane := by
  fin_cases lane <;> rfl

@[simp] theorem get_setEop (lane : Fin 4) : (f.setEop b).get lane = f.get lane := by
  fin_cases lane <;> rfl

@[simp] theorem sop_setSop : (f.setSop b).sop = b := rfl

@[simp] theorem eop_setSop : (f.setSop b).eop = f.eop := rfl

@[simp] theorem sop_setEop : (f.setEop b).sop = f.sop := rfl

@[simp] theorem eop_setEop : (f.setEop b).eop = b := rfl

end

def byte (f : Flit) (index : Nat) : Byte :=
  octet (8 * (index % 8)) (f.get (Fin.ofNat 4 (index / 8)))

def getData (f : Flit) (n : Nat) : List Byte :=
  (range n).map f.byte

/-- Lane `lane` of a flit whose first data bytes are `octets` and the rest zero. -/
def laneOfData (octets : List Byte) (lane : Nat) : U64 :=
  littleEndian ((range 8).map fun index => octets.getD (8 * lane + index) 0)

/-- `set_data(ptr, n)` on a fresh `flit_t`: the given bytes, then zeros. -/
def ofData (octets : List Byte) : Flit where
  lane0 := laneOfData octets 0
  lane1 := laneOfData octets 1
  lane2 := laneOfData octets 2
  lane3 := laneOfData octets 3

@[simp] theorem getData_length (n : Nat) : (f.getData n).length = n := by
  simp [getData]

end

variable {index : Nat}

theorem getD_getData (f : Flit) {n : Nat} (inside : index < n) :
    (f.getData n).getD index 0 = f.byte index := by
  simp [getData, inside]

theorem octet_laneOfData (octets : List Byte) (lane : Nat) (inside : index < 8) :
    octet (8 * index) (laneOfData octets lane) = octets.getD (8 * lane + index) 0 := by
  rw [laneOfData, octet_littleEndian _ inside]
  simp [inside]

theorem laneOfData_congr {octets others : List Byte} {lane : Nat}
    (same : ∀ index < 8, octets.getD (8 * lane + index) 0 = others.getD (8 * lane + index) 0) :
    laneOfData octets lane = laneOfData others lane := by
  rw [laneOfData, laneOfData]
  congr 1
  apply map_congr_left
  intro index member
  exact same index (mem_range.mp member)

theorem get_ofData (octets : List Byte) (lane : Fin 4) :
    (ofData octets).get lane = laneOfData octets lane.val := by
  fin_cases lane <;> rfl

theorem ofData_zeros (count : Nat) : ofData (replicate count 0) = {} := by
  have byte : ∀ index, (replicate count (0 : Byte)).getD index 0 = 0 := by
    intro index
    by_cases inside : index < count
    · exact getD_replicate 0 inside
    · exact getD_eq_default _ _ (by simpa using inside)
  have lane : ∀ lane, laneOfData (replicate count 0) lane = 0 := by
    intro lane
    simp only [laneOfData, byte]
    decide
  rw [ofData, lane, lane, lane, lane]

theorem byte_ofData (octets : List Byte) (inside : index < 32) :
    (ofData octets).byte index = octets.getD index 0 := by
  have laneBound : index / 8 < 4 := by omega
  rw [byte, get_ofData, octet_laneOfData _ _ (by omega)]
  simp only [Fin.ofNat, Nat.mod_eq_of_lt laneBound]
  congr 1
  omega

@[simp] theorem byte_setSop (f : Flit) (b : Bool) (index : Nat) :
    (f.setSop b).byte index = f.byte index := by
  simp [byte]

@[simp] theorem byte_setEop (f : Flit) (b : Bool) (index : Nat) :
    (f.setEop b).byte index = f.byte index := by
  simp [byte]

@[simp] theorem getData_setSop (f : Flit) (b : Bool) (n : Nat) :
    (f.setSop b).getData n = f.getData n := by
  simp [getData]

@[simp] theorem getData_setEop (f : Flit) (b : Bool) (n : Nat) :
    (f.setEop b).getData n = f.getData n := by
  simp [getData]

theorem getData_ofData {octets : List Byte} (short : octets.length ≤ 32) :
    (ofData octets).getData 32 = octets ++ replicate (32 - octets.length) 0 := by
  apply ext_getElem
  · simp; omega
  · intro index inside inside'
    have bound : index < 32 := by simpa using inside
    rw [← getD_eq_getElem _ 0 inside, ← getD_eq_getElem _ 0 inside',
      getD_getData _ bound, byte_ofData _ bound]
    by_cases low : index < octets.length
    · rw [getD_append _ _ _ _ low]
    · rw [getD_append_right _ _ _ _ (by omega), getD_eq_default _ _ (by omega)]
      simp

end Flit

end OpenURMA
