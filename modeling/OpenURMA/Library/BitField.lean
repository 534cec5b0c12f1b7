import Mathlib.Data.BitVec
import Mathlib.Tactic.Ring

/-!
# Bit fields of a machine word

A field of an `n`-bit word is given by its lowest bit and its width. Reading shifts and masks;
writing clears the field and ors the new value in. The laws of equal and of disjoint fields follow
from characterisations of single bits.
-/

namespace OpenURMA.Library.BitField

open BitVec Nat

variable {n : Nat}

def mask (n width : Nat) : BitVec n :=
  if n ≤ width then ~~~0#n else (1#n <<< width) - 1#n

def get (lo width : Nat) (word : BitVec n) : BitVec n :=
  (word >>> lo) &&& mask n width

/-- Overwrite the field of `width` bits at bit `lo`, truncating the new value. -/
def set (lo width : Nat) (value word : BitVec n) : BitVec n :=
  (word &&& ~~~(mask n width <<< lo)) ||| ((value &&& mask n width) <<< lo)

variable {width : Nat}

theorem toNat_mask (narrow : width < n) : (mask n width).toNat = 2 ^ width - 1 := by
  have bound : 2 ^ width < 2 ^ n := Nat.pow_lt_pow_right (by omega) narrow
  have positive : 0 < 2 ^ width := Nat.two_pow_pos width
  have one : 1 % 2 ^ n = 1 := mod_eq_of_lt (by omega)
  rw [mask, if_neg (by omega), toNat_sub, toNat_shiftLeft,
    toNat_ofNat, one, Nat.shiftLeft_eq, one_mul, mod_eq_of_lt bound]
  rw [show 2 ^ n - 1 + 2 ^ width = (2 ^ width - 1) + 2 ^ n by omega,
    add_mod_right, mod_eq_of_lt (by omega)]

theorem getLsbD_mask (width index : Nat) :
    (mask n width).getLsbD index = decide (index < width ∧ index < n) := by
  by_cases narrow : width < n
  · have equal : mask n width = BitVec.ofNat n (2 ^ width - 1) := by
      apply eq_of_toNat_eq
      rw [toNat_mask narrow, toNat_ofNat, mod_eq_of_lt]
      have bound : 2 ^ width < 2 ^ n := Nat.pow_lt_pow_right (by omega) narrow
      have positive : 0 < 2 ^ width := Nat.two_pow_pos width
      omega
    rw [equal, getLsbD_ofNat, testBit_two_pow_sub_one]
    grind
  · rw [mask, if_pos (by omega)]
    simp only [not_zero, getLsbD_allOnes]
    grind

theorem getLsbD_get (lo width index : Nat) (word : BitVec n) : (get lo width word).getLsbD index =
      (decide (index < width ∧ index < n) && word.getLsbD (lo + index)) := by
  simp only [get, getLsbD_and, getLsbD_ushiftRight, getLsbD_mask, Bool.and_comm]

theorem getLsbD_set {lo : Nat} (fits : lo + width ≤ n) (index : Nat) (value word : BitVec n) :
    (set lo width value word).getLsbD index =
      if lo ≤ index ∧ index < lo + width then value.getLsbD (index - lo)
      else word.getLsbD index := by
  simp only [set, getLsbD_or, getLsbD_and, getLsbD_not,
    getLsbD_shiftLeft, getLsbD_mask]
  by_cases inside : index < n
  · grind
  · rw [getLsbD_of_ge word index (by omega)]
    grind

/-- Reading back the field just written gives the value truncated to the field. -/
theorem get_set_same {lo : Nat} (fits : lo + width ≤ n) (value word : BitVec n) :
    get lo width (set lo width value word) = value &&& mask n width := by
  apply eq_of_getLsbD_eq
  intro index inside
  rw [getLsbD_get, getLsbD_set fits, getLsbD_and, getLsbD_mask]
  grind

theorem get_set_disjoint {lo lo' width' : Nat} (fits : lo + width ≤ n)
    (disjoint : lo + width ≤ lo' ∨ lo' + width' ≤ lo) (value word : BitVec n) :
    get lo' width' (set lo width value word) = get lo' width' word := by
  apply eq_of_getLsbD_eq
  intro index inside
  rw [getLsbD_get, getLsbD_get, getLsbD_set fits]
  grind

theorem get_and_mask (lo width : Nat) (word : BitVec n) :
    get lo width word &&& mask n width = get lo width word := by
  rw [get, BitVec.and_assoc, BitVec.and_self]

theorem and_mask_of_le (wide : n ≤ width) (value : BitVec n) : value &&& mask n width = value := by
  rw [mask, if_pos wide, not_zero, and_allOnes]

theorem toNat_and_mask (narrow : width < n) (value : BitVec n) :
    (value &&& mask n width).toNat = value.toNat % 2 ^ width := by
  rw [toNat_and, toNat_mask narrow, and_two_pow_sub_one_eq_mod]

variable (value : BitVec 32)

theorem toNat_and_15 : (value &&& 15).toNat = value.toNat % 16 := by
  rw [show (15 : BitVec 32) = mask 32 4 by decide, toNat_and_mask (by omega)]
  rfl

theorem and_63_lt : (value &&& 63).toNat < 64 := by
  rw [toNat_and]
  exact lt_succ_of_le and_le_right

theorem and_15_lt : (value &&& 15).toNat < 16 := by
  rw [toNat_and_15]
  exact mod_lt _ (by omega)

end OpenURMA.Library.BitField
