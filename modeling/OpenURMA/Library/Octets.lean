import OpenURMA.Library.BitField
import Mathlib.Data.List.GetD

/-!
# Octets of a machine word

Big-endian splitting of a word into octets and its reassembly, in the shapes of hand-written codecs:
one shift and mask per octet on the way out, shifts and ors or a fold on the way in.
-/

namespace OpenURMA.Library

open List BitVec

abbrev Byte := BitVec 8

variable {n : Nat}

def octet (shift : Nat) (word : BitVec n) : Byte :=
  ((word >>> shift) &&& 0xFF#n).setWidth 8

/-- Two octets, most significant first. -/
def be16 (b₁ b₀ : Byte) : BitVec 16 :=
  (b₁.setWidth 16 <<< 8) ||| b₀.setWidth 16

/-- Three octets, most significant first. -/
def be24 (b₂ b₁ b₀ : Byte) : BitVec 32 :=
  (b₂.setWidth 32 <<< 16) ||| (b₁.setWidth 32 <<< 8) ||| b₀.setWidth 32

/-- Four octets, most significant first. -/
def be32 (b₃ b₂ b₁ b₀ : Byte) : BitVec 32 :=
  (b₃.setWidth 32 <<< 24) ||| (b₂.setWidth 32 <<< 16) |||
    (b₁.setWidth 32 <<< 8) ||| b₀.setWidth 32

def joinOctets (octets : List Byte) (accumulator : BitVec 64) : BitVec 64 :=
  octets.foldl (fun word byte => (word <<< 8) ||| byte.setWidth 64) accumulator

/-- The word whose octets are the given ones, least significant first. -/
def littleEndian : List Byte → BitVec 64
  | [] => 0
  | byte :: octets => (littleEndian octets <<< 8) ||| byte.setWidth 64

theorem getLsbD_octet (wide : 8 ≤ n) (shift index : Nat) (word : BitVec n) :
    (octet shift word).getLsbD index = (decide (index < 8) && word.getLsbD (shift + index)) := by
  have maskEq : 0xFF#n = BitVec.ofNat n (2 ^ 8 - 1) := rfl
  simp only [octet, getLsbD_setWidth, getLsbD_and,
    getLsbD_ushiftRight, maskEq, getLsbD_ofNat, Nat.testBit_two_pow_sub_one]
  grind

theorem be16_octet (word : BitVec 16) : be16 (octet 8 word) (octet 0 word) = word := by
  apply eq_of_getLsbD_eq
  intro index inside
  simp only [be16, getLsbD_or, getLsbD_shiftLeft,
    getLsbD_setWidth, getLsbD_octet (n := 16) (by omega)]
  grind

theorem be24_octet (word : BitVec 32) :
    be24 (octet 16 word) (octet 8 word) (octet 0 word) = word &&& BitField.mask 32 24 := by
  apply eq_of_getLsbD_eq
  intro index inside
  simp only [be24, getLsbD_or, getLsbD_shiftLeft,
    getLsbD_setWidth, getLsbD_octet (n := 32) (by omega),
    getLsbD_and, BitField.getLsbD_mask]
  grind

theorem be32_octet (word : BitVec 32) :
    be32 (octet 24 word) (octet 16 word) (octet 8 word) (octet 0 word) = word := by
  apply eq_of_getLsbD_eq
  intro index inside
  simp only [be32, getLsbD_or, getLsbD_shiftLeft,
    getLsbD_setWidth, getLsbD_octet (n := 32) (by omega)]
  grind

theorem shiftLeft_or_octet (word : BitVec 64) (shift : Nat) :
    ((word >>> (shift + 8)) <<< 8) ||| (octet shift word).setWidth 64 = word >>> shift := by
  apply eq_of_getLsbD_eq
  intro index inside
  simp only [getLsbD_or, getLsbD_shiftLeft,
    getLsbD_setWidth, getLsbD_ushiftRight, getLsbD_octet (n := 64) (by omega)]
  grind

theorem joinOctets_octets (word : BitVec 64) :
    joinOctets ((range 8).map fun i => octet (56 - i * 8) word) 0 = word := by
  have start : (0 : BitVec 64) = word >>> 64 := by
    apply eq_of_getLsbD_eq
    intro index inside
    simp
  have step := shiftLeft_or_octet word
  rw [show (range 8).map (fun i => octet (56 - i * 8) word) =
    [octet 56 word, octet 48 word, octet 40 word, octet 32 word,
      octet 24 word, octet 16 word, octet 8 word, octet 0 word] from rfl]
  simp only [joinOctets, foldl_cons, foldl_nil, start]
  rw [step 56, step 48, step 40, step 32, step 24, step 16, step 8, step 0]
  simp

theorem getLsbD_littleEndian (octets : List Byte) (index : Nat) (inside : index < 64) :
    (littleEndian octets).getLsbD index = (octets.getD (index / 8) 0).getLsbD (index % 8) := by
  induction octets generalizing index with
  | nil => simp [littleEndian]
  | cons byte octets ih =>
    simp only [littleEndian, getLsbD_or, getLsbD_shiftLeft, getLsbD_setWidth]
    by_cases low : index < 8
    · have quotient : index / 8 = 0 := by omega
      have remainder : index % 8 = index := by omega
      simp [low, inside, quotient, remainder]
    · have quotient : index / 8 = (index - 8) / 8 + 1 := by omega
      have remainder : index % 8 = (index - 8) % 8 := by omega
      rw [ih (index - 8) (by omega), quotient, remainder, getD_cons_succ,
        getLsbD_of_ge byte index (by omega)]
      simp [low, inside]

theorem octet_littleEndian (octets : List Byte) {position : Nat} (inside : position < 8) :
    octet (8 * position) (littleEndian octets) = octets.getD position 0 := by
  apply eq_of_getLsbD_eq
  intro index low
  have quotient : (8 * position + index) / 8 = position := by omega
  have remainder : (8 * position + index) % 8 = index := by omega
  rw [getLsbD_octet (by omega), getLsbD_littleEndian _ _ (by omega)]
  simp [quotient, remainder, low]

/-! ## Words in memory

Least significant octet first: one shift and mask per octet on the way out, one shift and or
per octet on the way in. -/

def wordOctets (word : BitVec 64) : List Byte := (range 8).map fun i => octet (i * 8) word

/-- Collect `count` octets into a word, least significant first. -/
def gather (octets : Nat → Byte) (count : Nat) : BitVec 64 :=
  (range count).foldl (fun word i => word ||| ((octets i).setWidth 64 <<< (i * 8))) 0

@[simp] theorem wordOctets_length (word : BitVec 64) : (wordOctets word).length = 8 := by
  simp [wordOctets]

theorem getD_wordOctets (word : BitVec 64) {position : Nat} (inside : position < 8) :
    (wordOctets word).getD position 0 = octet (position * 8) word := by
  simp [wordOctets, inside]

theorem length_words (words : List (BitVec 64)) :
    (words.flatMap wordOctets).length = 8 * words.length := by
  induction words with
  | nil => rfl
  | cons word words ih =>
    rw [flatMap_cons, length_append, ih, wordOctets_length, length_cons]
    omega

theorem take_drop_words {words : List (BitVec 64)} {k : Nat} (inside : k < words.length) :
    ((words.flatMap wordOctets).drop (8 * k)).take 8 = wordOctets (words.getD k 0) := by
  induction words generalizing k with
  | nil => cases inside
  | cons word words ih =>
    cases k with
    | zero => exact take_left' (wordOctets_length word)
    | succ k =>
      have skipped : 8 * (k + 1) = (wordOctets word).length + 8 * k := by
        rw [wordOctets_length]
        omega
      rw [flatMap_cons, skipped, drop_length_add_append, getD_cons_succ]
      exact ih (by simpa using inside)

theorem getLsbD_littleEndian_take (word : BitVec 64) {count index : Nat} (inside : index < 64) :
    (littleEndian ((wordOctets word).take count)).getLsbD index =
      (decide (index / 8 < count) && word.getLsbD index) := by
  rw [getLsbD_littleEndian _ _ inside]
  by_cases low : index / 8 < count
  · have taken : ((wordOctets word).take count).getD (index / 8) 0 =
        (wordOctets word).getD (index / 8) 0 := by
      simp [getD_eq_getElem?_getD, low]
    have position : index / 8 * 8 + index % 8 = index := by omega
    rw [taken, getD_wordOctets _ (by omega), getLsbD_octet (by omega), position]
    simp [low, Nat.mod_lt]
  · rw [getD_eq_default _ _ (by simp; omega)]
    simp [low]

@[simp] theorem littleEndian_wordOctets (word : BitVec 64) :
    littleEndian (wordOctets word) = word := by
  have whole : (wordOctets word).take 8 = wordOctets word := take_of_length_le (by simp)
  apply eq_of_getLsbD_eq
  intro index inside
  rw [← whole, getLsbD_littleEndian_take word inside]
  simp [show index / 8 < 8 by omega]

@[simp] theorem littleEndian_append_zeros (octets : List Byte) (count : Nat) :
    littleEndian (octets ++ List.replicate count 0) = littleEndian octets := by
  apply eq_of_getLsbD_eq
  intro index inside
  rw [getLsbD_littleEndian _ _ inside, getLsbD_littleEndian _ _ inside]
  by_cases within : index / 8 < octets.length
  · rw [getD_append _ _ _ _ within]
  · rw [getD_append_right _ _ _ _ (by omega), getD_eq_default octets _ (by omega)]
    by_cases above : index / 8 - octets.length < count
    · rw [getD_replicate _ above]
    · rw [getD_eq_default _ _ (by simpa using above)]

theorem getLsbD_gather (octets : Nat → Byte) (count : Nat) {index : Nat} (inside : index < 64) :
    (gather octets count).getLsbD index =
      (decide (index / 8 < count) && (octets (index / 8)).getLsbD (index % 8)) := by
  induction count with
  | zero => simp [gather]
  | succ count ih =>
    have last : gather octets (count + 1) =
        gather octets count ||| ((octets count).setWidth 64 <<< (count * 8)) := by
      rw [gather, range_succ, foldl_append]
      rfl
    rw [last, getLsbD_or, ih, getLsbD_shiftLeft, getLsbD_setWidth]
    rcases Nat.lt_trichotomy (index / 8) count with below | here | above
    · have low : index < count * 8 := by omega
      simp [below, low, show index / 8 < count + 1 by omega]
    · have high : ¬ index < count * 8 := by omega
      have offset : index - count * 8 = index % 8 := by omega
      simp [inside, high, offset, here, show index % 8 < 64 by omega]
    · have beyond : (octets count).getLsbD (index - count * 8) = false :=
        getLsbD_of_ge _ _ (by omega)
      simp [beyond, show ¬ index / 8 < count by omega, show ¬ index / 8 < count + 1 by omega]

theorem gather_zero (count : Nat) : gather (fun _ => 0) count = 0 := by
  apply eq_of_getLsbD_eq
  intro index inside
  rw [getLsbD_gather _ _ inside]
  simp

theorem gather_eq_iff {octets others : Nat → Byte} {count : Nat} (short : count ≤ 8) :
    gather octets count = gather others count ↔ ∀ i < count, octets i = others i := by
  constructor
  · intro same i inside
    apply eq_of_getLsbD_eq
    intro index low
    have quotient : (i * 8 + index) / 8 = i := by omega
    have remainder : (i * 8 + index) % 8 = index := by omega
    have bit := congrArg (·.getLsbD (i * 8 + index)) same
    simpa only [getLsbD_gather _ _ (show i * 8 + index < 64 by omega), quotient, remainder,
      decide_eq_true inside, Bool.true_and] using bit
  · intro same
    apply eq_of_getLsbD_eq
    intro index inside
    rw [getLsbD_gather _ _ inside, getLsbD_gather _ _ inside]
    by_cases position : index / 8 < count
    · rw [same _ position]
    · simp [position]

end OpenURMA.Library
