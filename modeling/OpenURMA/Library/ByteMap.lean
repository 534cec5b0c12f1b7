import OpenURMA.Library.Octets
import OpenURMA.Library.Scatter

/-!
# Byte-addressed memory

The memory of a process as a map from 64-bit addresses to octets.  Addresses wrap around, so a
block of octets is described by the distance from its first address.
-/

namespace OpenURMA.Library

open Function BitVec List

abbrev ByteMap := BitVec 64 → Byte

structure Span where
  base : BitVec 64
  size : Nat

variable {address : BitVec 64}

namespace Span

def Contains (span : Span) (address : BitVec 64) : Prop :=
  (address - span.base).toNat < span.size
deriving Decidable

theorem contains_of_within {inner outer : Span}
    (within : (inner.base - outer.base).toNat + inner.size ≤ outer.size)
    (inside : inner.Contains address) : outer.Contains address := by
  have split : address - outer.base = (address - inner.base) + (inner.base - outer.base) :=
    (sub_add_sub_cancel ..).symm
  unfold Contains at inside ⊢
  rw [split, toNat_add]
  have wrapped := Nat.mod_le ((address - inner.base).toNat + (inner.base - outer.base).toNat)
    (2 ^ 64)
  omega

end Span

structure Copy where
  address : BitVec 64
  octets : List Byte

def Copy.span (copy : Copy) : Span := ⟨copy.address, copy.octets.length⟩

namespace ByteMap

def write (memory : ByteMap) (copy : Copy) : ByteMap :=
  fun address => copy.octets.getD (address - copy.address).toNat (memory address)

def load (memory : ByteMap) (span : Span) : List Byte :=
  (List.range span.size).map fun k => memory (span.base + BitVec.ofNat 64 k)

theorem write_of_not_contains {memory : ByteMap} {copy : Copy}
    (outside : ¬ copy.span.Contains address) : memory.write copy address = memory address :=
  getD_eq_default _ _ (Nat.le_of_not_lt outside)

theorem foldl_write_of_not_contains {memory : ByteMap} {copies : List Copy}
    (outside : ∀ copy ∈ copies, ¬ copy.span.Contains address) :
    copies.foldl write memory address = memory address := by
  induction copies generalizing memory with
  | nil => rfl
  | cons copy copies ih =>
    rw [forall_mem_cons] at outside
    rw [foldl_cons, ih outside.2, write_of_not_contains outside.1]

theorem write_cons (memory : ByteMap) (base : BitVec 64) (byte : Byte) {octets : List Byte}
    (short : octets.length < 2 ^ 64) :
    memory.write ⟨base, byte :: octets⟩ = write (update memory base byte) ⟨base + 1, octets⟩ := by
  funext address
  simp only [write]
  by_cases here : address = base
  · subst here
    have far : (address - (address + 1)).toNat = 2 ^ 64 - 1 := by
      rw [sub_add_cancel_left]
      decide
    rw [far, getD_eq_default octets _ (by omega), update_self, sub_self]
    rfl
  · have apart : (address - base).toNat ≠ 0 := by
      intro zero
      exact here (sub_eq_zero.mp (eq_of_toNat_eq zero))
    have step : (address - base).toNat = (address - (base + 1)).toNat + 1 := by
      rw [← sub_sub, toNat_sub (address - base)]
      have bound := (address - base).isLt
      have one : (1 : BitVec 64).toNat = 1 := rfl
      rw [one]
      omega
    rw [step, getD_cons_succ, update_of_ne here]

theorem write_eq_scatterAt (memory : ByteMap) (base : BitVec 64) {octets : List Byte}
    (short : octets.length ≤ 2 ^ 64) :
    memory.write ⟨base, octets⟩ = scatterAt (fun k => base + BitVec.ofNat 64 k) memory octets := by
  induction octets generalizing memory base with
  | nil => rfl
  | cons byte octets ih =>
    rw [length_cons] at short
    rw [write_cons memory base byte (by omega), ih _ _ (by omega), scatterAt]
    congr 1
    · funext k
      rw [ofNat_add, add_comm (BitVec.ofNat 64 k), add_assoc]
      rfl
    · rw [BitVec.add_zero]

end ByteMap

end OpenURMA.Library
