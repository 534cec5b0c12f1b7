import OpenURMA.Nic.PageTables

/-!
# Accesses stay inside their region

`ou_dma_mr` compares an access with its region in 64-bit arithmetic.  As long as the addresses of
the access do not wrap around, the comparison is that of the natural numbers, and every octet that
is moved is the translation of an address of the region.
-/

namespace OpenURMA.Nic

open Library BitVec Bool

/-- The addresses of a region, as natural numbers. -/
def MrEntry.Holds (m : MrEntry) (a : U64) : Prop :=
  m.vaBase.toNat ≤ a.toNat ∧ a.toNat < m.vaBase.toNat + m.len.toNat

section

variable {m : MrEntry} {va : U64} {len : ℕ} (noWrap : va.toNat + len < 2 ^ 64)
include noWrap

/-- Without a wrap-around the check says that the access is inside the region. -/
theorem MrEntry.admits_iff : m.admits va len = true ↔
      m.vaBase.toNat ≤ va.toNat ∧ va.toNat + len ≤ m.vaBase.toNat + m.len.toNat := by
  have bound := m.vaBase.isLt
  simp only [admits, not_eq_true', or_eq_false_iff, decide_eq_false_iff_not, gt_iff_lt,
    BitVec.not_lt, le_def]
  refine and_congr_right fun above => ?_
  rw [toNat_add, toNat_sub_of_le (le_def.mpr above), toNat_ofNat]
  omega

theorem toNat_add_of_noWrap {k : ℕ} (inside : k < len) :
    (va + BitVec.ofNat 64 k).toNat = va.toNat + k := by
  rw [toNat_add, toNat_ofNat]
  omega

end

section

variable {g : Guest} {token : U32} {m : MrEntry} {va : U64} {io : Io} {memory : ByteMap}

theorem Follows.translates {backing : List Range} {ttbr0 : U64} {call : DmaCall} {p : U64}
    (follows : Follows backing ttbr0 va io call)
    (inside : Span.Contains ⟨call.pa, call.io.length⟩ p) :
    ∃ i < io.length, ouWalk backing call.memory ttbr0 (va + BitVec.ofNat 64 i) = p := by
  obtain ⟨_, offset, bound, places⟩ := follows
  obtain ⟨k, small, rfl⟩ := exists_offset inside
  exact ⟨offset + k, by omega, (places k small).1⟩

end

section

variable {va : U64} {io : Io}

end

end OpenURMA.Nic
