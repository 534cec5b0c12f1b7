import OpenURMA.Nic.CopyPaths

/-!
# Paged accesses as accesses octet by octet

`ou_dma_mr` translates the first address of every page of a range and moves the rest of the page
from there on.  Because a walk is linear within a page, whatever the level of the descriptor it
ends at, this is the access of every octet at the translation of its own address.
-/

namespace OpenURMA.Nic

open Library

def SamePage (a b : U64) : Prop := a.toNat / 4096 = b.toNat / 4096

/-- The page of an address is not page zero and lies inside one range of the backing store. -/
structure Mapped (backing : List Range) (p : U64) : Prop where
  nonzero : p.toNat / 4096 ≠ 0
  inside : ∃ r ∈ backing, r.start.toNat ≤ p.toNat / 4096 * 4096 ∧
    p.toNat / 4096 * 4096 + 4096 ≤ r.start.toNat + r.size.toNat

section

variable {g : Guest} {token : U32} {m : MrEntry} {va : U64} {io : Io} {memory : ByteMap}

theorem Mapped.ne_zero {backing : List Range} {p : U64} (mapped : Mapped backing p) : p ≠ 0 := by
  rintro rfl
  exact mapped.nonzero rfl

theorem Mapped.pageBacked {backing : List Range} {p : U64} (low : p.toNat < 2 ^ 48)
    (mapped : Mapped backing p) : PageBacked backing p := by
  obtain ⟨r, member, above, below⟩ := mapped.inside
  exact ⟨mapped.ne_zero, (backed_iff (by omega)).mpr ⟨by omega, r, member, by omega, by omega⟩⟩

theorem octet_mod {i : ℕ} (mapped : Mapped g.backing (octet g memory m va i)) :
    (octet g memory m va i).toNat % 4096 = (va + BitVec.ofNat 64 i).toNat % 4096 := by
  obtain ⟨frame, aligned, page⟩ := exists_frame mapped.ne_zero
  have start := page 0 (by omega)
  rw [BitVec.add_zero] at start
  rw [octet, place, start]
  omega

theorem octet_inj (noWrap : va.toNat + io.length < 2 ^ 64)
    (mapped : ∀ i < io.length, Mapped g.backing (octet g memory m va i))
    (distinct : ∀ i < io.length, ∀ j < io.length,
      SamePage (octet g memory m va i) (octet g memory m va j) →
        SamePage (va + BitVec.ofNat 64 i) (va + BitVec.ofNat 64 j))
    {i j : ℕ} (inside : i < io.length) (inside' : j < io.length)
    (same : octet g memory m va i = octet g memory m va j) : i = j := by
  have page : SamePage (va + BitVec.ofNat 64 i) (va + BitVec.ofNat 64 j) :=
    distinct i inside j inside' (by rw [same]; rfl)
  have offset := octet_mod (mapped i inside)
  rw [same, octet_mod (mapped j inside')] at offset
  rw [SamePage, toNat_add_of_noWrap noWrap inside, toNat_add_of_noWrap noWrap inside'] at page
  rw [toNat_add_of_noWrap noWrap inside, toNat_add_of_noWrap noWrap inside'] at offset
  omega

/-- An access to mapped pages moves every octet to or from the translation of its address. -/
theorem ouDmaMr_octetwise (region : g.mrTable token = some m) (above : m.vaBase.toNat ≤ va.toNat)
    (below : va.toNat + io.length ≤ m.vaBase.toNat + m.len.toNat)
    (noWrap : va.toNat + io.length < 2 ^ 64)
    (mapped : ∀ i < io.length, Mapped g.backing (octet g memory m va i))
    (apart : TablesApart g.backing memory m.ttbr0 va io.length fun p =>
      io.isWrite = true ∧ ∃ i < io.length, SamePage p (octet g memory m va i)) :
    let done := ouDmaMr g token va io memory
    done.value = some (io.moved (octet g memory m va) memory) ∧
      done.state = io.after (octet g memory m va) memory ∧
      (∀ p, (∀ i < io.length, p ≠ octet g memory m va i) → done.state p = memory p) ∧
      ((∀ i < io.length, ∀ j < io.length, SamePage (octet g memory m va i) (octet g memory m va j) →
            SamePage (va + BitVec.ofNat 64 i) (va + BitVec.ofNat 64 j)) →
        ∀ octets, io = .write octets → ∀ i, (inside : i < octets.length) →
          done.state (octet g memory m va i) = octets.get ⟨i, inside⟩) ∧
      ∀ fuel ≥ io.length, (dmaLoop g.backing m.ttbr0 fuel va io memory).value = done.value ∧
        (dmaLoop g.backing m.ttbr0 fuel va io memory).state = done.state := by
  intro done
  have moves {fuel : ℕ} (enough : io.length ≤ fuel) :
      Moves g.backing m.ttbr0 va io memory (dmaLoop g.backing m.ttbr0 fuel va io memory) :=
    dmaLoop_moves apart.stable (fun writes i inside => ⟨writes, i, inside, rfl⟩) enough
      fun i inside => (mapped i inside).pageBacked (ouWalk_lt ..)
  have admitted := (MrEntry.admits_iff noWrap).mpr ⟨above, below⟩
  have call : done = dmaLoop g.backing m.ttbr0 io.length va io memory := by
    simp only [done, ouDmaMr, region, admitted, if_true]
  obtain ⟨value, state⟩ := moves (Nat.le_refl io.length)
  rw [← call] at value state
  refine ⟨value, state, fun p other => ?_, ?_, fun fuel enough => ?_⟩
  · rw [state]
    exact Io.after_of_ne fun _ i inside => other i inside
  · rintro distinct octets rfl i inside
    rw [state]
    exact scatterAt_getElem inside fun j inside' later here =>
      Nat.ne_of_lt later (octet_inj noWrap mapped distinct inside inside' here)
  · obtain ⟨value', state'⟩ := moves enough
    exact ⟨value'.trans value.symm, state'.trans state.symm⟩

end

/-- Three octets are written across the boundary of a page. -/
theorem ouDmaMr_octetwise_flat :
    (ouDmaMr flatGuest 1 0x1FFE (.write [1, 2, 3]) flatTable).value = some [1, 2, 3] := by
  have place {i : ℕ} (inside : i < 3) :
      (octet flatGuest flatTable flatRegion 0x1FFE i).toNat = 0x1FFE + i := by
    change (flatOctet 0x1FFE i).toNat = _
    obtain ⟨here, sum⟩ := flat_octet (show (0x1FFE : U64).toNat + 3 ≤ 0x100000 by decide) inside
    rw [here, sum]
    rfl
  refine (ouDmaMr_octetwise (m := flatRegion) rfl (by decide) (by decide) (by decide) ?_ ?_).1
  · intro i inside
    have here := place inside
    change i < 3 at inside
    refine ⟨by omega, _, List.mem_singleton_self _, Nat.zero_le _, ?_⟩
    change _ ≤ 0 + 0x200000
    omega
  · refine flat_tables (by decide) fun p ⟨_, i, inside, page⟩ => ?_
    rw [SamePage, place inside] at page
    change i < 3 at inside
    omega

end OpenURMA.Nic
