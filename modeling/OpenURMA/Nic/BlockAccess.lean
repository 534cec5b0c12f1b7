import OpenURMA.Nic.GuestMemory

/-!
# An access as a block of scattered octets

An access to a region that succeeds reads or writes the octets to which its addresses are
translated, wherever it is split, and if the ranges of the backing store consist of whole pages it
depends on each of these octets alone whether it succeeds. This is true of a write only if it does
not change the page table it is made with.
-/

namespace OpenURMA.Nic

open Library Attempt List Nat
open BitVec (ofNat toNat_ofNat)

section

variable (backing : List Range) (memory : ByteMap) (va : U64)

def entriesFrom : List ℕ → U64 → List U64
  | [], _ => []
  | shift :: shifts, table =>
    let entry := table + ((va >>> shift) &&& 0x1FF) * 8
    entry ::
      match descriptor backing memory entry with
      | none => []
      | some e =>
        if e &&& 1 == 0 || shifts.isEmpty || e &&& 3 == 1 then []
        else entriesFrom shifts (e &&& 0x0000FFFFFFFFF000)

/-- The addresses of the descriptors that `ou_walk` reads. -/
def walkEntries (ttbr0 : U64) : List U64 :=
  entriesFrom backing memory va [39, 30, 21, 12] (ttbr0 &&& 0x0000FFFFFFFFF000)

variable {backing memory va} {memory' : ByteMap}

theorem descriptor_congr {entry : U64}
    (same : ∀ p, Span.Contains ⟨entry, 8⟩ p → memory' p = memory p) :
    descriptor backing memory' entry = descriptor backing memory entry := by
  have loaded : memory'.load ⟨entry, 8⟩ = memory.load ⟨entry, 8⟩ := by
    refine gatherAt_congr fun k inside => same _ ?_
    change k < 8 at inside
    change (entry + ofNat 64 k - entry).toNat < 8
    rw [add_sub_cancel_left, toNat_ofNat]
    omega
  unfold descriptor ouDma
  split
  · exact congrArg (fun octets => some (littleEndian octets)) loaded
  · rfl

theorem walkFrom_congr {shifts : List ℕ} {table : U64}
    (same : ∀ entry ∈ entriesFrom backing memory va shifts table, ∀ p,
      Span.Contains ⟨entry, 8⟩ p → memory' p = memory p) :
    walkFrom backing memory' va shifts table = walkFrom backing memory va shifts table := by
  induction shifts generalizing table with
  | nil => rfl
  | cons shift shifts ih =>
    rw [entriesFrom, forall_mem_cons] at same
    rw [walkFrom, walkFrom, descriptor_congr same.1]
    cases found : descriptor backing memory (table + ((va >>> shift) &&& 0x1FF) * 8) with
    | none => rfl
    | some e =>
      simp only [found] at same ⊢
      split_ifs with invalid last block
      · rfl
      · rfl
      · rfl
      · have table : ¬(e &&& 1 == 0 || shifts.isEmpty || e &&& 3 == 1) = true := by
          simp only [Bool.or_eq_true, not_or]
          exact ⟨⟨invalid, last⟩, block⟩
        rw [if_neg table] at same
        exact ih same.2

end

def place (backing : List Range) (memory : ByteMap) (ttbr0 va : U64) (i : ℕ) : U64 :=
  ouWalk backing memory ttbr0 (va + ofNat 64 i)

namespace Io

variable (place : ℕ → U64) (memory : ByteMap)

def moved : Io → List Byte
  | read len => gatherAt place memory len
  | write octets => octets

def after : Io → ByteMap
  | read _ => memory
  | write octets => scatterAt place memory octets

variable {place memory} {io : Io} {chunk : ℕ}

theorem after_split (inside : chunk ≤ io.length) : io.after place memory =
      (io.drop chunk).after (fun i => place (chunk + i)) ((io.take chunk).after place memory) := by
  cases io with
  | read len => rfl
  | write octets =>
    change chunk ≤ octets.length at inside
    have split : scatterAt place memory (octets.take chunk ++ octets.drop chunk) = _ :=
      scatterAt_append _ _
    rwa [take_append_drop, List.length_take, min_eq_left inside] at split

theorem moved_split (inside : chunk ≤ io.length) :
    io.moved place memory = (io.take chunk).moved place memory ++
        (io.drop chunk).moved (fun i => place (chunk + i))
          ((io.take chunk).after place memory) := by
  cases io with
  | read len =>
    change chunk ≤ len at inside
    change gatherAt place memory len = gatherAt place memory (min chunk len) ++
      gatherAt (fun i => place (chunk + i)) memory (len - chunk)
    rw [min_eq_left inside, ← gatherAt_add, Nat.add_sub_cancel' inside]
  | write octets => exact (take_append_drop chunk octets).symm

theorem after_of_ne {p : U64} (apart : io.isWrite = true → ∀ i < io.length, p ≠ place i) :
    io.after place memory p = memory p := by
  cases io with
  | read len => rfl
  | write octets => exact scatterAt_of_ne (apart rfl)

theorem after_congr {place' : ℕ → U64} (same : ∀ i < io.length, place i = place' i) :
    io.after place memory = io.after place' memory := by
  cases io with
  | read len => rfl
  | write octets => exact scatterAt_congr same

theorem moved_congr {place' : ℕ → U64} (same : ∀ i < io.length, place i = place' i) :
    io.moved place memory = io.moved place' memory := by
  cases io with
  | read len => exact gatherAt_congr fun i inside => by rw [same i inside]
  | write octets => rfl

end Io

variable {backing : List Range} {memory : ByteMap} {pa : U64} {len : ℕ}

theorem walkFrom_lt (va : U64) {shifts : List ℕ} (levels : ∀ shift ∈ shifts, shift ≤ 48)
    (table : U64) : (walkFrom backing memory va shifts table).toNat < 2 ^ 48 := by
  induction shifts generalizing table with
  | nil => exact Nat.two_pow_pos 48
  | cons shift shifts ih =>
    rw [forall_mem_cons] at levels
    rw [walkFrom]
    cases descriptor backing memory (table + ((va >>> shift) &&& 0x1FF) * 8) with
    | none => exact Nat.two_pow_pos 48
    | some e =>
      have out : (e &&& 0x0000FFFFFFFFF000).toNat < 2 ^ 48 := by
        rw [BitVec.toNat_and]
        exact lt_of_le_of_lt and_le_right (by decide)
      dsimp only
      split_ifs with invalid last block
      · exact Nat.two_pow_pos 48
      · rw [BitVec.toNat_or, toNat_pageOff]
        exact or_lt_two_pow out (by omega)
      · have low : shift < 64 := by omega
        rw [BitVec.toNat_or, BitVec.toNat_and (e &&& _), blockMask low, BitField.toNat_and_mask low]
        refine or_lt_two_pow (lt_of_le_of_lt and_le_left out) ?_
        exact lt_of_lt_of_le (mod_lt _ (Nat.two_pow_pos _))
          (Nat.pow_le_pow_right (by omega) levels.1)
      · exact ih levels.2 _

theorem ouWalk_lt (backing : List Range) (memory : ByteMap) (ttbr0 va : U64) :
    (ouWalk backing memory ttbr0 va).toNat < 2 ^ 48 :=
  walkFrom_lt va (by decide) _

/-- The ranges of the backing store consist of whole pages. -/
def Paged (backing : List Range) : Prop :=
  ∀ r ∈ backing, r.start.toNat % 4096 = 0 ∧ r.size.toNat % 4096 = 0
deriving Decidable

def Reachable (backing : List Range) (p : U64) : Prop := p ≠ 0 ∧ backed backing p 1 = true

def PageBacked (backing : List Range) (p : U64) : Prop :=
  p ≠ 0 ∧ backed backing p (4096 - p.toNat % 4096) = true

theorem backed_iff (small : pa.toNat + len < 2 ^ 64) :
    backed backing pa len = true ↔ len ≠ 0 ∧ ∃ r ∈ backing, r.start.toNat ≤ pa.toNat ∧
      pa.toNat + len ≤ r.start.toNat + r.size.toNat := by
  simp only [backed, Bool.and_eq_true, bne_iff_ne, any_eq_true, decide_eq_true_eq,
    BitVec.le_def]
  refine and_congr_right fun _ => exists_congr fun r => and_congr_right fun _ =>
    and_congr_right fun above => ?_
  rw [BitVec.toNat_add, BitVec.toNat_sub_of_le (BitVec.le_def.mpr above), toNat_ofNat]
  omega

theorem backed_chunk (paged : Paged backing) (some : len ≠ 0)
    (inside : pa.toNat % 4096 + len ≤ 4096) (small : pa.toNat + len < 2 ^ 64)
    (octet : backed backing pa 1 = true) : backed backing pa len = true := by
  obtain ⟨_, r, member, above, below⟩ := (backed_iff (by omega)).mp octet
  obtain ⟨start, size⟩ := paged r member
  exact (backed_iff small).mpr ⟨some, r, member, above, by omega⟩

theorem Reachable.pageBacked (paged : Paged backing) {p : U64} (low : p.toNat < 2 ^ 48)
    (reach : Reachable backing p) : PageBacked backing p :=
  ⟨reach.1, backed_chunk paged (by omega) (by omega) (by omega) reach.2⟩

/-- Whatever is written to the octets in `dirty`, the translations stay the same. -/
def Stable (backing : List Range) (memory : ByteMap) (ttbr0 va : U64) (count : ℕ)
    (dirty : U64 → Prop) : Prop :=
  ∀ memory' : ByteMap, (∀ p, ¬dirty p → memory' p = memory p) → ∀ i < count,
    place backing memory' ttbr0 va i = place backing memory ttbr0 va i

section

variable {memory' : ByteMap} {ttbr0 va : U64} {count : ℕ}
variable {dirty : U64 → Prop} {io : Io}

theorem Stable.agree (stable : Stable backing memory ttbr0 va count dirty)
    (same : ∀ p, ¬dirty p → memory' p = memory p) :
    Stable backing memory' ttbr0 va count dirty := by
  intro memory'' same' i inside
  rw [stable memory'' (fun p clean => (same' p clean).trans (same p clean)) i inside,
    stable memory' same i inside]

theorem place_add (chunk i : ℕ) : place backing memory ttbr0 (va + ofNat 64 chunk) i =
      place backing memory ttbr0 va (chunk + i) := by
  rw [place, place, BitVec.add_assoc, ← BitVec.ofNat_add]

theorem Stable.drop (stable : Stable backing memory ttbr0 va count dirty) (chunk : ℕ) :
    Stable backing memory ttbr0 (va + ofNat 64 chunk) (count - chunk) dirty := by
  intro memory' same i inside
  rw [place_add, place_add]
  exact stable memory' same (chunk + i) (by omega)

theorem place_zero : place backing memory ttbr0 va 0 = ouWalk backing memory ttbr0 va := by
  rw [place, BitVec.add_zero]

theorem ouDma_eq {places : ℕ → U64} (run : ∀ k < io.length, pa + ofNat 64 k = places k)
    (short : io.length ≤ 2 ^ 64) (there : backed backing pa io.length = true) :
    (ouDma backing pa io memory).value = some (io.moved places memory) ∧
      (ouDma backing pa io memory).state = io.after places memory := by
  rw [← Io.moved_congr run, ← Io.after_congr run]
  unfold ouDma
  rw [if_pos there]
  cases io with
  | read len => exact ⟨rfl, rfl⟩
  | write octets => exact ⟨rfl, ByteMap.write_eq_scatterAt memory pa short⟩

theorem chunkOf_pos (va : U64) (more : io.length ≠ 0) : 0 < chunkOf va io := by
  rw [chunkOf, toNat_pageOff]
  omega

theorem chunk_places (mapped : ouWalk backing memory ttbr0 va ≠ 0) {k : ℕ}
    (inside : k < chunkOf va io) :
    ouWalk backing memory ttbr0 va + ofNat 64 k = place backing memory ttbr0 va k ∧
      place backing memory ttbr0 va k ≠ 0 := by
  have page := chunkOf_page va io
  obtain ⟨sum, nonzero⟩ := ouWalk_add (k := k) (by omega) mapped
  rw [← sum] at nonzero
  exact ⟨sum.symm, nonzero⟩

theorem backed_of_pageBacked (more : io.length ≠ 0)
    (there : PageBacked backing (ouWalk backing memory ttbr0 va)) :
    backed backing (ouWalk backing memory ttbr0 va) (chunkOf va io) = true := by
  have positive := chunkOf_pos va more
  have bound := ouWalk_lt backing memory ttbr0 va
  have page := chunkOf_page va io
  obtain ⟨mapped, whole⟩ := there
  obtain ⟨frame, aligned, offset⟩ := exists_frame mapped
  have start : (ouWalk backing memory ttbr0 va).toNat = frame.toNat + va.toNat % 4096 := by
    simpa using offset 0 (by omega)
  obtain ⟨_, r, member, above, below⟩ := (backed_iff (by omega)).mp whole
  exact (backed_iff (by omega)).mpr ⟨by omega, r, member, above, by omega⟩

/-- Page by page, an access to the octets at `places` finds them in one range of the backing
store. -/
def Pieces (backing : List Range) (places : ℕ → U64) (va : U64) (len : ℕ) : Prop :=
  ∀ i < len, i = 0 ∨ (va + ofNat 64 i).toNat % 4096 = 0 → places i ≠ 0 ∧
    backed backing (places i) (min (len - i) (4096 - (va + ofNat 64 i).toNat % 4096)) = true

section

variable {places : ℕ → U64}

theorem Pieces.nothing (none : len = 0) : Pieces backing places va len := by
  intro i inside
  omega

theorem Pieces.congr {places' : ℕ → U64} (pieces : Pieces backing places va len)
    (same : ∀ i < len, places i = places' i) : Pieces backing places' va len := by
  intro i inside start
  rw [← same i inside]
  exact pieces i inside start

theorem Pieces.of_pageBacked
    (there : ∀ i < len, PageBacked backing (place backing memory ttbr0 va i)) :
    Pieces backing (place backing memory ttbr0 va) va len := by
  intro i inside _
  have more : (Io.read (len - i)).length ≠ 0 := Nat.sub_ne_zero_of_lt inside
  have whole := backed_of_pageBacked more (there i inside)
  rw [chunkOf, toNat_pageOff] at whole
  exact ⟨(there i inside).1, whole⟩

theorem pieces_iff (more : io.length ≠ 0) : Pieces backing places va io.length ↔
    (places 0 ≠ 0 ∧ backed backing (places 0) (chunkOf va io) = true) ∧
      Pieces backing (fun i => places (chunkOf va io + i)) (va + ofNat 64 (chunkOf va io))
        (io.drop (chunkOf va io)).length := by
  have chunk : chunkOf va io = min io.length (4096 - va.toNat % 4096) := by
    rw [chunkOf, toNat_pageOff]
  have sum (i : ℕ) :
      va + ofNat 64 (chunkOf va io) + ofNat 64 i = va + ofNat 64 (chunkOf va io + i) := by
    rw [BitVec.add_assoc, ← BitVec.ofNat_add]
  simp only [Pieces, Io.length_drop, sum, Nat.sub_sub]
  constructor
  · intro pieces
    have first := pieces 0 (Nat.pos_of_ne_zero more) (.inl rfl)
    rw [BitVec.add_zero, Nat.sub_zero, ← chunk] at first
    refine ⟨first, fun i inside start => pieces _ (by omega) (.inr ?_)⟩
    rcases start with rfl | aligned
    · rw [Nat.add_zero, BitVec.toNat_add, toNat_ofNat]
      omega
    · exact aligned
  · rintro ⟨first, rest⟩ i inside start
    rcases lt_or_ge i (chunkOf va io) with early | late
    · obtain rfl : i = 0 := by
        rcases start with zero | aligned
        · exact zero
        · rw [toNat_add_of_page (by omega)] at aligned
          omega
      rwa [BitVec.add_zero, Nat.sub_zero, ← chunk]
    · have later := rest (i - chunkOf va io) (by omega)
      rw [Nat.add_sub_cancel' late] at later
      exact later (start.imp_left (by omega))

end

def afterChunk (backing : List Range) (ttbr0 va : U64) (io : Io) (memory : ByteMap) : ByteMap :=
  (io.take (chunkOf va io)).after (place backing memory ttbr0 va) memory

section

variable (mapped : ouWalk backing memory ttbr0 va ≠ 0) (fuel : ℕ)
variable (there : backed backing (ouWalk backing memory ttbr0 va) (chunkOf va io) = true)
include mapped fuel there

theorem dmaLoop_round (more : io.length ≠ 0) :
    (dmaLoop backing ttbr0 (fuel + 1) va io memory).value =
        (dmaLoop backing ttbr0 fuel (va + ofNat 64 (chunkOf va io)) (io.drop (chunkOf va io))
          (afterChunk backing ttbr0 va io memory)).value.map
            ((io.take (chunkOf va io)).moved (place backing memory ttbr0 va) memory ++ ·) ∧
      (dmaLoop backing ttbr0 (fuel + 1) va io memory).state =
        (dmaLoop backing ttbr0 fuel (va + ofNat 64 (chunkOf va io)) (io.drop (chunkOf va io))
          (afterChunk backing ttbr0 va io memory)).state := by
  have page := chunkOf_page va io
  have length := length_chunk va io
  have run : ∀ k < (io.take (chunkOf va io)).length,
      ouWalk backing memory ttbr0 va + ofNat 64 k = place backing memory ttbr0 va k := by
    intro k inside
    rw [length] at inside
    exact (chunk_places mapped inside).1
  rw [← length] at there
  obtain ⟨value, state⟩ : _ ∧ _ = afterChunk backing ttbr0 va io memory :=
    ouDma_eq run (by omega) there
  rw [dmaLoop, if_neg more]
  simp only [get_bind, beq_eq_false_iff_ne.mpr mapped, Bool.false_eq_true, if_false]
  rw [bind_of_some value, state, bind_pure_apply]
  exact ⟨rfl, rfl⟩

end

theorem afterChunk_of_clean (own : io.isWrite = true → ∀ i < io.length,
      dirty (place backing memory ttbr0 va i)) {p : U64} (clean : ¬dirty p) :
    afterChunk backing ttbr0 va io memory p = memory p := by
  refine Io.after_of_ne fun writes i inside here => ?_
  rw [Io.isWrite_take] at writes
  rw [length_chunk] at inside
  have within := chunkOf_le va io
  exact clean (here ▸ own writes i (by omega))

section

variable (stable : Stable backing memory ttbr0 va io.length dirty)
variable (own : io.isWrite = true → ∀ i < io.length, dirty (place backing memory ttbr0 va i))
include stable own

theorem place_afterChunk {i : ℕ} (inside : i < (io.drop (chunkOf va io)).length) :
    place backing (afterChunk backing ttbr0 va io memory) ttbr0 (va + ofNat 64 (chunkOf va io)) i =
      place backing memory ttbr0 va (chunkOf va io + i) := by
  rw [Io.length_drop] at inside
  rw [place_add]
  exact stable _ (fun p clean => afterChunk_of_clean own clean) _ (by omega)

theorem Stable.rest : Stable backing (afterChunk backing ttbr0 va io memory) ttbr0
        (va + ofNat 64 (chunkOf va io)) (io.drop (chunkOf va io)).length dirty ∧
      ((io.drop (chunkOf va io)).isWrite = true → ∀ i < (io.drop (chunkOf va io)).length,
        dirty (place backing (afterChunk backing ttbr0 va io memory) ttbr0
          (va + ofNat 64 (chunkOf va io)) i)) := by
  constructor
  · rw [Io.length_drop]
    exact (stable.agree fun p clean => afterChunk_of_clean own clean).drop _
  · intro writes i inside
    rw [place_afterChunk stable own inside]
    rw [Io.isWrite_drop] at writes
    rw [Io.length_drop] at inside
    exact own writes _ (by omega)

end

def Moves (backing : List Range) (ttbr0 va : U64) (io : Io) (memory : ByteMap)
    (outcome : Attempted ByteMap DmaCall (List Byte)) : Prop :=
  outcome.value = some (io.moved (place backing memory ttbr0 va) memory) ∧
    outcome.state = io.after (place backing memory ttbr0 va) memory

variable {fuel : ℕ}

theorem Moves.of_rest {fuel : ℕ} (more : io.length ≠ 0)
    (mapped : ouWalk backing memory ttbr0 va ≠ 0)
    (there : backed backing (ouWalk backing memory ttbr0 va) (chunkOf va io) = true)
    (stable : Stable backing memory ttbr0 va io.length dirty)
    (own : io.isWrite = true → ∀ i < io.length, dirty (place backing memory ttbr0 va i))
    (rest : Moves backing ttbr0 (va + ofNat 64 (chunkOf va io)) (io.drop (chunkOf va io))
      (afterChunk backing ttbr0 va io memory)
      (dmaLoop backing ttbr0 fuel (va + ofNat 64 (chunkOf va io)) (io.drop (chunkOf va io))
        (afterChunk backing ttbr0 va io memory))) :
    Moves backing ttbr0 va io memory (dmaLoop backing ttbr0 (fuel + 1) va io memory) := by
  obtain ⟨value, state⟩ := dmaLoop_round mapped fuel there more
  have within := chunkOf_le va io
  have places : ∀ i < (io.drop (chunkOf va io)).length,
      place backing (afterChunk backing ttbr0 va io memory) ttbr0
          (va + ofNat 64 (chunkOf va io)) i =
        place backing memory ttbr0 va (chunkOf va io + i) :=
    fun i inside => place_afterChunk stable own inside
  constructor
  · rw [value, rest.1, Io.moved_congr places, Io.moved_split within]
    rfl
  · rw [state, rest.2, Io.after_congr places, Io.after_split within]
    rfl

theorem Moves.nothing (none : io.length = 0) :
    Moves backing ttbr0 va io memory (dmaLoop backing ttbr0 fuel va io memory) := by
  have call : dmaLoop backing ttbr0 fuel va io memory = ⟨some [], memory, []⟩ := by
    cases fuel with
    | zero => rfl
    | succ fuel => rw [dmaLoop, if_pos none, pure_apply]
  rw [call]
  cases io with
  | read len =>
    obtain rfl : len = 0 := none
    exact ⟨rfl, rfl⟩
  | write octets =>
    obtain rfl : octets = [] := length_eq_zero_iff.mp none
    exact ⟨rfl, rfl⟩

variable (stable : Stable backing memory ttbr0 va io.length dirty)
variable (own : io.isWrite = true → ∀ i < io.length, dirty (place backing memory ttbr0 va i))
include stable own

theorem dmaLoop_worked (enough : io.length ≤ fuel)
    (worked : (dmaLoop backing ttbr0 fuel va io memory).value ≠ none) :
    Moves backing ttbr0 va io memory (dmaLoop backing ttbr0 fuel va io memory) ∧
      Pieces backing (place backing memory ttbr0 va) va io.length := by
  induction fuel generalizing va io memory with
  | zero =>
    have none : io.length = 0 := by omega
    exact ⟨.nothing none, .nothing none⟩
  | succ fuel ih =>
    by_cases more : io.length = 0
    · exact ⟨.nothing more, .nothing more⟩
    by_cases mapped : ouWalk backing memory ttbr0 va = 0
    · rw [dmaLoop, if_neg more] at worked
      simp [mapped] at worked
    by_cases there : backed backing (ouWalk backing memory ttbr0 va) (chunkOf va io) = true
    · have positive := chunkOf_pos va more
      rw [(dmaLoop_round mapped fuel there more).1, Ne, Option.map_eq_none_iff] at worked
      obtain ⟨stable', own'⟩ := stable.rest own
      have shorter : (io.drop (chunkOf va io)).length ≤ fuel := by
        rw [Io.length_drop]
        omega
      obtain ⟨moves, pieces⟩ := ih stable' own' shorter worked
      refine ⟨moves.of_rest more mapped there stable own, (pieces_iff more).mpr ⟨?_, ?_⟩⟩
      · rw [place_zero]
        exact ⟨mapped, there⟩
      · exact pieces.congr fun i inside => place_afterChunk stable own inside
    · rw [← length_chunk va io] at there
      have failed : (ouDma backing (ouWalk backing memory ttbr0 va) (io.take (chunkOf va io))
          memory).value = none := by
        unfold ouDma
        rw [if_neg there]
      rw [dmaLoop, if_neg more] at worked
      simp only [get_bind, beq_eq_false_iff_ne.mpr mapped, Bool.false_eq_true, if_false] at worked
      rw [bind_of_none failed] at worked
      exact absurd rfl worked

theorem dmaLoop_of_pieces (enough : io.length ≤ fuel)
    (pieces : Pieces backing (place backing memory ttbr0 va) va io.length) :
    Moves backing ttbr0 va io memory (dmaLoop backing ttbr0 fuel va io memory) := by
  induction fuel generalizing va io memory with
  | zero => exact .nothing (by omega)
  | succ fuel ih =>
    by_cases more : io.length = 0
    · exact .nothing more
    have positive := chunkOf_pos va more
    obtain ⟨⟨mapped, there⟩, rest⟩ := (pieces_iff more).mp pieces
    rw [place_zero] at mapped there
    obtain ⟨stable', own'⟩ := stable.rest own
    refine Moves.of_rest more mapped there stable own (ih stable' own' ?_ ?_)
    · rw [Io.length_drop]
      omega
    · exact rest.congr fun i inside => (place_afterChunk stable own inside).symm

theorem dmaLoop_moves (enough : io.length ≤ fuel)
    (there : ∀ i < io.length, PageBacked backing (place backing memory ttbr0 va i)) :
    Moves backing ttbr0 va io memory (dmaLoop backing ttbr0 fuel va io memory) :=
  dmaLoop_of_pieces stable own enough (.of_pageBacked there)

theorem dmaLoop_works (paged : Paged backing) (enough : io.length ≤ fuel)
    (reach : ∀ i < io.length, Reachable backing (place backing memory ttbr0 va i)) :
    Moves backing ttbr0 va io memory (dmaLoop backing ttbr0 fuel va io memory) :=
  dmaLoop_moves stable own enough fun i inside => (reach i inside).pageBacked paged (ouWalk_lt ..)

end

variable {g : Guest} {token : U32} {m : MrEntry} {va : U64}

theorem stable_of_read {ttbr0 : U64} : Stable backing memory ttbr0 va len fun _ => False := by
  intro memory' same i _
  rw [funext fun p => same p id]

theorem ouDmaMr_read_worked {buf : List Byte}
    (worked : (ouDmaMr g token va (.read len) memory).value = some buf) :
    ∃ m, g.mrTable token = some m ∧
      buf = gatherAt (place g.backing memory m.ttbr0 va) memory len := by
  rw [ouDmaMr] at worked
  cases region : g.mrTable token with
  | none =>
    rw [region] at worked
    cases worked
  | some m =>
    rw [region] at worked
    dsimp only at worked
    split at worked
    · have stable : Stable g.backing memory m.ttbr0 va (Io.read len).length fun _ => False :=
        stable_of_read
      obtain ⟨⟨value, _⟩, _⟩ := dmaLoop_worked stable (by simp [Io.isWrite]) (le_refl _)
        (Option.ne_none_iff_exists'.mpr ⟨buf, worked⟩)
      exact ⟨m, rfl, Option.some.inj (worked.symm.trans value)⟩
    · cases worked

theorem ouDmaMr_read_works (paged : Paged g.backing) (region : g.mrTable token = some m)
    (admitted : m.admits va len = true)
    (reach : ∀ i < len, Reachable g.backing (place g.backing memory m.ttbr0 va i)) :
    (ouDmaMr g token va (.read len) memory).value =
      some (gatherAt (place g.backing memory m.ttbr0 va) memory len) := by
  have stable : Stable g.backing memory m.ttbr0 va (Io.read len).length fun _ => False :=
    stable_of_read
  rw [ouDmaMr, region]
  dsimp only
  rw [if_pos (show m.admits va (Io.read len).length = true from admitted)]
  exact (dmaLoop_works stable (by simp [Io.isWrite]) paged (le_refl _) reach).1

end OpenURMA.Nic
