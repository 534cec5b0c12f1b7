import OpenURMA.Nic.Confinement

/-!
# The two data paths

`ou_pipe_copy` reads the whole source and sends it through the pipeline in chunks of 256 octets,
which are taken to arrive as they are; `ou_copy_mr`, which is tried if that fails, reads and writes
in turn, 4096 octets at a time.

If the pipeline succeeds, the source has been written to the target. `ou_copy_mr` does the same
exactly if its chunks can be accessed as well and none of them writes where a later one reads.
-/

namespace OpenURMA.Nic

open Library Attempt Nat List
open BitVec (ofNat)

section

variable (g : Guest)

/-- A round of `ou_copy_mr`. -/
def copyChunk (dstTok : U32) (dstVa : U64) (srcTok : U32) (srcVa : U64) (offset chunk : ℕ) :
    Dma PUnit := do
  let buf ← ouDmaMr g srcTok (srcVa + ofNat 64 offset) (.read chunk)
  let _ ← ouDmaMr g dstTok (dstVa + ofNat 64 offset) (.write buf)
  pure ⟨⟩

def ouCopyMr (dstTok : U32) (dstVa : U64) (srcTok : U32) (srcVa : U64) (len : ℕ) : Dma PUnit :=
  inChunks 4096 (copyChunk g dstTok dstVa srcTok srcVa) len 0 len

/-- A round of `ou_pipe_route`: a chunk that comes out of the pipeline. -/
def routeChunk (src : List Byte) (dstTok : U32) (dstVa : U64) (done clen : ℕ) : Dma PUnit := do
  let _ ← ouDmaMr g dstTok (dstVa + ofNat 64 done) (.write ((src.drop done).take clen))
  pure ⟨⟩

def ouPipeRoute (pi : Bool) (src : List Byte) (dstTok : U32) (dstVa : U64) (len : ℕ) : Dma PUnit :=
  if !pi || len == 0 then fail
  else inChunks 256 (routeChunk g src dstTok dstVa) len 0 len

def ouPipeCopy (pi : Bool) (dstTok : U32) (dstVa : U64) (srcTok : U32) (srcVa : U64) (len : ℕ) :
    Dma PUnit :=
  if !pi || len == 0 then fail
  else do
    let buf ← ouDmaMr g srcTok srcVa (.read len)
    ouPipeRoute g pi buf dstTok dstVa len

end

/-- The descriptors that are read for a range are not among the octets in `dirty`. -/
def TablesApart (backing : List Range) (memory : ByteMap) (ttbr0 va : U64) (len : ℕ)
    (dirty : U64 → Prop) : Prop :=
  ∀ i < len, ∀ entry ∈ walkEntries backing memory (va + ofNat 64 i) ttbr0, ∀ p,
    Span.Contains ⟨entry, 8⟩ p → ¬dirty p

variable {va : U64}

theorem TablesApart.stable {backing : List Range} {memory : ByteMap} {ttbr0 : U64} {len : ℕ}
    {dirty : U64 → Prop} (apart : TablesApart backing memory ttbr0 va len dirty) :
    Stable backing memory ttbr0 va len dirty := by
  intro memory' same i inside
  refine walkFrom_congr fun entry member p contains => ?_
  exact same p (apart i inside entry member p contains)

abbrev octet (g : Guest) (memory : ByteMap) (m : MrEntry) (va : U64) : ℕ → U64 :=
  place g.backing memory m.ttbr0 va

/-- While only octets in `dirty` change, those of a range stay at `places`. -/
def Fixed (g : Guest) (memory : ByteMap) (m : MrEntry) (va : U64) (len : ℕ) (dirty : U64 → Prop)
    (places : ℕ → U64) : Prop :=
  ∀ s : ByteMap, (∀ p, ¬dirty p → s p = memory p) → ∀ i < len, octet g s m va i = places i

/-- An access passes the check of its region, and what it needs of a page lies in one range of the
backing store. -/
def Accessible (g : Guest) (m : MrEntry) (places : ℕ → U64) (va : U64) (len : ℕ) : Prop :=
  m.admits va len = true ∧ Pieces g.backing places va len

section

variable {g : Guest} {token : U32} {m : MrEntry} {va : U64} {len offset : ℕ} {memory s : ByteMap}
variable {dirty : U64 → Prop} {places : ℕ → U64}

theorem TablesApart.fixed (apart : TablesApart g.backing memory m.ttbr0 va len dirty) :
    Fixed g memory m va len dirty (octet g memory m va) :=
  apart.stable

theorem Fixed.agree (fixed : Fixed g memory m va len dirty places)
    (same : ∀ p, ¬dirty p → s p = memory p) : Fixed g s m va len dirty places :=
  fun s' same' => fixed s' fun p clean => (same' p clean).trans (same p clean)

section

variable (io : Io) (fixed : Fixed g memory m va len dirty places)
variable (same : ∀ p, ¬dirty p → s p = memory p) (within : offset + io.length ≤ len)
include fixed same within

theorem Fixed.part : ∀ i < io.length,
    place g.backing s m.ttbr0 (va + ofNat 64 offset) i = places (offset + i) := by
  intro i inside
  rw [place_add]
  exact fixed s same _ (by omega)

theorem Fixed.stable : Stable g.backing s m.ttbr0 (va + ofNat 64 offset) io.length dirty := by
  intro s' same' i inside
  rw [fixed.part io same within i inside]
  exact (fixed.agree same).part io same' within i inside

variable (own : io.isWrite = true → ∀ i < len, dirty (places i))
include own

theorem Fixed.writes : io.isWrite = true → ∀ i < io.length,
    dirty (place g.backing s m.ttbr0 (va + ofNat 64 offset) i) := by
  intro writes i inside
  rw [fixed.part io same within i inside]
  exact own writes _ (by omega)

variable (region : g.mrTable token = some m)
include region

theorem ouDmaMr_works
    (there : Accessible g m (fun i => places (offset + i)) (va + ofNat 64 offset) io.length) :
    (ouDmaMr g token (va + ofNat 64 offset) io s).value =
        some (io.moved (fun i => places (offset + i)) s) ∧
      (ouDmaMr g token (va + ofNat 64 offset) io s).state =
        io.after (fun i => places (offset + i)) s := by
  have run := fixed.part io same within
  rw [ouDmaMr, region]
  dsimp only
  rw [if_pos there.1, ← Io.moved_congr run, ← Io.after_congr run]
  exact dmaLoop_of_pieces (fixed.stable io same within) (fixed.writes io same within own)
    (le_refl _)
    (there.2.congr fun i inside => (run i inside).symm)

theorem ouDmaMr_worked (worked : (ouDmaMr g token (va + ofNat 64 offset) io s).value ≠ none) :
    Accessible g m (fun i => places (offset + i)) (va + ofNat 64 offset) io.length := by
  rw [ouDmaMr, region] at worked
  dsimp only at worked
  split at worked
  · next admitted =>
    obtain ⟨_, pieces⟩ := dmaLoop_worked (fixed.stable io same within)
      (fixed.writes io same within own)
      (le_refl _) worked
    exact ⟨admitted, pieces.congr (fixed.part io same within)⟩
  · exact absurd rfl worked

end

end

/-- The octets of the target and of the source. -/
def Touched (dst src : ℕ → U64) (len : ℕ) (p : U64) : Prop := ∃ i < len, p = dst i ∨ p = src i

/-- Memory with the first octets of the source written to the target. -/
def copied (memory : ByteMap) (dst src : ℕ → U64) (count : ℕ) : ByteMap :=
  scatterAt dst memory (gatherAt src memory count)

/-- Every chunk of a range is accessible. -/
def InChunks (size : ℕ) (g : Guest) (m : MrEntry) (places : ℕ → U64) (va : U64) (len : ℕ) : Prop :=
  ∀ offset < len, size ∣ offset →
    Accessible g m (fun i => places (offset + i)) (va + ofNat 64 offset) (min (len - offset) size)

/-- What `ou_copy_mr` needs: its chunks are accessible, and none of them writes to an octet of the
source that belongs to a later one. -/
structure CopiesChunks (g : Guest) (md ms : MrEntry) (dst src : ℕ → U64) (dstVa srcVa : U64)
    (len : ℕ) : Prop where
  source : InChunks 4096 g ms src srcVa len
  target : InChunks 4096 g md dst dstVa len
  forward : ∀ a < len, ∀ b < len, a / 4096 < b / 4096 → dst a ≠ src b

/-- If the pipeline copies, `ou_copy_mr` would copy as well and leave the same memory. -/
def Alike (g : Guest) (pi : Bool) (dstTok : U32) (dstVa : U64) (srcTok : U32)
    (srcVa : U64) (len : ℕ)
    (memory : ByteMap) : Prop :=
  (ouPipeCopy g pi dstTok dstVa srcTok srcVa len memory).value = some ⟨⟩ →
    (ouCopyMr g dstTok dstVa srcTok srcVa len memory).value = some ⟨⟩ ∧
      (ouCopyMr g dstTok dstVa srcTok srcVa len memory).state =
        (ouPipeCopy g pi dstTok dstVa srcTok srcVa len memory).state

section

variable {g : Guest} {pi : Bool} {dstTok srcTok : U32} {dstVa srcVa : U64} {len : ℕ}
variable {md ms : MrEntry} {memory : ByteMap} {dst src : ℕ → U64}

/-- Only octets of the target have changed. -/
def Clean (memory : ByteMap) (dst src : ℕ → U64) (len : ℕ) (s : ByteMap) : Prop :=
  ∀ p, ¬Touched dst src len p → s p = memory p

theorem clean_scatterAt {s : ByteMap} (clean : Clean memory dst src len s) {offset : ℕ}
    {octets : List Byte} (within : offset + octets.length ≤ len) :
    Clean memory dst src len (scatterAt (fun i => dst (offset + i)) s octets) := by
  intro p apart
  rw [scatterAt_of_ne, clean p apart]
  exact fun i inside here => apart ⟨offset + i, by omega, .inl here⟩

theorem clean_copied {count : ℕ} (within : count ≤ len) :
    Clean memory dst src len (copied memory dst src count) := by
  intro p apart
  refine scatterAt_of_ne fun i inside here => apart ⟨i, ?_, .inl here⟩
  rw [gatherAt_length] at inside
  omega

theorem target_own {io : Io} (_ : io.isWrite = true) : ∀ i < len, Touched dst src len (dst i) :=
  fun i inside => ⟨i, inside, .inl rfl⟩

theorem copied_add (offset count : ℕ) :
    scatterAt (fun i => dst (offset + i)) (copied memory dst src offset)
        (gatherAt (fun i => src (offset + i)) memory count) =
      copied memory dst src (offset + count) := by
  rw [copied, copied, gatherAt_add, scatterAt_append, gatherAt_length]

theorem chunk_of_gatherAt {offset count : ℕ} (within : offset + count ≤ len) :
    ((gatherAt src memory len).drop offset).take count =
      gatherAt (fun i => src (offset + i)) memory count := by
  obtain ⟨rest, rfl⟩ := Nat.exists_eq_add_of_le within
  rw [add_assoc, gatherAt_add, drop_left' (gatherAt_length ..), gatherAt_add,
    take_left' (gatherAt_length ..)]

theorem copiesChunks_of_short (source : Accessible g ms src srcVa len)
    (target : InChunks 256 g md dst dstVa len) (short : len ≤ 256) :
    CopiesChunks g md ms dst src dstVa srcVa len := by
  refine ⟨fun offset inside aligned => ?_, fun offset inside aligned => ?_,
    fun a inside b inside' later => by omega⟩
  · obtain rfl : offset = 0 := by omega
    rw [BitVec.add_zero, Nat.sub_zero, min_eq_left (by omega)]
    simpa only [zero_add] using source
  · obtain rfl : offset = 0 := by omega
    have first := target 0 inside (Nat.dvd_zero _)
    rw [Nat.sub_zero, min_eq_left short] at first
    rwa [Nat.sub_zero, min_eq_left (by omega)]

section

variable (dstRegion : g.mrTable dstTok = some md) (srcRegion : g.mrTable srcTok = some ms)
variable (dstFixed : Fixed g memory md dstVa len (Touched dst src len) dst)
variable (srcFixed : Fixed g memory ms srcVa len (Touched dst src len) src)

section

include dstRegion dstFixed

theorem routeChunk_eq {done clen : ℕ} (within : done + clen ≤ len)
    (there : Accessible g md (fun i => dst (done + i)) (dstVa + ofNat 64 done) clen) :
    Achieves (· = copied memory dst src done)
      (routeChunk g (gatherAt src memory len) dstTok dstVa done clen)
      fun _ s => s = copied memory dst src (done + clen) := by
  rintro s rfl
  have length := gatherAt_length (fun i => src (done + i)) memory clen
  obtain ⟨value, state⟩ := ouDmaMr_works (.write (gatherAt (fun i => src (done + i)) memory clen))
    dstFixed
    (clean_copied (Nat.le_of_add_right_le within)) (by rw [Io.length, length]; exact within)
    target_own dstRegion (by rw [Io.length, length]; exact there)
  rw [routeChunk, chunk_of_gatherAt within, bind_pure_apply, value, state]
  exact ⟨⟨⟩, rfl, copied_add done clen⟩

theorem ouPipeRoute_worked :
    Ensures (· = memory) (ouPipeRoute g pi (gatherAt src memory len) dstTok dstVa len)
      fun _ s => s = copied memory dst src len ∧ InChunks 256 g md dst dstVa len := by
  unfold ouPipeRoute
  split
  · intro s a _ worked
    cases worked
  · refine inChunks_ensures (fun done s => s = copied memory dst src done) (by decide) _ ?_
    rintro done clen - inside rfl s a rfl worked
    have length := gatherAt_length (fun i => src (done + i)) memory (min (len - done) 256)
    have written := (ne_none_of_bind_pure worked).1
    rw [chunk_of_gatherAt (by omega)] at written
    have there := ouDmaMr_worked _ dstFixed (clean_copied (by omega))
      (by rw [Io.length, length]; omega) target_own dstRegion written
    rw [Io.length, length] at there
    obtain ⟨_, _, state⟩ := routeChunk_eq dstRegion dstFixed (by omega) there _ rfl
    exact ⟨state, there⟩

theorem ouPipeRoute_works (positive : 0 < len) (there : InChunks 256 g md dst dstVa len) :
    Achieves (· = memory) (ouPipeRoute g true (gatherAt src memory len) dstTok dstVa len)
      fun _ s => s = copied memory dst src len := by
  rw [ouPipeRoute, if_neg (by simp; omega)]
  refine inChunks_achieves (fun done s => s = copied memory dst src done) (by decide) ?_
  rintro done clen aligned inside rfl
  exact routeChunk_eq dstRegion dstFixed (by omega) (there done inside aligned)

end

include dstRegion srcRegion dstFixed srcFixed

theorem ouPipeCopy_worked
    (worked : (ouPipeCopy g pi dstTok dstVa srcTok srcVa len memory).value = some ⟨⟩) :
    (ouPipeCopy g pi dstTok dstVa srcTok srcVa len memory).state = copied memory dst src len ∧
      pi = true ∧ 0 < len ∧ Accessible g ms src srcVa len ∧ InChunks 256 g md dst dstVa len := by
  unfold ouPipeCopy at worked ⊢
  split at worked
  · cases worked
  · next go =>
    rw [if_neg go]
    have runs : pi = true ∧ len ≠ 0 := by simpa using go
    obtain ⟨buf, first, second, after⟩ := exists_of_bind worked
    have within : 0 + (Io.read len).length ≤ len := le_of_eq (zero_add len)
    have start : srcVa + ofNat 64 0 = srcVa := BitVec.add_zero srcVa
    have read := ouDmaMr_worked (.read len) srcFixed (fun _ _ => rfl) within nofun srcRegion
      (by rw [start, first]; exact Option.some_ne_none buf)
    obtain ⟨value, state⟩ := ouDmaMr_works _ srcFixed (fun _ _ => rfl) within nofun srcRegion read
    simp only [start, zero_add] at read value state
    obtain rfl : gatherAt src memory len = buf := Option.some.inj (value.symm.trans first)
    obtain ⟨routed, chunks⟩ := ouPipeRoute_worked dstRegion dstFixed _ _ state second
    exact ⟨after.trans routed, runs.1, by omega, read, chunks⟩

theorem ouPipeCopy_works (positive : 0 < len) (source : Accessible g ms src srcVa len)
    (target : InChunks 256 g md dst dstVa len) :
    (ouPipeCopy g true dstTok dstVa srcTok srcVa len memory).value = some ⟨⟩ := by
  have start : srcVa + ofNat 64 0 = srcVa := BitVec.add_zero srcVa
  have within : 0 + (Io.read len).length ≤ len := le_of_eq (zero_add len)
  have read := ouDmaMr_works (.read len) srcFixed (fun _ _ => rfl) within nofun srcRegion
    (by simpa only [start, zero_add, Io.length] using source)
  simp only [start, zero_add] at read
  obtain ⟨_, value, _⟩ := ouPipeRoute_works dstRegion dstFixed positive target _ read.2
  rw [ouPipeCopy, if_neg (by simp; omega), bind_of_some read.1]
  exact value

section

variable {s : ByteMap} (clean : Clean memory dst src len s) {offset chunk : ℕ}
variable (within : offset + chunk ≤ len)
include clean within

theorem copyChunk_eq
    (source : Accessible g ms (fun i => src (offset + i)) (srcVa + ofNat 64 offset) chunk)
    (target : Accessible g md (fun i => dst (offset + i)) (dstVa + ofNat 64 offset) chunk) :
    (copyChunk g dstTok dstVa srcTok srcVa offset chunk s).value = some ⟨⟩ ∧
      (copyChunk g dstTok dstVa srcTok srcVa offset chunk s).state =
        scatterAt (fun i => dst (offset + i)) s (gatherAt (fun i => src (offset + i)) s chunk) := by
  obtain ⟨read, unchanged⟩ := ouDmaMr_works (.read chunk) srcFixed clean within nofun
    srcRegion source
  have length := gatherAt_length (fun i => src (offset + i)) s chunk
  obtain ⟨write, after⟩ := ouDmaMr_works (.write (gatherAt (fun i => src (offset + i)) s chunk))
    dstFixed clean (by rw [Io.length, length]; exact within) target_own dstRegion
    (by rw [Io.length, length]; exact target)
  obtain ⟨value, state⟩ := bind_bind_pure_of_some
    (f := fun buf => ouDmaMr g dstTok (dstVa + ofNat 64 offset) (.write buf))
    PUnit.unit read unchanged write
  exact ⟨value, state.trans after⟩

theorem copyChunk_worked
    (worked : (copyChunk g dstTok dstVa srcTok srcVa offset chunk s).value = some ⟨⟩) :
    Accessible g ms (fun i => src (offset + i)) (srcVa + ofNat 64 offset) chunk ∧
      Accessible g md (fun i => dst (offset + i)) (dstVa + ofNat 64 offset) chunk := by
  obtain ⟨buf, first, second, _⟩ := exists_of_bind worked
  have source := ouDmaMr_worked (.read chunk) srcFixed clean within nofun srcRegion
    (by rw [first]; exact Option.some_ne_none buf)
  obtain ⟨read, unchanged⟩ := ouDmaMr_works (.read chunk) srcFixed clean within nofun
    srcRegion source
  obtain rfl : gatherAt (fun i => src (offset + i)) s chunk = buf :=
    Option.some.inj (read.symm.trans first)
  have length := gatherAt_length (fun i => src (offset + i)) s chunk
  have written := (ne_none_of_bind_pure second).1
  rw [unchanged] at written
  have target := ouDmaMr_worked _ dstFixed clean
    (by rw [Io.length, length]; exact within) target_own
    dstRegion written
  rw [Io.length, length] at target
  exact ⟨source, target⟩

end

theorem ouCopyMr_worked
    (worked : (ouCopyMr g dstTok dstVa srcTok srcVa len memory).value = some ⟨⟩) :
    InChunks 4096 g ms src srcVa len ∧ InChunks 4096 g md dst dstVa len := by
  have copy : Ensures (Clean memory dst src len)
      (ouCopyMr g dstTok dstVa srcTok srcVa len) fun _ s =>
      Clean memory dst src len s ∧ ∀ offset < len, 4096 ∣ offset →
        Accessible g ms (fun i => src (offset + i)) (srcVa + ofNat 64 offset)
            (min (len - offset) 4096) ∧
          Accessible g md (fun i => dst (offset + i)) (dstVa + ofNat 64 offset)
            (min (len - offset) 4096) := by
    refine inChunks_ensures (fun _ => Clean memory dst src len) (by decide) _ ?_
    rintro offset chunk - inside rfl s a clean worked
    obtain ⟨source, target⟩ := copyChunk_worked dstRegion srcRegion dstFixed srcFixed clean
      (by omega) worked
    have state := (copyChunk_eq dstRegion srcRegion dstFixed srcFixed clean (by omega) source
      target).2
    refine ⟨?_, source, target⟩
    rw [state]
    exact clean_scatterAt clean (by rw [gatherAt_length]; omega)
  obtain ⟨_, every⟩ := copy memory _ (fun _ _ => rfl) worked
  exact ⟨fun offset inside aligned => (every offset inside aligned).1,
    fun offset inside aligned => (every offset inside aligned).2⟩

theorem ouCopyMr_works (safe : CopiesChunks g md ms dst src dstVa srcVa len) :
    (ouCopyMr g dstTok dstVa srcTok srcVa len memory).value = some ⟨⟩ ∧
      (ouCopyMr g dstTok dstVa srcTok srcVa len memory).state = copied memory dst src len := by
  have copy : Achieves (· = copied memory dst src 0) (ouCopyMr g dstTok dstVa srcTok srcVa len)
      fun _ s => s = copied memory dst src len := by
    refine inChunks_achieves (fun offset s => s = copied memory dst src offset) (by decide) ?_
    rintro offset chunk aligned inside rfl s rfl
    have apart : ∀ i < offset, ∀ j < min (len - offset) 4096, dst i ≠ src (offset + j) :=
      fun i before j small => safe.forward i (by omega) _ (by omega) (by omega)
    obtain ⟨value, state⟩ := copyChunk_eq dstRegion srcRegion dstFixed srcFixed
      (clean_copied (Nat.le_of_lt inside)) (by omega) (safe.source offset inside aligned)
      (safe.target offset inside aligned)
    exact ⟨⟨⟩, value, state.trans (scatterAt_gatherAt_add apart)⟩
  exact (copy memory rfl).elim fun _ done => done

/-- The first octet that is read from where an earlier chunk has been written: what comes to its
target is that earlier octet. -/
theorem ouCopyMr_stale (source : InChunks 4096 g ms src srcVa len)
    (target : InChunks 4096 g md dst dstVa len)
    (injective : ∀ i < len, ∀ j < len, dst i = dst j → i = j) {a b : ℕ} (inside : b < len)
    (before : a / 4096 < b / 4096) (overlap : dst a = src b)
    (first : ∀ i < len, ∀ j < b, i / 4096 < j / 4096 → dst i ≠ src j) :
    (ouCopyMr g dstTok dstVa srcTok srcVa len memory).state (dst b) = memory (src a) := by
  have copy : Achieves (· = memory) (ouCopyMr g dstTok dstVa srcTok srcVa len) fun _ s =>
      Clean memory dst src len s ∧ (len ≤ b / 4096 * 4096 → s = copied memory dst src len) ∧
        (b < len → s (dst b) = memory (src a)) := by
    refine fun s start => inChunks_achieves (fun offset s => Clean memory dst src len s ∧
      (offset ≤ b / 4096 * 4096 → s = copied memory dst src offset) ∧
      (b < offset → s (dst b) = memory (src a))) (by decide) ?_ s
      ⟨start ▸ fun _ _ => rfl, fun _ => start, by omega⟩
    rintro offset chunk aligned small rfl s ⟨clean, early, late⟩
    obtain ⟨value, state⟩ := copyChunk_eq dstRegion srcRegion dstFixed srcFixed clean (by omega)
      (source offset small aligned) (target offset small aligned)
    rw [state]
    refine ⟨⟨⟩, value, clean_scatterAt clean (by rw [gatherAt_length]; omega), fun more => ?_,
      fun past => ?_⟩
    · rw [early (by omega)]
      exact scatterAt_gatherAt_add fun i below j within =>
        first i (by omega) _ (by omega) (by omega)
    · rcases lt_or_ge b offset with done | now
      · rw [scatterAt_of_ne, late done]
        intro i within same
        rw [gatherAt_length] at within
        have equal := injective b inside _ (by omega) same
        omega
      · -- the chunk that has the octet; the target still holds copies of the source only
        obtain ⟨j, rfl⟩ := Nat.exists_eq_add_of_le now
        have read : scatterAt (fun i => dst (offset + i)) s (gatherAt (fun i => src (offset + i)) s
            (min (len - offset) 4096)) (dst (offset + j)) = s (src (offset + j)) :=
          scatterAt_gatherAt_apply (by omega) fun i within later same =>
            absurd (injective _ (by omega) _ (by omega) same) (by omega)
        rw [read, ← overlap, early (by omega)]
        exact scatterAt_gatherAt_apply (by omega) fun i within later same =>
          absurd (injective a (by omega) i (by omega) same) (by omega)
  obtain ⟨_, _, _, _, done⟩ := copy memory rfl
  exact done inside

end

/-- The two paths are alike if `ou_copy_mr` can access its chunks and writes no octet before it is
read; if no two octets of a range share a place, only then, for all contents of the two ranges. -/
theorem ouCopyMr_of_ouPipeCopy (dstRegion : g.mrTable dstTok = some md)
    (srcRegion : g.mrTable srcTok = some ms) (dstPlaces : dst = octet g memory md dstVa)
    (srcPlaces : src = octet g memory ms srcVa)
    (dstTables : TablesApart g.backing memory md.ttbr0 dstVa len (Touched dst src len))
    (srcTables : TablesApart g.backing memory ms.ttbr0 srcVa len (Touched dst src len))
    (worked : (ouPipeCopy g pi dstTok dstVa srcTok srcVa len memory).value = some ⟨⟩) :
    (CopiesChunks g md ms dst src dstVa srcVa len → ∀ s, Clean memory dst src len s →
      Alike g pi dstTok dstVa srcTok srcVa len s) ∧
    (len ≤ 256 → CopiesChunks g md ms dst src dstVa srcVa len) ∧
    ((∀ i < len, ∀ j < len, dst i = dst j → i = j) → (∀ i < len, ∀ j < len, src i = src j → i = j) →
      (∀ s, Clean memory dst src len s → Alike g pi dstTok dstVa srcTok srcVa len s) →
        CopiesChunks g md ms dst src dstVa srcVa len) := by
  have dstFixed : Fixed g memory md dstVa len (Touched dst src len) dst := by
    rw [dstPlaces] at dstTables ⊢
    exact dstTables.fixed
  have srcFixed : Fixed g memory ms srcVa len (Touched dst src len) src := by
    rw [srcPlaces] at srcTables ⊢
    exact srcTables.fixed
  obtain ⟨_, rfl, positive, source, target⟩ :=
    ouPipeCopy_worked dstRegion srcRegion dstFixed srcFixed worked
  refine ⟨fun safe s clean worked => ?_, copiesChunks_of_short source target,
    fun dstInjective srcInjective alike => ?_⟩
  · have pipe := ouPipeCopy_worked dstRegion srcRegion (dstFixed.agree clean)
      (srcFixed.agree clean) worked
    rw [pipe.1]
    exact ouCopyMr_works dstRegion srcRegion (dstFixed.agree clean) (srcFixed.agree clean) safe
  · obtain ⟨source', target'⟩ := ouCopyMr_worked dstRegion srcRegion dstFixed srcFixed
      (alike memory (fun _ _ => rfl) worked).1
    refine ⟨source', target', fun a small b => ?_⟩
    -- the first octet that is read too late has another value in some memory
    induction b using Nat.strong_induction_on generalizing a with
    | h b ih =>
      intro inside before overlap
      have apart : src a ≠ src b := fun same =>
        absurd (srcInjective a small b inside same) (by rintro rfl; omega)
      let s := Function.update memory (src a) (memory (src b) + 1)
      have clean : Clean memory dst src len s := fun p far =>
        Function.update_of_ne (fun here => far ⟨a, small, .inr here⟩) ..
      have stale := ouCopyMr_stale dstRegion srcRegion (dstFixed.agree clean)
        (srcFixed.agree clean) source' target' dstInjective inside before overlap
        fun i inside' j less later => ih j less i inside' (by omega) later
      have runs := ouPipeCopy_works dstRegion srcRegion (dstFixed.agree clean)
        (srcFixed.agree clean) positive source target
      have pipe := (ouPipeCopy_worked dstRegion srcRegion (dstFixed.agree clean)
        (srcFixed.agree clean) runs).1
      rw [(alike s clean runs).2, pipe, copied, scatterAt_gatherAt_apply inside
        fun j within later same => absurd (dstInjective b inside j within same) (by omega)] at stale
      simp only [s, Function.update_self, Function.update_of_ne apart.symm] at stale
      exact absurd stale (by bv_omega)

end

/-- The page table of a process whose first gigabyte is mapped to itself; the octets at 0x1000 and
0x2000 differ. -/
def flatTable : ByteMap := fun p =>
  if p = 0x100000 then 0x03 else if p = 0x100001 then 0x10 else if p = 0x100002 then 0x10
  else if p = 0x101000 then 0x01 else if p = 0x1000 then 1 else if p = 0x2000 then 2 else 0

def flatRegion : MrEntry := ⟨0x1000, 0x10000, 0x100000⟩

def flatGuest : Guest := ⟨[⟨0, 0x200000⟩], fun _ => some flatRegion⟩

theorem flat_index (small : va.toNat < 2 ^ 30) {shift : ℕ} (high : 30 ≤ shift) :
    (va >>> shift) &&& 0x1FF = 0 := by
  have zero : va >>> shift = 0 := by
    apply BitVec.eq_of_toNat_eq
    rw [BitVec.toNat_ushiftRight]
    exact shiftRight_eq_zero _ _ (lt_of_lt_of_le small (Nat.pow_le_pow_right (by omega) high))
  rw [zero]
  exact BitVec.zero_and

theorem flat_root : descriptor [⟨0, 0x200000⟩] flatTable 0x100000 = some 0x101003 := by
  decide +kernel

theorem flat_block : descriptor [⟨0, 0x200000⟩] flatTable 0x101000 = some 0x1 := by
  decide +kernel

theorem flat_walkFrom (small : va.toNat < 2 ^ 30) :
    walkFrom [⟨0, 0x200000⟩] flatTable va [30, 21, 12] 0x101000 = va := by
  have entry : (0x101000 + 0 * 8 : U64) = 0x101000 := by decide
  rw [walkFrom, flat_index small (by decide), entry, flat_block]
  change (0 &&& ~~~((1#64 <<< 30) - 1)) ||| (va &&& ((1#64 <<< 30) - 1)) = va
  have offset : va &&& ((1#64 <<< 30) - 1) = va := by
    apply BitVec.eq_of_toNat_eq
    rw [blockMask (by decide), BitField.toNat_and_mask (by decide), mod_eq_of_lt small]
  rw [offset]
  exact BitVec.zero_or

theorem flat_ouWalk (small : va.toNat < 2 ^ 30) :
    ouWalk [⟨0, 0x200000⟩] flatTable 0x100000 va = va := by
  have entry : ((0x100000 &&& 0x0000FFFFFFFFF000) + 0 * 8 : U64) = 0x100000 := by decide
  rw [ouWalk, walkFrom, flat_index small (by decide), entry, flat_root]
  exact flat_walkFrom small

theorem flat_entries (small : va.toNat < 2 ^ 30) :
    walkEntries [⟨0, 0x200000⟩] flatTable va 0x100000 = [0x100000, 0x101000] := by
  have entry : ((0x100000 &&& 0x0000FFFFFFFFF000) + 0 * 8 : U64) = 0x100000 := by decide
  have entry' : ((0x101003 &&& 0x0000FFFFFFFFF000) + 0 * 8 : U64) = 0x101000 := by decide
  rw [walkEntries, entriesFrom, flat_index small (by decide), entry, flat_root]
  dsimp only
  rw [if_neg (by decide), entriesFrom, flat_index small (by decide), entry', flat_block]
  rfl

theorem flat_region : flatGuest.mrTable 1 = some flatRegion := rfl

abbrev flatOctet : U64 → ℕ → U64 := octet flatGuest flatTable flatRegion

section

variable {va : U64} {len : ℕ}

section

variable (small : va.toNat + len ≤ 0x100000)
include small

theorem flat_octet {i : ℕ} (inside : i < len) :
    flatOctet va i = va + ofNat 64 i ∧ (va + ofNat 64 i).toNat = va.toNat + i := by
  have sum : (va + ofNat 64 i).toNat = va.toNat + i := toNat_add_of_noWrap (by omega) inside
  exact ⟨flat_ouWalk (by omega), sum⟩

theorem flat_injective : ∀ i < len, ∀ j < len, flatOctet va i = flatOctet va j → i = j := by
  intro i inside j inside' same
  obtain ⟨place, sum⟩ := flat_octet small inside
  obtain ⟨place', sum'⟩ := flat_octet small inside'
  rw [place, place'] at same
  have numbers := congrArg BitVec.toNat same
  omega

theorem flat_touched {va' : U64} (small' : va'.toNat + len ≤ 0x100000) {p : U64}
    (touched : Touched (flatOctet va) (flatOctet va') len p) : p.toNat < 0x100000 := by
  obtain ⟨i, inside, rfl | rfl⟩ := touched
  · obtain ⟨place, sum⟩ := flat_octet small inside
    rw [place, sum]
    omega
  · obtain ⟨place, sum⟩ := flat_octet small' inside
    rw [place, sum]
    omega

theorem flat_tables {dirty : U64 → Prop} (low : ∀ p, dirty p → p.toNat < 0x100000) :
    TablesApart flatGuest.backing flatTable flatRegion.ttbr0 va len dirty := by
  intro i inside entry member p contains written
  have below := low p written
  obtain ⟨_, sum⟩ := flat_octet small inside
  have entries : walkEntries flatGuest.backing flatTable (va + ofNat 64 i)
      flatRegion.ttbr0 = [0x100000, 0x101000] := flat_entries (by omega)
  rw [entries] at member
  have high : 0x100000 ≤ entry.toNat ∧ entry.toNat < 0x200000 := by
    rcases mem_pair.mp member with rfl | rfl
    · exact ⟨by decide, by decide⟩
    · exact ⟨by decide, by decide⟩
  change (p - entry).toNat < 8 at contains
  rw [BitVec.toNat_sub] at contains
  omega

end

theorem flat_reachable (above : 0x1000 ≤ va.toNat) (small : va.toNat + len ≤ 0x100000) :
    ∀ i < len, Reachable flatGuest.backing (flatOctet va i) := by
  intro i inside
  obtain ⟨place, sum⟩ := flat_octet small inside
  rw [place]
  refine ⟨fun zero => ?_, (backed_iff (by omega)).mpr ⟨by decide, _, mem_singleton_self _, ?_⟩⟩
  · rw [zero] at sum
    change 0 = _ at sum
    omega
  · change 0 ≤ _ ∧ _ + 1 ≤ 0 + 0x200000
    omega

theorem flat_accessible (above : 0x1000 ≤ va.toNat) (small : va.toNat + len ≤ 0x11000) :
    Accessible flatGuest flatRegion (flatOctet va) va len :=
  ⟨(MrEntry.admits_iff (by omega)).mpr ⟨above, small⟩, .of_pageBacked fun i inside =>
    (flat_reachable above (by omega) i inside).pageBacked (by decide) (ouWalk_lt ..)⟩

theorem flat_inChunks (size : ℕ) (above : 0x1000 ≤ va.toNat) (small : va.toNat + len ≤ 0x11000) :
    InChunks size flatGuest flatRegion (flatOctet va) va len := by
  intro offset inside _
  have start : (va + ofNat 64 offset).toNat = va.toNat + offset :=
    toNat_add_of_noWrap (by omega) inside
  obtain ⟨admitted, pieces⟩ : Accessible flatGuest flatRegion (flatOctet (va + ofNat 64 offset))
      (va + ofNat 64 offset) (min (len - offset) size) := flat_accessible (by omega) (by omega)
  exact ⟨admitted, pieces.congr fun i _ => place_add offset i⟩

end

theorem ouCopyMr_of_ouPipeCopy_flat :
    (ouCopyMr flatGuest 1 0x2000 1 0x1000 3 flatTable).value = some ⟨⟩ ∧
      (ouCopyMr flatGuest 1 0x2000 1 0x1000 3 flatTable).state =
        (ouPipeCopy flatGuest true 1 0x2000 1 0x1000 3 flatTable).state := by
  have worked : (ouPipeCopy flatGuest true 1 0x2000 1 0x1000 3 flatTable).value = some ⟨⟩ := by
    decide +kernel
  have both := ouCopyMr_of_ouPipeCopy flat_region flat_region rfl rfl
    (flat_tables (by decide) fun _ => flat_touched (by decide) (by decide))
    (flat_tables (by decide) fun _ => flat_touched (by decide) (by decide)) worked
  exact both.1 (both.2.1 (by decide)) flatTable (fun _ _ => rfl) worked

/-- A copy to a target that starts 4096 octets after the source, one octet longer than that. -/
abbrev Overlapping : U64 → Prop := Touched (flatOctet 0x2000) (flatOctet 0x1000) 4097

theorem flat_apart {va : U64} (small : va.toNat + 4097 ≤ 0x100000) :
    TablesApart flatGuest.backing flatTable flatRegion.ttbr0 va 4097 Overlapping :=
  flat_tables small fun _ => flat_touched (by decide) (by decide)

theorem flat_fixed {va : U64} (small : va.toNat + 4097 ≤ 0x100000) :
    Fixed flatGuest flatTable flatRegion va 4097 Overlapping (flatOctet va) :=
  (flat_apart small).fixed

theorem flat_ouPipeCopy :
    (ouPipeCopy flatGuest true 1 0x2000 1 0x1000 4097 flatTable).value = some ⟨⟩ :=
  ouPipeCopy_works flat_region flat_region (flat_fixed (by decide)) (flat_fixed (by decide))
    (by decide) (flat_accessible (by decide) (by decide))
    (flat_inChunks 256 (by decide) (by decide))

theorem flat_place {va : U64} {i : ℕ} (small : va.toNat + 4097 ≤ 0x100000) (inside : i < 4097) :
    flatOctet va i = va + ofNat 64 i :=
  (flat_octet small inside).1

/-- The pipeline has read the last octet before the first one is overwritten, `ou_copy_mr` reads it
afterwards. -/
theorem ouCopyMr_ne_ouPipeCopy :
    TablesApart flatGuest.backing flatTable flatRegion.ttbr0 0x2000 4097 Overlapping ∧
      TablesApart flatGuest.backing flatTable flatRegion.ttbr0 0x1000 4097 Overlapping ∧
      (ouPipeCopy flatGuest true 1 0x2000 1 0x1000 4097 flatTable).value = some ⟨⟩ ∧
      (ouCopyMr flatGuest 1 0x2000 1 0x1000 4097 flatTable).state ≠
        (ouPipeCopy flatGuest true 1 0x2000 1 0x1000 4097 flatTable).state := by
  refine ⟨flat_apart (by decide), flat_apart (by decide), flat_ouPipeCopy, fun same => ?_⟩
  have overlap : flatOctet 0x2000 0 = flatOctet 0x1000 4096 := by
    rw [flat_place (by decide) (by decide), flat_place (by decide) (by decide)]
    decide
  have stale := ouCopyMr_stale flat_region flat_region (flat_fixed (by decide))
    (flat_fixed (by decide)) (flat_inChunks 4096 (by decide) (by decide))
    (flat_inChunks 4096 (by decide) (by decide)) (flat_injective (by decide))
    (show 4096 < 4097 by decide) (by decide) overlap fun i _ j small later => by omega
  have pipe := (ouPipeCopy_worked flat_region flat_region (flat_fixed (by decide))
    (flat_fixed (by decide)) flat_ouPipeCopy).1
  have last : copied flatTable (flatOctet 0x2000) (flatOctet 0x1000) 4097 (flatOctet 0x2000 4096) =
      flatTable (flatOctet 0x1000 4096) :=
    scatterAt_gatherAt_apply (by decide) fun j small later => by omega
  rw [same, pipe, last, flat_place (by decide) (by decide), flat_place (by decide) (by decide)]
    at stale
  exact absurd stale (by decide)

end OpenURMA.Nic
