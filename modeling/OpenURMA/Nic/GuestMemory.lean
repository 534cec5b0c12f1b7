import OpenURMA.Flit
import OpenURMA.Library.Attempt
import OpenURMA.Library.ByteMap

/-!
# Guest memory as the gem5 NIC sees it

The functional data plane of `NICTopologySC` copies octets to and from the physical memory of the
guest.  An address of a registered region is virtual: `ou_walk` looks it up in the page table of
the process, which lies in the same memory, and `ou_dma_mr` splits an access at page boundaries.
-/

namespace OpenURMA.Nic

open Library BitField Attempt BitVec Nat
open BitVec (ofNat)

/-- A range of the backing store of the physical memory. -/
structure Range where
  start : U64
  size : U64

/-- The buffer, length and direction of an access: how much is read, or what is written. -/
inductive Io where
  | read (len : ℕ)
  | write (octets : List Byte)

namespace Io

def length : Io → ℕ
  | read len => len
  | write octets => octets.length

variable (count : ℕ)

def take : Io → Io
  | read len => read (min count len)
  | write octets => write (octets.take count)

def drop : Io → Io
  | read len => read (len - count)
  | write octets => write (octets.drop count)

def isWrite : Io → Bool
  | read _ => false
  | write _ => true

@[simp] theorem length_take (io : Io) : (io.take count).length = min count io.length := by
  cases io <;> simp [take, length]

@[simp] theorem length_drop (io : Io) : (io.drop count).length = io.length - count := by
  cases io <;> simp [drop, length]

@[simp] theorem isWrite_take (io : Io) : (io.take count).isWrite = io.isWrite := by
  cases io <;> rfl

@[simp] theorem isWrite_drop (io : Io) : (io.drop count).isWrite = io.isWrite := by
  cases io <;> rfl

end Io

structure DmaCall where
  memory : ByteMap
  pa : U64
  io : Io

def DmaCall.Writes (call : DmaCall) (p : U64) : Prop :=
  call.io.isWrite = true ∧ Span.Contains ⟨call.pa, call.io.length⟩ p

/-- An operation on guest memory; the log lists the calls of `ou_dma`. -/
abbrev Dma := Attempt ByteMap DmaCall

section

variable (backing : List Range)

/-- The search of `ou_dma` for a range that has the octets. -/
def backed (pa : U64) (len : ℕ) : Bool :=
  len != 0 && backing.any fun r => r.start ≤ pa && (pa - r.start) + ofNat 64 len ≤ r.size

def ouDma (pa : U64) (io : Io) : Dma (List Byte) := fun memory =>
  if backed backing pa io.length then
    match io with
    | .read len => ⟨some (memory.load ⟨pa, len⟩), memory, [⟨memory, pa, .read len⟩]⟩
    | .write octets => ⟨some octets, memory.write ⟨pa, octets⟩, [⟨memory, pa, .write octets⟩]⟩
  else ⟨none, memory, []⟩

def descriptor (memory : ByteMap) (entry : U64) : Option U64 :=
  (ouDma backing entry (.read 8) memory).value.map littleEndian

/-- The levels of `ou_walk` from the table at `table` on; `shifts` has the shifts of the levels
that are left. -/
def walkFrom (memory : ByteMap) (va : U64) : List ℕ → U64 → U64
  | [], _ => 0
  | shift :: shifts, table =>
    let idx := (va >>> shift) &&& 0x1FF
    match descriptor backing memory (table + idx * 8) with
    | none => 0
    | some e =>
      if e &&& 1 == 0 then 0
      else
        let out := e &&& 0x0000FFFFFFFFF000
        if shifts.isEmpty then out ||| (va &&& 0xFFF)
        else if e &&& 3 == 1 then
          let blk := 1#64 <<< shift
          (out &&& ~~~(blk - 1)) ||| (va &&& (blk - 1))
        else walkFrom memory va shifts out

/-- `ou_walk`: the physical address of a virtual one, 0 if there is none. -/
def ouWalk (memory : ByteMap) (ttbr0 va : U64) : U64 :=
  walkFrom backing memory va [39, 30, 21, 12] (ttbr0 &&& 0x0000FFFFFFFFF000)

/-- How much a round of `ou_dma_mr` moves: not beyond the end of the page. -/
def chunkOf (va : U64) (io : Io) : ℕ :=
  let pageOff := va &&& 0xFFF
  min io.length (4096 - pageOff.toNat)

/-- The loop of `ou_dma_mr`; every round moves at least one octet. -/
def dmaLoop (ttbr0 : U64) : ℕ → U64 → Io → Dma (List Byte)
  | 0, _, _ => pure []
  | fuel + 1, va, io =>
    if io.length = 0 then pure []
    else do
      let memory ← get
      let pa := ouWalk backing memory ttbr0 va
      if pa == 0 then fail
      else
        let chunk := chunkOf va io
        let moved ← ouDma backing pa (io.take chunk)
        let rest ← dmaLoop ttbr0 fuel (va + ofNat 64 chunk) (io.drop chunk)
        pure (moved ++ rest)

end

/-- A registered region: its addresses and the root of the page table they belong to. -/
structure MrEntry where
  vaBase : U64
  len : U64
  ttbr0 : U64

structure Guest where
  backing : List Range
  mrTable : U32 → Option MrEntry

/-- The check of `ou_dma_mr`, in 64-bit arithmetic. -/
def MrEntry.admits (m : MrEntry) (va : U64) (len : ℕ) : Bool :=
  !(va < m.vaBase || (va - m.vaBase) + ofNat 64 len > m.len)

def ouDmaMr (g : Guest) (token : U32) (va : U64) (io : Io) : Dma (List Byte) :=
  match g.mrTable token with
  | none => fail
  | some m =>
    if m.admits va io.length then dmaLoop g.backing m.ttbr0 io.length va io else fail

variable {va' : U64}

section

variable {va : U64}

theorem getLsbD_of_page {va : U64} (same : va >>> 12 = va' >>> 12) {index : ℕ} (high : 12 ≤ index) :
    va.getLsbD index = va'.getLsbD index := by
  have bit := congrArg (·.getLsbD (index - 12)) same
  simpa [getLsbD_ushiftRight, Nat.add_sub_cancel' high] using bit

variable {shift : ℕ}

theorem shift_of_page (same : va >>> 12 = va' >>> 12) (high : 12 ≤ shift) :
    va >>> shift = va' >>> shift := by
  apply eq_of_getLsbD_eq
  intro index inside
  rw [getLsbD_ushiftRight, getLsbD_ushiftRight,
    getLsbD_of_page same (le_add_right_of_le high)]

theorem blockMask (low : shift < 64) : (1#64 <<< shift) - 1 = mask 64 shift := by
  rw [mask, if_neg (by omega)]
  rfl

theorem pageMask : (0xFFF : U64) = mask 64 12 := by decide

theorem block_of_page {out : U64} (same : va >>> 12 = va' >>> 12) (high : 12 ≤ shift)
    (low : shift < 64) :
    (out &&& ~~~((1#64 <<< shift) - 1)) ||| (va' &&& ((1#64 <<< shift) - 1)) =
      ((out &&& ~~~((1#64 <<< shift) - 1)) |||
        (va &&& ((1#64 <<< shift) - 1) &&& ~~~0xFFF)) ||| (va' &&& 0xFFF) := by
  rw [blockMask low, pageMask]
  apply eq_of_getLsbD_eq
  intro index inside
  simp only [getLsbD_or, getLsbD_and, getLsbD_not, getLsbD_mask]
  by_cases upper : 12 ≤ index
  · rw [getLsbD_of_page same upper]
    grind
  · grind

theorem block_aligned {out : U64} (high : 12 ≤ shift) (low : shift < 64) :
    ((out &&& ~~~((1#64 <<< shift) - 1)) |||
      (va &&& ((1#64 <<< shift) - 1) &&& ~~~0xFFF)) &&& 0xFFF = 0 := by
  rw [blockMask low, pageMask]
  apply eq_of_getLsbD_eq
  intro index inside
  simp only [getLsbD_or, getLsbD_and, getLsbD_not, getLsbD_mask]
  grind

theorem add_of_frame {frame : U64} (aligned : frame &&& 0xFFF = 0) (va : U64) :
    frame ||| (va &&& 0xFFF) = frame + (va &&& 0xFFF) := by
  refine (add_eq_or_of_and_eq_zero _ _ ?_).symm
  rw [and_comm va, ← BitVec.and_assoc, aligned]
  exact zero_and

theorem toNat_pageOff (va : U64) : (va &&& 0xFFF).toNat = va.toNat % 4096 := by
  rw [pageMask, toNat_and_mask (by omega)]
  rfl

theorem toNat_add_of_page {k : ℕ} (inside : va.toNat % 4096 + k < 4096) :
    (va + ofNat 64 k).toNat = va.toNat + k := by
  have bound := va.isLt
  rw [toNat_add, toNat_ofNat]
  omega

theorem page_add {k : ℕ} (inside : va.toNat % 4096 + k < 4096) :
    va >>> 12 = (va + ofNat 64 k) >>> 12 := by
  apply eq_of_toNat_eq
  rw [toNat_ushiftRight, toNat_ushiftRight, toNat_add_of_page inside,
    shiftRight_eq_div_pow, shiftRight_eq_div_pow]
  omega

end

section

variable {backing : List Range} {memory : ByteMap} {va : U64}

/-- The addresses of a page are translated together: either none of them is mapped, or they
have one frame. -/
theorem walkFrom_page (same : va >>> 12 = va' >>> 12) {shifts : List ℕ}
    (levels : ∀ shift ∈ shifts, 12 ≤ shift ∧ shift < 64) (table : U64) :
    (walkFrom backing memory va shifts table = 0 ∧ walkFrom backing memory va' shifts table = 0) ∨
      ∃ frame : U64, frame &&& 0xFFF = 0 ∧
        walkFrom backing memory va shifts table = frame ||| (va &&& 0xFFF) ∧
        walkFrom backing memory va' shifts table = frame ||| (va' &&& 0xFFF) := by
  induction shifts generalizing table with
  | nil => exact .inl ⟨rfl, rfl⟩
  | cons shift shifts ih =>
    rw [List.forall_mem_cons] at levels
    obtain ⟨⟨high, low⟩, levels⟩ := levels
    simp only [walkFrom, ← shift_of_page same high]
    split
    · exact .inl ⟨rfl, rfl⟩
    · next e _ =>
      split_ifs with invalid last block
      · exact .inl ⟨rfl, rfl⟩
      · refine .inr ⟨e &&& 0x0000FFFFFFFFF000, ?_, rfl, rfl⟩
        rw [BitVec.and_assoc]
        exact and_zero
      · refine .inr ⟨_, ?_, block_of_page rfl high low, block_of_page same high low⟩
        exact block_aligned high low
      · exact ih levels _

theorem ouWalk_page (ttbr0 : U64) (same : va >>> 12 = va' >>> 12) :
    (ouWalk backing memory ttbr0 va = 0 ∧ ouWalk backing memory ttbr0 va' = 0) ∨
      ∃ frame : U64, frame &&& 0xFFF = 0 ∧
        ouWalk backing memory ttbr0 va = frame ||| (va &&& 0xFFF) ∧
        ouWalk backing memory ttbr0 va' = frame ||| (va' &&& 0xFFF) :=
  walkFrom_page same (by decide) _

variable {ttbr0 : U64}

theorem exists_frame (mapped : ouWalk backing memory ttbr0 va ≠ 0) :
    ∃ frame : U64, frame.toNat % 4096 = 0 ∧ ∀ k, va.toNat % 4096 + k < 4096 →
      (ouWalk backing memory ttbr0 (va + ofNat 64 k)).toNat =
        frame.toNat + (va.toNat % 4096 + k) := by
  rcases ouWalk_page ttbr0 (rfl : va >>> 12 = va >>> 12) with
    ⟨unmapped, _⟩ | ⟨frame, aligned, here, _⟩
  · exact absurd unmapped mapped
  · have low : frame.toNat % 4096 = 0 := by
      rw [← toNat_pageOff, aligned]
      rfl
    refine ⟨frame, low, fun k inside => ?_⟩
    rcases ouWalk_page ttbr0 (page_add inside) with ⟨unmapped, _⟩ | ⟨frame', aligned', here', there⟩
    · exact absurd unmapped mapped
    · obtain rfl : frame = frame' := by
        rw [here, add_of_frame aligned, add_of_frame aligned'] at here'
        exact add_right_cancel here'
      have bound := frame.isLt
      rw [there, add_of_frame aligned, toNat_add, toNat_pageOff, toNat_add_of_page inside]
      omega

theorem ouWalk_add {k : ℕ} (inside : va.toNat % 4096 + k < 4096)
    (mapped : ouWalk backing memory ttbr0 va ≠ 0) :
    ouWalk backing memory ttbr0 (va + ofNat 64 k) = ouWalk backing memory ttbr0 va + ofNat 64 k ∧
      ouWalk backing memory ttbr0 va + ofNat 64 k ≠ 0 := by
  obtain ⟨frame, aligned, page⟩ := exists_frame mapped
  have start : (ouWalk backing memory ttbr0 va).toNat = frame.toNat + va.toNat % 4096 := by
    simpa using page 0 (by omega)
  have bound := frame.isLt
  have sum : (ouWalk backing memory ttbr0 va + ofNat 64 k).toNat =
      frame.toNat + (va.toNat % 4096 + k) := by
    rw [toNat_add, start, toNat_ofNat]
    omega
  constructor
  · apply eq_of_toNat_eq
    rw [page k inside, sum]
  · intro zero
    apply mapped
    apply eq_of_toNat_eq
    rw [zero] at sum
    rw [start]
    change 0 = _ at sum
    change _ = 0
    omega

end

/-- A call moves octets of an access to the addresses from `va` on: the octets are the
translations of their addresses in the memory in which the call is made. -/
def Follows (backing : List Range) (ttbr0 va : U64) (io : Io) (call : DmaCall) : Prop :=
  call.io.isWrite = io.isWrite ∧ ∃ offset, offset + call.io.length ≤ io.length ∧
    ∀ k < call.io.length,
      ouWalk backing call.memory ttbr0 (va + ofNat 64 (offset + k)) =
          call.pa + ofNat 64 k ∧
        call.pa + ofNat 64 k ≠ 0

theorem exists_offset {call : DmaCall} {p : U64}
    (inside : Span.Contains ⟨call.pa, call.io.length⟩ p) :
    ∃ k < call.io.length, p = call.pa + ofNat 64 k := by
  refine ⟨(p - call.pa).toNat, inside, ?_⟩
  rw [ofNat_toNat, setWidth_eq, add_comm, sub_add_cancel]

theorem chunkOf_le (va : U64) (io : Io) : chunkOf va io ≤ io.length := min_le_left ..

theorem chunkOf_page (va : U64) (io : Io) : va.toNat % 4096 + chunkOf va io ≤ 4096 := by
  rw [chunkOf, toNat_pageOff]
  omega

theorem length_chunk (va : U64) (io : Io) : (io.take (chunkOf va io)).length = chunkOf va io := by
  rw [Io.length_take, min_eq_left (chunkOf_le va io)]

variable {backing : List Range} {allowed : DmaCall → Prop} {ttbr0 : U64}

theorem ouDma_obeys {pa : U64} {io : Io} {memory : ByteMap} (here : allowed ⟨memory, pa, io⟩) :
    Obeys allowed DmaCall.Writes (ouDma backing pa io) memory := by
  unfold ouDma
  split
  · cases io with
    | read len => exact ⟨by simpa using here, fun p _ => rfl⟩
    | write octets =>
      refine ⟨by simpa using here, fun p untouched => ?_⟩
      refine ByteMap.write_of_not_contains fun inside => ?_
      exact untouched _ (List.mem_singleton_self _) ⟨rfl, inside⟩
  · exact ⟨by simp, fun p _ => rfl⟩

theorem dmaLoop_obeys_of (inv : U64 → Io → ByteMap → Prop)
    (round : ∀ {va io memory}, inv va io memory → ouWalk backing memory ttbr0 va ≠ 0 →
      allowed ⟨memory, ouWalk backing memory ttbr0 va, io.take (chunkOf va io)⟩ ∧
        inv (va + ofNat 64 (chunkOf va io)) (io.drop (chunkOf va io))
          (ouDma backing (ouWalk backing memory ttbr0 va) (io.take (chunkOf va io)) memory).state)
    (fuel : ℕ) {va : U64} {io : Io} {memory : ByteMap} (start : inv va io memory) :
    Obeys allowed DmaCall.Writes (dmaLoop backing ttbr0 fuel va io) memory := by
  induction fuel generalizing va io memory with
  | zero => exact .pure _ _
  | succ fuel ih =>
    rw [dmaLoop]
    split
    · exact .pure _ _
    · refine .get_bind ?_
      dsimp only
      split
      · exact .fail _
      · next mapped =>
        obtain ⟨here, next⟩ := round start (by simpa using mapped)
        exact (ouDma_obeys here).bind fun moved _ => (ih next).bind fun rest _ => .pure _ _

theorem dmaLoop_obeys (ttbr0 : U64) (fuel : ℕ) (va : U64) (io : Io) (memory : ByteMap) :
    Obeys (Follows backing ttbr0 va io) DmaCall.Writes (dmaLoop backing ttbr0 fuel va io)
      memory := by
  -- a round moves what is left after the octets before it
  refine dmaLoop_obeys_of (fun va' io' _ => ∃ done ≤ io.length,
    va' = va + ofNat 64 done ∧ io' = io.drop done) ?_ fuel
    ⟨0, zero_le _, by simp, by cases io <;> rfl⟩
  rintro _ _ memory ⟨done, before, rfl, rfl⟩ mapped
  have within := chunkOf_le (va + ofNat 64 done) (io.drop done)
  rw [Io.length_drop] at within
  constructor
  · refine ⟨by simp, done, by rw [length_chunk]; omega, fun k small => ?_⟩
    have page := chunkOf_page (va + ofNat 64 done) (io.drop done)
    rw [length_chunk] at small
    rw [ofNat_add, ← add_assoc]
    exact ouWalk_add (by omega) mapped
  · refine ⟨done + chunkOf (va + ofNat 64 done) (io.drop done), by omega, ?_, ?_⟩
    · rw [add_assoc, ← ofNat_add]
    · cases io <;> simp [Io.drop, Nat.sub_sub]

theorem ouDmaMr_obeys {g : Guest} {token : U32} {m : MrEntry} (region : g.mrTable token = some m)
    (va : U64) (io : Io) (memory : ByteMap) :
    Obeys (Follows g.backing m.ttbr0 va io) DmaCall.Writes (ouDmaMr g token va io) memory := by
  rw [ouDmaMr, region]
  dsimp only
  split
  · exact dmaLoop_obeys ..
  · exact .fail _

end OpenURMA.Nic
