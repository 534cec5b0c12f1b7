import OpenURMA.Nic.BlockAccess
import Mathlib.Tactic.IntervalCases

/-!
# A page table that singles out a page

Page 0 is a root that maps every address to a block from `2 ^ 42` on. The pages 1 to 4 are the
tables of another address space: the entries for the page of an address `q` lead to the next table
and then to page 5, all others are blocks from `2 ^ 40` on. No other address is mapped to where `q`
is, unless it agrees with `q` in the 48 bits that are translated.
-/

namespace OpenURMA.Nic

open Library BitVec Nat Bool List
open BitVec (ofNat)

/-- Memory that consists of 64-bit words, given by page and slot. -/
def ofWords (word : ℕ → ℕ → U64) : ByteMap := fun p =>
  octet (p.toNat % 8 * 8) (word (p.toNat / 4096) (p.toNat % 4096 / 8))

variable {memory : ByteMap}

section

variable {backing : List Range} {word : ℕ → ℕ → U64} {entry : U64}

theorem load_ofWords (aligned : entry.toNat % 8 = 0) : (ofWords word).load ⟨entry, 8⟩ =
      wordOctets (word (entry.toNat / 4096) (entry.toNat % 4096 / 8)) := by
  refine map_congr_left fun k inside => ?_
  rw [mem_range] at inside
  change k < 8 at inside
  have bound := entry.isLt
  have sum : (entry + ofNat 64 k).toNat = entry.toNat + k := by
    rw [toNat_add, toNat_ofNat]
    omega
  change octet _ _ = _
  rw [sum]
  congr 2
  · omega
  · omega
  · omega

theorem descriptor_ofWords (agree : ∀ p, Span.Contains ⟨entry, 8⟩ p → memory p = ofWords word p)
    (aligned : entry.toNat % 8 = 0) (there : backed backing entry 8 = true) :
    descriptor backing memory entry =
      some (word (entry.toNat / 4096) (entry.toNat % 4096 / 8)) := by
  have here : backed backing entry (Io.read 8).length = true := there
  rw [descriptor_congr agree, descriptor, ouDma, if_pos here]
  change some (littleEndian ((ofWords word).load ⟨entry, 8⟩)) = _
  rw [load_ofWords aligned, littleEndian_wordOctets]

end

def slotOf (shift : ℕ) (a : U64) : ℕ := a.toNat / 2 ^ shift % 512

def tableWord (q : U64) (page slot : ℕ) : U64 :=
  if page = 0 then ofNat 64 (2 ^ 42 + 1)
  else if slot = slotOf (48 - 9 * page) q then ofNat 64 (4096 * (page + 1) + 3)
  else ofNat 64 (2 ^ 40 + 1)

def Tabled (q : U64) (memory : ByteMap) : Prop :=
  ∀ p, p.toNat < 0x5000 → memory p = ofWords (tableWord q) p

def wholeBacking : List Range := [⟨0, 0x80000000000⟩]

theorem backed_whole {pa : U64} {len : ℕ} (some : len ≠ 0) (below : pa.toNat + len ≤ 2 ^ 43) :
    backed wholeBacking pa len = true := by
  refine (backed_iff (by omega)).mpr ⟨some, _, mem_singleton_self _, zero_le _, ?_⟩
  exact le_trans below (by decide)

section

variable {q a : U64}

theorem toNat_index (a : U64) (shift : ℕ) : ((a >>> shift) &&& 0x1FF).toNat = slotOf shift a := by
  have mask : (0x1FF : U64) = BitField.mask 64 9 := by decide
  rw [mask, BitField.toNat_and_mask (by decide), toNat_ushiftRight,
    shiftRight_eq_div_pow]
  rfl

theorem descriptor_table (tabled : Tabled q memory) {page : ℕ} (small : page < 5) (a : U64)
    (shift : ℕ) :
    descriptor wholeBacking memory (ofNat 64 (4096 * page) + ((a >>> shift) &&& 0x1FF) * 8) =
      some (tableWord q page (slotOf shift a)) := by
  have slot : slotOf shift a < 512 := mod_lt _ (by decide)
  have entry : (ofNat 64 (4096 * page) + ((a >>> shift) &&& 0x1FF) * 8).toNat =
      4096 * page + slotOf shift a * 8 := by
    have eight : (8 : U64).toNat = 8 := rfl
    rw [toNat_add, toNat_mul, toNat_index, toNat_ofNat, eight]
    omega
  rw [descriptor_ofWords (fun p inside => tabled p ?_) (by omega)
    (backed_whole (by decide) (by omega)),
    entry]
  · congr 2
    · omega
    · omega
  · change (p - _).toNat < 8 at inside
    rw [toNat_sub, entry] at inside
    have bound := p.isLt
    omega

variable {shift : ℕ}

theorem toNat_block {frame : U64} (low : shift < 64) (aligned : frame.toNat % 2 ^ shift = 0)
    (a : U64) :
    (frame ||| (a &&& ((1#64 <<< shift) - 1))).toNat = frame.toNat + a.toNat % 2 ^ shift := by
  have small : a.toNat % 2 ^ shift < 2 ^ shift := mod_lt _ (Nat.two_pow_pos shift)
  have whole : 2 ^ shift * (frame.toNat / 2 ^ shift) = frame.toNat := by
    rw [mul_comm]
    exact Nat.div_mul_cancel (dvd_of_mod_eq_zero aligned)
  rw [blockMask low, toNat_or, BitField.toNat_and_mask low, ← whole,
    two_pow_add_eq_or_of_lt small]

def landing (q a : U64) : List ℕ → ℕ
  | [] => 0x5000 + a.toNat % 2 ^ 12
  | shift :: shifts =>
    if slotOf shift a = slotOf shift q then landing q a shifts else 2 ^ 40 + a.toNat % 2 ^ shift

theorem blockWord_fields : ∀ frame ∈ [40, 42], (ofNat 64 (2 ^ frame + 1) &&& 1 == 0) = false ∧
      (ofNat 64 (2 ^ frame + 1) &&& 3 == 1) = true ∧
      ofNat 64 (2 ^ frame + 1) &&& 0x0000FFFFFFFFF000 = ofNat 64 (2 ^ frame) := by
  decide

theorem blockFrame_aligned : ∀ frame ∈ [40, 42], ∀ shift ∈ [39, 30, 21, 12],
    ofNat 64 (2 ^ frame) &&& ~~~((1#64 <<< shift) - 1) = ofNat 64 (2 ^ frame) ∧
      shift < 64 ∧ (ofNat 64 (2 ^ frame)).toNat % 2 ^ shift = 0 ∧
      (ofNat 64 (2 ^ frame)).toNat = 2 ^ frame := by
  decide

section

variable (tabled : Tabled q memory)
include tabled

variable {shifts : List ℕ}

theorem toNat_walkFrom_block {page frame : ℕ} (small : page < 5)
    (known : tableWord q page (slotOf shift a) = ofNat 64 (2 ^ frame + 1))
    (frames : frame ∈ [40, 42]) (levels : shift ∈ [39, 30, 21, 12])
    (last : shifts = [] → shift = 12) :
    (walkFrom wholeBacking memory a (shift :: shifts) (ofNat 64 (4096 * page))).toNat =
      2 ^ frame + a.toNat % 2 ^ shift := by
  obtain ⟨valid, block, out⟩ := blockWord_fields frame frames
  obtain ⟨whole, low, aligned, number⟩ := blockFrame_aligned frame frames shift levels
  have place := toNat_block low aligned a
  rw [number] at place
  rw [walkFrom, descriptor_table tabled small, known]
  cases shifts with
  | nil =>
    obtain rfl : shift = 12 := last rfl
    simp only [valid, out, isEmpty_nil, false_eq_true, if_false, if_true]
    exact place
  | cons next shifts =>
    simp only [valid, block, out, whole, isEmpty_cons, false_eq_true, if_false, if_true]
    exact place

theorem walkFrom_table {page : ℕ} (small : page < 4)
    (known : tableWord q page (slotOf shift a) = ofNat 64 (4096 * (page + 1) + 3))
    (more : shifts ≠ []) :
    walkFrom wholeBacking memory a (shift :: shifts) (ofNat 64 (4096 * page)) =
      walkFrom wholeBacking memory a shifts (ofNat 64 (4096 * (page + 1))) := by
  have valid : (ofNat 64 (4096 * (page + 1) + 3) &&& 1 == 0) = false := by
    interval_cases page <;> rfl
  have table : (ofNat 64 (4096 * (page + 1) + 3) &&& 3 == 1) = false := by
    interval_cases page <;> rfl
  have out : ofNat 64 (4096 * (page + 1) + 3) &&& 0x0000FFFFFFFFF000 =
      ofNat 64 (4096 * (page + 1)) := by
    interval_cases page <;> rfl
  rw [walkFrom, descriptor_table tabled (by omega), known]
  simp only [valid, table, out, isEmpty_eq_false_iff.mpr more, false_eq_true, if_false]

theorem toNat_walkFrom_page (hit : slotOf 12 a = slotOf 12 q) :
    (walkFrom wholeBacking memory a [12] (ofNat 64 (4096 * 4))).toNat =
      0x5000 + a.toNat % 2 ^ 12 := by
  have known : tableWord q 4 (slotOf 12 a) = 0x5003 := if_pos hit
  have out : (0x5003 : U64) &&& 0x0000FFFFFFFFF000 = 0x5000 := by decide
  have valid : ((0x5003 : U64) &&& 1 == 0) = false := by decide
  rw [walkFrom, descriptor_table tabled (by decide), known]
  have place : ((0x5000 : U64) ||| (a &&& ((1#64 <<< 12) - 1))).toNat =
      (0x5000 : U64).toNat + a.toNat % 2 ^ 12 := toNat_block (by decide) (by decide) a
  simp only [valid, out, isEmpty_nil, false_eq_true, if_false, if_true]
  exact place

theorem toNat_walkFrom_level (page : ℕ) {shifts : List ℕ} (first : 1 ≤ page) (small : page < 4)
    (more : shifts ≠ [])
    (rest : (walkFrom wholeBacking memory a shifts (ofNat 64 (4096 * (page + 1)))).toNat =
      landing q a shifts) :
    (walkFrom wholeBacking memory a ((48 - 9 * page) :: shifts)
        (ofNat 64 (4096 * page))).toNat = landing q a ((48 - 9 * page) :: shifts) := by
  have levels : 48 - 9 * page ∈ [39, 30, 21, 12] := by interval_cases page <;> decide
  have path : page ≠ 0 := by omega
  rw [landing]
  split_ifs with hit
  · rw [walkFrom_table tabled small (by rw [tableWord, if_neg path, if_pos hit]) more, rest]
  · exact toNat_walkFrom_block tabled (by omega) (by rw [tableWord, if_neg path, if_neg hit])
      (by decide) levels fun none => absurd none more

theorem toNat_ouWalk_path (a : U64) :
    (ouWalk wholeBacking memory 0x1000 a).toNat = landing q a [39, 30, 21, 12] := by
  have last : (walkFrom wholeBacking memory a [12] (ofNat 64 (4096 * 4))).toNat =
      landing q a [12] := by
    rw [landing]
    split_ifs with hit
    · exact toNat_walkFrom_page tabled hit
    · exact toNat_walkFrom_block tabled (by decide) (if_neg hit) (by decide) (by decide)
        fun _ => rfl
  have root : (0x1000 : U64) &&& 0x0000FFFFFFFFF000 = ofNat 64 (4096 * 1) := by decide
  have third := toNat_walkFrom_level tabled 3 (by decide) (by decide) (by decide) last
  have second := toNat_walkFrom_level tabled 2 (by decide) (by decide) (by decide) third
  rw [ouWalk, root]
  exact toNat_walkFrom_level tabled 1 (by decide) (by decide) (by decide) second

theorem toNat_ouWalk_blocks (a : U64) :
    (ouWalk wholeBacking memory 0 a).toNat = 2 ^ 42 + a.toNat % 2 ^ 39 := by
  have known : tableWord q 0 (slotOf 39 a) = ofNat 64 (2 ^ 42 + 1) := if_pos rfl
  have root : (0 : U64) &&& 0x0000FFFFFFFFF000 = ofNat 64 (4096 * 0) := by decide
  rw [ouWalk, root]
  exact toNat_walkFrom_block tabled (by decide) known (by decide) (by decide) nofun

end

theorem landing_self (q : U64) (shifts : List ℕ) :
    landing q q shifts = 0x5000 + q.toNat % 2 ^ 12 := by
  induction shifts with
  | nil => rfl
  | cons shift shifts ih => rw [landing, if_pos rfl, ih]

theorem hit_of_landing {shifts : List ℕ} (low : landing q a (shift :: shifts) < 2 ^ 40) :
    slotOf shift a = slotOf shift q ∧ landing q a (shift :: shifts) = landing q a shifts := by
  rw [landing] at low ⊢
  split_ifs at low ⊢ with hit
  · exact ⟨hit, rfl⟩
  · omega

theorem low_of_landing (same : landing q a [39, 30, 21, 12] = landing q q [39, 30, 21, 12]) :
    a.toNat % 2 ^ 48 = q.toNat % 2 ^ 48 := by
  rw [landing_self] at same
  obtain ⟨first, rest⟩ := hit_of_landing (by omega : landing q a [39, 30, 21, 12] < 2 ^ 40)
  rw [rest] at same
  obtain ⟨second, rest⟩ := hit_of_landing (by omega : landing q a [30, 21, 12] < 2 ^ 40)
  rw [rest] at same
  obtain ⟨third, rest⟩ := hit_of_landing (by omega : landing q a [21, 12] < 2 ^ 40)
  rw [rest] at same
  obtain ⟨fourth, rest⟩ := hit_of_landing (by omega : landing q a [12] < 2 ^ 40)
  rw [rest, landing] at same
  simp only [slotOf] at first second third fourth
  omega

end

variable {q root va : U64} {io : Io}

def IsRoot (root : U64) : Prop := root = 0 ∨ root = 0x1000

variable (tabled : Tabled q memory)
include tabled

theorem ouWalk_bounds (known : IsRoot root) (a : U64) :
    0x5000 ≤ (ouWalk wholeBacking memory root a).toNat ∧
      (ouWalk wholeBacking memory root a).toNat < 2 ^ 43 := by
  rcases known with rfl | rfl
  · rw [toNat_ouWalk_blocks tabled]
    omega
  · rw [toNat_ouWalk_path tabled]
    simp only [landing]
    split_ifs <;> omega

theorem ouWalk_of_tabled {memory' : ByteMap}
    (tabled' : Tabled q memory') (known : IsRoot root) (a : U64) :
    ouWalk wholeBacking memory' root a = ouWalk wholeBacking memory root a := by
  apply eq_of_toNat_eq
  rcases known with rfl | rfl
  · rw [toNat_ouWalk_blocks tabled, toNat_ouWalk_blocks tabled']
  · rw [toNat_ouWalk_path tabled, toNat_ouWalk_path tabled']

def Behind (p : U64) : Prop := 0x5000 ≤ p.toNat

theorem Tabled.agree {memory' : ByteMap}
    (same : ∀ p, ¬Behind p → memory' p = memory p) : Tabled q memory' :=
  fun p low => (same p (not_le.mpr low)).trans (tabled p low)

theorem Tabled.stable (known : IsRoot root) (va : U64) (count : ℕ) :
    Stable wholeBacking memory root va count Behind :=
  fun _ same _ _ => ouWalk_of_tabled tabled (tabled.agree same) known _

theorem Tabled.reachable (known : IsRoot root) (va : U64) (i : ℕ) :
    Reachable wholeBacking (place wholeBacking memory root va i) := by
  obtain ⟨above, below⟩ := ouWalk_bounds tabled known (va + ofNat 64 i)
  refine ⟨fun zero => ?_, backed_whole (by decide) below⟩
  rw [place] at zero
  rw [zero] at above
  exact absurd above (by decide)

theorem Tabled.moves (known : IsRoot root) (va : U64) (io : Io) :
    Moves wholeBacking root va io memory (dmaLoop wholeBacking root io.length va io memory) :=
  dmaLoop_works (tabled.stable known va _) (fun _ _ _ => (ouWalk_bounds tabled known _).1)
    (by decide) (le_refl _) fun i _ => tabled.reachable known va i

def Sound (q : U64) (call : DmaCall) : Prop :=
  Tabled q call.memory ∧ ∀ p, call.Writes p → Behind p

theorem Tabled.state {α : Type} {x : Dma α}
    (obeys : Attempt.Obeys (Sound q) DmaCall.Writes x memory) : Tabled q (x memory).state :=
  tabled.agree fun p low => obeys.frame p fun call member writes =>
    low ((obeys.log call member).2 p writes)

theorem Tabled.dmaLoop (known : IsRoot root) (fuel : ℕ) (va : U64) (io : Io) :
    Attempt.Obeys (Sound q) DmaCall.Writes (dmaLoop wholeBacking root fuel va io) memory := by
  refine dmaLoop_obeys_of (fun _ _ memory => Tabled q memory) ?_ fuel tabled
  intro va io memory tabled mapped
  have here : Sound q ⟨memory, ouWalk wholeBacking memory root va, io.take (chunkOf va io)⟩ := by
    refine ⟨tabled, fun p ⟨_, inside⟩ => ?_⟩
    obtain ⟨k, small, rfl⟩ := exists_offset inside
    have page := chunkOf_page va io
    rw [length_chunk] at small
    rw [← (ouWalk_add (by omega) mapped).1]
    exact (ouWalk_bounds tabled known _).1
  exact ⟨here, tabled.state (ouDma_obeys here)⟩

end OpenURMA.Nic
