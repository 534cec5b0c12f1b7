import OpenURMA.Packet

/-!
# Cutting bytes into flits

Both codec elements emit a run of bytes in 32-byte flits, the last one padded with
zeros and marked `eop`.  `chunks` is that flit sequence; `padded` is what a reader
that concatenates whole flits gets back.
-/

namespace OpenURMA

open Library Flit List

def chunks (first : Bool) (octets : List Byte) : List Flit :=
  if octets.length ≤ 32 then
    [((ofData octets).setSop first).setEop true]
  else
    ((ofData (octets.take 32)).setSop first).setEop false ::
      chunks false (octets.drop 32)
termination_by octets.length
decreasing_by simp; omega

/-- The bytes with zeros up to a whole number of flits. -/
def padded (octets : List Byte) : List Byte :=
  octets ++ replicate ((32 - octets.length % 32) % 32) 0

variable {octets : List Byte}

theorem chunks_short (short : octets.length ≤ 32) (first : Bool) :
    chunks first octets = [((ofData octets).setSop first).setEop true] := by
  rw [chunks, if_pos short]

theorem chunks_long (long : 32 < octets.length) (first : Bool) :
    chunks first octets = ((ofData (octets.take 32)).setSop first).setEop false ::
        chunks false (octets.drop 32) := by
  rw [chunks, if_neg (by omega)]

theorem chunks_ne_nil (first : Bool) (octets : List Byte) : chunks first octets ≠ [] := by
  rw [chunks]
  split <;> simp

theorem eopLast_chunks (first : Bool) (octets : List Byte) : EopLast (chunks first octets) := by
  by_cases short : octets.length ≤ 32
  · rw [chunks_short short]
    exact rfl
  · rw [chunks_long (by omega)]
    have rest := eopLast_chunks false (octets.drop 32)
    cases shape : chunks false (octets.drop 32) with
    | nil => exact (chunks_ne_nil _ _ shape).elim
    | cons f flits =>
      rw [shape] at rest
      exact ⟨rfl, rest⟩
termination_by octets.length
decreasing_by simp; omega

theorem sop_chunks (octets : List Byte) : ∀ f ∈ chunks false octets, f.sop = false := by
  by_cases short : octets.length ≤ 32
  · rw [chunks_short short]
    simp
  · rw [chunks_long (by omega)]
    intro f member
    rcases mem_cons.mp member with rfl | member
    · rfl
    · exact sop_chunks (octets.drop 32) f member
termination_by octets.length
decreasing_by simp; omega

theorem chunks_shape (first : Bool) (octets : List Byte) :
    ∃ f rest, chunks first octets = f :: rest ∧ f.sop = first ∧ ∀ g ∈ rest, g.sop = false := by
  by_cases short : octets.length ≤ 32
  · exact ⟨_, [], chunks_short short first, rfl, by simp⟩
  · exact ⟨_, _, chunks_long (by omega) first, rfl, sop_chunks _⟩

section

variable (octets : List Byte)

theorem exists_packet_chunks : ∃ p : Packet, p.flits = chunks true octets := by
  obtain ⟨f, rest, shape, sop, inner⟩ := chunks_shape true octets
  have framed := eopLast_chunks true octets
  rw [shape] at framed ⊢
  exact ⟨⟨f, rest, sop, inner, framed⟩, rfl⟩

theorem flatMap_getData_length (payload : List Flit) :
    (payload.flatMap (·.getData 32)).length = 32 * payload.length := by
  induction payload with
  | nil => rfl
  | cons f payload ih =>
    rw [flatMap_cons, length_append, ih, getData_length, length_cons]
    omega

theorem padded_length : (padded octets).length = (octets.length + 31) / 32 * 32 := by
  simp only [padded, length_append, length_replicate]
  omega

theorem length_le_padded : octets.length ≤ (padded octets).length := by
  simp [padded]

theorem getD_padded {index : Nat} (inside : index < octets.length) :
    (padded octets).getD index 0 = octets.getD index 0 := by
  rw [padded, getD_append _ _ _ _ inside]

end

theorem padded_take_drop (long : 32 < octets.length) :
    octets.take 32 ++ padded (octets.drop 32) = padded octets := by
  have remainder : (octets.length - 32) % 32 = octets.length % 32 := by omega
  rw [padded, padded, ← append_assoc, take_append_drop, length_drop, remainder]

theorem getData_chunks (octets : List Byte) (nonempty : 0 < octets.length) (first : Bool) :
    (chunks first octets).flatMap (·.getData 32) = padded octets := by
  by_cases short : octets.length ≤ 32
  · rw [chunks_short short]
    simp only [flatMap_cons, flatMap_nil, append_nil,
      getData_setEop, getData_setSop, getData_ofData short, padded]
    congr 2
    omega
  · have long : 32 < octets.length := by omega
    have restNonempty : 0 < (octets.drop 32).length := by simp; omega
    rw [chunks_long long, flatMap_cons, getData_chunks (octets.drop 32) restNonempty false]
    simp only [getData_setEop, getData_setSop]
    rw [getData_ofData (by simp)]
    simp only [length_take, show min 32 octets.length = 32 by omega,
      Nat.sub_self, replicate_zero, append_nil]
    exact padded_take_drop long
termination_by octets.length
decreasing_by simp; omega

theorem length_chunks (nonempty : 0 < octets.length) (first : Bool) :
    (chunks first octets).length = (octets.length + 31) / 32 := by
  have bytes := congrArg length (getData_chunks octets nonempty first)
  rw [flatMap_getData_length, padded_length] at bytes
  omega

theorem getD_padded_zero (octets : List Byte) (index : Nat) :
    (padded octets).getD index 0 = octets.getD index 0 := by
  by_cases inside : index < octets.length
  · exact getD_padded octets inside
  · rw [padded, getD_append_right _ _ _ _ (by omega), getD_eq_default octets 0 (by omega)]
    by_cases filled : index - octets.length < (32 - octets.length % 32) % 32
    · exact getD_replicate 0 filled
    · exact getD_eq_default _ _ (by simpa using filled)

theorem lanes_chunks (first : Bool) (octets : List Byte) :
    ∃ f rest, chunks first octets = f :: rest ∧
      ∀ lane : Fin 4, f.get lane = laneOfData octets lane.val := by
  by_cases short : octets.length ≤ 32
  · refine ⟨_, [], chunks_short short first, fun lane => ?_⟩
    rw [get_setEop, get_setSop, get_ofData]
  · refine ⟨_, _, chunks_long (by omega) first, fun lane => ?_⟩
    rw [get_setEop, get_setSop, get_ofData]
    apply laneOfData_congr
    intro index inside
    have bound : 8 * lane.val + index < 32 := by omega
    rw [getD_eq_getElem?_getD, getD_eq_getElem?_getD, getElem?_take_of_lt bound]

/-- Both elements append a flit's bytes as far as they fit below the buffer's end. -/
theorem slice_blit_flit (buffer : Buffer) (f : Flit) {fill limit copy : Nat} (bound : fill ≤ limit)
    (clipped : copy = if fill + 32 > limit then limit - fill else 32) :
    (buffer.blit fill ((f.getData 32).take copy)).slice 0 (fill + copy) =
      (buffer.slice 0 fill ++ f.getData 32).take limit := by
  have count : ((f.getData 32).take copy).length = copy := by
    rw [length_take, getData_length, clipped]
    split <;> omega
  have copied : (f.getData 32).take copy = (f.getData 32).take (limit - fill) := by
    rw [take_eq_take_iff, getData_length, clipped]
    split <;> omega
  have appended := buffer.slice_blit_append fill ((f.getData 32).take copy)
  rw [count] at appended
  rw [appended, copied, take_append, Buffer.slice_length,
    take_of_length_le (l := buffer.slice 0 fill) (by simpa using bound)]

/-! ## Draining a buffer

Both elements drain their buffer the same way: one chunk per call from a running
offset, whatever input is offered, until the offset reaches the end. -/

variable {σ : Type} {handler : Handler σ Flit Flit} {buffer : Buffer} {total : Nat}
variable {mark : Nat → Bool} {state : Nat → σ} {done final : σ}
variable {queue outs : List Flit}

def drainChunk (buffer : Buffer) (total : Nat) (mark : Nat → Bool) (off : Nat) : Flit :=
  let take := if total - off > 32 then 32 else total - off
  ((ofData (buffer.slice off take)).setSop (mark off)).setEop
    (decide (off + take ≥ total))

theorem chunks_slice_last {off : Nat} (inside : off ≤ total) (last : total - off ≤ 32) :
    chunks (mark off) (buffer.slice off (total - off)) = [drainChunk buffer total mark off] := by
  rw [chunks_short (by simpa using last)]
  simp only [drainChunk, if_neg (show ¬ total - off > 32 by omega)]
  rw [decide_eq_true (by omega)]

theorem chunks_slice_more {off : Nat} (more : 32 < total - off) (later : mark (off + 32) = false) :
    chunks (mark off) (buffer.slice off (total - off)) = drainChunk buffer total mark off ::
        chunks (mark (off + 32)) (buffer.slice (off + 32) (total - (off + 32))) := by
  have split := buffer.slice_add off 32 (total - (off + 32))
  rw [show 32 + (total - (off + 32)) = total - off by omega] at split
  rw [chunks_long (by simpa using more), split]
  simp only [drainChunk, if_pos (show total - off > 32 by omega), later]
  rw [decide_eq_false (by omega), take_left' (by simp), drop_left' (by simp)]

structure Drains (handler : Handler σ Flit Flit) (buffer : Buffer) (total : Nat)
    (mark : Nat → Bool) (state : Nat → σ) (done : σ) : Prop where
  later : ∀ off, mark (off + 32) = false
  more : ∀ off, 32 < total - off → ∀ offered, handler (state off) offered =
    ⟨state (off + 32), false, some (drainChunk buffer total mark off)⟩
  last : ∀ off, off ≤ total → total - off ≤ 32 → ∀ offered,
    handler (state off) offered =
      ⟨done, false, some (drainChunk buffer total mark off)⟩

theorem Drains.delivers (drains : Drains handler buffer total mark state done)
    (rest : handler.Delivers done queue final outs) (off : Nat) (inside : off ≤ total) :
    handler.Delivers (state off) queue final
      (chunks (mark off) (buffer.slice off (total - off)) ++ outs) := by
  by_cases final : total - off ≤ 32
  · rw [chunks_slice_last inside final]
    exact .emit (drains.last off inside final) rest
  · have long : 32 < total - off := by omega
    rw [chunks_slice_more long (drains.later off)]
    exact .emit (drains.more off long) (drains.delivers rest (off + 32) (by omega))
termination_by total - off

end OpenURMA
