import OpenURMA.Library.Buffer

/-!
# Words in a byte memory

A 64-bit word may start at any octet, so two words can overlap.  A memory is still described
octet by octet; `word` and `setWord` are the little-endian accesses to it.
-/

namespace OpenURMA.Library.Buffer

def word (buffer : Buffer) (offset : Nat) : BitVec 64 := littleEndian (buffer.slice offset 8)

def setWord (buffer : Buffer) (offset : Nat) (value : BitVec 64) : Buffer := fun index =>
  if offset ≤ index ∧ index < offset + 8 then octet (8 * (index - offset)) value
  else buffer index

variable {buffer : Buffer} {offset : Nat}

theorem octet_word (buffer : Buffer) (offset : Nat) {position : Nat} (inside : position < 8) :
    octet (8 * position) (buffer.word offset) = buffer (offset + position) := by
  rw [word, octet_littleEndian _ inside, getD_slice inside]

theorem gather_eq_word (buffer : Buffer) (offset : Nat) :
    gather (fun i => buffer (offset + i)) 8 = buffer.word offset := by
  apply BitVec.eq_of_getLsbD_eq
  intro index inside
  have position : index / 8 < 8 := by omega
  rw [getLsbD_gather _ _ inside, word, getLsbD_littleEndian _ _ inside, getD_slice position]
  simp [position]

theorem blit_wordOctets (buffer : Buffer) (offset : Nat) (value : BitVec 64) :
    buffer.blit offset (wordOctets value) = buffer.setWord offset value := by
  funext index
  rw [blit, setWord, wordOctets_length]
  split
  · rw [getD_wordOctets _ (by omega), Nat.mul_comm]
  · rfl

@[simp] theorem word_setWord (value : BitVec 64) :
    (buffer.setWord offset value).word offset = value := by
  have read := slice_blit buffer offset (wordOctets value)
  rw [wordOctets_length] at read
  rw [word, ← blit_wordOctets, read, littleEndian_wordOctets]

@[simp] theorem setWord_word : buffer.setWord offset (buffer.word offset) = buffer := by
  funext index
  by_cases inside : offset ≤ index ∧ index < offset + 8
  · obtain ⟨position, rfl⟩ := Nat.exists_eq_add_of_le inside.1
    rw [setWord, if_pos ⟨by omega, by omega⟩, Nat.add_sub_cancel_left, octet_word _ _ (by omega)]
  · rw [setWord, if_neg (by omega)]

end OpenURMA.Library.Buffer
