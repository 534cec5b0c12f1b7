import OpenURMA.Library.Octets

/-!
# Byte buffers

A fixed array that a program fills from an index on is a total map from indices
to octets: stale contents stay readable, as they do in the array.  `blit` copies a
run of octets into the buffer and `slice` reads one back.
-/

namespace OpenURMA.Library

open Function List Nat

abbrev Buffer := Nat → Byte

namespace Buffer

def blit (buffer : Buffer) (offset : Nat) (octets : List Byte) : Buffer :=
  fun index =>
    if offset ≤ index ∧ index < offset + octets.length then
      octets.getD (index - offset) 0
    else buffer index

def slice (buffer : Buffer) (offset count : Nat) : List Byte :=
  (range count).map fun index => buffer (offset + index)

@[simp] theorem slice_length (buffer : Buffer) (offset count : Nat) :
    (slice buffer offset count).length = count := by
  simp [slice]

variable {buffer : Buffer} {offset count index : Nat}

theorem getD_slice (inside : index < count) :
    (slice buffer offset count).getD index 0 = buffer (offset + index) := by
  simp [slice, inside]

variable {octets : List Byte}

theorem slice_eq_of_agree
    (agree : ∀ index, index < octets.length → buffer (offset + index) = octets.getD index 0) :
    slice buffer offset octets.length = octets := by
  apply ext_getElem
  · simp
  · intro index inside inside'
    simp only [slice, getElem_map, getElem_range]
    rw [agree index inside', getD_eq_getElem _ _ inside']

theorem slice_congr {other : Buffer}
    (agree : ∀ index < count, buffer (offset + index) = other (offset + index)) :
    slice buffer offset count = slice other offset count :=
  map_congr_left fun index member => agree index (mem_range.mp member)

theorem blit_inside (inside : index < octets.length) :
    blit buffer offset octets (offset + index) = octets.getD index 0 := by
  rw [blit, if_pos ⟨by omega, by omega⟩]
  congr 1
  omega

theorem blit_before (before : index < offset) : blit buffer offset octets index = buffer index := by
  rw [blit, if_neg (by omega)]

theorem blit_after (after : offset + octets.length ≤ index) :
    blit buffer offset octets index = buffer index := by
  rw [blit, if_neg (by omega)]

section

variable (buffer : Buffer) (offset : Nat)

@[simp] theorem blit_nil : blit buffer offset [] = buffer := by
  funext index
  rw [blit, if_neg (by simp)]

theorem blit_cons (byte : Byte) (octets : List Byte) :
    blit buffer offset (byte :: octets) = blit (update buffer offset byte) (offset + 1) octets := by
  funext index
  rcases lt_trichotomy index offset with below | rfl | above
  · rw [blit_before below, blit_before (by omega), update_of_ne (by omega)]
  · have written : blit buffer index (byte :: octets) (index + 0) = byte :=
      blit_inside (by simp)
    rw [blit_before (lt_succ_self index), update_self]
    exact written
  · obtain ⟨distance, rfl⟩ := Nat.exists_eq_add_of_lt above
    by_cases inside : distance < octets.length
    · have head : blit buffer offset (byte :: octets) (offset + (distance + 1)) =
          octets.getD distance 0 := blit_inside (by simpa using inside)
      rw [add_assoc, head, ← add_assoc, add_right_comm, blit_inside inside]
    · rw [blit_after (by simp; omega), blit_after (by omega), update_of_ne (by omega)]

theorem blit_append (first second : List Byte) : blit buffer offset (first ++ second) =
      blit (blit buffer offset first) (offset + first.length) second := by
  induction first generalizing buffer offset with
  | nil => simp
  | cons byte first ih =>
    rw [cons_append, blit_cons, ih, blit_cons, length_cons]
    congr 1
    omega

theorem slice_blit (octets : List Byte) :
    slice (blit buffer offset octets) offset octets.length = octets :=
  slice_eq_of_agree fun _ inside => blit_inside inside

end

theorem slice_blit_part {offset : Nat} (inside : offset + count ≤ octets.length) :
    slice (blit buffer 0 octets) offset count = (octets.drop offset).take count := by
  apply ext_getElem
  · simp
    omega
  · intro index within _
    rw [slice_length] at within
    have copied : blit buffer 0 octets (0 + (offset + index)) = octets.getD (offset + index) 0 :=
      blit_inside (by omega)
    simp only [slice, getElem_map, getElem_range, getElem_take, getElem_drop]
    rw [zero_add] at copied
    rw [copied, getD_eq_getElem _ _ (by omega)]

theorem slice_add (buffer : Buffer) (offset first second : Nat) :
    slice buffer offset (first + second) =
      slice buffer offset first ++ slice buffer (offset + first) second := by
  simp only [slice, range_add, map_append, map_map]
  congr 1
  apply map_congr_left
  intro index _
  simp only [comp_apply, add_assoc]

theorem slice_blit_append (buffer : Buffer) (fill : Nat) (octets : List Byte) :
    slice (blit buffer fill octets) 0 (fill + octets.length) = slice buffer 0 fill ++ octets := by
  rw [slice_add, zero_add, slice_blit]
  congr 1
  apply map_congr_left
  intro index member
  exact blit_before (by simpa using member)

theorem take_append_take (first second : List Byte) (limit : Nat) :
    (first.take limit ++ second).take limit = (first ++ second).take limit := by
  rw [take_append, take_append, take_take, min_self, length_take]
  congr 2
  omega

theorem take_slice {total : Nat} (inside : count ≤ total) :
    (slice buffer offset total).take count = slice buffer offset count := by
  rw [show total = count + (total - count) by omega, slice_add]
  exact take_left' (by simp)

theorem drop_slice {first : Nat} (inside : first ≤ count) :
    (slice buffer offset count).drop first = slice buffer (offset + first) (count - first) := by
  rw [show slice buffer offset count = slice buffer offset (first + (count - first)) by
    rw [Nat.add_sub_cancel' inside], slice_add]
  exact drop_left' (slice_length ..)

variable {words : List (BitVec 64)}

theorem slice_blit_words {k : Nat} (inside : k < words.length) :
    slice (blit buffer 0 (words.flatMap wordOctets)) (8 * k) 8 = wordOctets (words.getD k 0) := by
  rw [slice_blit_part (by rw [length_words]; omega), take_drop_words inside]

theorem blit_words_apply {k position : Nat} (inside : k < words.length) (within : position < 8) :
    blit buffer 0 (words.flatMap wordOctets) (8 * k + position) =
      octet (position * 8) (words.getD k 0) := by
  have read : (slice (blit buffer 0 (words.flatMap wordOctets)) (8 * k) 8).getD position 0 =
      blit buffer 0 (words.flatMap wordOctets) (8 * k + position) := getD_slice within
  rw [slice_blit_words inside, getD_wordOctets _ within] at read
  exact read.symm

def Holds (buffer : Buffer) (offset : Nat) (octets : List Byte) : Prop :=
  slice buffer offset octets.length = octets

theorem Holds.apply (holds : Holds buffer offset octets) (inside : index < octets.length) :
    buffer (offset + index) = octets.getD index 0 := by
  have read : (slice buffer offset octets.length).getD index 0 = buffer (offset + index) :=
    getD_slice inside
  rw [holds] at read
  exact read.symm

theorem holds_append {first second : List Byte} : Holds buffer offset (first ++ second) ↔
      Holds buffer offset first ∧ Holds buffer (offset + first.length) second := by
  unfold Holds
  rw [length_append, slice_add]
  constructor
  · exact fun equal => append_inj equal (by simp)
  · rintro ⟨left, right⟩
    rw [left, right]

end Buffer

end OpenURMA.Library
