import OpenURMA.Apps.KvStore

/-!
# The server loop of the key-value store

The server takes the lengths of the key and of the value from the message and checks neither.
What it reads and writes for one request is listed here, array by array.
-/

namespace OpenURMA.KvStore

open Library List BitVec

/-- The arrays that handling a request uses: the buffers of the messages, those of the entries of
the table, and the locals. -/
inductive Region where
  | rbuf | sbuf | resp | vv | key
  | entryKey (j : Fin 256)
  | entryValue (j : Fin 256)

def Region.size : Region → ℕ
  | rbuf | sbuf | resp => 512
  | vv => 256
  | key => 33
  | entryKey _ => 32
  | entryValue _ => 256

/-- A run of octets of an array that is read or written. -/
structure Access where
  region : Region
  offset : ℕ
  count : ℕ

def Safe (accesses : List Access) : Prop :=
  ∀ a ∈ accesses, a.offset + a.count ≤ a.region.size
deriving Decidable

@[simp] theorem safe_nil : Safe [] := nofun

@[simp] theorem safe_cons (a : Access) (rest : List Access) :
    Safe (a :: rest) ↔ a.offset + a.count ≤ a.region.size ∧ Safe rest :=
  forall_mem_cons

@[simp] theorem safe_append (first second : List Access) :
    Safe (first ++ second) ↔ Safe first ∧ Safe second :=
  forall_mem_append

section

variable (tab : Table)

/-- `kv_find` reads the key for its hash and compares it with the keys of its length. -/
def findAccesses (k : List Byte) (wantFree : Bool) : List Access :=
  let tried := (visited k).findIdx (fun j => (tab j).has k || (wantFree && !(tab j).used)) + 1
  ⟨.rbuf, 4, k.length⟩ :: ((visited k).take tried).flatMap fun j =>
    if (tab j).used && (tab j).k.val.length == k.length then
      [⟨.entryKey j, 0, k.length⟩, ⟨.rbuf, 4, k.length⟩]
    else []

/-- `kv_put`; a length below zero is a huge `size_t`. -/
def putAccesses (k : List Byte) (vl : ℤ) : List Access :=
  let vn := (BitVec.ofInt 64 vl).toNat
  findAccesses tab k false ++
    (if kvFind tab k false = none then findAccesses tab k true else []) ++
    match kvPlace tab k with
    | none => []
    | some j =>
      [⟨.entryKey j, 0, k.length⟩, ⟨.rbuf, 4, k.length⟩, ⟨.entryValue j, 0, vn⟩,
        ⟨.rbuf, 4 + k.length, vn⟩]

def getAccesses (k : List Byte) : List Access × ℕ :=
  match kvFind tab k false with
  | none => (findAccesses tab k false ++ [⟨.resp, 0, 3⟩], 4)
  | some j =>
    let vn := (tab j).v.val.length
    (findAccesses tab k false ++ [⟨.entryValue j, 0, vn⟩, ⟨.vv, 0, vn⟩, ⟨.resp, 0, 1⟩,
      ⟨.resp, 2, 2⟩, ⟨.vv, 0, vn⟩, ⟨.resp, 4, vn⟩], 4 + vn)

def keyLength (rbuf : Buffer) : ℕ := (rbuf 1).toNat

/-- The length of the value; its high octet is a `char` with a sign. -/
def valueLength (rbuf : Buffer) : ℤ := (rbuf 2).toInt * 256 + (rbuf 3).toNat

def requestKey (rbuf : Buffer) : List Byte := rbuf.slice 4 (keyLength rbuf)

def handleAccesses (rbuf : Buffer) : List Access × ℕ :=
  let op := rbuf 0
  let k := requestKey rbuf
  if op = 0x50 then (putAccesses tab k (valueLength rbuf) ++ [⟨.resp, 0, 3⟩], 4)
  else if op = 0x47 then getAccesses tab k
  else if op = 0x44 then (findAccesses tab k false ++ [⟨.resp, 0, 3⟩], 4)
  else ([⟨.resp, 0, 1⟩], 4)

def requestAccesses (served : ℕ) (rbuf : Buffer) : List Access :=
  let kl := keyLength rbuf
  let handled := handleAccesses tab rbuf
  if rbuf 0 = 0x51 then [⟨.rbuf, 0, 4⟩]
  else
    ⟨.rbuf, 0, 4⟩ :: (handled.1 ++ [⟨.resp, 0, handled.2⟩, ⟨.sbuf, 0, handled.2⟩] ++
      -- the text of the key is printed for the first requests
      if served < 15 then [⟨.rbuf, 4, kl⟩, ⟨.key, 0, kl⟩, ⟨.key, kl, 1⟩] else [])

end

section

variable (tab : Table) {k : List Byte} (byte : k.length ≤ 255)
include byte

theorem safe_findAccesses (wantFree : Bool) : Safe (findAccesses tab k wantFree) := by
  have read : 4 + k.length ≤ 512 := by omega
  rw [findAccesses, safe_cons]
  refine ⟨read, fun a member => ?_⟩
  obtain ⟨j, _, compared⟩ := mem_flatMap.mp member
  split at compared
  · next long =>
    have equal : (tab j).k.val.length = k.length := by simp_all
    have bound := (tab j).k.property
    rcases mem_pair.mp compared with rfl | rfl
    · exact show 0 + k.length ≤ 32 by omega
    · exact read
  · cases compared

theorem safe_getAccesses : Safe (getAccesses tab k).1 ∧ (getAccesses tab k).2 ≤ 512 := by
  have found := safe_findAccesses tab byte false
  unfold getAccesses
  split
  · simp [found, Region.size]
  · next j _ =>
    have bound := (tab j).v.property
    simp only [safe_append, safe_cons, found, Region.size, safe_nil, and_true, true_and]
    omega

theorem safe_putAccesses_iff {vl : ℤ} (low : -2 ^ 15 ≤ vl) (high : vl < 2 ^ 15) :
    Safe (putAccesses tab k vl) ↔ (kvPlace tab k ≠ none → k.length ≤ 32 ∧ 0 ≤ vl ∧ vl ≤ 256) := by
  have found := safe_findAccesses tab byte
  have free : Safe (if kvFind tab k false = none then findAccesses tab k true else []) := by
    split
    · exact found true
    · exact safe_nil
  have size := toNat_ofInt (n := 64) vl
  simp only [putAccesses, safe_append, found false, free, true_and]
  cases kvPlace tab k with
  | none => simp
  | some j =>
    simp only [safe_cons, safe_nil, and_true, Region.size, ne_eq, reduceCtorEq,
      not_false_eq_true, forall_const]
    omega

end

theorem safe_handleAccesses_iff (tab : Table) (rbuf : Buffer) :
    (Safe (handleAccesses tab rbuf).1 ↔ (rbuf 0 = 0x50 → kvPlace tab (requestKey rbuf) ≠ none →
        keyLength rbuf ≤ 32 ∧ 0 ≤ valueLength rbuf ∧ valueLength rbuf ≤ 256)) ∧
      (handleAccesses tab rbuf).2 ≤ 512 := by
  have length : (requestKey rbuf).length = keyLength rbuf := Buffer.slice_length ..
  have byte : (requestKey rbuf).length ≤ 255 := length.trans_le (Nat.le_of_lt_succ (rbuf 1).isLt)
  have low := le_toInt (rbuf 2)
  have high := toInt_lt (x := rbuf 2)
  have octet := (rbuf 3).isLt
  have put := safe_putAccesses_iff tab byte
    (show -2 ^ 15 ≤ valueLength rbuf by unfold valueLength; omega) (by unfold valueLength; omega)
  have found := safe_findAccesses tab byte false
  obtain ⟨got, short⟩ := safe_getAccesses tab byte
  rw [length] at put
  unfold handleAccesses
  dsimp only
  split_ifs with isPut isGet isDel
  · simp [isPut, put, Region.size]
  · simp [isGet, got, short]
  · simp [isDel, found, Region.size]
  · exact ⟨iff_of_true (by decide) fun put => absurd put isPut, by decide⟩

/-- A request is handled inside the arrays exactly if it is the last one, or its key is short enough
to be printed and what is stored fits in its entry. -/
theorem safe_request_iff (tab : Table) (served : ℕ) (rbuf : Buffer) :
    Safe (requestAccesses tab served rbuf) ↔ rbuf 0 = 0x51 ∨ (served < 15 → keyLength rbuf ≤ 32) ∧
        (rbuf 0 = 0x50 → kvPlace tab (requestKey rbuf) ≠ none →
          keyLength rbuf ≤ 32 ∧ 0 ≤ valueLength rbuf ∧ valueLength rbuf ≤ 256) := by
  have byte : keyLength rbuf ≤ 255 := Nat.le_of_lt_succ (rbuf 1).isLt
  obtain ⟨handled, short⟩ := safe_handleAccesses_iff tab rbuf
  have text (kl : ℕ) (byte : kl ≤ 255) :
      Safe (if served < 15 then [⟨.rbuf, 4, kl⟩, ⟨.key, 0, kl⟩, ⟨.key, kl, 1⟩] else []) ↔
        (served < 15 → kl ≤ 32) := by
    split
    · simp only [safe_cons, safe_nil, and_true, Region.size]
      omega
    · simp_all
  unfold requestAccesses
  dsimp only
  by_cases quit : rbuf 0 = 0x51
  · simp [quit, Region.size]
  · rw [if_neg quit, or_iff_right quit]
    simp only [safe_cons, safe_append, text _ byte, handled, short, Region.size, safe_nil,
      Nat.zero_add, Nat.reduceLeDiff, and_true, true_and]
    exact and_comm

/-- The text of a key of 33 octets is longer than its array. -/
theorem not_safe_longKey :
    ¬Safe (requestAccesses (fun _ => ⟨⟨[], by decide⟩, ⟨[], by decide⟩, false⟩) 0
      fun index => if index = 1 then 33 else 0) := by
  decide +kernel

end OpenURMA.KvStore
