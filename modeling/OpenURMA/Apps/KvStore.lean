import Mathlib.Data.Set.Card
import OpenURMA.Flit

/-!
# The key-value store of the demo application

A table of 256 entries with open addressing.  A lookup goes through the whole table, whether it
meets a free entry or not, so that a deletion leaves no gap that could hide an entry.
-/

namespace OpenURMA.KvStore

open Library Function Option List

abbrev Key := { k : List Byte // k.length ≤ 32 }

abbrev Value := { v : List Byte // v.length ≤ 256 }

/-- `struct kv`; the lengths are those of the lists. -/
structure Kv where
  k : Key
  v : Value
  used : Bool

abbrev Table := Fin 256 → Kv

def khash (k : List Byte) : ℕ :=
  (k.foldl (fun h b => (h ^^^ b.setWidth 32) * 16777619) (2166136261 : U32)).toNat % 256

/-- The entries in the order in which `kv_find` visits them. -/
def visited (k : List Byte) : List (Fin 256) :=
  (List.range 256).map fun i => Fin.ofNat 256 (khash k + i)

def Kv.has (e : Kv) (k : List Byte) : Bool := e.used && e.k.val == k

section

variable (tab : Table)

def kvFind (k : List Byte) (wantFree : Bool) : Option (Fin 256) :=
  (visited k).find? fun j => (tab j).has k || (wantFree && !(tab j).used)

def kvPlace (k : List Byte) : Option (Fin 256) :=
  (kvFind tab k false).or (kvFind tab k true)

def kvPut (k : Key) (v : Value) : Table × Bool :=
  match kvPlace tab k with
  | none => (tab, false)
  | some j => (update tab j ⟨k, v, true⟩, true)

def kvGet (k : List Byte) : Option Value :=
  (kvFind tab k false).map fun j => (tab j).v

def kvDel (k : List Byte) : Table × Bool :=
  match kvFind tab k false with
  | none => (tab, false)
  | some j => (update tab j { tab j with used := false }, true)

end

inductive Call where
  | put (k : Key) (v : Value)
  | get (k : Key)
  | del (k : Key)

inductive Result where
  | done (ok : Bool)
  | value (v : Option Value)

def step : Mealy Table Call Result
  | tab, .put k v => ((kvPut tab k v).1, .done (kvPut tab k v).2)
  | tab, .get k => (tab, .value (kvGet tab k))
  | tab, .del k => ((kvDel tab k).1, .done (kvDel tab k).2)

open Classical in
noncomputable def mapStep : Mealy (Key → Option Value) Call Result
  | m, .put k v =>
    if m k = none ∧ 256 ≤ {k | m k ≠ none}.ncard then (m, .done false)
    else (update m k (some v), .done true)
  | m, .get k => (m, .value (m k))
  | m, .del k => if m k = none then (m, .done false) else (update m k none, .done true)

variable {tab : Table} {k : Key} {j : Fin 256}

theorem mem_visited (k : List Byte) (j : Fin 256) : j ∈ visited k := by
  rw [visited, List.mem_map]
  refine ⟨(256 - khash k + j.val) % 256, mem_range.mpr (Nat.mod_lt _ (by omega)), ?_⟩
  have bound : khash k < 256 := Nat.mod_lt _ (by omega)
  apply Fin.ext
  change (khash k + (256 - khash k + j.val) % 256) % 256 = j.val
  omega

def Distinct (tab : Table) : Prop :=
  ∀ i j, (tab i).used = true → (tab j).used = true → (tab i).k = (tab j).k → i = j

theorem has_iff : (tab j).has k.val = true ↔ (tab j).used = true ∧ (tab j).k = k := by
  rw [Kv.has, Bool.and_eq_true, beq_iff_eq, Subtype.ext_iff]

theorem kvFind_eq_some (distinct : Distinct tab) :
    kvFind tab k false = some j ↔ (tab j).used = true ∧ (tab j).k = k := by
  simp only [kvFind, Bool.false_and, Bool.or_false]
  constructor
  · intro found
    have has := find?_some found
    exact has_iff.mp has
  · rintro ⟨used, key⟩
    cases found : (visited k.val).find? fun i => (tab i).has k.val with
    | none =>
      have missed := find?_eq_none.mp found j (mem_visited k j)
      exact absurd (has_iff.mpr ⟨used, key⟩) missed
    | some i =>
      have has := find?_some found
      obtain ⟨used', key'⟩ := has_iff.mp has
      rw [distinct i j used' used (key'.trans key.symm)]

theorem kvFind_eq_none : kvFind tab k false = none ↔ ∀ j, (tab j).used = true → (tab j).k ≠ k := by
  simp only [kvFind, Bool.false_and, Bool.or_false, find?_eq_none, has_iff, not_and]
  exact ⟨fun none j => none j (mem_visited k j), fun none j _ => none j⟩

theorem kvPlace_of_none (absent : kvFind tab k false = none) :
    (kvPlace tab k = none ↔ ∀ j, (tab j).used = true) ∧
      ∀ j, kvPlace tab k = some j → (tab j).used = false := by
  have search : kvPlace tab k = kvFind tab k true := by rw [kvPlace, absent, none_or]
  rw [search]
  constructor
  · simp only [kvFind, Bool.true_and, find?_eq_none, Bool.or_eq_true, Bool.not_eq_true',
      not_or, Bool.not_eq_false]
    refine ⟨fun none j => (none j (mem_visited k j)).2, fun all j _ => ⟨fun has => ?_, all j⟩⟩
    obtain ⟨used, key⟩ := has_iff.mp has
    exact kvFind_eq_none.mp absent j used key
  · intro j found
    have free := find?_some found
    simp only [Bool.true_and, Bool.or_eq_true, Bool.not_eq_true'] at free
    rcases free with has | free
    · obtain ⟨used, key⟩ := has_iff.mp has
      exact absurd key (kvFind_eq_none.mp absent j used)
    · exact free

structure Holds (tab : Table) (m : Key → Option Value) : Prop where
  distinct : Distinct tab
  get : ∀ k : Key, kvGet tab k = m k

variable {m : Key → Option Value}

theorem Holds.some_iff (holds : Holds tab m) {v : Value} :
    m k = some v ↔ ∃ j, (tab j).used = true ∧ (tab j).k = k ∧ (tab j).v = v := by
  rw [← holds.get, kvGet, map_eq_some_iff]
  simp only [kvFind_eq_some holds.distinct, and_assoc]

theorem Holds.none_iff (holds : Holds tab m) : m k = none ↔ kvFind tab k false = none := by
  rw [← holds.get, kvGet, map_eq_none_iff]

theorem holds_of (distinct : Distinct tab)
    (some : ∀ k v, m k = some v ↔ ∃ j, (tab j).used = true ∧ (tab j).k = k ∧ (tab j).v = v) :
    Holds tab m := by
  refine ⟨distinct, fun k => ext fun v => ?_⟩
  rw [some, kvGet, map_eq_some_iff]
  simp only [kvFind_eq_some distinct, and_assoc]

theorem Holds.full_iff (holds : Holds tab m) :
    256 ≤ {k | m k ≠ none}.ncard ↔ ∀ j, (tab j).used = true := by
  have keys : {k | m k ≠ none} = (fun j => (tab j).k) '' {j | (tab j).used = true} := by
    ext k
    simp only [Set.mem_ofPred_eq, ne_none_iff_exists', holds.some_iff, Set.mem_image]
    exact ⟨fun ⟨_, j, used, key, _⟩ => ⟨j, used, key⟩, fun ⟨j, used, key⟩ => ⟨_, j, used, key, rfl⟩⟩
  have injective : Set.InjOn (fun j => (tab j).k) {j | (tab j).used = true} :=
    fun i used j used' same => holds.distinct i j used used' same
  rw [keys, injective.ncard_image]
  constructor
  · intro many j
    have all : {j | (tab j).used = true} = Set.univ := by
      refine Set.eq_of_subset_of_ncard_le (Set.subset_univ _) ?_
      rwa [Set.ncard_univ, Nat.card_fin]
    exact (Set.ext_iff.mp all j).mpr trivial
  · intro all
    have whole : {j | (tab j).used = true} = Set.univ := Set.eq_univ_of_forall all
    rw [whole, Set.ncard_univ, Nat.card_fin]

theorem Holds.fill (holds : Holds tab m) (v : Value)
    (own : ∀ i, (tab i).used = true → (tab i).k = k → i = j)
    (mine : (tab j).used = true → (tab j).k = k) :
    Holds (update tab j ⟨k, v, true⟩) (update m k (some v)) := by
  have entry : ∀ i, update tab j ⟨k, v, true⟩ i = if i = j then ⟨k, v, true⟩ else tab i :=
    fun i => update_apply ..
  refine holds_of ?_ fun k' v' => ?_
  · intro i i' used used' same
    by_cases here : i = j <;> by_cases here' : i' = j
    · rw [here, here']
    · simp only [entry, if_pos here, if_neg here'] at used' same
      exact absurd (own i' used' same.symm) here'
    · simp only [entry, if_neg here, if_pos here'] at used same
      exact absurd (own i used same) here
    · simp only [entry, if_neg here, if_neg here'] at used used' same
      exact holds.distinct i i' used used' same
  · by_cases here : k' = k
    · subst here
      rw [update_self]
      constructor
      · rintro ⟨⟩
        exact ⟨j, by simp⟩
      · rintro ⟨i, used, key, value⟩
        by_cases same : i = j
        · simp only [entry, if_pos same] at value
          rw [value]
        · simp only [entry, if_neg same] at used key
          exact absurd (own i used key) same
    · rw [update_of_ne here, holds.some_iff]
      refine exists_congr fun i => ?_
      by_cases same : i = j
      · subst same
        simp only [entry, if_true]
        exact ⟨fun ⟨used, key, _⟩ => absurd (key.symm.trans (mine used)) here,
          fun ⟨_, key, _⟩ => absurd key.symm here⟩
      · simp only [entry, if_neg same]

theorem Holds.put (holds : Holds tab m) (k : Key) (v : Value) :
    Holds (step tab (.put k v)).1 (mapStep m (.put k v)).1 ∧
      (step tab (.put k v)).2 = (mapStep m (.put k v)).2 := by
  simp only [step, kvPut, mapStep, holds.full_iff, holds.none_iff]
  cases found : kvFind tab k false with
  | some j =>
    obtain ⟨used, key⟩ := (kvFind_eq_some holds.distinct).mp found
    have place : kvPlace tab k = some j := by rw [kvPlace, found, some_or]
    simp only [place, reduceCtorEq, false_and, if_false, and_true]
    exact holds.fill v (fun i used' key' => holds.distinct i j used' used (key'.trans key.symm))
      fun _ => key
  | none =>
    obtain ⟨full, free⟩ := kvPlace_of_none found
    cases place : kvPlace tab k with
    | none =>
      simp only [full.mp place, implies_true, and_self, if_true]
      exact ⟨holds, trivial⟩
    | some j =>
      have room : ¬∀ j, (tab j).used = true := fun all => by simp [full.mpr all] at place
      simp only [room, and_false, if_false, and_true]
      refine holds.fill v (fun i used key => ?_) fun used => ?_
      · exact absurd key (kvFind_eq_none.mp found i used)
      · rw [free j place] at used
        cases used

theorem Holds.del (holds : Holds tab m) (k : Key) :
    Holds (step tab (.del k)).1 (mapStep m (.del k)).1 ∧
      (step tab (.del k)).2 = (mapStep m (.del k)).2 := by
  simp only [step, kvDel, mapStep, holds.none_iff]
  cases found : kvFind tab k false with
  | none =>
    simp only [if_true]
    exact ⟨holds, trivial⟩
  | some j =>
    obtain ⟨used, key⟩ := (kvFind_eq_some holds.distinct).mp found
    have entry : ∀ i, ((update tab j { tab j with used := false }) i).used = true ↔
        (tab i).used = true ∧ i ≠ j := by
      intro i
      by_cases same : i = j
      · simp [same]
      · simp [same]
    have same : ∀ i, i ≠ j → update tab j { tab j with used := false } i = tab i :=
      fun i other => update_of_ne other ..
    simp only [reduceCtorEq, if_false, and_true]
    refine holds_of (fun i i' used used' keys => ?_) fun k' v' => ?_
    · rw [entry] at used used'
      rw [same i used.2, same i' used'.2] at keys
      exact holds.distinct i i' used.1 used'.1 keys
    · by_cases here : k' = k
      · subst here
        rw [update_self]
        refine ⟨nofun, fun ⟨i, used', key', _⟩ => ?_⟩
        rw [entry] at used'
        rw [same i used'.2] at key'
        exact absurd (holds.distinct i j used'.1 used (key'.trans key.symm)) used'.2
      · rw [update_of_ne here, holds.some_iff]
        refine exists_congr fun i => ?_
        by_cases at_ : i = j
        · subst at_
          rw [entry]
          exact ⟨fun ⟨_, key', _⟩ => absurd (key'.symm.trans key) here,
            fun ⟨no, _⟩ => absurd rfl no.2⟩
        · rw [entry, same i at_]
          simp only [at_, ne_eq, not_false_eq_true, and_true]

/-- The store has the results of a finite map with at most 256 keys, and no key is in it twice. -/
theorem kvStore_refines {tab : Table} (empty : ∀ j, (tab j).used = false) (calls : List Call) :
    step.trace tab calls = mapStep.trace (fun _ => none) calls ∧
      Distinct (step.final tab calls) := by
  have start : Holds tab fun _ => none := by
    refine holds_of (fun i _ used => ?_) fun k v => ⟨nofun, fun ⟨j, used, _⟩ => ?_⟩
    · rw [empty i] at used
      cases used
    · rw [empty j] at used
      cases used
  have run := Mealy.refines (fun tab m call (holds : Holds tab m) => by
    cases call with
    | put k v => exact holds.put k v
    | get k => exact ⟨holds, congrArg Result.value (holds.get k)⟩
    | del k => exact holds.del k) start calls
  exact ⟨run.2, run.1.distinct⟩

/-- Two keys with one hash are stored side by side; the first is deleted, the second still found. -/
def collidingCalls : List Call :=
  let first : Key := ⟨[1], by decide⟩
  let second : Key := ⟨[0, 219], by decide⟩
  [.put first ⟨[2], by decide⟩, .put second ⟨[3], by decide⟩, .get first, .del first, .get first,
    .get second]

theorem kvStore_refines_zeros : khash [1] = khash [0, 219] ∧
      step.trace (fun _ => ⟨⟨[], by decide⟩, ⟨[], by decide⟩, false⟩) collidingCalls =
        mapStep.trace (fun _ => none) collidingCalls :=
  ⟨by decide, (kvStore_refines (fun _ => rfl) _).1⟩

end OpenURMA.KvStore
