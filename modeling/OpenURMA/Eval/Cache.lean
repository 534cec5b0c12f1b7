import OpenURMA.Flit
import OpenURMA.Library.Lru
import Mathlib.Data.List.AList

/-!
# The cache hierarchy of the two-node simulator

`CacheHierarchy` keeps each level as a hash map from lines to iterators into a list that is
ordered by recency.  An iterator is modelled by the address of its list node: `splice` moves a node
without changing its address, and `push_front` takes an address that no node has.
-/

namespace OpenURMA.Eval

open Library List
open Prod (fst snd)

inductive Op where
  | load | store | read | write | send | recv | faa | cas | swap | fand | for_ | fxor
  deriving DecidableEq

inductive CachePolicy where
  | wb | wt | uc
  deriving DecidableEq

structure MemReq where
  op : Op := .load
  addr : U64 := 0
  policy : CachePolicy := .wb

/-- A load or a store; the other operations bypass the caches. -/
def isMemsem (op : Op) : Bool := op == .load || op == .store

/-- One level: the map from lines to list nodes, and the list; `unused` is the next node address. -/
structure Level where
  map : AList fun _ : U64 => ℕ := ∅
  order : List (ℕ × U64) := []
  unused : ℕ := 0

namespace Level

/-- `lru_touch`: the node moves to the front. -/
def lruTouch (level : Level) (it : ℕ) : Level :=
  { level with order := level.order.filter (·.1 == it) ++ level.order.filter (·.1 != it) }

/-- `push_front` of a line, with its entry in the map. -/
def pushFront (level : Level) (line : U64) : Level where
  map := level.map.insert line level.unused
  order := (level.unused, line) :: level.order
  unused := level.unused + 1

/-- The last line leaves the list and the map. -/
def popBack (level : Level) : Level :=
  match level.order.getLast? with
  | none => level
  | some (_, evict) =>
    { level with map := level.map.erase evict, order := level.order.dropLast }

/-- `install_l1` and `install_l2`: insert first, then evict. -/
def install (cap : U32) (line : U64) (level : Level) : Level :=
  if line ∈ level.map then level
  else if cap.toNat < (level.pushFront line).map.keys.length then (level.pushFront line).popBack
  else level.pushFront line

end Level

/-- The arguments of the constructor. -/
structure Latencies where
  l1Lat : U32
  l2Lat : U32
  llcLat : U32
  dramLat : U32
  l1Cap : U32 := 512
  l2Cap : U32 := 8192

structure CacheHierarchy where
  l1 : Level := {}
  l2 : Level := {}

variable (c : Latencies)

namespace CacheHierarchy

def installL1 (line : U64) (h : CacheHierarchy) : CacheHierarchy :=
  { h with l1 := h.l1.install c.l1Cap line }

def installL2 (line : U64) (h : CacheHierarchy) : CacheHierarchy :=
  { h with l2 := h.l2.install c.l2Cap line }

/-- A write-through store goes to the LLC even on a hit. -/
def hitLatency (r : MemReq) : U32 :=
  if r.op = .store ∧ r.policy = .wt then c.llcLat else c.l1Lat

/-- The latency of a request. -/
def consult : Mealy CacheHierarchy MemReq U32 := fun h r =>
  let line := r.addr >>> 6
  if isMemsem r.op then
    if r.policy = .uc then (h, c.dramLat)
    else
      match h.l1.map.lookup line with
      | some it1 => ({ h with l1 := h.l1.lruTouch it1 }, hitLatency c r)
      | none =>
        match h.l2.map.lookup line with
        | some it2 => (installL1 c line { h with l2 := h.l2.lruTouch it2 }, c.l2Lat)
        | none => (installL1 c line (installL2 c line h), c.dramLat)
  else (h, 0)

end CacheHierarchy

/-- Two fully associative caches that forget the least recently used line. -/
structure LruCaches where
  l1 : List U64 := []
  l2 : List U64 := []

/-- The latency of a request as two LRU caches give it. -/
def LruCaches.access : Mealy LruCaches MemReq U32 := fun m r =>
  let line := r.addr >>> 6
  if ¬isMemsem r.op then (m, 0)
  else if r.policy = .uc then (m, c.dramLat)
  else if line ∈ m.l1 then
    ({ m with l1 := Lru.touch line m.l1 }, CacheHierarchy.hitLatency c r)
  else if line ∈ m.l2 then
    (⟨Lru.install c.l1Cap.toNat line m.l1, Lru.touch line m.l2⟩, c.l2Lat)
  else
    (⟨Lru.install c.l1Cap.toNat line m.l1, Lru.install c.l2Cap.toNat line m.l2⟩, c.dramLat)

namespace Level

/-- The lines of a level, the most recent one first. -/
def lines (level : Level) : List U64 := level.order.map snd

/-- Map and list hold the same lines, each once, and an iterator of the map leads to its line. -/
structure Consistent (level : Level) : Prop where
  lines_nodup : level.lines.Nodup
  nodes_nodup : (level.order.map fst).Nodup
  used : ∀ node ∈ level.order, node.1 < level.unused
  stored : ∀ line it, level.map.lookup line = some it ↔ (it, line) ∈ level.order

variable {level : Level} {line : U64} {it : ℕ}

theorem mem_lines : line ∈ level.lines ↔ ∃ it, (it, line) ∈ level.order := by
  simp [lines]

namespace Consistent

section

variable (consistent : level.Consistent)
include consistent

theorem mem_map : line ∈ level.map ↔ line ∈ level.lines := by
  rw [← AList.lookup_isSome, Option.isSome_iff_exists, mem_lines]
  exact exists_congr fun it => consistent.stored line it

theorem keys_perm : level.map.keys.Perm level.lines := by
  refine (perm_ext_iff_of_nodup level.map.keys_nodup consistent.lines_nodup).mpr ?_
  intro line
  rw [← AList.mem_keys, consistent.mem_map]

theorem mem_lines_of_lookup (hit : level.map.lookup line = some it) : line ∈ level.lines :=
  mem_lines.mpr ⟨it, (consistent.stored line it).mp hit⟩

theorem not_mem_lines (missing : level.map.lookup line = none) : line ∉ level.lines := by
  rwa [← consistent.mem_map, ← AList.lookup_eq_none]

-- Only the order of the nodes changes.
theorem of_perm {order : List (ℕ × U64)}
    (perm : order.Perm level.order) : Consistent { level with order } where
  lines_nodup := (perm.map snd).nodup_iff.mpr consistent.lines_nodup
  nodes_nodup := (perm.map fst).nodup_iff.mpr consistent.nodes_nodup
  used node member := consistent.used node (perm.mem_iff.mp member)
  stored line it := (consistent.stored line it).trans perm.mem_iff.symm

end

theorem lruTouch_perm (level : Level) (it : ℕ) : (level.lruTouch it).order.Perm level.order :=
  filter_append_perm (fun n : ℕ × U64 => n.1 == it) level.order

variable (consistent : level.Consistent)
include consistent

theorem lruTouch (it : ℕ) : (level.lruTouch it).Consistent :=
  consistent.of_perm (lruTouch_perm level it)

theorem same_node (hit : (it, line) ∈ level.order)
    {node : ℕ × U64} (member : node ∈ level.order) : node.1 = it ↔ node.2 = line := by
  constructor
  · intro same
    exact congrArg snd (inj_on_of_nodup_map consistent.nodes_nodup member hit same)
  · intro same
    exact congrArg fst (inj_on_of_nodup_map consistent.lines_nodup member hit same)

theorem lines_lruTouch (hit : level.map.lookup line = some it) :
    (level.lruTouch it).lines = Lru.touch line level.lines := by
  have node := (consistent.stored line it).mp hit
  have same : ∀ n ∈ level.order, (n.1 == it) = (n.2 == line) := fun n member => by
    rw [Bool.eq_iff_iff, beq_iff_eq, beq_iff_eq, consistent.same_node node member]
  have front : level.order.filter (·.1 == it) = level.order.filter (·.2 == line) :=
    filter_congr same
  have rest : level.order.filter (·.1 != it) = level.order.filter (·.2 != line) :=
    filter_congr fun n member => congrArg not (same n member)
  have first := Lru.filter_eq_singleton consistent.lines_nodup (mem_lines.mpr ⟨it, node⟩)
  rw [lines, filter_map] at first
  rw [lines, Level.lruTouch, front, rest, map_append, Lru.touch, lines, filter_map]
  exact congrArg (· ++ _) first

theorem pushFront (fresh : line ∉ level.lines) : (level.pushFront line).Consistent where
  lines_nodup := nodup_cons.mpr ⟨fresh, consistent.lines_nodup⟩
  nodes_nodup := by
    refine nodup_cons.mpr ⟨fun reused => ?_, consistent.nodes_nodup⟩
    obtain ⟨node, member, same⟩ := List.mem_map.mp reused
    exact absurd (consistent.used node member) (by rw [same]; exact lt_irrefl _)
  used node member := by
    rcases mem_cons.mp member with rfl | member
    · exact Nat.lt_succ_self _
    · exact Nat.lt_succ_of_lt (consistent.used node member)
  stored other it := by
    by_cases same : other = line
    · subst same
      have absent : (it, other) ∉ level.order := fun member => fresh (mem_lines.mpr ⟨it, member⟩)
      simp [Level.pushFront, absent, eq_comm]
    · simp [Level.pushFront, AList.lookup_insert_ne same, consistent.stored, same]

theorem popBack {order : List (ℕ × U64)} {last : ℕ × U64} (shape : level.order = order ++ [last]) :
    level.popBack.Consistent ∧ level.popBack.lines = level.lines.dropLast := by
  have distinct := consistent.lines_nodup
  rw [lines, shape, map_append, nodup_append] at distinct
  have gone : ∀ it, (it, last.2) ∉ order := fun it member =>
    distinct.2.2 _ (mem_map_of_mem member) _ (by simp) rfl
  have popped : level.popBack = { level with map := level.map.erase last.2, order } := by
    simp [Level.popBack, shape]
  rw [popped]
  refine ⟨⟨distinct.1, ?_, fun node member => consistent.used node ?_, fun line it => ?_⟩, ?_⟩
  · have nodes := consistent.nodes_nodup
    rw [shape, map_append] at nodes
    exact nodes.of_append_left
  · rw [shape]
    exact mem_append_left _ member
  · by_cases same : line = last.2
    · subst same
      simp [gone]
    · have other : (it, line) ≠ last := fun equal => same (congrArg snd equal)
      simp [AList.lookup_erase_ne same, consistent.stored, shape, other]
  · simp [lines, shape]

theorem install {cap : U32} (fresh : line ∉ level.lines) (room : level.lines.length ≤ cap.toNat) :
    (level.install cap line).Consistent ∧
      (level.install cap line).lines = Lru.install cap.toNat line level.lines := by
  have pushed := consistent.pushFront fresh
  have keys : (level.pushFront line).map.keys.length = level.lines.length + 1 :=
    pushed.keys_perm.length_eq
  rw [Level.install, if_neg (consistent.mem_map.not.mpr fresh), keys]
  by_cases fits : level.lines.length < cap.toNat
  · rw [if_neg (by omega)]
    exact ⟨pushed, (Lru.install_of_room fits).symm⟩
  · obtain ⟨order, last, shape⟩ := (eq_nil_or_concat'
      (level.pushFront line).order).resolve_left (cons_ne_nil _ _)
    obtain ⟨popped, remaining⟩ := pushed.popBack shape
    rw [if_pos (by omega)]
    have full : level.lines.length = cap.toNat := by omega
    exact ⟨popped, remaining.trans (Lru.install_of_full full).symm⟩

end Consistent

/-- Consistent, and not above the capacity. -/
structure WithinCapacity (level : Level) (cap : U32) : Prop extends level.Consistent where
  keys : level.map.keys.Perm level.lines
  room : level.lines.length ≤ cap.toNat

namespace WithinCapacity

variable {cap : U32}

theorem lruTouch (sound : level.WithinCapacity cap) (hit : level.map.lookup line = some it) :
    (level.lruTouch it).WithinCapacity cap ∧
      (level.lruTouch it).lines = Lru.touch line level.lines := by
  have kept := sound.toConsistent.lruTouch it
  refine ⟨⟨kept, kept.keys_perm, ?_⟩, sound.toConsistent.lines_lruTouch hit⟩
  rw [lines, ((Consistent.lruTouch_perm level it).map snd).length_eq]
  exact sound.room

theorem install (sound : level.WithinCapacity cap) (missing : level.map.lookup line = none) :
    (level.install cap line).WithinCapacity cap ∧
      (level.install cap line).lines = Lru.install cap.toNat line level.lines := by
  obtain ⟨consistent, same⟩ := sound.toConsistent.install
    (sound.toConsistent.not_mem_lines missing) sound.room
  refine ⟨⟨consistent, consistent.keys_perm, ?_⟩, same⟩
  rw [same]
  exact length_take_le ..

end WithinCapacity

end Level

namespace CacheHierarchy

structure Sound (h : CacheHierarchy) : Prop where
  l1 : h.l1.WithinCapacity c.l1Cap
  l2 : h.l2.WithinCapacity c.l2Cap

/-- The two caches that the hierarchy stands for. -/
def view (h : CacheHierarchy) : LruCaches := ⟨h.l1.lines, h.l2.lines⟩

variable {c} {h : CacheHierarchy}

theorem Sound.consult (sound : Sound c h) (r : MemReq) : Sound c (consult c h r).1 ∧
      ((consult c h r).1.view, (consult c h r).2) = LruCaches.access c h.view r := by
  rw [CacheHierarchy.consult, LruCaches.access]
  by_cases memory : isMemsem r.op
  · rw [if_pos memory, if_neg (not_not.mpr memory)]
    by_cases uncached : r.policy = .uc
    · rw [if_pos uncached, if_pos uncached]
      exact ⟨sound, rfl⟩
    · rw [if_neg uncached, if_neg uncached]
      cases first : h.l1.map.lookup (r.addr >>> 6) with
      | some it1 =>
        obtain ⟨kept, same⟩ := sound.l1.lruTouch first
        have inside : r.addr >>> 6 ∈ h.view.l1 := sound.l1.mem_lines_of_lookup first
        rw [if_pos inside]
        exact ⟨⟨kept, sound.l2⟩, congrArg (fun l => (LruCaches.mk l _, _)) same⟩
      | none =>
        obtain ⟨kept1, same1⟩ := sound.l1.install first
        have outside : r.addr >>> 6 ∉ h.view.l1 := sound.l1.not_mem_lines first
        rw [if_neg outside]
        cases second : h.l2.map.lookup (r.addr >>> 6) with
        | some it2 =>
          obtain ⟨kept2, same2⟩ := sound.l2.lruTouch second
          have inside : r.addr >>> 6 ∈ h.view.l2 := sound.l2.mem_lines_of_lookup second
          rw [if_pos inside]
          exact ⟨⟨kept1, kept2⟩, congrArg₂ (fun l l' => (LruCaches.mk l l', _)) same1 same2⟩
        | none =>
          obtain ⟨kept2, same2⟩ := sound.l2.install second
          have missing : r.addr >>> 6 ∉ h.view.l2 := sound.l2.not_mem_lines second
          rw [if_neg missing]
          exact ⟨⟨kept1, kept2⟩, congrArg₂ (fun l l' => (LruCaches.mk l l', _)) same1 same2⟩
  · rw [if_neg memory, if_pos memory]
    exact ⟨sound, rfl⟩

theorem sound_init : Sound c {} := by
  have level : ∀ cap, ({} : Level).WithinCapacity cap := fun cap =>
    ⟨⟨nodup_nil, nodup_nil, by simp, by simp⟩, Perm.nil, Nat.zero_le _⟩
  exact ⟨level _, level _⟩

/-- Along every sequence of calls both levels stay consistent and within their capacities, and the
latencies are those of two LRU caches. -/
theorem consult_refines (c : Latencies) (requests : List MemReq) :
    Sound c ((consult c).final {} requests) ∧
      ((consult c).final {} requests).view = (LruCaches.access c).final {} requests ∧
      (consult c).trace {} requests = (LruCaches.access c).trace {} requests := by
  have alike : ∀ h m r, Sound c h ∧ h.view = m →
      (Sound c (consult c h r).1 ∧ (consult c h r).1.view = (LruCaches.access c m r).1) ∧
        (consult c h r).2 = (LruCaches.access c m r).2 := by
    rintro h _ r ⟨sound, rfl⟩
    obtain ⟨kept, same⟩ := sound.consult r
    rw [← same]
    exact ⟨⟨kept, rfl⟩, rfl⟩
  obtain ⟨⟨sound, lines⟩, latencies⟩ := Mealy.refines alike ⟨sound_init, rfl⟩ requests
  exact ⟨sound, lines, latencies⟩

end CacheHierarchy

end OpenURMA.Eval
