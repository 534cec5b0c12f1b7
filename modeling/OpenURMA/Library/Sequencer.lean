import Mathlib.Data.List.Infix
import Mathlib.Data.List.Nodup
import Mathlib.Data.Nat.Find
import Mathlib.Logic.Function.Iterate

/-!
# Sequencers with deferral

Numbered items arrive in any order. Free and relaxed items are run at once. A strict item is run
only when the ordered item run last is the one before it; until then it waits in a queue, of which
only the head is looked at.

Strict items are run in order in `Orderly` runs. A run in which every arrival is admitted stays
`Healthy` and can be completed; an arrival that is not admitted leaves a `Stuck` item, which nothing
that follows can set free.
-/

namespace OpenURMA.Library

open List Nat

/-- How an item is ordered against the others. -/
inductive Kind where
  | free
  | relaxed
  | strict
  deriving DecidableEq

structure Sequencer where
  next : ℕ
  waiting : List ℕ
  done : List ℕ
  deriving DecidableEq

namespace Sequencer

def start : Sequencer := ⟨0, [], []⟩

def run (q : Sequencer) (n : ℕ) : Sequencer := ⟨n + 1, q.waiting, q.done ++ [n]⟩

def push (q : Sequencer) (n : ℕ) : Sequencer := { q with waiting := q.waiting ++ [n] }

def release (q : Sequencer) : Sequencer :=
  match q.waiting with
  | [] => q
  | n :: rest => if n = q.next then run { q with waiting := rest } n else q

variable {kind : ℕ → Kind} {q q' : Sequencer} {arrival : Option ℕ} {n t : ℕ}

inductive Step (kind : ℕ → Kind) (q : Sequencer) : Option ℕ → Sequencer → Prop where
  | idle : Step kind q none q
  | chance : Step kind q none q.release
  | free {n : ℕ} : kind n = .free → Step kind q (some n) { q with done := q.done ++ [n] }
  | run {n : ℕ} : kind n = .relaxed ∨ (kind n = .strict ∧ n = q.next) →
      Step kind q (some n) (q.run n)
  | wait {n : ℕ} : kind n = .strict → n ≠ q.next → Step kind q (some n) (q.push n).release

theorem release_cases (q : Sequencer) :
    (∃ rest, q.waiting = q.next :: rest ∧ q.release = run { q with waiting := rest } q.next) ∨
      ((∀ rest, q.waiting ≠ q.next :: rest) ∧ q.release = q) := by
  unfold release
  split
  · next empty => exact .inr ⟨by simp [empty], rfl⟩
  · next n rest shape =>
    split
    · next due => exact .inl ⟨rest, by rw [shape, due], by rw [due]⟩
    · next early =>
      refine .inr ⟨fun other same => early ?_, rfl⟩
      rw [shape] at same
      exact (cons.inj same).1

def InOrder (kind : ℕ → Kind) (done : List ℕ) : Prop :=
  ∀ before n after, done = before ++ n :: after → kind n = .strict →
    ∀ u < n, kind u ≠ .free → u ∈ before

theorem inOrder_nil : InOrder kind [] := by
  intro before n after split
  simp at split

theorem InOrder.snoc {done : List ℕ} (ordered : InOrder kind done)
    (below : kind n = .strict → ∀ u < n, kind u ≠ .free → u ∈ done) :
    InOrder kind (done ++ [n]) := by
  intro before m after split strict
  rcases eq_nil_or_concat after with rfl | ⟨after, last, rfl⟩
  · have last := append_inj' split rfl
    rw [cons.injEq] at last
    obtain ⟨rfl, rfl, -⟩ := last
    exact below strict
  · rw [concat_eq_append, ← cons_append, ← append_assoc] at split
    exact ordered before m after (append_inj' split rfl).1 strict

/-- The run has been in order, and a strict item that comes next may be run. -/
structure Orderly (kind : ℕ → Kind) (q : Sequencer) : Prop where
  inOrder : InOrder kind q.done
  below : kind q.next = .strict → ∀ u < q.next, kind u ≠ .free → u ∈ q.done

/-- A relaxed item is run with all ordered items below it done, unless no strict item follows. -/
def Cautious (kind : ℕ → Kind) (q : Sequencer) (n : ℕ) : Prop :=
  kind n = .relaxed → kind (n + 1) = .strict → ∀ u < n, kind u ≠ .free → u ∈ q.done

theorem orderly_start : Orderly kind start :=
  ⟨inOrder_nil, fun _ u below => absurd below (not_lt_zero u)⟩

namespace Orderly

theorem run (orderly : Orderly kind q)
    (may : kind n = .relaxed ∨ (kind n = .strict ∧ n = q.next)) (cautious : Cautious kind q n) :
    Orderly kind (q.run n) := by
  have below : kind n = .strict → ∀ u < n, kind u ≠ .free → u ∈ q.done := by
    intro strict
    rcases may with relaxed | ⟨-, rfl⟩
    · rw [relaxed] at strict
      cases strict
    · exact orderly.below strict
  refine ⟨orderly.inOrder.snoc below, fun strict u under ordered => ?_⟩
  rcases Nat.lt_succ_iff_lt_or_eq.mp under with less | rfl
  · refine mem_append_left _ ?_
    rcases may with relaxed | ⟨strict, -⟩
    · exact cautious relaxed strict u less ordered
    · exact below strict u less ordered
  · exact mem_append_right _ (mem_singleton_self u)

theorem release (orderly : Orderly kind q) (strict : ∀ n ∈ q.waiting, kind n = .strict) :
    Orderly kind q.release := by
  rcases release_cases q with ⟨rest, shape, result⟩ | ⟨-, result⟩
  · rw [result]
    have due := strict q.next (by simp [shape])
    have inner : Orderly kind { q with waiting := rest } := ⟨orderly.inOrder, orderly.below⟩
    refine inner.run (.inr ⟨due, rfl⟩) fun relaxed => ?_
    rw [due] at relaxed
    cases relaxed
  · rwa [result]

theorem step (orderly : Orderly kind q) (strict : ∀ n ∈ q.waiting, kind n = .strict)
    (moves : Step kind q arrival q') (cautious : ∀ n ∈ arrival, Cautious kind q n) :
    Orderly kind q' := by
  cases moves with
  | idle => exact orderly
  | chance => exact orderly.release strict
  | @free n free =>
    refine ⟨orderly.inOrder.snoc fun strict => ?_, fun due u under ordered => ?_⟩
    · rw [free] at strict
      cases strict
    · exact mem_append_left _ (orderly.below due u under ordered)
  | run may => exact orderly.run may (cautious _ rfl)
  | @wait n isStrict _ =>
    have pushed : Orderly kind (q.push n) := ⟨orderly.inOrder, orderly.below⟩
    exact pushed.release (forall_mem_append.mpr ⟨strict, forall_mem_singleton.mpr isStrict⟩)

end Orderly

/-- What holds in every run in which no item arrives twice. -/
structure Sane (kind : ℕ → Kind) (q : Sequencer) : Prop where
  nodup : (q.done ++ q.waiting).Nodup
  strict : ∀ n ∈ q.waiting, kind n = .strict
  last : ∀ u, q.next = u + 1 → u ∈ q.done
  preceded : ∀ u, u + 1 ∈ q.done → kind (u + 1) = .strict → u ∈ q.done
  due : kind q.next = .strict → q.next ∉ q.done

theorem sane_start : Sane kind start where
  nodup := nodup_nil
  strict _ member := absurd member not_mem_nil
  last _ next := absurd next (succ_ne_zero _).symm
  preceded _ member := absurd member not_mem_nil
  due _ := not_mem_nil

namespace Sane

variable (sane : Sane kind q)
include sane

theorem disjoint (waits : n ∈ q.waiting) : n ∉ q.done := fun done =>
  (nodup_append.mp sane.nodup).2.2 n done n waits rfl

theorem push (new : n ∉ q.done ++ q.waiting) (strict : kind n = .strict) :
    Sane kind (q.push n) where
  nodup := by
    change (q.done ++ (q.waiting ++ [n])).Nodup
    rw [← append_assoc]
    exact nodup_append.mpr ⟨sane.nodup, nodup_singleton n, fun a member b single same =>
      new (mem_singleton.mp single ▸ same ▸ member)⟩
  strict := forall_mem_append.mpr ⟨sane.strict, forall_mem_singleton.mpr strict⟩
  last := sane.last
  preceded := sane.preceded
  due := sane.due

theorem nodup_done (new : n ∉ q.done ++ q.waiting) : ((q.done ++ [n]) ++ q.waiting).Nodup := by
  have moved : ((q.done ++ [n]) ++ q.waiting).Perm (n :: (q.done ++ q.waiting)) := by
    rw [append_assoc]
    exact perm_middle
  exact moved.nodup_iff.mpr (nodup_cons.mpr ⟨new, sane.nodup⟩)

theorem run (new : n ∉ q.done ++ q.waiting) (may : kind n = .strict → n = q.next) :
    Sane kind (q.run n) where
  nodup := sane.nodup_done new
  strict := sane.strict
  last u next := by
    rw [← Nat.succ.inj next]
    exact mem_append_right _ (mem_singleton_self n)
  preceded u member strict := by
    refine mem_append_left _ ?_
    rcases mem_append.mp member with old | single
    · exact sane.preceded u old strict
    · have same := mem_singleton.mp single
      exact sane.last u (may (same ▸ strict) ▸ same.symm)
  due strict member := by
    rcases mem_append.mp member with old | single
    · exact new (mem_append_left _ (sane.preceded n old strict))
    · exact absurd (mem_singleton.mp single) (succ_ne_self n)

theorem free (new : n ∉ q.done ++ q.waiting) (isFree : kind n = .free) :
    Sane kind { q with done := q.done ++ [n] } where
  nodup := sane.nodup_done new
  strict := sane.strict
  last u next := mem_append_left _ (sane.last u next)
  preceded u member strict := by
    refine mem_append_left _ ?_
    rcases mem_append.mp member with old | single
    · exact sane.preceded u old strict
    · rw [mem_singleton.mp single, isFree] at strict
      cases strict
  due strict member := by
    rcases mem_append.mp member with old | single
    · exact sane.due strict old
    · change kind q.next = .strict at strict
      rw [mem_singleton.mp single, isFree] at strict
      cases strict

theorem tail {rest : List ℕ} (shape : q.waiting = n :: rest) :
    Sane kind { q with waiting := rest } ∧ n ∉ q.done ++ rest := by
  have moved : (q.done ++ q.waiting).Perm (n :: (q.done ++ rest)) := by
    rw [shape]
    exact perm_middle
  have nodup := nodup_cons.mp (moved.nodup_iff.mp sane.nodup)
  refine ⟨⟨nodup.2, fun m member => ?_, sane.last, sane.preceded, sane.due⟩, nodup.1⟩
  exact sane.strict m (shape ▸ mem_cons_of_mem n member)

theorem release : Sane kind q.release := by
  rcases release_cases q with ⟨rest, shape, result⟩ | ⟨-, result⟩
  · rw [result]
    have parts := sane.tail shape
    exact parts.1.run parts.2 fun _ => rfl
  · rwa [result]

theorem step (moves : Step kind q arrival q') (new : ∀ n ∈ arrival, n ∉ q.done ++ q.waiting) :
    Sane kind q' := by
  cases moves with
  | idle => exact sane
  | chance => exact sane.release
  | free isFree => exact sane.free (new _ rfl) isFree
  | run may =>
    refine sane.run (new _ rfl) fun strict => ?_
    rcases may with relaxed | ⟨-, due⟩
    · rw [relaxed] at strict
      cases strict
    · exact due
  | wait strict _ => exact (sane.push (new _ rfl) strict).release

end Sane

/-- After the arrival every item can still be run: a relaxed item takes no strict item's turn, the
successor of one that is run waits behind nobody, and one that has to wait joins neither behind its
successor nor apart from its predecessor. -/
structure Admits (kind : ℕ → Kind) (limit : ℕ) (q : Sequencer) (n : ℕ) : Prop where
  relaxed : kind n = .relaxed → q.next < limit → kind q.next ≠ .strict
  runs : kind n = .relaxed ∨ (kind n = .strict ∧ n = q.next) → n + 1 ∈ q.waiting →
    q.waiting.head? = some (n + 1)
  waits : kind n = .strict → n ≠ q.next → n + 1 ∉ q.waiting ∧
    ∀ m ∈ q.waiting, m + 1 = n → q.waiting.getLast? = some m

instance (limit : ℕ) (q : Sequencer) (n : ℕ) : Decidable (Admits kind limit q n) :=
  decidable_of_iff
    ((kind n = .relaxed → q.next < limit → kind q.next ≠ .strict) ∧
      (kind n = .relaxed ∨ (kind n = .strict ∧ n = q.next) → n + 1 ∈ q.waiting →
        q.waiting.head? = some (n + 1)) ∧
      (kind n = .strict → n ≠ q.next → n + 1 ∉ q.waiting ∧
        ∀ m ∈ q.waiting, m + 1 = n → q.waiting.getLast? = some m))
    ⟨fun all => ⟨all.1, all.2.1, all.2.2⟩,
      fun admits => ⟨admits.relaxed, admits.runs, admits.waits⟩⟩

/-- Every item below the limit can still be run. -/
structure Healthy (kind : ℕ → Kind) (limit : ℕ) (q : Sequencer) : Prop where
  head : q.next ∈ q.waiting → q.waiting.head? = some q.next
  adjacent : ∀ n ∈ q.waiting, n + 1 ∈ q.waiting → [n, n + 1] <:+: q.waiting
  ready : ∀ n < limit, kind n = .strict → n ∉ q.done →
    n = q.next ∨ ∃ u, n = u + 1 ∧ kind u ≠ .free ∧ u ∉ q.done

variable {limit : ℕ}

theorem healthy_start (apart : ∀ u, u + 1 < limit → kind (u + 1) = .strict → kind u ≠ .free) :
    Healthy kind limit start where
  head member := absurd member not_mem_nil
  adjacent n member := absurd member not_mem_nil
  ready n under strict _ := by
    cases n with
    | zero => exact .inl rfl
    | succ u => exact .inr ⟨u, rfl, apart u under strict, not_mem_nil⟩

namespace Healthy

variable (healthy : Healthy kind limit q)
include healthy

theorem run (turn : kind q.next = .strict → q.next < limit → n = q.next)
    (head : n + 1 ∈ q.waiting → q.waiting.head? = some (n + 1)) :
    Healthy kind limit (q.run n) where
  head := head
  adjacent := healthy.adjacent
  ready m under strict new := by
    have old : m ∉ q.done := fun done => new (mem_append_left _ done)
    have other : m ≠ n := fun same =>
      new (mem_append_right _ (mem_singleton.mpr same))
    rcases healthy.ready m under strict old with rfl | ⟨u, rfl, ordered, undone⟩
    · exact absurd (turn strict under).symm other
    · by_cases same : u = n
      · exact .inl (by rw [same]; rfl)
      · refine .inr ⟨u, rfl, ordered, fun done => ?_⟩
        rcases mem_append.mp done with done | single
        · exact undone done
        · exact same (mem_singleton.mp single)

theorem free (isFree : kind n = .free) : Healthy kind limit { q with done := q.done ++ [n] } where
  head := healthy.head
  adjacent := healthy.adjacent
  ready m under strict new := by
    have old : m ∉ q.done := fun done => new (mem_append_left _ done)
    rcases healthy.ready m under strict old with due | ⟨u, rfl, ordered, undone⟩
    · exact .inl due
    · refine .inr ⟨u, rfl, ordered, fun done => ?_⟩
      rcases mem_append.mp done with done | single
      · exact undone done
      · rw [mem_singleton.mp single] at ordered
        exact ordered isFree

theorem push (early : n ≠ q.next) (successor : n + 1 ∉ q.waiting)
    (predecessor : ∀ m ∈ q.waiting, m + 1 = n → q.waiting.getLast? = some m) :
    Healthy kind limit (q.push n) where
  head member := by
    rcases mem_append.mp member with old | single
    · change (q.waiting ++ [n]).head? = _
      rw [head?_append, healthy.head old]
      rfl
    · exact absurd (mem_singleton.mp single).symm early
  adjacent m member above := by
    change [m, m + 1] <:+: q.waiting ++ [n]
    rcases mem_append.mp above with old | single
    · rcases mem_append.mp member with low | single
      · exact (healthy.adjacent m low old).trans (prefix_append _ _).isInfix
      · rw [mem_singleton.mp single] at old
        exact absurd old successor
    · have same := mem_singleton.mp single
      have low : m ∈ q.waiting := by
        rcases mem_append.mp member with low | single
        · exact low
        · have := mem_singleton.mp single
          omega
      obtain ⟨front, shape⟩ := getLast?_eq_some_iff.mp (predecessor m low same)
      rw [shape, same]
      exact ⟨front, [], by simp⟩
  ready := healthy.ready

variable (sane : Sane kind q)
include sane

theorem release : Healthy kind limit q.release := by
  rcases release_cases q with ⟨rest, shape, result⟩ | ⟨-, result⟩
  · rw [result]
    have absent : q.next ∉ rest := fun member =>
      (sane.tail shape).2 (mem_append_right _ member)
    have inner : Healthy kind limit { q with waiting := rest } := by
      refine ⟨fun member => absurd member absent, fun n low high => ?_, healthy.ready⟩
      have adjacent := healthy.adjacent n (shape ▸ mem_cons_of_mem _ low)
        (shape ▸ mem_cons_of_mem _ high)
      rw [shape, infix_cons_iff] at adjacent
      rcases adjacent with atHead | inside
      · have same := (cons_prefix_cons.mp atHead).1
        exact absurd (same ▸ low) absent
      · exact inside
    refine inner.run (fun _ _ => rfl) fun member => ?_
    have adjacent := healthy.adjacent q.next (by simp [shape])
      (shape ▸ mem_cons_of_mem _ member)
    rw [shape, infix_cons_iff] at adjacent
    rcases adjacent with atHead | inside
    · obtain ⟨-, ⟨others, rest⟩⟩ := cons_prefix_cons.mp atHead
      rw [← rest]
      rfl
    · exact absurd (inside.subset mem_cons_self) absent
  · rwa [result]

theorem step (moves : Step kind q arrival q')
    (new : ∀ n ∈ arrival, n ∉ q.done ++ q.waiting) (admits : ∀ n ∈ arrival, Admits kind limit q n) :
    Healthy kind limit q' := by
  cases moves with
  | idle => exact healthy
  | chance => exact healthy.release sane
  | free isFree => exact healthy.free isFree
  | run may =>
    have admitted := admits _ rfl
    refine healthy.run (fun strict under => ?_) (admitted.runs may)
    rcases may with relaxed | ⟨-, due⟩
    · exact absurd strict (admitted.relaxed relaxed under)
    · exact due
  | wait strict early =>
    have admitted := (admits _ rfl).waits strict early
    exact (healthy.push early admitted.1 admitted.2).release (sane.push (new _ rfl) strict)

theorem due (arrived : ∀ n < limit, n ∈ q.done ++ q.waiting)
    (inside : ∀ n ∈ q.waiting, n < limit) (some : q.waiting ≠ []) :
    ∃ rest, q.waiting = q.next :: rest := by
  have exists_waiting : ∃ n, n ∈ q.waiting := exists_mem_of_ne_nil _ some
  classical
  let low := Nat.find exists_waiting
  have member : low ∈ q.waiting := Nat.find_spec exists_waiting
  rcases healthy.ready low (inside low member) (sane.strict low member) (sane.disjoint member) with
    same | ⟨u, below, -, undone⟩
  · have atHead := healthy.head (same ▸ member)
    exact ⟨_, (cons_head?_tail atHead).symm⟩
  · have present : u ∈ q.waiting :=
      (mem_append.mp (arrived u (by have := inside low member; omega))).resolve_left undone
    exact absurd present (Nat.find_min exists_waiting (show u < low by omega))

theorem settles (arrived : ∀ n < limit, n ∈ q.done ++ q.waiting)
    (inside : ∀ n ∈ q.waiting, n < limit) : ∃ k, (Sequencer.release^[k] q).waiting = [] := by
  induction size : q.waiting.length generalizing q with
  | zero => exact ⟨0, length_eq_zero_iff.mp size⟩
  | succ count ih =>
    have some : q.waiting ≠ [] := fun none => by simp [none] at size
    obtain ⟨rest, shape⟩ := healthy.due sane arrived inside some
    have result : q.release = Sequencer.run { q with waiting := rest } q.next := by
      simp [Sequencer.release, shape]
    have waiting : q.release.waiting = rest := by rw [result]; rfl
    have done : q.release.done = q.done ++ [q.next] := by rw [result]; rfl
    have stillArrived : ∀ n < limit, n ∈ q.release.done ++ q.release.waiting := by
      intro n under
      rw [waiting, done]
      simpa [shape, or_assoc] using arrived n under
    have stillInside : ∀ n ∈ q.release.waiting, n < limit := by
      intro n member
      rw [waiting] at member
      exact inside n (shape ▸ mem_cons_of_mem _ member)
    have smaller : q.release.waiting.length = count := by
      simpa [waiting, shape] using size
    obtain ⟨k, settled⟩ := ih (healthy.release sane) sane.release stillArrived stillInside smaller
    exact ⟨k + 1, settled⟩

end Healthy

/-- The strict item `t` is never run: its turn has passed; or others wait before it in its turn; or
it waits before its predecessor, or behind it with others between. -/
inductive Stuck (kind : ℕ → Kind) (q : Sequencer) (t : ℕ) : Prop where
  | stale : t ≠ q.next → (∀ u, t = u + 1 → u ∈ q.done ∨ kind u = .free) → t ∉ q.done →
      Stuck kind q t
  | blocked (head : ℕ) (rest : List ℕ) : q.next = t → q.waiting = head :: rest → t ∈ rest →
      Stuck kind q t
  | crossed (u : ℕ) (first second : List ℕ) : t = u + 1 → q.waiting = first ++ t :: second →
      u ∈ second → Stuck kind q t
  | parted (u : ℕ) (first between second : List ℕ) : t = u + 1 → between ≠ [] →
      q.waiting = first ++ u :: (between ++ t :: second) → Stuck kind q t

namespace Stuck

variable (stuck : Stuck kind q t)
include stuck

theorem not_done (sane : Sane kind q) : t ∉ q.done := by
  cases stuck with
  | stale _ _ undone => exact undone
  | blocked _ _ _ shape member => exact sane.disjoint (shape ▸ mem_cons_of_mem _ member)
  | crossed _ _ _ _ shape _ => exact sane.disjoint (by simp [shape])
  | parted _ _ _ _ _ _ shape => exact sane.disjoint (by simp [shape])

theorem run (sane : Sane kind q) (new : n ∉ q.done ++ q.waiting) (ordered : kind n ≠ .free)
    (other : n ≠ t) : Stuck kind (q.run n) t := by
  have later : ∀ u, u ∈ q.done → u ∈ (q.run n).done := fun u => mem_append_left _
  have undone : t ∉ (q.run n).done := by
    intro done
    rcases mem_append.mp done with old | single
    · exact stuck.not_done sane old
    · exact other (mem_singleton.mp single).symm
  cases stuck with
  | stale _ settled _ =>
    refine .stale (fun turn => ?_) (fun u below => ?_) undone
    · rcases settled n turn with done | free
      · exact new (mem_append_left _ done)
      · exact ordered free
    · exact (settled u below).imp_left (later u)
  | blocked _ _ turn _ _ =>
    refine .stale (fun again => ?_) (fun u below => .inl (later u ?_)) undone
    · exact new (mem_append_left _ (sane.last n (turn.trans again)))
    · exact sane.last u (turn.trans below)
  | crossed _ _ _ below shape member => exact .crossed _ _ _ below shape member
  | parted _ _ _ _ below some shape => exact .parted _ _ _ _ below some shape

theorem free (strict : kind t = .strict) (isFree : kind n = .free) :
    Stuck kind { q with done := q.done ++ [n] } t := by
  cases stuck with
  | stale early settled undone =>
    refine .stale early (fun u below => (settled u below).imp_left (mem_append_left _)) ?_
    intro done
    rcases mem_append.mp done with old | single
    · exact undone old
    · rw [mem_singleton.mp single, isFree] at strict
      cases strict
  | blocked _ _ turn shape member => exact .blocked _ _ turn shape member
  | crossed _ _ _ below shape member => exact .crossed _ _ _ below shape member
  | parted _ _ _ _ below some shape => exact .parted _ _ _ _ below some shape

theorem push (n : ℕ) : Stuck kind (q.push n) t := by
  cases stuck with
  | stale early settled undone => exact .stale early settled undone
  | blocked head rest turn shape member =>
    refine .blocked head (rest ++ [n]) turn ?_ (mem_append_left _ member)
    rw [Sequencer.push, shape]
    rfl
  | crossed u first second below shape member =>
    refine .crossed u first (second ++ [n]) below ?_ (mem_append_left _ member)
    simp [Sequencer.push, shape]
  | parted u first between second below some shape =>
    refine .parted u first between (second ++ [n]) below some ?_
    simp [Sequencer.push, shape]

theorem release (sane : Sane kind q) : Stuck kind q.release t := by
  rcases release_cases q with ⟨rest, waiting, result⟩ | ⟨-, result⟩
  · rw [result]
    have parts := sane.tail waiting
    have ordered : kind q.next ≠ .free := by
      rw [sane.strict q.next (by simp [waiting])]
      exact Kind.noConfusion
    cases stuck with
    | stale early settled undone =>
      have inner : Stuck kind { q with waiting := rest } t := .stale early settled undone
      exact inner.run parts.1 parts.2 ordered early.symm
    | blocked head others turn shape member =>
      rw [waiting, cons.injEq] at shape
      exact absurd (mem_append_right _ (shape.2 ▸ turn ▸ member)) parts.2
    | crossed u first second below shape member =>
      cases first with
      | nil =>
        -- `t` is at the head and it is its turn, so its predecessor cannot be waiting
        rw [waiting, nil_append, cons.injEq] at shape
        have done := sane.last u (shape.1.trans below)
        have waits : u ∈ q.waiting := waiting ▸ mem_cons_of_mem _ (shape.2 ▸ member)
        exact absurd done (sane.disjoint waits)
      | cons head first =>
        rw [waiting, cons_append, cons.injEq] at shape
        exact .crossed u first second below shape.2 member
    | parted u first between second below some shape =>
      cases first with
      | nil =>
        rw [waiting, nil_append, cons.injEq] at shape
        obtain ⟨head, others, rfl⟩ := exists_cons_of_ne_nil some
        refine .blocked head (others ++ t :: second) ?_ shape.2 (by simp)
        rw [below, ← shape.1]
        rfl
      | cons head first =>
        rw [waiting, cons_append, cons.injEq] at shape
        exact .parted u first between second below some shape.2
  · rwa [result]

theorem step (sane : Sane kind q) (strict : kind t = .strict) (moves : Step kind q arrival q')
    (new : ∀ n ∈ arrival, n ∉ q.done ++ q.waiting) :
    Stuck kind q' t := by
  cases moves with
  | idle => exact stuck
  | chance => exact stuck.release sane
  | free isFree => exact stuck.free strict isFree
  | @run n may =>
    have ordered : kind n ≠ .free := by
      rcases may with relaxed | ⟨strict, -⟩
      · simp [relaxed]
      · simp [strict]
    refine stuck.run sane (new n rfl) ordered ?_
    rintro rfl
    -- a stuck item is strict, waits already or has missed its turn
    rcases may with relaxed | ⟨-, due⟩
    · rw [relaxed] at strict
      cases strict
    · have absent : n ∉ q.waiting := fun waits => new n rfl (mem_append_right _ waits)
      cases stuck with
      | stale early _ _ => exact early due
      | blocked _ _ _ shape member => exact absent (shape ▸ mem_cons_of_mem _ member)
      | crossed _ _ _ _ shape _ => exact absent (by simp [shape])
      | parted _ _ _ _ _ _ shape => exact absent (by simp [shape])
  | wait isStrict _ => exact (stuck.push _).release (sane.push (new _ rfl) isStrict)

end Stuck

theorem stuck_of_not_admits (sane : Sane kind q) (new : n ∉ q.done ++ q.waiting)
    (moves : Step kind q (some n) q') (inside : ∀ m ∈ q.waiting, m < limit) (under : n < limit)
    (refused : ¬ Admits kind limit q n) : ∃ t < limit, kind t = .strict ∧ Stuck kind q' t := by
  by_contra none
  push Not at none
  refine refused ⟨fun relaxed below strict => ?_, fun may member => ?_, fun strict early => ?_⟩
  · cases moves with
    | free isFree => simp [relaxed] at isFree
    | wait isStrict _ => simp [relaxed] at isStrict
    | run _ =>
      refine none q.next below strict (.stale (fun again => ?_) (fun u last => .inl ?_) ?_)
      · exact new (mem_append_left _ (sane.last n again))
      · exact mem_append_left _ (sane.last u last)
      · intro done
        rcases mem_append.mp done with old | single
        · exact sane.due strict old
        · rw [mem_singleton.mp single, relaxed] at strict
          cases strict
  · cases moves with
    | free isFree => simp [isFree] at may
    | wait isStrict early => simp [isStrict, early] at may
    | run _ =>
      by_contra behind
      cases shape : q.waiting with
      | nil => simp [shape] at member
      | cons head rest =>
        rw [shape, mem_cons] at member
        rw [shape, head?_cons, Option.some.injEq] at behind
        have member := member.resolve_left (Ne.symm behind)
        have waits : n + 1 ∈ q.waiting := shape ▸ mem_cons_of_mem _ member
        exact none (n + 1) (inside _ waits) (sane.strict _ waits)
          (.blocked head rest rfl shape member)
  · cases moves with
    | free isFree => simp [strict] at isFree
    | run may => simp [strict, early] at may
    | wait _ _ =>
      have pushed := sane.push new strict
      refine ⟨fun member => ?_, fun m member below => ?_⟩
      · obtain ⟨first, second, shape⟩ := append_of_mem member
        have crossed : Stuck kind (q.push n) (n + 1) :=
          .crossed n first (second ++ [n]) rfl (by simp [push, shape]) (by simp)
        exact none _ (inside _ member) (sane.strict _ member) (crossed.release pushed)
      · by_contra notLast
        obtain ⟨first, second, shape⟩ := append_of_mem member
        have between : second ≠ [] := by
          rintro rfl
          simp [shape] at notLast
        have parted : Stuck kind (q.push n) n :=
          .parted m first second [] below.symm between (by simp [push, shape])
        exact none _ under strict (parted.release pushed)

end Sequencer

end OpenURMA.Library
