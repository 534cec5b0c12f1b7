import OpenURMA.Ordering.RotTransactions

/-!
# Completion in the service mode ROT

The register holds the TASSN executed last and not the lowest one missing, and only the head of the
queue is looked at; some arrival orders therefore leave transactions deferred for ever. These orders
are characterised exactly, by what each transaction finds when it arrives.
-/

namespace OpenURMA.OrderTrackerTarget

open Library Sequencer List Option
open Prod (fst snd)

/-- The transactions 0 to n - 1 of an initiator arrive once each, in any order, among any flits
of theirs and calls without input. -/
structure Arrive (r : U32) (kind : ℕ → Kind) (n : ℕ) (inputs : List (Option Txn)) : Prop where
  only : ∀ x, some x ∈ inputs → x.1.sop = true → isTxn r x = true
  genuine : ∀ x, some x ∈ inputs → isTxn r x = true → Genuine kind x
  all : (numbers r inputs.reduceOption).Perm (range n)

/-- Some number of calls without input completes the run: the metadata flits of the initiator
have all been sent, each once, and nothing is deferred. -/
def Completes (r : U32) (memory : Fin 16 → Fin 8 → PendingTxn Flit)
    (inputs : List (Option Flit)) : Prop :=
  ∃ k, ((Ports.sent 1 ((step id).trace (init memory) (inputs ++ replicate k none))).filter
      (isMeta r)).Perm (inputs.reduceOption.filter (isMeta r)) ∧
    (((step id).final (init memory) (inputs ++ replicate k none)).ini
      (iniSlot r)).queue.Empty

/-- The transaction that arrives can be admitted, with the numbers compared less than 2^16
apart. -/
def Admitted (r : U32) (kind : ℕ → Kind) (n : ℕ) (h : Recorded) (input : Option Txn) : Prop :=
  ∀ x ∈ input, isTxn r x = true →
    (x.kind ≠ .free → Near (h.sequencer r) x.2) ∧ (h.sequencer r).Admits kind n x.2
deriving Decidable

def Linked (kind : ℕ → Kind) (n : ℕ) : Prop :=
  ∀ u, u + 1 < n → kind (u + 1) = .strict → kind u ≠ .free

variable {r : U32} {kind : ℕ → Kind} {n : ℕ} {h : Recorded} {input : Option Txn}
variable {inputs : List (Option Txn)} {total : List Txn}

/-- A run under way: the transactions sent, deferred and still to come are all of them. -/
structure UnderWay (r : U32) (kind : ℕ → Kind) (total : List Txn) (h : Recorded)
    (inputs : List (Option Txn)) : Prop where
  onTrack : OnTrack r kind h
  sane : (h.sequencer r).Sane kind
  account : (h.owned r ++ txns r inputs.reduceOption).Perm total
  only : ∀ x, some x ∈ inputs → x.1.sop = true → isTxn r x = true
  genuine : ∀ x, some x ∈ inputs → isTxn r x = true → Genuine kind x

theorem txns_cons (r : U32) (input : Option Txn) (inputs : List (Option Txn)) :
    txns r (input :: inputs).reduceOption = txns r input.toList ++ txns r inputs.reduceOption := by
  cases input with
  | none => rw [reduceOption_cons_of_none]; rfl
  | some x => rw [reduceOption_cons_of_some, txns, txns, txns, ← filter_append]; rfl

namespace UnderWay

variable (all : (total.map snd).Perm (range n))
include all

theorem numbers_perm (underWay : UnderWay r kind total h inputs) :
    ((h.sequencer r).done ++ (h.sequencer r).waiting ++
      (txns r inputs.reduceOption).map snd).Perm (range n) := by
  rw [← map_owned, ← map_append]
  exact (underWay.account.map _).trans all

theorem arrived_iff (underWay : UnderWay r kind total h []) (m : ℕ) :
    m ∈ (h.sequencer r).done ++ (h.sequencer r).waiting ↔ m < n := by
  have perm := underWay.numbers_perm all
  rw [show txns r ([] : List (Option Txn)).reduceOption = [] from rfl, map_nil,
    append_nil] at perm
  rw [perm.mem_iff, mem_range]

theorem lt_of_mem (underWay : UnderWay r kind total h inputs) {m : ℕ}
    (member : m ∈ (h.sequencer r).done ++ (h.sequencer r).waiting) : m < n :=
  mem_range.mp ((underWay.numbers_perm all).subset (mem_append_left _ member))

theorem next_le (underWay : UnderWay r kind total h inputs) : (h.sequencer r).next ≤ n := by
  cases next : (h.sequencer r).next with
  | zero => exact Nat.zero_le n
  | succ u =>
    exact underWay.lt_of_mem all (mem_append_left _ (underWay.sane.last u next))

variable (underWay : UnderWay r kind total h (input :: inputs))
include underWay

theorem arrives {m : ℕ} (arrival : m ∈ arrivalOf r input) :
    m ∉ (h.sequencer r).done ++ (h.sequencer r).waiting ∧ m < n := by
  have perm := underWay.numbers_perm all
  have here : m ∈ (txns r (input :: inputs).reduceOption).map snd := by
    obtain ⟨x, rfl, own, rfl⟩ := mem_of_arrivalOf arrival
    rw [txns_cons]
    exact mem_map_of_mem (mem_append_left _ (by simp [txns, own]))
  have nodup := nodup_append.mp (perm.nodup_iff.mpr nodup_range)
  refine ⟨fun member => nodup.2.2 m member m here rfl, ?_⟩
  exact mem_range.mp (perm.subset (mem_append_right _ here))

theorem near_of_few (few : n < 2 ^ 16) {m : ℕ} (arrival : m ∈ arrivalOf r input) :
    Near (h.sequencer r) m := by
  have under := (underWay.arrives all arrival).2
  have next := underWay.next_le all
  refine ⟨⟨by omega, by omega⟩, fun j waits => ?_⟩
  have := underWay.lt_of_mem all (mem_append_right _ waits)
  omega

theorem record (room : ¬ Overflows r h input)
    (near : ∀ x ∈ input, isTxn r x = true → x.kind ≠ .free → Near (h.sequencer r) x.2) :
    UnderWay r kind total (record h input) inputs ∧
      Step kind (h.sequencer r) (arrivalOf r input) ((record h input).sequencer r) := by
  have listed : ∀ x ∈ input, some x ∈ input :: inputs := fun x member => by
    simp [mem_def.mp member]
  have fits : Fits r (h.sequencer r) input := by
    refine ⟨fun x member rot _ _ => underWay.only x (listed x member) ?_, near⟩
    rw [isRot, Bool.and_eq_true] at rot
    exact rot.1
  have call := underWay.onTrack.record (fun x member => underWay.genuine x (listed x member)) fits
  rcases call with ⟨onTrack, ⟨step, account⟩ | ⟨overflows, -⟩⟩
  · refine ⟨⟨onTrack, ?_, ?_, ?_, ?_⟩, step⟩
    · exact underWay.sane.step step fun m arrival => (underWay.arrives all arrival).1
    · have whole := underWay.account
      rw [txns_cons, ← append_assoc] at whole
      exact (account.append_right _).trans whole
    · exact fun x member => underWay.only x (mem_cons_of_mem _ member)
    · exact fun x member => underWay.genuine x (mem_cons_of_mem _ member)
  · exact absurd overflows room

end UnderWay

/-- The initiator's slot is the one that is drained, or it defers nothing. -/
def Aimed (r : U32) (h : Recorded) : Prop :=
  h.1.curIdx = some (iniSlot r) ∨ (h.sequencer r).waiting = []

section

variable {a a' : Tracker Txn} {out : Option Txn}

theorem current_release (a : Tracker Txn) : (a.release fst).1.current = a.current := by
  rw [Tracker.release]
  split
  · rfl
  · next idx here => exact here.symm

theorem current_arrive (a : Tracker Txn) (x : Txn) :
    (a.arrive fst x).1.current = some (metaSlot x.1) := by
  rw [Tracker.arrive]
  cases ((a.slots (metaSlot x.1)).execute fst x).2 with
  | some y => rfl
  | none => exact current_release _

theorem aimed_of_moves (only : ∀ x ∈ input, x.1.sop = true → isTxn r x = true)
    (moves : a.Moves fst input a' out)
    (aimed : a.current = some (iniSlot r) ∨ (a.slots (iniSlot r)).deferred = []) :
    a'.current = some (iniSlot r) ∨ (a'.slots (iniSlot r)).deferred = [] := by
  cases moves with
  | @other x sop notRot =>
    have own := only x rfl sop
    rw [(isRot_of_isTxn own).1] at notRot
    cases notRot
  | inner => exact aimed
  | quiet =>
    rw [current_release]
    refine aimed.imp_right fun none => ?_
    rw [eq_nil_iff_forall_not_mem] at none ⊢
    intro x member
    rw [Tracker.release] at member
    split at member
    · exact none x member
    · next idx _ =>
      by_cases same : iniSlot r = idx
      · subst same
        rw [Tracker.slots_put, Function.update_self] at member
        exact none x ((mem_of_release _).1 x member)
      · rw [sequencer_put_other same] at member
        exact none x member
  | @arrive x rot =>
    rw [current_arrive]
    have sop : x.1.sop = true := by
      rw [isRot, Bool.and_eq_true] at rot
      exact rot.1
    exact .inl (congrArg some (isRot_of_isTxn (only x rfl sop)).2)

theorem aimed_iff {h : Recorded} (stands : h.1.StandsFor fst a) :
    Aimed r h ↔ a.current = some (iniSlot r) ∨ (a.slots (iniSlot r)).deferred = [] := by
  rw [Aimed, (sequencer_of_standsFor stands).1, stands.current, Tracker.sequencer, Slot.sequencer,
    map_eq_nil_iff]

end

theorem Aimed.record (aimed : Aimed r h) (onTrack : OnTrack r kind h)
    (only : ∀ x ∈ input, x.1.sop = true → isTxn r x = true) : Aimed r (record h input) := by
  obtain ⟨a, stands, -, -⟩ := onTrack
  obtain ⟨a', moves, stands'⟩ := stands.step input
  have before := (aimed_iff stands).mp aimed
  have after : Aimed r (OrderTrackerTarget.record h input) ↔ _ := aimed_iff stands'
  exact after.mpr (aimed_of_moves only moves before)

theorem sequencer_idle (onTrack : OnTrack r kind h) (aimed : Aimed r h) :
    (record h none).sequencer r = (h.sequencer r).release := by
  obtain ⟨a, stands, placed, tracks⟩ := onTrack
  obtain ⟨a', moves, stands'⟩ := stands.step none
  have before := sequencer_of_standsFor (r := r) stands
  have after := sequencer_of_standsFor (r := r) (h := record h none) stands'
  rw [before.1, after.1]
  have current := (aimed_iff stands).mp aimed
  change a'.sequencer r (h.2 ++ ((step fst h.1 none).2 1).toList) = _
  generalize (step fst h.1 none).2 1 = out at moves
  cases moves with
  | quiet =>
    rw [(tracks.released placed).2.1]
    split
    · rfl
    · next other =>
      have empty := current.resolve_left other
      simp [release, Tracker.sequencer, Slot.sequencer, empty]

theorem sequencer_idles (k : ℕ) (underWay : UnderWay r kind total h []) (aimed : Aimed r h)
    (all : (total.map snd).Perm (range n)) :
    UnderWay r kind total ((replicate k none).foldl record h) [] ∧
      ((replicate k none).foldl record h).sequencer r = release^[k] (h.sequencer r) := by
  induction k generalizing h with
  | zero => exact ⟨underWay, rfl⟩
  | succ k ih =>
    have waiting : UnderWay r kind total h (none :: []) :=
      ⟨underWay.onTrack, underWay.sane, underWay.account, by simp, by simp⟩
    have call := waiting.record all (by simp [Overflows]) (by simp)
    have later := ih call.1 (aimed.record underWay.onTrack (by simp))
    rw [replicate_succ, foldl_cons, Function.iterate_succ_apply,
      ← sequencer_idle underWay.onTrack aimed]
    exact later

variable {memory : Fin 16 → Fin 8 → PendingTxn Txn}

theorem underWay_init (arrive : Arrive r kind n inputs) :
    UnderWay r kind (txns r inputs.reduceOption) (init memory, []) inputs where
  onTrack := onTrack_init r kind memory
  sane := sane_start
  account := .rfl
  only := arrive.only
  genuine := arrive.genuine

theorem empty_iff (h : Recorded) :
    (h.sequencer r).waiting = [] ↔ (h.1.ini (iniSlot r)).queue.Empty := by
  rw [Recorded.sequencer, map_eq_nil_iff, Ring.contents_eq_nil_iff]

theorem filter_isMeta (r : U32) (xs : List Txn) :
    (xs.map fst).filter (isMeta r) = (txns r xs).map fst :=
  filter_map ..

def afterIdle (memory : Fin 16 → Fin 8 → PendingTxn Txn) (inputs : List (Option Txn)) (k : ℕ) :
    Recorded :=
  (inputs ++ replicate k none).foldl record (init memory, [])

theorem completes_of_settled (k : ℕ)
    (settled : ((afterIdle memory inputs k).sequencer r).waiting = [])
    (underWay : UnderWay r kind (txns r inputs.reduceOption) (afterIdle memory inputs k) []) :
    Completes r (fun i j => (memory i j).map fst) (inputs.map (Option.map fst)) := by
  have erased : inputs.map (Option.map fst) ++ replicate k none =
      (inputs ++ replicate k (none : Option Txn)).map (Option.map fst) := by
    simp
  have run := map_run memory (inputs ++ replicate k none)
  have empty := (empty_iff _).mp settled
  have account := underWay.account
  rw [afterIdle, foldl_record] at empty account
  refine ⟨k, ?_, ?_⟩
  · rw [erased, ← run.1, filter_isMeta, reduceOption_map, filter_isMeta]
    refine Perm.map _ ?_
    rw [Recorded.owned, Ring.contents_eq_nil_iff.mpr empty] at account
    simpa [txns] using account
  · rw [erased, ← run.2]
    exact empty

theorem settled_of_completes (completes : Completes r (fun i j => (memory i j).map fst)
      (inputs.map (Option.map fst))) :
    ∃ k, ((afterIdle memory inputs k).sequencer r).waiting = [] := by
  obtain ⟨k, -, empty⟩ := completes
  refine ⟨k, (empty_iff _).mpr ?_⟩
  have erased : inputs.map (Option.map fst) ++ replicate k none =
      (inputs ++ replicate k (none : Option Txn)).map (Option.map fst) := by
    simp
  rw [erased, ← (map_run memory _).2] at empty
  rw [afterIdle, foldl_record]
  exact empty

theorem healthy_run (inputs : List (Option Txn)) (all : (total.map snd).Perm (range n))
    (underWay : UnderWay r kind total h inputs) (aimed : Aimed r h)
    (healthy : (h.sequencer r).Healthy kind n)
    (room : Along record (fun h input => ¬ Overflows r h input) h inputs)
    (admitted : Along record (Admitted r kind n) h inputs) :
    UnderWay r kind total (inputs.foldl record h) [] ∧ Aimed r (inputs.foldl record h) ∧
      ((inputs.foldl record h).sequencer r).Healthy kind n := by
  induction inputs generalizing h with
  | nil => exact ⟨underWay, aimed, healthy⟩
  | cons input inputs ih =>
    have call := underWay.record all room.1 fun x member own =>
      (admitted.1 x member own).1
    have listed : ∀ x ∈ input, some x ∈ input :: inputs := fun x member => by
      simp [mem_def.mp member]
    refine ih call.1 (aimed.record underWay.onTrack fun x member => underWay.only x
      (listed x member)) ?_ room.2 admitted.2
    exact healthy.step underWay.sane call.2 (fun m arrival => (underWay.arrives all arrival).1)
      fun m arrival => by
        obtain ⟨x, member, own, rfl⟩ := mem_of_arrivalOf arrival
        exact (admitted.1 x member own).2

/-- With fewer than 2^16 transactions, a run at whose end no transaction is stuck has admitted
all of them and started with none stuck. -/
theorem admitted_of_unstuck (inputs : List (Option Txn)) (few : n < 2 ^ 16)
    (all : (total.map snd).Perm (range n)) (underWay : UnderWay r kind total h inputs)
    (room : Along record (fun h input => ¬ Overflows r h input) h inputs)
    (unstuck : UnderWay r kind total (inputs.foldl record h) [] →
      ∀ t < n, kind t = .strict → ¬ ((inputs.foldl record h).sequencer r).Stuck kind t) :
    Along record (Admitted r kind n) h inputs ∧
      ∀ t < n, kind t = .strict → ¬ (h.sequencer r).Stuck kind t := by
  induction inputs generalizing h with
  | nil => exact ⟨trivial, unstuck underWay⟩
  | cons input inputs ih =>
    have arrival : ∀ x ∈ input, isTxn r x = true → x.2 ∈ arrivalOf r input := by
      rintro x rfl own
      simp [arrivalOf, Option.filter, own]
    have near : ∀ x ∈ input, isTxn r x = true → Near (h.sequencer r) x.2 :=
      fun x member own => underWay.near_of_few all few (arrival x member own)
    have call := underWay.record all room.1 fun x member own _ => near x member own
    have later := ih call.1 room.2 unstuck
    have new : ∀ m ∈ arrivalOf r input, m ∉ _ :=
      fun m arrives => (underWay.arrives all arrives).1
    refine ⟨⟨fun x member own => ⟨fun _ => near x member own, ?_⟩, later.1⟩, ?_⟩
    · by_contra refused
      have arrives := arrival x member own
      have fresh := underWay.arrives all arrives
      have moves := call.2
      rw [mem_def.mp arrives] at moves
      rcases stuck_of_not_admits underWay.sane fresh.1 moves (fun m waits =>
        underWay.lt_of_mem all (mem_append_right _ waits)) fresh.2 refused with
        ⟨t, under, strict, stuck⟩
      exact later.2 t under strict stuck
    · intro t under strict stuck
      exact later.2 t under strict (stuck.step underWay.sane strict call.2 new)

theorem completes_of_admitted (arrive : Arrive r kind n inputs)
    (room : Along record (fun h input => ¬ Overflows r h input) (init memory, []) inputs)
    (linked : Linked kind n)
    (admitted : Along record (Admitted r kind n) (init memory, []) inputs) :
    Completes r (fun i j => (memory i j).map fst) (inputs.map (Option.map fst)) := by
  have all := arrive.all
  rcases healthy_run inputs all (underWay_init arrive) (.inr rfl)
    (healthy_start linked) room admitted with ⟨underWay, aimed, healthy⟩
  have arrived := underWay.arrived_iff all
  rcases healthy.settles underWay.sane (fun m => (arrived m).mpr)
    (fun m waits => (arrived m).mp (mem_append_right _ waits)) with ⟨k, settled⟩
  have idles := sequencer_idles k underWay aimed all
  rw [← foldl_append] at idles
  exact completes_of_settled k (idles.2 ▸ settled) idles.1

theorem admitted_of_completes (arrive : Arrive r kind n inputs) (few : n < 2 ^ 16)
    (room : Along record (fun h input => ¬ Overflows r h input) (init memory, []) inputs)
    (completes : Completes r (fun i j => (memory i j).map fst) (inputs.map (Option.map fst))) :
    Linked kind n ∧ Along record (Admitted r kind n) (init memory, []) inputs := by
  have all := arrive.all
  obtain ⟨k, settled⟩ := settled_of_completes completes
  -- the run with the calls that complete it
  have longer : UnderWay r kind (txns r inputs.reduceOption) (init memory, [])
      (inputs ++ replicate k none) := by
    have start : UnderWay r kind _ (init memory, []) inputs := underWay_init arrive
    refine ⟨start.onTrack, start.sane, ?_, ?_, ?_⟩
    · simpa [reduceOption_append, reduceOption_replicate_none] using start.account
    · exact fun x member => arrive.only x (by simpa using member)
    · exact fun x member => arrive.genuine x (by simpa using member)
  have longerRoom : Along record (fun h input => ¬ Overflows r h input) (init memory, [])
      (inputs ++ replicate k none) := by
    refine along_append.mpr ⟨room, along_iff.mpr ?_⟩
    intro before input after split
    have member : input ∈ replicate k (none : Option Txn) := by
      rw [split]
      simp
    simp [Overflows, eq_of_mem_replicate member]
  have run := admitted_of_unstuck _ few all longer longerRoom ?_
  · refine ⟨fun u under strict free => ?_, (along_append.mp run.1).1⟩
    refine run.2 (u + 1) under strict (.stale (Nat.succ_ne_zero u) (fun v below => .inr ?_) ?_)
    · rw [← Nat.succ.inj below]
      exact free
    · exact not_mem_nil
  · intro underWay t under _ stuck
    have member := (underWay.arrived_iff all t).mpr under
    rw [show ((foldl record _ _).sequencer r).waiting = [] from settled,
      append_nil] at member
    exact stuck.not_done underWay.sane member

/-- Every transaction is sent in the end if no SO transaction directly follows an NO transaction
and every transaction is admitted when it arrives; with fewer than 2^16 transactions, only
then. -/
theorem rot_completes (r : U32) (kind : ℕ → Kind) (n : ℕ)
    (memory : Fin 16 → Fin 8 → PendingTxn Txn) (inputs : List (Option Txn))
    (arrive : Arrive r kind n inputs)
    (room : Along record (fun h input => ¬ Overflows r h input) (init memory, []) inputs) :
    (Linked kind n ∧ Along record (Admitted r kind n) (init memory, []) inputs →
      Completes r (fun i j => (memory i j).map fst) (inputs.map (Option.map fst))) ∧
    (n < 2 ^ 16 → Completes r (fun i j => (memory i j).map fst) (inputs.map (Option.map fst)) →
        Linked kind n ∧ Along record (Admitted r kind n) (init memory, []) inputs) :=
  ⟨fun meets => completes_of_admitted arrive room meets.1 meets.2,
    fun few completes => admitted_of_completes arrive few room completes⟩

/-- An SO transaction waits for its predecessor; an RO and an NO transaction follow. -/
def swappedInputs : List (Option Txn) :=
  [some (sampleTxn 2 1), some (sampleTxn 2 0), some (sampleTxn 0 3), none, some (sampleTxn 1 2)]

def swappedKinds (n : ℕ) : Kind := if n = 2 then .relaxed else if n = 3 then .free else .strict

theorem arrive_swappedInputs : Arrive 0 swappedKinds 4 swappedInputs := by
  refine ⟨fun x member => ?_, fun x member => ?_, by decide⟩
  all_goals
    simp only [swappedInputs, mem_cons, Option.some.injEq, reduceCtorEq, false_or,
      not_mem_nil, or_false] at member
    rcases member with rfl | rfl | rfl | rfl <;> decide

theorem rot_completes_swappedInputs : Linked swappedKinds 4 ∧
      Along record (Admitted 0 swappedKinds 4) (init fun _ _ => default, []) swappedInputs ∧
      Completes 0 (fun _ _ => default) (swappedInputs.map (Option.map fst)) := by
  have few : ∀ u < 3, swappedKinds (u + 1) = .strict → swappedKinds u ≠ .free := by decide
  have linked : Linked swappedKinds 4 := fun u under => few u (Nat.lt_of_succ_lt_succ under)
  have admitted :
      Along record (Admitted 0 swappedKinds 4) (init fun _ _ => default, []) swappedInputs := by
    decide +kernel
  exact ⟨linked, admitted, (rot_completes 0 swappedKinds 4 (fun _ _ => default) swappedInputs
    arrive_swappedInputs (by decide +kernel)).1 ⟨linked, admitted⟩⟩

def reversedInputs : List (Option Txn) :=
  [some (sampleTxn 2 2), some (sampleTxn 2 1), some (sampleTxn 2 0)]

/-- Transaction 1 is never sent: it waits behind transaction 2, which waits for it. -/
theorem not_completes_reversedInputs : Arrive 0 (fun _ => .strict) 3 reversedInputs ∧
      Along record (fun h input => ¬ Overflows 0 h input) (init fun _ _ => default, [])
        reversedInputs ∧
      ¬ Completes 0 (fun _ _ => default) (reversedInputs.map (Option.map fst)) := by
  have arrive : Arrive 0 (fun _ => .strict) 3 reversedInputs := by
    refine ⟨fun x member => ?_, fun x member => ?_, by decide⟩
    all_goals
      simp only [reversedInputs, mem_cons, Option.some.injEq, not_mem_nil,
        or_false] at member
      rcases member with rfl | rfl | rfl <;> decide
  have room : Along record (fun h input => ¬ Overflows 0 h input) (init fun _ _ => default, [])
      reversedInputs := by decide +kernel
  refine ⟨arrive, room, fun completes => ?_⟩
  have admitted := (admitted_of_completes arrive (by decide) room completes).2
  exact absurd admitted (by decide +kernel)

end OpenURMA.OrderTrackerTarget
