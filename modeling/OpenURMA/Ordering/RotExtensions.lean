import Mathlib.Data.List.TakeWhile
import OpenURMA.Ordering.RotTransactions

/-!
# Extension flits in the service mode ROT

The extension flit of a deferred transaction is kept beside its metadata flit, but only the metadata
flit is sent when the transaction is released. The transactions of an initiator therefore leave
whole exactly in the runs in which no deferred transaction is released. Flits carry the number of
their transaction, in the order of arrival.
-/

namespace OpenURMA.OrderTrackerTarget

open Library Function UbMeta TgtState List Bool Option
open Prod (fst snd)

def arrivals : ℕ → List Packet → List Txn
  | _, [] => []
  | k, p :: packets => p.flits.map (·, k) ++ arrivals (k + 1) packets

/-- A transaction of the initiator tagged SO: a metadata flit and an extension flit. -/
structure Strict (r : U32) (p : Packet) : Prop where
  own : isMeta r p.head = true
  tag : odrExec.get p.head = odrSo
  ext : p.rest.length = 1

instance (r : U32) (p : Packet) : Decidable (Strict r p) :=
  decidable_of_iff (isMeta r p.head = true ∧ odrExec.get p.head = odrSo ∧ p.rest.length = 1)
    ⟨fun h => ⟨h.1, h.2.1, h.2.2⟩, fun h => ⟨h.own, h.tag, h.ext⟩⟩

/-- Every metadata flit is followed, before any other metadata flit, by the extension flit of its
transaction. -/
def Accompanied : List Txn → Prop
  | [] => True
  | x :: outs =>
    (x.1.sop = true → ∃ e ∈ outs.takeWhile fun y => !y.1.sop, e.2 = x.2) ∧ Accompanied outs

instance decidableAccompanied : (outs : List Txn) → Decidable (Accompanied outs)
  | [] => inferInstanceAs (Decidable True)
  | x :: outs =>
    have := decidableAccompanied outs
    inferInstanceAs (Decidable ((x.1.sop = true →
      ∃ e ∈ outs.takeWhile fun y => !y.1.sop, e.2 = x.2) ∧ Accompanied outs))

variable {k : ℕ} {packets : List Packet}

theorem le_of_mem_arrivals {x : Txn} (member : x ∈ arrivals k packets) : k ≤ x.2 := by
  induction packets generalizing k with
  | nil => cases member
  | cons p packets ih =>
    rcases mem_append.mp member with now | later
    · obtain ⟨f, _, rfl⟩ := mem_map.mp now
      exact Nat.le_refl k
    · exact Nat.le_of_succ_le (ih later)

variable {e : Flit}

theorem le_of_mem_within {x : Txn} (member : x ∈ (e, k) :: arrivals (k + 1) packets) : k ≤ x.2 := by
  rcases mem_cons.mp member with rfl | later
  · exact Nat.le_refl k
  · exact Nat.le_of_succ_le (le_of_mem_arrivals later)

variable {p : Packet}

theorem Strict.arrivals_cons {r : U32} (strict : Strict r p) (k : ℕ) (packets : List Packet) :
    ∃ e, e.sop = false ∧
      arrivals k (p :: packets) = (p.head, k) :: (e, k) :: arrivals (k + 1) packets := by
  obtain ⟨e, shape⟩ := length_eq_one_iff.mp strict.ext
  refine ⟨e, p.sop_rest e (by rw [shape]; simp), ?_⟩
  rw [arrivals, Packet.flits, shape]
  rfl

section

variable {outs later : List Txn} {x e : Txn}

theorem Accompanied.snoc_pair (whole : Accompanied outs) (inner : e.1.sop = false)
    (same : e.2 = x.2) : Accompanied (outs ++ [x, e]) := by
  induction outs with
  | nil => exact ⟨fun _ => ⟨e, by simp [inner], same⟩, by simp [inner], trivial⟩
  | cons y outs ih =>
    refine ⟨fun sop => ?_, ih whole.2⟩
    obtain ⟨e', member, own⟩ := whole.1 sop
    refine ⟨e', ?_, own⟩
    change e' ∈ takeWhile _ (outs ++ [x, e])
    rw [takeWhile_append]
    split
    · exact mem_append_left _ (takeWhile_subset _ member)
    · exact member

theorem not_accompanied (sop : x.1.sop = true)
    (missing : ∀ y ∈ later, y.1.sop = false → y.2 ≠ x.2) : ¬Accompanied (outs ++ x :: later) := by
  induction outs with
  | nil =>
    intro whole
    obtain ⟨e, member, own⟩ := whole.1 sop
    have inner := mem_takeWhile_imp member
    exact missing e (takeWhile_subset _ member) (by simpa using inner) own
  | cons y outs ih => exact fun whole => ih whole.2

end

section

variable {φ : Type}

def TgtState.Due (t : TgtState φ) : Prop :=
  ¬ t.queue.Empty ∧ t.queue.front.validA = true ∧ t.queue.front.tassn = t.execCompleteTassn + 1

instance (t : TgtState φ) : Decidable t.Due := inferInstanceAs (Decidable (_ ∧ _))

theorem drain_of_due {t : TgtState φ} (due : t.Due) : (drain t).2 = some t.queue.front.fA := by
  rw [drain]
  exact congrArg snd (if_pos due)

theorem drain_of_not_due {t : TgtState φ} (early : ¬t.Due) : drain t = (t, none) := by
  rw [drain]
  exact if_neg early

/-- A deferred transaction without its extension flit. -/
def PendingTxn.lone (txn : PendingTxn φ) : Bool := txn.validA && !txn.validB

variable {queue : Ring 8 (PendingTxn φ)}

theorem attach_eq_none (none : ∀ j, (queue.cells j).lone = false) : attach queue = .none := by
  rw [attach, map_eq_none_iff, find?_eq_none]
  intro j _ lone
  have := none j
  rw [PendingTxn.lone] at this
  rw [this] at lone
  cases lone

theorem attach_eq_some {j : Fin 8} (here : (queue.cells j).lone = true)
    (only : ∀ j', j' ≠ j → (queue.cells j').lone = false) :
    attach queue = some (queue.write j { queue.cells j with validB := true }) := by
  have found : (finRange 8).find?
      (fun j => (queue.cells j).validA && !(queue.cells j).validB) = some j := by
    cases search : (finRange 8).find?
        (fun j => (queue.cells j).validA && !(queue.cells j).validB) with
    | none => exact absurd here (find?_eq_none.mp search j (mem_finRange j))
    | some j' =>
      have lone := find?_some search
      by_contra other
      rw [← PendingTxn.lone] at lone
      rw [only j' fun same => other (congrArg some same)] at lone
      cases lone
  rw [attach, found, map_some]

def TgtState.Absorbs (t : TgtState Txn) : Option Txn → Prop
  | none => True
  | some x =>
    if x.1.sop then tassnOf fst x ≠ t.execCompleteTassn + 1
    else ∃ j, (t.queue.cells j).lone = true

instance (t : TgtState Txn) : (input : Option Txn) → Decidable (t.Absorbs input)
  | none => inferInstanceAs (Decidable True)
  | some x => inferInstanceAs (Decidable (if x.1.sop then _ else _))

/-- The call finds the oldest deferred transaction due, and nothing else to send. -/
def Releases (i : Fin 16) (s : State Txn) (input : Option Txn) : Prop :=
  (s.ini i).Absorbs input ∧ (s.ini i).Due

instance (i : Fin 16) (s : State Txn) (input : Option Txn) : Decidable (Releases i s input) :=
  inferInstanceAs (Decidable (_ ∧ _))

/-- A transaction that has to be deferred finds fewer than seven deferred. -/
def Room (i : Fin 16) (s : State Txn) (input : Option Txn) : Prop :=
  ∀ x ∈ input, x.1.sop = true → (s.ini i).Absorbs (some x) → ¬(s.ini i).queue.Full

instance (i : Fin 16) (s : State Txn) (input : Option Txn) : Decidable (Room i s input) :=
  match input with
  | none => .isTrue (by simp [Room])
  | some x => decidable_of_iff (x.1.sop = true → (s.ini i).Absorbs (some x) → ¬(s.ini i).queue.Full)
      (by simp [Room])

end

section

variable {r : U32} {s : State Txn}

theorem receive_meta (strict : Strict r p) (s : State Txn) (k : ℕ) : receive fst s (p.head, k) =
      if iniTassn.get p.head = (s.ini (iniSlot r)).execCompleteTassn + 1 then
        ({ s.setIni (iniSlot r) { s.ini (iniSlot r) with
            execCompleteTassn := iniTassn.get p.head } with
          sawMeta := true, curIdx := some (iniSlot r) }, some (p.head, k))
      else
        ({ s.setIni (iniSlot r)
            (buffer (s.ini (iniSlot r)) (p.head, k) (iniTassn.get p.head)) with
          sawMeta := true, curIdx := some (iniSlot r) }, none) := by
  have own := strict.own
  rw [isMeta, isRot, and_eq_true, and_eq_true, beq_iff_eq, beq_iff_eq] at own
  have slot : metaSlot p.head = iniSlot r := congrArg iniSlot own.2
  have executed : execute fst (s.ini (iniSlot r)) (p.head, k) =
      if iniTassn.get p.head = (s.ini (iniSlot r)).execCompleteTassn + 1 then
        ({ s.ini (iniSlot r) with execCompleteTassn := iniTassn.get p.head },
          some (p.head, k))
      else (buffer (s.ini (iniSlot r)) (p.head, k) (iniTassn.get p.head), none) := by
    simp only [execute, strict.tag, tassnOf, beq_iff_eq]
    rfl
  simp only [receive, own.1.1, own.1.2, slot, executed, if_true, bne_self_eq_false,
    false_eq_true, if_false]
  split <;> rfl

theorem receive_ext {e : Txn} (inner : e.1.sop = false) (saw : s.sawMeta = true)
    (current : s.curIdx = some (iniSlot r)) :
    receive fst s e =
      match attach (s.ini (iniSlot r)).queue with
      | none => ({ s with sawMeta := !e.1.eop }, some e)
      | some queue =>
        ({ s.setIni (iniSlot r) { s.ini (iniSlot r) with queue := queue } with
          sawMeta := !e.1.eop }, none) := by
  have flag : (if e.1.eop = true then false else true) = !e.1.eop := by
    cases e.1.eop <;> rfl
  simp only [receive, inner, saw, current, flag, State.setIni, false_eq_true, if_false,
    if_true]
  cases attach (s.ini (iniSlot r)).queue <;> rfl

end

structure TgtState.Calm (t : TgtState Txn) : Prop where
  head : t.queue.head = 0
  free : ∀ j, t.queue.tail ≤ j → (t.queue.cells j).validA = false
  clean : ∀ j, (t.queue.cells j).validA = false → (t.queue.cells j).validB = false
  metas : ∀ j, (t.queue.cells j).validA = true → (t.queue.cells j).fA.1.sop = true

/-- What is deferred has arrived whole, before transaction `k`. -/
def TgtState.Settled (t : TgtState Txn) (k : ℕ) : Prop :=
  ∀ j, (t.queue.cells j).validA = true →
    (t.queue.cells j).validB = true ∧ (t.queue.cells j).fA.2 < k

/-- Transaction `k` is deferred and its extension flit has not arrived. -/
structure TgtState.Awaits (t : TgtState Txn) (k : ℕ) (j : Fin 8) : Prop where
  lone : (t.queue.cells j).lone = true
  number : (t.queue.cells j).fA.2 = k
  early : (t.queue.cells j).tassn ≠ t.execCompleteTassn + 1
  others : ∀ j', j' ≠ j → (t.queue.cells j').validA = true →
    (t.queue.cells j').validB = true ∧ (t.queue.cells j').fA.2 < k

section

variable {t : TgtState Txn} {j : Fin 8}

theorem TgtState.Settled.not_lone (settled : t.Settled k) (j : Fin 8) :
    (t.queue.cells j).lone = false := by
  rw [PendingTxn.lone]
  cases valid : (t.queue.cells j).validA with
  | false => rfl
  | true => rw [(settled j valid).1]; rfl

theorem TgtState.Awaits.not_lone (awaits : t.Awaits k j) {j' : Fin 8} (other : j' ≠ j) :
    (t.queue.cells j').lone = false := by
  rw [PendingTxn.lone]
  cases valid : (t.queue.cells j').validA with
  | false => rfl
  | true => rw [(awaits.others j' other valid).1]; rfl

theorem TgtState.Awaits.front_lt (awaits : t.Awaits k j) (due : t.Due) :
    t.queue.front.fA.2 < k := by
  have other : t.queue.head ≠ j := by
    intro same
    apply awaits.early
    rw [← same]
    exact due.2.2
  exact (awaits.others _ other due.2.1).2

theorem TgtState.Calm.buffer (calm : t.Calm) (settled : t.Settled k) (room : ¬t.queue.Full)
    {f : Flit} (sop : f.sop = true) {ts : U16} (early : ts ≠ t.execCompleteTassn + 1) :
    (buffer t (f, k) ts).Calm ∧ (buffer t (f, k) ts).Awaits k t.queue.tail := by
  have empty := calm.free t.queue.tail (Nat.le_refl _)
  have blank := calm.clean t.queue.tail empty
  let entry := { t.queue.cells t.queue.tail with fA := (f, k), validA := true, tassn := ts }
  have here : (t.queue.push entry).cells t.queue.tail = entry := update_self ..
  have there : ∀ {j}, j ≠ t.queue.tail → (t.queue.push entry).cells j = t.queue.cells j :=
    fun other => update_of_ne other ..
  have next : (Ring.next t.queue.tail).val = t.queue.tail.val + 1 := by
    rw [Ring.Full, calm.head, Fin.ext_iff, Ring.val_next] at room
    rw [Ring.val_next]
    split at room
    · next small => rw [if_pos small]
    · exact absurd rfl room
  rw [OrderTrackerTarget.buffer, if_neg room]
  constructor
  · constructor
    · exact calm.head
    · intro j behind
      have after : t.queue.tail.val + 1 ≤ j.val := next ▸ behind
      have other : j ≠ t.queue.tail := by
        rw [Ne, Fin.ext_iff]
        omega
      rw [there other]
      exact calm.free j (Fin.le_def.mpr (by omega))
    · intro j invalid
      by_cases same : j = t.queue.tail
      · rw [same] at invalid
        rw [here] at invalid
        cases invalid
      · rw [there same] at invalid ⊢
        exact calm.clean j invalid
    · intro j valid
      by_cases same : j = t.queue.tail
      · rw [same, here]
        exact sop
      · rw [there same] at valid ⊢
        exact calm.metas j valid
  · constructor
    · rw [here, PendingTxn.lone]
      change (true && !(t.queue.cells t.queue.tail).validB) = true
      rw [blank]
      rfl
    · rw [here]
    · rw [here]
      exact early
    · intro j other valid
      rw [there other] at valid ⊢
      exact settled j valid

theorem due_buffer (room : ¬t.queue.Full) (x : Txn) {ts : U16}
    (early : ts ≠ t.execCompleteTassn + 1) : (buffer t x ts).Due ↔ t.Due := by
  rw [buffer, if_neg room]
  dsimp only [Due]
  by_cases empty : t.queue.Empty
  · have first : t.queue.head = t.queue.tail := empty
    constructor
    · rintro ⟨_, _, due⟩
      change (update t.queue.cells t.queue.tail _ t.queue.head).tassn = _ at due
      rw [first, update_self] at due
      exact absurd due early
    · exact fun due => absurd empty due.1
  · simp only [Ring.front_push empty, Ring.not_empty_push room, empty]

/-- The deferred transaction in a cell gets its extension flit. -/
def TgtState.complete (t : TgtState Txn) (j : Fin 8) : TgtState Txn :=
  { t with queue := t.queue.write j { t.queue.cells j with validB := true } }

theorem cells_complete_self (t : TgtState Txn) (j : Fin 8) :
    (t.complete j).queue.cells j = { t.queue.cells j with validB := true } :=
  update_self ..

theorem cells_complete_of_ne {j' : Fin 8} (other : j' ≠ j) :
    (t.complete j).queue.cells j' = t.queue.cells j' := update_of_ne other ..

theorem fields_complete (t : TgtState Txn) (j j' : Fin 8) :
    ((t.complete j).queue.cells j').validA = (t.queue.cells j').validA ∧
      ((t.complete j).queue.cells j').fA = (t.queue.cells j').fA ∧
      ((t.complete j).queue.cells j').tassn = (t.queue.cells j').tassn := by
  by_cases same : j' = j
  · rw [same, cells_complete_self]
    exact ⟨rfl, rfl, rfl⟩
  · rw [cells_complete_of_ne same]
    exact ⟨rfl, rfl, rfl⟩

theorem TgtState.Calm.complete (calm : t.Calm) (awaits : t.Awaits k j) :
    (t.complete j).Calm ∧ (t.complete j).Settled (k + 1) := by
  have deferred := awaits.lone
  rw [PendingTxn.lone, and_eq_true] at deferred
  constructor
  · constructor
    · exact calm.head
    · intro j' behind
      exact (fields_complete t j j').1.trans (calm.free j' behind)
    · intro j' invalid
      by_cases same : j' = j
      · rw [(fields_complete t j j').1, same, deferred.1] at invalid
        cases invalid
      · rw [cells_complete_of_ne same] at invalid ⊢
        exact calm.clean j' invalid
    · intro j' taken
      rw [(fields_complete t j j').1] at taken
      rw [(fields_complete t j j').2.1]
      exact calm.metas j' taken
  · intro j' taken
    by_cases same : j' = j
    · rw [same, cells_complete_self]
      exact ⟨rfl, Nat.lt_succ_of_le (Nat.le_of_eq awaits.number)⟩
    · rw [cells_complete_of_ne same] at taken ⊢
      have whole := awaits.others j' same taken
      exact ⟨whole.1, Nat.lt_succ_of_lt whole.2⟩

theorem due_complete : (t.complete j).Due ↔ t.Due := by
  have fields := fields_complete t j t.queue.head
  have front : (t.complete j).queue.front = (t.complete j).queue.cells t.queue.head := rfl
  rw [Due, Due, front, fields.1, fields.2.2]
  rfl

end

/-- Only the slot of the initiator is in use, and nothing has been released from it. -/
structure State.Calm (i : Fin 16) (s : State Txn) : Prop where
  slot : (s.ini i).Calm
  others : ∀ c, c ≠ i → (s.ini c).queue.Empty
  current : ∃ c, s.curIdx = some c ∧ (c = i ∨ (s.ini i).queue.Empty)

/-- How far the transactions have arrived, of which `rest` is still to come. -/
inductive Stage (r : U32) (s : State Txn) (outs rest : List Txn) : Prop
  | between (k : ℕ) (packets : List Packet)
      (calm : s.Calm (iniSlot r)) (strict : ∀ p ∈ packets, Strict r p)
      (left : rest = arrivals k packets)
      (settled : (s.ini (iniSlot r)).Settled k) (whole : Accompanied outs)
  | sent (k : ℕ) (packets : List Packet) (before : List Txn) (m e : Flit)
      (calm : s.Calm (iniSlot r)) (strict : ∀ p ∈ packets, Strict r p)
      (left : rest = (e, k) :: arrivals (k + 1) packets) (inner : e.sop = false)
      (saw : s.sawMeta = true) (current : s.curIdx = some (iniSlot r))
      (settled : (s.ini (iniSlot r)).Settled k) (last : outs = before ++ [(m, k)])
      (whole : Accompanied before)
  | deferred (k : ℕ) (packets : List Packet) (j : Fin 8) (e : Flit)
      (calm : s.Calm (iniSlot r)) (strict : ∀ p ∈ packets, Strict r p)
      (left : rest = (e, k) :: arrivals (k + 1) packets) (inner : e.sop = false)
      (saw : s.sawMeta = true) (current : s.curIdx = some (iniSlot r))
      (awaits : (s.ini (iniSlot r)).Awaits k j) (whole : Accompanied outs)

section

variable {r : U32} {s s' : State Txn} {outs rest rest' : List Txn} {i : Fin 16}

theorem State.Calm.put (calm : s.Calm (iniSlot r)) {t : TgtState Txn} (slot : t.Calm)
    (ini : s'.ini = update s.ini (iniSlot r) t)
    (current : s'.curIdx = some (iniSlot r)) : s'.Calm (iniSlot r) := by
  constructor
  · rw [ini, update_self]
    exact slot
  · intro c other
    rw [ini, update_of_ne other]
    exact calm.others c other
  · exact ⟨iniSlot r, current, .inl rfl⟩

theorem State.Calm.finish_of_not_due (calm : s.Calm i) (early : ¬(s.ini i).Due) :
    finish s none = (s, none) := by
  obtain ⟨c, current, here⟩ := calm.current
  have early' : ¬(s.ini c).Due := by
    rcases eq_or_ne c i with rfl | other
    · exact early
    · exact fun due => due.1 (calm.others c other)
  simp only [finish, current, drain_of_not_due early', State.setIni, update_eq_self]
  rw [← current]

theorem State.Calm.finish_of_due (calm : s.Calm i) (due : (s.ini i).Due) :
    (finish s none).2 = some (s.ini i).queue.front.fA := by
  rcases calm.current with ⟨c, current, rfl | empty⟩
  · simp only [finish, current, drain_of_due due]
  · exact absurd empty due.1

theorem Stage.of_due (stage : Stage r s outs rest) (due : (s.ini (iniSlot r)).Due) :
    ∀ y ∈ rest, (s.ini (iniSlot r)).queue.front.fA.2 < y.2 := by
  intro y member
  cases stage with
  | between k packets calm strict left settled whole =>
    rw [left] at member
    exact Nat.lt_of_lt_of_le (settled _ due.2.1).2 (le_of_mem_arrivals member)
  | sent k packets before m e calm strict left inner saw current settled last whole =>
    rw [left] at member
    exact Nat.lt_of_lt_of_le (settled _ due.2.1).2 (le_of_mem_within member)
  | deferred k packets j e calm strict left inner saw current awaits whole =>
    rw [left] at member
    exact Nat.lt_of_lt_of_le (awaits.front_lt due) (le_of_mem_within member)

theorem Stage.calm (stage : Stage r s outs rest) : s.Calm (iniSlot r) := by
  cases stage with
  | between k packets calm => exact calm
  | sent k packets before m e calm => exact calm
  | deferred k packets j e calm => exact calm

theorem Stage.accompanied (stage : Stage r s outs []) : Accompanied outs := by
  cases stage with
  | between k packets calm strict left settled whole => exact whole
  | sent k packets before m e calm strict left => cases left
  | deferred k packets j e calm strict left => cases left

def received (s : State Txn) : Option Txn → State Txn × Option Txn
  | none => (s, none)
  | some x => receive fst s x

theorem step_eq (s : State Txn) (input : Option Txn) :
    step fst s input = ((finish (received s input).1 (received s input).2).1,
        Ports.ofOption 1 (finish (received s input).1 (received s input).2).2) := by
  cases input <;> rfl

/-- What the first part of a call does with a flit, or with none: it passes the flit on or absorbs
it. -/
inductive Received (r : U32) (s : State Txn) (outs rest : List Txn) (input : Option Txn) : Prop
  | passed (x : Txn) (given : input = some x)
      (passes : ¬(s.ini (iniSlot r)).Absorbs input) (out : (received s input).2 = some x)
      (stage : Stage r (received s input).1 (outs ++ [x]) rest)
  | absorbed (absorbs : (s.ini (iniSlot r)).Absorbs input) (out : (received s input).2 = none)
      (stage : Stage r (received s input).1 outs rest)
      (due : ((received s input).1.ini (iniSlot r)).Due ↔ (s.ini (iniSlot r)).Due)

theorem Stage.received_meta (calm : s.Calm (iniSlot r))
    (strict : ∀ q ∈ p :: packets, Strict r q) (inner : e.sop = false)
    (settled : (s.ini (iniSlot r)).Settled k) (whole : Accompanied outs)
    (room : Room (iniSlot r) s (some (p.head, k))) :
    Received r s outs ((e, k) :: arrivals (k + 1) packets) (some (p.head, k)) := by
  have first := strict p (by simp)
  have later : ∀ q ∈ packets, Strict r q := fun q member => strict q (by simp [member])
  have absorbs_iff : (s.ini (iniSlot r)).Absorbs (some (p.head, k)) ↔
      iniTassn.get p.head ≠ (s.ini (iniSlot r)).execCompleteTassn + 1 := by
    rw [TgtState.Absorbs, if_pos p.sop_head]
    rfl
  have result := receive_meta first s k
  by_cases due : iniTassn.get p.head = (s.ini (iniSlot r)).execCompleteTassn + 1
  · rw [if_pos due] at result
    refine .passed _ rfl (fun absorbs => absorbs_iff.mp absorbs due) ?_ ?_
    · rw [received, result]
    · rw [received, result]
      refine .sent k packets outs p.head e ?_ later rfl inner rfl rfl ?_ rfl whole
      · have slot : Calm
            { s.ini (iniSlot r) with execCompleteTassn := iniTassn.get p.head } :=
          ⟨calm.slot.head, calm.slot.free, calm.slot.clean, calm.slot.metas⟩
        exact calm.put slot rfl rfl
      · change (update s.ini _ _ (iniSlot r)).Settled k
        rw [update_self]
        exact settled
  · rw [if_neg due] at result
    have absorbs := absorbs_iff.mpr due
    have free := room _ rfl p.sop_head absorbs
    have buffered := calm.slot.buffer settled free p.sop_head due
    have slot : (received s (some (p.head, k))).1.ini (iniSlot r) =
        buffer (s.ini (iniSlot r)) (p.head, k) (iniTassn.get p.head) := by
      rw [received, result]
      exact update_self ..
    refine .absorbed absorbs ?_ ?_ ?_
    · rw [received, result]
    · refine .deferred k packets (s.ini (iniSlot r)).queue.tail e ?_ later rfl inner ?_ ?_ ?_ whole
      · apply calm.put buffered.1
        · rw [received, result]
          rfl
        · rw [received, result]
      · rw [received, result]
      · rw [received, result]
      · rw [slot]
        exact buffered.2
    · rw [slot]
      exact due_buffer free _ due

theorem Stage.received_sent {before : List Txn} {m : Flit} (calm : s.Calm (iniSlot r))
    (strict : ∀ p ∈ packets, Strict r p) (inner : e.sop = false) (saw : s.sawMeta = true)
    (current : s.curIdx = some (iniSlot r)) (settled : (s.ini (iniSlot r)).Settled k)
    (whole : Accompanied before) :
    Received r s (before ++ [(m, k)]) (arrivals (k + 1) packets) (some (e, k)) := by
  have result := receive_ext (e := (e, k)) inner saw current
  rw [attach_eq_none settled.not_lone] at result
  refine .passed _ rfl ?_ ?_ ?_
  · rw [TgtState.Absorbs, if_neg (by simp [inner])]
    rintro ⟨j, lone⟩
    rw [settled.not_lone j] at lone
    cases lone
  · rw [received, result]
  · rw [received, result]
    refine .between (k + 1) packets ?_ strict rfl ?_ ?_
    · exact ⟨calm.slot, calm.others, calm.current⟩
    · exact fun j valid => ⟨(settled j valid).1, Nat.lt_succ_of_lt (settled j valid).2⟩
    · rw [append_assoc]
      exact whole.snoc_pair inner rfl

theorem Stage.received_deferred {j : Fin 8} (calm : s.Calm (iniSlot r))
    (strict : ∀ p ∈ packets, Strict r p) (inner : e.sop = false) (saw : s.sawMeta = true)
    (current : s.curIdx = some (iniSlot r)) (awaits : (s.ini (iniSlot r)).Awaits k j)
    (whole : Accompanied outs) :
    Received r s outs (arrivals (k + 1) packets) (some (e, k)) := by
  have result := receive_ext (e := (e, k)) inner saw current
  rw [attach_eq_some awaits.lone fun _ other => awaits.not_lone other] at result
  have attached := calm.slot.complete awaits
  have slot : (received s (some (e, k))).1.ini (iniSlot r) =
      (s.ini (iniSlot r)).complete j := by
    rw [received, result]
    exact update_self ..
  refine .absorbed ?_ ?_ ?_ ?_
  · rw [TgtState.Absorbs, if_neg (by simp [inner])]
    exact ⟨j, awaits.lone⟩
  · rw [received, result]
  · refine .between (k + 1) packets ?_ strict rfl ?_ whole
    · apply calm.put attached.1
      · rw [received, result]
        rfl
      · rw [received, result]
        exact current
    · rw [slot]
      exact attached.2
  · rw [slot]
    exact due_complete

section

variable (stage : Stage r s outs rest) {input : Option Txn} (next : rest = input.toList ++ rest')
variable (room : Room (iniSlot r) s input)
include stage next room

theorem Stage.received : Received r s outs rest' input := by
  cases input with
  | none =>
    subst next
    exact .absorbed trivial rfl stage Iff.rfl
  | some x =>
    cases stage with
    | between k packets calm strict left settled whole =>
      rw [left] at next
      cases packets with
      | nil => cases next
      | cons p packets =>
        obtain ⟨e, inner, flits⟩ := (strict p (by simp)).arrivals_cons k packets
        rw [flits] at next
        cases next
        exact received_meta calm strict inner settled whole room
    | sent k packets before m e calm strict left inner saw current settled last whole =>
      rw [left] at next
      cases next
      subst last
      exact received_sent calm strict inner saw current settled whole
    | deferred k packets j e calm strict left inner saw current awaits whole =>
      rw [left] at next
      cases next
      exact received_deferred calm strict inner saw current awaits whole

/-- A call in a run without a release so far: it has none either, or it sends a metadata flit whose
extension flit has come and gone. -/
theorem Stage.step : ¬Releases (iniSlot r) s input ∧
        Stage r (step fst s input).1 (outs ++ ((step fst s input).2 1).toList) rest' ∨
      Releases (iniSlot r) s input ∧ ∃ x, (step fst s input).2 1 = some x ∧
        x.1.sop = true ∧ ∀ y ∈ rest', x.2 < y.2 := by
  rw [step_eq]
  simp only [Ports.ofOption_same]
  cases stage.received next room with
  | passed x given passes out stage' =>
    rw [out]
    exact .inl ⟨fun releases => passes releases.1, stage'⟩
  | absorbed absorbs out stage' due =>
    rw [out]
    by_cases releases : (s.ini (iniSlot r)).Due
    · have due' := due.mpr releases
      exact .inr ⟨⟨absorbs, releases⟩, _, stage'.calm.finish_of_due due',
        stage'.calm.slot.metas _ due'.2.1, stage'.of_due due'⟩
    · rw [stage'.calm.finish_of_not_due (mt due.mp releases)]
      refine .inl ⟨fun both => releases both.2, ?_⟩
      rw [toList_none, append_nil]
      exact stage'

end

def State.HoldsMetas (s : State Txn) : Prop :=
  ∃ a : Tracker Txn, s.StandsFor fst a ∧ a.Defers fun _ x => x.1.sop = true

theorem State.HoldsMetas.step (holds : s.HoldsMetas) (input : Option Txn) :
    (step fst s input).1.HoldsMetas ∧ ∀ y ∈ (step fst s input).2 1, y ∈ input ∨ y.1.sop = true := by
  obtain ⟨a, stands, metas⟩ := holds
  obtain ⟨a', moves, stands'⟩ := stands.step input
  have all := metas.moves moves fun x _ rot => (and_eq_true _ _ ▸ rot).1
  refine ⟨⟨a', stands', all.1⟩, fun y sent => (all.2 y sent).imp_right ?_⟩
  exact fun ⟨_, sop⟩ => sop

variable {inputs : List (Option Txn)}

theorem State.HoldsMetas.arrived (holds : s.HoldsMetas) {y : Txn}
    (sent : y ∈ Ports.sent 1 ((OrderTrackerTarget.step fst).trace s inputs))
    (inner : y.1.sop = false) : y ∈ inputs.reduceOption := by
  induction inputs generalizing s with
  | nil => cases sent
  | cons input inputs ih =>
    rw [Mealy.trace_cons, Ports.sent_cons, mem_append, mem_toList] at sent
    have step := holds.step input
    rcases sent with now | later
    · rcases step.2 y now with given | sop
      · rw [given, reduceOption_cons_of_some]
        exact mem_cons_self
      · rw [inner] at sop
        cases sop
    · cases input with
      | none => exact ih step.1 later
      | some x =>
        rw [reduceOption_cons_of_some]
        exact mem_cons_of_mem _ (ih step.1 later)

theorem reduceOption_cons (input : Option Txn) (inputs : List (Option Txn)) :
    (input :: inputs).reduceOption = input.toList ++ inputs.reduceOption := by
  cases input <;> rfl

/-- In a run from a state without a release, every metadata flit is followed by its extension flit
exactly if nothing is released. -/
theorem Stage.accompanied_iff (stage : Stage r s outs inputs.reduceOption) (holds : s.HoldsMetas)
    (room : Along (OrderTrackerTarget.step fst).next (Room (iniSlot r)) s inputs) :
    Accompanied (outs ++ Ports.sent 1 ((OrderTrackerTarget.step fst).trace s inputs)) ↔
      Along (OrderTrackerTarget.step fst).next
        (fun s input => ¬Releases (iniSlot r) s input) s inputs := by
  induction inputs generalizing s outs with
  | nil =>
    rw [show Ports.sent 1 ((OrderTrackerTarget.step fst).trace s []) = [] from rfl,
      append_nil]
    exact iff_of_true stage.accompanied trivial
  | cons input inputs ih =>
    rw [Mealy.trace_cons, Ports.sent_cons]
    have after := (holds.step input).1
    rcases stage.step (reduceOption_cons input inputs) room.1 with
      ⟨keeps, stage'⟩ | ⟨releases, x, out, sop, later⟩
    · rw [← append_assoc, ih stage' after room.2]
      exact (and_iff_right keeps).symm
    · apply iff_of_false
      · rw [out]
        apply not_accompanied sop
        intro y sent inner same
        exact absurd same (Nat.ne_of_gt (later y (after.arrived sent inner)))
      · exact fun along => along.1 releases

end

/-- Transactions of an initiator tagged SO arrive in any order of their TASSNs, at most seven
deferred at a time. Every metadata flit is followed by its extension flit, before any other metadata
flit, exactly if no deferred transaction is released. -/
theorem rot_accompanied_iff (r : U32) (memory : Fin 16 → Fin 8 → PendingTxn Txn)
    (packets : List Packet) (strict : ∀ p ∈ packets, Strict r p) (inputs : List (Option Txn))
    (given : inputs.reduceOption = arrivals 0 packets)
    (room : Along (step fst).next (Room (iniSlot r)) (init memory) inputs) :
    let outs := Ports.sent 1 ((step fst).trace (init memory) inputs)
    (Accompanied outs ↔
      Along (step fst).next (fun s input => ¬Releases (iniSlot r) s input) (init memory)
        inputs) ∧
      outs.map fst = Ports.sent 1 ((step id).trace
        (init fun i j => (memory i j).map fst) (inputs.map (Option.map fst))) := by
  intro outs
  constructor
  · have calm : (init memory).Calm (iniSlot r) := by
      constructor
      · exact ⟨rfl, fun _ _ => rfl, fun _ _ => rfl, fun _ => nofun⟩
      · exact fun _ _ => rfl
      · exact ⟨0, rfl, .inr rfl⟩
    have stage : Stage r (init memory) [] inputs.reduceOption :=
      .between 0 packets calm strict given (fun _ => nofun) trivial
    have holds : (init memory).HoldsMetas :=
      ⟨Tracker.fresh, standsFor_init fst memory, fun _ _ => nofun⟩
    exact stage.accompanied_iff holds room
  · exact (map_run memory inputs).1

def sampleStrict (n : ℕ) : Packet where
  head := { lane2 := 1 <<< 58, lane3 := (2 <<< 32) + (BitVec.ofNat 64 n <<< 16), sop := true }
  rest := [{ eop := true }]
  sop_head := rfl
  sop_rest := by decide
  eop_last := ⟨rfl, rfl⟩

/-- Transaction 5 is deferred for good; 0 and 1 pass it by. -/
def passingInputs : List (Option Txn) :=
  none :: (arrivals 0 [sampleStrict 0, sampleStrict 5, sampleStrict 1]).map some ++ [none]

theorem accompanied_passingInputs :
    Accompanied (Ports.sent 1 ((step fst).trace (init fun _ _ => default) passingInputs)) :=
  (rot_accompanied_iff 0 (fun _ _ => default) [sampleStrict 0, sampleStrict 5, sampleStrict 1]
    (by decide) passingInputs (by decide +kernel) (by decide +kernel)).1.mpr (by decide +kernel)

def outOfTurnInputs : List (Option Txn) :=
  (arrivals 0 [sampleStrict 1, sampleStrict 0]).map some ++ [none]

/-- It is released without its extension flit. -/
theorem not_accompanied_outOfTurnInputs : (∀ p ∈ [sampleStrict 1, sampleStrict 0], Strict 0 p) ∧
      Along (step fst).next (Room (iniSlot 0)) (init fun _ _ => default) outOfTurnInputs ∧
      ¬Accompanied (Ports.sent 1 ((step fst).trace (init fun _ _ => default) outOfTurnInputs)) := by
  refine ⟨by decide, by decide +kernel, by decide +kernel⟩

end OpenURMA.OrderTrackerTarget
