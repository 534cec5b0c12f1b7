import OpenURMA.Transport.Retransmission

/-!
# The retransmission window

In a state with something unacknowledged, slot `j` of a channel holds the packet whose PSN is `j`
above the base. An acknowledgement cannot be told from one that is 2²⁴ packets older; the window is
right as long as none is delayed for so long. With nothing unacknowledged the next packet sets the
base, so packets may start at any PSN.
-/

namespace OpenURMA.RetransBuffer

open Library Record UbMeta List Nat
open BitVec (ofNat toNat_ofNat)
open Prod (fst)

variable {dest : U32}

/-- The packets are numbered from `first` on, those before it being acknowledged. -/
def Record.startingAt (first : ℕ) : Record where
  sent := replicate first []
  acked := first

/-- The slots of a channel are the packets sent and not acknowledged, from the oldest on. -/
structure Windowed (c : ChanRtx) (r : Record) : Prop where
  basePsn : c.basePsn.toNat = r.acked % 2 ^ 24
  valid : ∀ j : Fin 8, (c.slots j).validA = true ↔ r.acked + j < r.sent.length
  holds : ∀ (j : Fin 8) flits, r.sent[r.acked + j]? = some flits → (c.slots j).Holds flits
  own : ∀ (j : Fin 8) flits, r.sent[r.acked + j]? = some flits → (c.slots j).validB = true →
    flits[1]? = some (c.slots j).flitB
  inFlight : c.inFlight.toNat = (finRange 8).countP fun j => (c.slots j).validA

def SentFrom (first : ℕ) (r : Record) (call : Option Flit × Option (Event dest)) : Prop :=
  ∀ e ∈ call.2, isTpack e.flit = true → first ≤ e.number ∧ e.number < r.sent.length
deriving Decidable

/-- No acknowledgement that comes while something is unacknowledged is so old that its PSN is in
the window again. -/
def Recent (r : Record) (call : Option Flit × Option (Event dest)) : Prop :=
  ∀ e ∈ call.2, isTpack e.flit = true → r.acked < r.sent.length →
    r.acked ≤ e.number + (2 ^ 24 - 8)
deriving Decidable

/-- The channel, with the base that the next packet will set if nothing is unacknowledged. -/
def anchored (c : ChanRtx) (r : Record) : ChanRtx :=
  if r.acked = r.sent.length then { c with basePsn := ofNat 32 (r.acked % 2 ^ 24) } else c

/-- The anchored channel stores the packets, none with the extension flit of another. -/
structure Mirrors (c : ChanRtx) (r : Record) : Prop where
  stores : Stores (anchored c r) r
  own : ∀ (j : Fin 8) flits, r.sent[r.acked + j]? = some flits → (c.slots j).validB = true →
    flits[1]? = some (c.slots j).flitB
  single : r.inside = true → ∃ before m, r.sent = before ++ [[m]]

section

variable {c : ChanRtx} {r : Record}

theorem anchored_rest (c : ChanRtx) (r : Record) :
    (anchored c r).slots = c.slots ∧ (anchored c r).inFlight = c.inFlight := by
  unfold anchored
  split <;> exact ⟨rfl, rfl⟩

theorem anchored_of_lt (some : r.acked < r.sent.length) : anchored c r = c :=
  if_neg (Nat.ne_of_lt some)

theorem anchored_of_eq (none : r.acked = r.sent.length) :
    anchored c r = { c with basePsn := ofNat 32 (r.acked % 2 ^ 24) } := if_pos none

theorem Stores.anchored (stores : Stores c r) : Stores (anchored c r) r := by
  obtain ⟨slots, inFlight⟩ := anchored_rest c r
  have basePsn : (RetransBuffer.anchored c r).basePsn.toNat = r.acked % 2 ^ 24 := by
    unfold RetransBuffer.anchored
    split
    · change (ofNat 32 (r.acked % 2 ^ 24)).toNat = _
      rw [toNat_ofNat]
      omega
    · exact stores.basePsn
  refine ⟨stores.acked, stores.fits, basePsn, ?_, ?_, ?_, ?_⟩
  · rw [inFlight]
    exact stores.inFlight
  · rw [slots]
    exact stores.held
  · rw [slots]
    exact stores.fresh
  · rw [slots]
    exact stores.unused

theorem stores_of_unused (none : r.acked = r.sent.length) (inFlight : c.inFlight.toNat = 0)
    (unused : ∀ j, (c.slots j).validA = false ∧ (c.slots j).validB = false) :
    Stores (anchored c r) r := by
  have vacant : ∀ j : Fin 8, r.sent[r.acked + j]? = .none := fun j =>
    getElem?_eq_none (by omega)
  rw [anchored_of_eq none]
  constructor
  · exact le_of_eq none
  · omega
  · change (ofNat 32 (r.acked % 2 ^ 24)).toNat = _
    rw [toNat_ofNat]
    omega
  · change c.inFlight.toNat = _
    omega
  · intro j flits found
    rw [vacant j] at found
    cases found
  · intro j m _ found
    rw [vacant j] at found
    cases found
  · exact fun j _ => unused j

end

namespace Mirrors

variable {c : ChanRtx} {r : Record}

section

variable (mirrors : Mirrors c r)
include mirrors

theorem unused (none : r.acked = r.sent.length) (j : Fin 8) :
    (c.slots j).validA = false ∧ (c.slots j).validB = false := by
  have unused := mirrors.stores.unused j (by omega)
  rw [(anchored_rest c r).1] at unused
  exact unused

theorem inFlight : c.inFlight.toNat = r.sent.length - r.acked := by
  have count := mirrors.stores.inFlight
  rw [(anchored_rest c r).2] at count
  exact count

theorem tpack_idle (none : r.acked = r.sent.length) (psn : U32) : Mirrors (takeTpack c psn) r := by
  have empty : c.inFlight.toNat = 0 := by
    rw [mirrors.inFlight, none, Nat.sub_self]
  by_cases inside : (offset psn c.basePsn).toNat < 8
  · obtain ⟨slots, _, inFlight⟩ := takeTpack_inside rfl inside
    have unused : ∀ j, ((takeTpack c psn).slots j).validA = false ∧
        ((takeTpack c psn).slots j).validB = false := by
      intro j
      rw [slots]
      by_cases front : j + ((offset psn c.basePsn).toNat + 1) < 8
      · rw [freed_of_lt front]
        exact mirrors.unused none _
      · exact freed_of_le (not_lt.mp front)
    refine ⟨stores_of_unused none ?_ unused, fun j _ _ taken => ?_, mirrors.single⟩
    · rw [inFlight, empty, Nat.zero_sub]
    · rw [(unused j).2] at taken
      cases taken
  · rw [takeTpack_outside (not_lt.mp inside)]
    exact mirrors

theorem tpack {k : ℕ} {psn : U32} (known : k < r.sent.length)
    (recent : r.acked < r.sent.length → r.acked ≤ k + (2 ^ 24 - 8))
    (stamped : psn.toNat = k % 2 ^ 24) : Mirrors (takeTpack c psn) (r.ack k) := by
  have acked := mirrors.stores.acked
  have fits := mirrors.stores.fits
  have older : k < r.acked → r.ack k = r := by
    intro old
    rw [Record.ack, max_eq_left (by omega)]
  rcases eq_or_lt_of_le acked with none | some
  · rw [older (by omega)]
    exact mirrors.tpack_idle none psn
  · have stores := mirrors.stores
    rw [anchored_of_lt some] at stores
    refine ⟨(stores.tpack known (recent some) stamped).anchored, ?_, mirrors.single⟩
    by_cases old : k < r.acked
    · rw [older old, takeTpack_outside (offset_of_lt stamped stores.basePsn old (recent some))]
      exact mirrors.own
    · have off := offset_of_le stamped stores.basePsn (not_lt.mp old) (by omega)
      obtain ⟨slots, _, _⟩ := takeTpack_inside off (by omega)
      intro j flits found taken
      have next : (r.ack k).acked = k + 1 := max_eq_right (by omega)
      rw [next] at found
      obtain ⟨i, moved, index⟩ := freed_of_found fits (not_lt.mp old) found
      rw [slots, moved] at taken ⊢
      exact mirrors.own i flits (index ▸ found) taken

theorem markResent (j : Fin 8) : Mirrors (markResent c j) r := by
  have commutes : anchored (RetransBuffer.markResent c j) r =
      RetransBuffer.markResent (anchored c r) j := by
    unfold anchored
    split <;> rfl
  constructor
  · rw [commutes]
    exact mirrors.stores.markResent j
  · intro i flits found
    rw [slots_markResent]
    exact mirrors.own i flits found
  · exact mirrors.single

theorem store_anchored (f : Flit) :
    RetransBuffer.store (anchored c r) f = RetransBuffer.store c f := by
  by_cases none : r.acked = r.sent.length
  · have empty : c.inFlight = 0 := by
      apply BitVec.eq_of_toNat_eq
      rw [mirrors.inFlight, none, Nat.sub_self]
      rfl
    rw [anchored_of_eq none]
    simp only [RetransBuffer.store, empty, beq_self_eq_true, if_true]
  · rw [anchored, if_neg none]

theorem store {f : Flit} (sop : f.sop = true) (rel : reliable f = true)
    (stamped : (psn.get f).toNat = r.sent.length % 2 ^ 24) (room : r.sent.length < r.acked + 8) :
    Mirrors (RetransBuffer.store c f) (r.pass f) := by
  have acked := mirrors.stores.acked
  have stored := mirrors.stores.store sop rel stamped room
  rw [mirrors.store_anchored f] at stored
  refine ⟨stored.anchored, ?_, fun _ => ⟨r.sent, f, r.sent_pass_head sop rel⟩⟩
  let off : Fin 8 := ⟨r.sent.length - r.acked, by omega⟩
  have next : r.sent.length = r.acked + off := (Nat.add_sub_cancel' acked).symm
  have slots := (mirrors.stores.store_eq stamped next).1
  rw [mirrors.store_anchored f, (anchored_rest c r).1] at slots
  intro j flits found taken
  rw [slots] at taken ⊢
  rcases Stores.sent_head sop rel next found with ⟨here, rfl⟩ | ⟨other, before⟩
  · have vacant := (mirrors.stores.unused off (by omega)).2
    rw [(anchored_rest c r).1] at vacant
    rw [here, Function.update_self] at taken
    exact absurd (vacant.symm.trans taken) Bool.false_ne_true
  · rw [Function.update_of_ne other] at taken ⊢
    exact mirrors.own j flits before taken

/-- The slot of the last packet is open as long as only its metadata flit has come, and those
above it are not in use. -/
theorem isOpen_last {j : Fin 8} {m : Flit}
    (last : r.sent.length = r.acked + j + 1) (found : r.sent[r.acked + j]? = some [m]) :
    (c.slots j).isOpen = true ∧ ∀ i > j, (c.slots i).isOpen = false := by
  have held := (mirrors.stores.held j [m] found).validA
  have fresh := mirrors.stores.fresh j m last found
  rw [(anchored_rest c r).1] at held fresh
  constructor
  · rw [Slot.isOpen, held, fresh]
    rfl
  · intro i above
    have order : j.val < i.val := above
    have unused := (mirrors.stores.unused i (by omega)).1
    rw [(anchored_rest c r).1] at unused
    rw [Slot.isOpen, unused]
    rfl

theorem storeExt {f : Flit} (inner : f.sop = false)
    (inside : r.inside = true) (last : f.eop = true) :
    Mirrors (RetransBuffer.storeExt c f) (r.pass f) := by
  have length : (r.pass f).sent.length = r.sent.length := by
    rw [sent_pass_inner inner inside, length_modify]
  have commutes : anchored (RetransBuffer.storeExt c f) (r.pass f) =
      RetransBuffer.storeExt (anchored c r) f := by
    rw [anchored, anchored, acked_pass, length]
    split
    · unfold RetransBuffer.storeExt
      dsimp only
      split <;> rfl
    · rfl
  refine ⟨?_, ?_, fun more => ?_⟩
  · rw [commutes]
    exact mirrors.stores.storeExt inner inside
  · intro j flits found taken
    obtain ⟨old, before, rfl⟩ := Stores.sent_inner inner inside found
    obtain ⟨packets, m, shape⟩ := mirrors.single inside
    have present := (List.getElem?_eq_some_iff.mp before).1
    rw [slots_storeExt] at taken ⊢
    by_cases top : r.sent.length = r.acked + j + 1
    · -- the packet under way: its slot is the last open one
      have own : old = [m] := by
        have index : r.acked + j = packets.length := by
          rw [shape, length_append, length_singleton] at top
          omega
        rw [shape, index, getElem?_concat_length] at before
        exact (Option.some.inj before).symm
      rw [if_pos top, own]
      rw [if_pos (mirrors.isOpen_last top (own ▸ before))]
      rfl
    · -- a packet before it: a slot above is open
      let above : Fin 8 := ⟨r.sent.length - 1 - r.acked, by have := mirrors.stores.fits; omega⟩
      have final : r.sent.length = r.acked + above + 1 := by
        change r.sent.length = r.acked + (r.sent.length - 1 - r.acked) + 1
        omega
      have lastPacket : r.sent[r.acked + above]? = some [m] := by
        have index : r.acked + above = packets.length := by
          rw [shape, length_append, length_singleton] at final
          omega
        rw [shape, index, getElem?_concat_length]
      have higher : above > j := by
        change j.val < r.sent.length - 1 - r.acked
        omega
      have vacant := (mirrors.isOpen_last final lastPacket).1
      have closed : ¬((c.slots j).isOpen = true ∧ ∀ i > j, (c.slots i).isOpen = false) := by
        rintro ⟨_, none⟩
        rw [none above higher] at vacant
        cases vacant
      rw [if_neg closed] at taken ⊢
      rw [if_neg top]
      exact mirrors.own j old before taken
  · rw [Record.pass, if_neg (by simp [inner]), if_pos inside, last] at more
    cases more

end

theorem countP_below : ∀ n ≤ 8, (finRange 8).countP (fun j => decide (j.val < n)) = n := by
  decide

theorem windowed (mirrors : Mirrors c r) (some : r.acked < r.sent.length) : Windowed c r := by
  have stores := mirrors.stores
  rw [anchored_of_lt some] at stores
  have valid : ∀ j : Fin 8, (c.slots j).validA = true ↔ r.acked + j < r.sent.length := by
    intro j
    constructor
    · intro taken
      by_contra beyond
      rw [(stores.unused j (not_lt.mp beyond)).1] at taken
      cases taken
    · intro present
      exact (stores.held j _ (getElem?_eq_getElem present)).validA
  refine ⟨stores.basePsn, valid, stores.held, mirrors.own, ?_⟩
  have fits := stores.fits
  have below : (fun j => (c.slots j).validA) =
      fun j : Fin 8 => decide (j.val < r.sent.length - r.acked) := by
    funext j
    rw [Bool.eq_iff_iff, valid j, decide_eq_true_iff]
    omega
  rw [below, countP_below _ (by omega)]
  exact stores.inFlight

end Mirrors

theorem lasting_mirrors :
    Lasting Mirrors (fun r k => r.acked < r.sent.length → r.acked ≤ k + (2 ^ 24 - 8))
      fun f => f.eop = true where
  tpack mirrors known recent stamped := mirrors.tpack known recent stamped
  markResent j mirrors := mirrors.markResent j
  store mirrors sop rel stamped room := mirrors.store sop rel stamped room
  storeExt mirrors inner inside last := mirrors.storeExt inner inside last
  leave mirrors :=
    ⟨mirrors.stores.congr rfl rfl, mirrors.own, fun impossible => by cases impossible⟩

theorem follows_init (dest : U32) (first : ℕ) (memory : Fin 16 → Fin 8 → Slot) :
    Follows Mirrors dest (init memory) (.startingAt first) false := by
  have none : (startingAt first).acked = (startingAt first).sent.length :=
    length_replicate.symm
  refine ⟨⟨stores_of_unused none rfl fun _ => ⟨rfl, rfl⟩, ?_, ?_⟩, ?_, ?_, fun _ => rfl⟩
  · intro j flits _ taken
    cases taken
  · intro impossible
    cases impossible
  · intro impossible
    cases impossible
  · intro impossible
    cases impossible

theorem mirrors_run {first : ℕ} {calls : List (Option Flit × Option (Event dest))}
    (memory : Fin 16 → Fin 8 → Slot) (stamped : Stamped dest first false (calls.filterMap fst))
    (short : ∀ f ∈ calls.filterMap fst, f.sop = false → f.eop = true)
    (sent : Along Record.call (SentFrom first) (.startingAt first) calls)
    (room : Along Record.call AtMostEight (.startingAt first) calls)
    (recent : Along Record.call Recent (.startingAt first) calls) :
    Mirrors ((step.final (init memory) (calls.map offer)).tx (idx dest))
      (calls.foldl Record.call (.startingAt first)) := by
  have numbered : Stamped dest (startingAt first).sent.length false (calls.filterMap fst) := by
    rw [startingAt, length_replicate]
    exact stamped
  have known : Along Record.call Known (.startingAt first) calls :=
    along_iff.mpr fun before call after split e member tpack =>
      (along_iff.mp sent before call after split e member tpack).2
  obtain ⟨⟨_, follows⟩, _⟩ := (follows_init dest first memory).run lasting_mirrors memory known room
    recent numbered short
  rw [Stage.final_ofOffers] at follows
  exact follows.chan

/-- Packets of one or two flits to one destination, consecutive from any PSN on, at most eight of
them unacknowledged, and acknowledgements of packets sent, in any order and repeated. As long as
none is 2²⁴ - 8 packets old, the slots are the window in every state with something unacknowledged.
-/
theorem windowed_of_recent (dest : U32) (first : ℕ) (memory : Fin 16 → Fin 8 → Slot)
    (calls : List (Option Flit × Option (Event dest)))
    (stamped : Stamped dest first false (calls.filterMap fst))
    (short : ∀ f ∈ calls.filterMap fst, f.sop = false → f.eop = true)
    (sent : Along Record.call (SentFrom first) (.startingAt first) calls)
    (room : Along Record.call AtMostEight (.startingAt first) calls)
    (recent : Along Record.call Recent (.startingAt first) calls) :
    let r := calls.foldl Record.call (.startingAt first)
    r.acked < r.sent.length →
      Windowed ((step.final (init memory) (calls.map offer)).tx (idx dest)) r := by
  intro r unacked
  exact (mirrors_run memory stamped short sent room recent).windowed unacked

instance decidableStamped (dest : U32) :
    (n : ℕ) → (within : Bool) → (stream : List Flit) → Decidable (Stamped dest n within stream)
  | _, _, [] => inferInstanceAs (Decidable True)
  | n, within, f :: stream =>
    have := decidableStamped dest (if f.sop && reliable f then n + 1 else n) (!f.eop) stream
    inferInstanceAs (Decidable (f.sop = !within ∧ (f.sop = true → reliable f = true →
      dcna.get f = dest ∧ (psn.get f).toNat = n % 2 ^ 24) ∧
        Stamped dest (if f.sop && reliable f then n + 1 else n) (!f.eop) stream))

section

variable (k : ℕ)

def loneFlit : Flit := psn.set (ofNat 32 k) { sop := true, eop := true }

theorem toNat_apsn : (apsn { lane1 := ofNat 64 (k % 2 ^ 24), lane2 := 2 }).toNat = k % 2 ^ 24 := by
  change ((ofNat 64 (k % 2 ^ 24) &&& 0xFFFFFF).setWidth 32).toNat = _
  rw [show (0xFFFFFF : U64) = BitField.mask 64 24 by decide, BitVec.toNat_setWidth,
    BitField.toNat_and_mask (by omega), toNat_ofNat]
  omega

def loneAck : Event 0 where
  flit := { lane1 := ofNat 64 (k % 2 ^ 24), lane2 := 2 }
  number := k
  stamped _ := ⟨by change ((0 : U64) &&& 0xFFFFFF).setWidth 32 = 0; decide, toNat_apsn k⟩

theorem psn_loneFlit : (psn.get (loneFlit k)).toNat = k % 2 ^ 24 := by
  rw [loneFlit, Field.toNat_get_set psn (by decide), toNat_ofNat]
  change k % 2 ^ 32 % 2 ^ 24 = _
  omega

theorem reliable_loneFlit : reliable (loneFlit k) = true := by
  rw [reliable, loneFlit, Field.get_set_disjoint (by decide)]
  decide

theorem dcna_loneFlit : dcna.get (loneFlit k) = 0 := by
  rw [loneFlit, Field.get_set_disjoint (by decide)]
  decide

theorem stamped_loneFlits (first count : ℕ) :
    Stamped 0 first false ((range' first count).map loneFlit) := by
  induction count generalizing first with
  | zero => trivial
  | succ count ih =>
    rw [range'_succ, map_cons]
    refine ⟨rfl, fun _ _ => ⟨dcna_loneFlit first, psn_loneFlit first⟩, ?_⟩
    rw [reliable_loneFlit]
    exact ih (first + 1)

/-- Packets 5 and 6, of two flits each; packet 5 is acknowledged between the two flits of packet 6,
and once more with its second flit. -/
def pairCalls : List (Option Flit × Option (Event 0)) :=
  [(some { lane2 := 5, sop := true }, none), (some { lane0 := 50, eop := true }, none),
    (some { lane2 := 6, sop := true }, none), (none, some (loneAck 5)),
    (some { lane0 := 60, eop := true }, some (loneAck 5))]

theorem windowed_pairCalls :
    Windowed ((step.final (init fun _ _ => default) (pairCalls.map offer)).tx (idx 0))
      (pairCalls.foldl Record.call (.startingAt 5)) :=
  windowed_of_recent 0 5 (fun _ _ => default) pairCalls (by decide) (by decide) (by decide)
    (by decide) (by decide) (by decide)

def sendCall : Option Flit × Option (Event 0) := (some (loneFlit k), none)

def ackCall : Option Flit × Option (Event 0) := (none, some (loneAck k))

end

theorem call_sendCall (r : Record) (k : ℕ) : (r.call (sendCall k)).acked = r.acked ∧
      (r.call (sendCall k)).sent.length = r.sent.length + 1 := by
  change (r.pass (loneFlit k)).acked = _ ∧ (r.pass (loneFlit k)).sent.length = _
  rw [acked_pass, length_pass, reliable_loneFlit]
  exact ⟨rfl, rfl⟩

theorem isTpack_loneAck (k : ℕ) : isTpack (loneAck k).flit = true := by
  change (((2 : U64) &&& 0xFF).setWidth 32 == tpopTpack.setWidth 32) = true
  decide

theorem call_ackCall (r : Record) (k : ℕ) :
    (r.call (ackCall k)).acked = max r.acked (k + 1) ∧ (r.call (ackCall k)).sent = r.sent := by
  change (r.event (loneAck k)).acked = _ ∧ (r.event (loneAck k)).sent = _
  rw [event, if_pos (isTpack_loneAck k)]
  exact ⟨rfl, rfl⟩

/-- The first `n` packets are sent, each after the one before it has been acknowledged. -/
def lockstep (n : ℕ) : List (Option Flit × Option (Event 0)) :=
  (range n).flatMap fun k => [sendCall k, ackCall k]

def pending (n : ℕ) : List (Option Flit × Option (Event 0)) := lockstep n ++ [sendCall n]

theorem lockstep_succ (n : ℕ) : lockstep (n + 1) = pending n ++ [ackCall n] := by
  rw [lockstep, range_succ, flatMap_append, pending, append_assoc]
  rfl

abbrev recordOf (calls : List (Option Flit × Option (Event 0))) : Record :=
  calls.foldl Record.call (.startingAt 0)

theorem recordOf_snoc (calls : List (Option Flit × Option (Event 0)))
    (call : Option Flit × Option (Event 0)) :
    recordOf (calls ++ [call]) = (recordOf calls).call call := by
  rw [recordOf, foldl_append]
  rfl

theorem record_pending {n : ℕ}
    (done : (recordOf (lockstep n)).acked = n ∧ (recordOf (lockstep n)).sent.length = n) :
    (recordOf (pending n)).acked = n ∧ (recordOf (pending n)).sent.length = n + 1 := by
  have sent := call_sendCall (recordOf (lockstep n)) n
  rw [pending, recordOf_snoc, sent.1, sent.2, done.1, done.2]
  exact ⟨rfl, rfl⟩

theorem record_lockstep (n : ℕ) :
    (recordOf (lockstep n)).acked = n ∧ (recordOf (lockstep n)).sent.length = n := by
  induction n with
  | zero => exact ⟨rfl, rfl⟩
  | succ n ih =>
    obtain ⟨acked, count⟩ := record_pending ih
    have more := call_ackCall (recordOf (pending n)) n
    rw [lockstep_succ, recordOf_snoc, more.1, more.2, acked, count]
    exact ⟨by omega, rfl⟩

theorem flits_pending (n : ℕ) : (pending n).filterMap fst = (range' 0 (n + 1)).map loneFlit := by
  induction n with
  | zero => rfl
  | succ n ih =>
    have grown : range' 0 (n + 1 + 1) = range' 0 (n + 1) ++ [n + 1] := by
      rw [range'_1_concat, zero_add]
    rw [pending, lockstep_succ, filterMap_append, filterMap_append, ih, grown,
      map_append]
    exact congrArg (· ++ [loneFlit (n + 1)]) (append_nil _)

theorem along_pending {meets : Record → Option Flit × Option (Event 0) → Prop}
    (send : ∀ r n, r.acked = n → r.sent.length = n → meets r (sendCall n))
    (ack : ∀ r n, r.acked = n → r.sent.length = n + 1 → meets r (ackCall n))
    (n : ℕ) : Along Record.call meets (.startingAt 0) (pending n) := by
  have last : ∀ n, meets (recordOf (lockstep n)) (sendCall n) := fun n =>
    send _ n (record_lockstep n).1 (record_lockstep n).2
  induction n with
  | zero => exact ⟨last 0, trivial⟩
  | succ n ih =>
    obtain ⟨acked, count⟩ := record_pending (record_lockstep n)
    rw [pending, along_append, lockstep_succ, along_append]
    refine ⟨⟨ih, ack _ n acked count, trivial⟩, ?_, trivial⟩
    rw [← lockstep_succ]
    exact last (n + 1)

/-- After the first `n` packets another one is sent, and then the acknowledgement of packet 3
arrives once more. -/
def lateCalls (n : ℕ) : List (Option Flit × Option (Event 0)) := pending n ++ [ackCall 3]

section

variable (n : ℕ)

theorem flits_lateCalls : (lateCalls n).filterMap fst = (range' 0 (n + 1)).map loneFlit := by
  rw [lateCalls, filterMap_append, flits_pending]
  exact append_nil _

theorem short_loneFlits (first count : ℕ) :
    ∀ f ∈ (range' first count).map loneFlit, f.sop = false → f.eop = true := by
  intro f member inner
  obtain ⟨k, _, rfl⟩ := mem_map.mp member
  cases inner

theorem meets_pending : Along Record.call (SentFrom 0) (.startingAt 0) (pending n) ∧
      Along Record.call AtMostEight (.startingAt 0) (pending n) ∧
      Along Record.call Recent (.startingAt 0) (pending n) := by
  rw [← along_and, ← along_and]
  apply along_pending
  · intro r n acked count
    refine ⟨fun e member => ?_, fun f _ _ _ => ?_, fun e member => ?_⟩
    · cases member
    · change r.sent.length < r.acked + 8
      omega
    · cases member
  · intro r n acked count
    refine ⟨fun e member _ => ?_, fun f member => ?_, fun e member _ _ => ?_⟩
    · cases member
      exact ⟨zero_le _, lt_of_lt_of_eq (lt_succ_self n) count.symm⟩
    · cases member
    · cases member
      exact le_trans (le_of_eq acked) (le_add_right n _)

theorem windowed_pending (memory : Fin 16 → Fin 8 → Slot) :
    Windowed ((step.final (init memory) ((pending n).map offer)).tx (idx 0))
      (recordOf (pending n)) := by
  obtain ⟨acked, count⟩ := record_pending (record_lockstep n)
  have stamped : Stamped 0 0 false ((pending n).filterMap fst) := by
    rw [flits_pending]
    exact stamped_loneFlits 0 (n + 1)
  have short : ∀ f ∈ (pending n).filterMap fst, f.sop = false → f.eop = true := by
    rw [flits_pending]
    exact short_loneFlits 0 (n + 1)
  obtain ⟨sent, room, recent⟩ := meets_pending n
  apply (mirrors_run memory stamped short sent room recent).windowed
  rw [acked, count]
  exact lt_succ_self n

theorem atMostEight_lateCalls : Along Record.call AtMostEight (.startingAt 0) (lateCalls n) := by
  rw [lateCalls, along_append]
  refine ⟨(meets_pending n).2.1, fun f member => ?_, trivial⟩
  cases member

variable {n} (old : 4 ≤ n)
include old

theorem record_lateCalls :
    (recordOf (lateCalls n)).acked = n ∧ (recordOf (lateCalls n)).sent.length = n + 1 := by
  obtain ⟨acked, count⟩ := record_pending (record_lockstep n)
  have again := call_ackCall (recordOf (pending n)) 3
  rw [lateCalls, recordOf_snoc, again.1, again.2, acked, count]
  exact ⟨max_eq_left old, rfl⟩

theorem sentFrom_lateCalls : Along Record.call (SentFrom 0) (.startingAt 0) (lateCalls n) := by
  rw [lateCalls, along_append]
  refine ⟨(meets_pending n).1, fun e member _ => ?_, trivial⟩
  cases member
  refine ⟨zero_le _, ?_⟩
  change 3 < (recordOf (pending n)).sent.length
  rw [(record_pending (record_lockstep n)).2]
  omega

/-- Once the PSNs have come round, the acknowledgement frees the slot of a packet that it is not
for. -/
theorem not_windowed_lateCalls (memory : Fin 16 → Fin 8 → Slot) (round : n % 2 ^ 24 = 0) :
    ¬Windowed ((step.final (init memory) ((lateCalls n).map offer)).tx (idx 0))
      (recordOf (lateCalls n)) := by
  intro late
  obtain ⟨acked, count⟩ := record_pending (record_lockstep n)
  obtain ⟨acked', count'⟩ := record_lateCalls old
  have before := windowed_pending n memory
  let c := (step.final (init memory) ((pending n).map offer)).tx (idx 0)
  have after : (step.final (init memory) ((lateCalls n).map offer)).tx (idx 0) =
      takeTpack c (apsn (loneAck 3).flit) := by
    rw [lateCalls, map_append, Mealy.final_append]
    exact tx_takeEvent (loneAck 3) (isTpack_loneAck 3)
  have distance : (offset (apsn (loneAck 3).flit) c.basePsn).toNat = 3 := by
    have base := before.basePsn
    rw [acked, round] at base
    rw [toNat_offset, base]
    decide
  have slots := (takeTpack_inside distance (by omega)).1
  have held : (((step.final (init memory) ((lateCalls n).map offer)).tx (idx 0)).slots 0).validA =
      true := by
    rw [late.valid, acked', count']
    exact lt_succ_self n
  rw [after, slots, freed_of_lt (by decide), before.valid, acked, count] at held
  exact absurd held (by change ¬n + 4 < n + 1; omega)

end

theorem lateCalls_meets {n : ℕ} (old : 4 ≤ n) (memory : Fin 16 → Fin 8 → Slot)
    (round : n % 2 ^ 24 = 0) :
    Stamped 0 0 false ((lateCalls n).filterMap fst) ∧
      (∀ f ∈ (lateCalls n).filterMap fst, f.sop = false → f.eop = true) ∧
      Along Record.call (SentFrom 0) (.startingAt 0) (lateCalls n) ∧
      Along Record.call AtMostEight (.startingAt 0) (lateCalls n) ∧
      (recordOf (lateCalls n)).acked < (recordOf (lateCalls n)).sent.length ∧
      ¬Windowed ((step.final (init memory) ((lateCalls n).map offer)).tx (idx 0))
        (recordOf (lateCalls n)) := by
  obtain ⟨acked, count⟩ := record_lateCalls old
  rw [flits_lateCalls]
  exact ⟨stamped_loneFlits 0 _, short_loneFlits 0 _, sentFrom_lateCalls old,
    atMostEight_lateCalls n, by omega, not_windowed_lateCalls old memory round⟩

/-- A run of 2²⁴ packets. -/
theorem not_windowed_round : Stamped 0 0 false ((lateCalls (2 ^ 24)).filterMap fst) ∧
      (∀ f ∈ (lateCalls (2 ^ 24)).filterMap fst, f.sop = false → f.eop = true) ∧
      Along Record.call (SentFrom 0) (.startingAt 0) (lateCalls (2 ^ 24)) ∧
      Along Record.call AtMostEight (.startingAt 0) (lateCalls (2 ^ 24)) ∧
      (recordOf (lateCalls (2 ^ 24))).acked < (recordOf (lateCalls (2 ^ 24))).sent.length ∧
      ¬Windowed ((step.final (init fun _ _ => default) ((lateCalls (2 ^ 24)).map offer)).tx
        (idx 0)) (recordOf (lateCalls (2 ^ 24))) :=
  lateCalls_meets (by decide) (fun _ _ => default) (mod_self _)

end OpenURMA.RetransBuffer
