import OpenURMA.Library.Numbering
import OpenURMA.Verbs.PostWr

/-!
# The TASSNs that libopenurma gives

The in-order completion buffer and the ROT tracker expect the transactions of each initiator to
be numbered 0, 1, 2, and so on.  The library counts the posts of a context, whatever their
`rc_id`, so that an initiator finds the numbers of the others missing.
-/

namespace OpenURMA.Verbs

open Library List BitVec

def accepts (ctx : Context) (wr : JfsWr) : Bool := ctx.doorbellIn && (taop wr.opc).isSome

/-- The TASSN in the metadata flit that a post writes, if it writes one. -/
def Reply.tassn (reply : Reply) : Option U16 := reply.written.head?.map UbMeta.iniTassn.get

def assigned : Context → List JfsWr → List (JfsWr × U16)
  | _, [] => []
  | ctx, wr :: wrs =>
    ((postWr ctx wr).2.tassn.map (wr, ·)).toList ++ assigned (postWr ctx wr).1 wrs

/-- The work requests of each `rc_id` are numbered 0, 1, 2, ... mod 2^16. -/
def Consecutive (assigned : List (JfsWr × U16)) : Prop :=
  ∀ rcId : U32, let own := (assigned.filter fun (wr, _) => wr.rcId = rcId).map Prod.snd
    own = (List.range own.length).map (BitVec.ofNat 16)

section

variable {ctx : Context} {wr : JfsWr}

theorem postWr_accepted (accepted : accepts ctx wr = true) (implicit : wr.tassn = 0) :
    (postWr ctx wr).1 = { ctx with nextTassn := ctx.nextTassn + 1 } ∧
      (postWr ctx wr).2.tassn = some ctx.nextTassn := by
  rw [accepts, Bool.and_eq_true] at accepted
  obtain ⟨connected, known⟩ := accepted
  obtain ⟨op, verb⟩ := Option.isSome_iff_exists.mp known
  rw [postWr, if_pos connected, verb]
  dsimp only
  rw [if_pos implicit]
  exact ⟨rfl, congrArg some (iniTassn_metaFlit ctx.localCna wr op ctx.nextTassn)⟩

theorem postWr_refused (refused : accepts ctx wr = false) :
    (postWr ctx wr).1 = ctx ∧ (postWr ctx wr).2.tassn = none := by
  rw [accepts] at refused
  unfold postWr
  split
  · next connected =>
    cases verb : taop wr.opc with
    | none => exact ⟨rfl, rfl⟩
    | some op =>
      rw [connected, verb] at refused
      cases refused
  · exact ⟨rfl, rfl⟩

end

theorem assigned_eq {ctx : Context} {k : Nat} (next : ctx.nextTassn = BitVec.ofNat 16 k)
    {wrs : List JfsWr} (implicit : ∀ wr ∈ wrs, wr.tassn = 0) :
    assigned ctx wrs = ((wrs.filter (accepts ctx)).zipIdx k).map
      fun (wr, i) => (wr, BitVec.ofNat 16 i) := by
  induction wrs generalizing ctx k with
  | nil => rfl
  | cons wr wrs ih =>
    have rest : ∀ other ∈ wrs, other.tassn = 0 :=
      fun other member => implicit other (by simp [member])
    rw [assigned]
    cases verdict : accepts ctx wr with
    | true =>
      obtain ⟨advanced, number⟩ := postWr_accepted verdict (implicit wr (by simp))
      have next' : ctx.nextTassn + 1 = BitVec.ofNat 16 (k + 1) := by
        rw [next, ofNat_add]
        rfl
      rw [advanced, number, ih next' rest, filter_cons_of_pos verdict, zipIdx_cons, next]
      rfl
    | false =>
      obtain ⟨same, nothing⟩ := postWr_refused verdict
      rw [same, nothing, ih next rest, filter_cons_of_neg (by simp [verdict])]
      rfl

/-- The number among all work requests is, as a TASSN, the number among those with one `rc_id`. -/
theorem ofNat_length_eq_iff (before : List JfsWr) (rcId : U32) :
    BitVec.ofNat 16 before.length = BitVec.ofNat 16 (before.countP (·.rcId = rcId)) ↔
      2 ^ 16 ∣ before.countP (·.rcId ≠ rcId) := by
  have total : before.length =
      before.countP (·.rcId = rcId) + before.countP (·.rcId ≠ rcId) := by
    rw [length_eq_countP_add_countP fun wr => decide (wr.rcId = rcId)]
    simp
  rw [toNat_eq, toNat_ofNat, toNat_ofNat, total]
  omega

/-- Every `rc_id` gets the numbers 0, 1, 2, ... exactly if every work request is preceded by a
multiple of 2^16 of work requests with other `rc_id`s. -/
theorem consecutive_iff (localCna : U32) (connected : Bool) {wrs : List JfsWr}
    (implicit : ∀ wr ∈ wrs, wr.tassn = 0) :
    Consecutive (assigned ⟨localCna, connected, 0⟩ wrs) ↔
      ∀ before wr after, wrs.filter (accepts ⟨localCna, connected, 0⟩) = before ++ wr :: after →
        2 ^ 16 ∣ before.countP (·.rcId ≠ wr.rcId) := by
  let items := wrs.filter (accepts ⟨localCna, connected, 0⟩)
  have numbered : assigned ⟨localCna, connected, 0⟩ wrs =
      items.zipIdx.map fun (wr, i) => (wr, BitVec.ofNat 16 i) := assigned_eq rfl implicit
  have own : ∀ rcId, ((assigned ⟨localCna, connected, 0⟩ wrs).filter
      fun (wr, _) => wr.rcId = rcId).map Prod.snd =
        ownCodes JfsWr.rcId (BitVec.ofNat 16) rcId items := by
    intro rcId
    rw [numbered, filter_map, map_map]
    rfl
  unfold Consecutive
  simp only [own, length_ownCodes]
  rw [ownCodes_iff]
  simp only [ofNat_length_eq_iff]
  rfl

theorem dvd_countP_of_one {items : List JfsWr} {rcId : U32} (one : ∀ wr ∈ items, wr.rcId = rcId)
    {before : List JfsWr} {wr : JfsWr} {after : List JfsWr}
    (split : items = before ++ wr :: after) :
    2 ^ 16 ∣ before.countP (·.rcId ≠ wr.rcId) := by
  subst split
  have none : before.countP (·.rcId ≠ wr.rcId) = 0 := by
    rw [countP_eq_zero]
    intro other member
    rw [one other (by simp [member]), one wr (by simp)]
    simp
  rw [none]
  exact Nat.dvd_zero _

def threeWrites : List JfsWr := List.replicate 3 { opc := .write, rcId := 1 }

theorem consecutive_threeWrites : Consecutive (assigned ⟨0, true, 0⟩ threeWrites) := by
  have one : ∀ wr ∈ threeWrites.filter (accepts ⟨0, true, 0⟩), wr.rcId = 1 := by decide
  apply (consecutive_iff 0 true (by decide)).mpr
  intro before wr after split
  exact dvd_countP_of_one one split

/-- Of two Writes with different `rc_id`s the second one has the TASSN 1. -/
theorem not_consecutive_twoInitiators : ¬Consecutive (assigned ⟨0, true, 0⟩
      [{ opc := .write, rcId := 1 }, { opc := .write, rcId := 2 }]) := by
  intro consecutive
  have second := consecutive 2
  revert second
  decide +kernel

end OpenURMA.Verbs
