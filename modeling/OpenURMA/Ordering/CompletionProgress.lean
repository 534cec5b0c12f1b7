import Mathlib.Data.List.Perm.Basic
import Mathlib.Data.List.Perm.Subperm
import OpenURMA.Library.Run
import OpenURMA.Ordering.CompletionReorder

/-!
# Completions that are withheld or lost

The element releases at most one held completion in a call and none in a call without a flit, and it
drops what lies outside the window; completions that the initiator does not want in order leave gaps
that are never filled. The runs in which all completions are released in the end are characterised
exactly.
-/

namespace OpenURMA.CompletionReorder

open Library UbMeta Ports List Nat Bool
open Prod (fst snd)

def aim (cur : Option (Fin 16)) (f : Flit) : Option (Fin 16) :=
  if f.sop then if odrCompl.get f then some (metaSlot f) else none else cur

/-- The number of calls in which a slot is drained: the calls with a flit of a packet whose
metadata flit is held for the slot. -/
def chances (i : Fin 16) : Option (Fin 16) → List (Option Flit) → ℕ
  | _, [] => 0
  | cur, none :: inputs => chances i cur inputs
  | cur, some f :: inputs => (aim cur f == some i).toNat + chances i (aim cur f) inputs

def Received (i : Fin 16) (h : Recorded) (input : Option Flit) : Prop :=
  ∀ f ∈ input, isHeld i f = true →
    ∃ n ∈ windowNumber (released i h.outs).length f, n ∉ h.got.map fst
deriving Decidable

def heldInputs (i : Fin 16) (inputs : List (Option Flit)) : List Flit :=
  inputs.reduceOption.filter (isHeld i)

/-- As long as number `j` has not been received, the calls still to come in which the slot is
drained suffice to release `j` and all that follow. -/
def InTime (i : Fin 16) (memory : Fin 16 → Fin 8 → Flit) (inputs : List (Option Flit)) : Prop :=
  ∀ k ≤ inputs.length, ∀ j < (heldInputs i inputs).length,
    j ∉ (receipts i memory (inputs.take k)).map fst →
      (heldInputs i inputs).length ≤
        j + chances i (step.final (init memory) (inputs.take k)).curIdx (inputs.drop k)

instance (i : Fin 16) (memory : Fin 16 → Fin 8 → Flit) (inputs : List (Option Flit)) :
    Decidable (InTime i memory inputs) :=
  inferInstanceAs (Decidable (∀ k ≤ inputs.length, ∀ j < _, _))

/-- Some number of calls without input after which every metadata flit has been sent, each
once. -/
def AllReleased (memory : Fin 16 → Fin 8 → Flit) (inputs : List (Option Flit)) : Prop :=
  ∃ k, ((Ports.sent 1 (step.trace (init memory) (inputs ++ replicate k none))).filter
    Flit.sop).Perm (inputs.reduceOption.filter Flit.sop)

variable {i : Fin 16} {h : Recorded} {input : Option Flit} {inputs : List (Option Flit)}
variable {memory : Fin 16 → Fin 8 → Flit}

theorem curIdx_receive (s : State) (f : Flit) : (receive s f).1.curIdx = aim s.curIdx f := by
  unfold receive aim
  split
  · cases odrCompl.get f <;> rfl
  · split
    · dsimp only
      cases s.curIdx <;> rfl
    · rfl

theorem curIdx_drain (s : State) (out : Option Flit) : (drain s out).1.curIdx = s.curIdx := by
  unfold drain
  split
  · rfl
  · dsimp only
    split <;> rfl

theorem curIdx_step (s : State) (f : Flit) : (step s (some f)).1.curIdx = aim s.curIdx f :=
  (curIdx_drain _ _).trans (curIdx_receive s f)

section

variable {s : State} {outs : List Flit} {got : List (ℕ × Flit)} {out : Option Flit}

theorem valid_iff (inWindow : InWindow i ⟨s, outs, got⟩) :
    (s.ini i).validA (s.ini i).head = true ↔ (released i outs).length ∈ got.map fst := by
  have first := inWindow.holds.get 0 (by decide)
  rw [add_zero, SlidingRing.get, SlidingRing.place_zero] at first
  change (if (s.ini i).validA (s.ini i).head then some _ else none) = _ at first
  rw [← latest_isSome, ← first]
  cases (s.ini i).validA (s.ini i).head <;> simp

theorem length_drain (inWindow : InWindow i ⟨s, outs, got⟩) (placed : Placed s)
    (passes : ∀ f ∈ out, isHeld i f = false) :
    (s.curIdx = some i ∧ (released i outs).length ∈ got.map fst ∧
        (released i (outs ++ (drain s out).2.toList)).length = (released i outs).length + 1) ∨
      (¬ (s.curIdx = some i ∧ (released i outs).length ∈ got.map fst) ∧
        (released i (outs ++ (drain s out).2.toList)).length = (released i outs).length) := by
  have skips : ∀ o : Option Flit, (∀ f ∈ o, isHeld i f = false) →
      (released i (outs ++ o.toList)).length = (released i outs).length := by
    intro o notHeld
    cases o with
    | none => simp
    | some f => simp [released, notHeld f rfl]
  unfold drain
  cases here : s.curIdx with
  | none => exact .inr ⟨by simp, skips out passes⟩
  | some idx =>
    dsimp only
    by_cases same : idx = i
    · subst same
      by_cases valid : (s.ini idx).validA (s.ini idx).head = true
      · have held : isHeld idx ((s.ini idx).fa (s.ini idx).head) = true :=
          placed idx _ _ (if_pos valid)
        rw [if_pos valid]
        exact .inl ⟨rfl, (valid_iff inWindow).mp valid, by simp [released, held]⟩
      · rw [if_neg valid]
        exact .inr ⟨fun due => valid ((valid_iff inWindow).mpr due.2), skips out passes⟩
    · refine .inr ⟨by simp [same], ?_⟩
      split
      · next valid =>
        refine skips _ fun f member => ?_
        rw [← Option.some.inj member, eq_false_iff]
        intro held
        have own := placed idx (s.ini idx).head _ (if_pos valid)
        exact same ((slot_of_isHeld own).symm.trans (slot_of_isHeld held))
      · exact skips out passes

end

theorem length_record (inWindow : InWindow i h) (placed : Placed h.state) (f : Flit) :
    (aim h.state.curIdx f = some i ∧
        (released i h.outs).length ∈ (record i h (some f)).got.map fst ∧
        (released i (record i h (some f)).outs).length = (released i h.outs).length + 1) ∨
      (¬ (aim h.state.curIdx f = some i ∧
          (released i h.outs).length ∈ (record i h (some f)).got.map fst) ∧
        (released i (record i h (some f)).outs).length = (released i h.outs).length) := by
  have drained := length_drain (InWindow.receive inWindow f) (placed.receive f)
    (passes_of_receive i h.state f)
  rw [curIdx_receive] at drained
  simpa only [record, step, ofOption_same] using drained

theorem mem_got_of_lt (inWindow : InWindow i h) {j : ℕ} (earlier : j < (released i h.outs).length) :
    j ∈ h.got.map fst := by
  have last := inWindow.sent j _ (getElem?_eq_getElem earlier)
  exact mem_map_of_mem (f := fst) (mem_of_latest last)

/-- A call in which the slot is drained releases a completion, unless the next number has not
been received. -/
theorem chances_record (inWindow : InWindow i h) (placed : Placed h.state) (input : Option Flit)
    (inputs : List (Option Flit)) :
    ∃ chance, chances i h.state.curIdx (input :: inputs) =
        chance + chances i (record i h input).state.curIdx inputs ∧
      ((released i (record i h input).outs).length = (released i h.outs).length + chance ∨
        (released i (record i h input).outs).length = (released i h.outs).length ∧
          (released i h.outs).length ∉ (record i h input).got.map fst) := by
  cases input with
  | none => exact ⟨0, (zero_add _).symm, .inl (by simp [record, step])⟩
  | some f =>
    have aimed : (record i h (some f)).state.curIdx = aim h.state.curIdx f :=
      curIdx_step h.state f
    refine ⟨(aim h.state.curIdx f == some i).toNat, by rw [aimed]; rfl, ?_⟩
    rcases length_record inWindow placed f with ⟨here, -, more⟩ | ⟨notDue, same⟩
    · exact .inl (by simp [here, more])
    · by_cases here : aim h.state.curIdx f = some i
      · exact .inr ⟨same, fun received => notDue ⟨here, received⟩⟩
      · exact .inl (by simp [here, same])

/-- At least `count` completions are released in the end exactly if there are calls enough for
them, now and whenever a number below `count` is missing. -/
theorem released_iff_inTime (count : ℕ) (inputs : List (Option Flit)) (inWindow : InWindow i h)
    (placed : Placed h.state) :
    count ≤ (released i (inputs.foldl (record i) h).outs).length ↔
      count ≤ (released i h.outs).length + chances i h.state.curIdx inputs ∧
        ∀ k ≤ inputs.length, ∀ j < count, j ∉ ((inputs.take k).foldl (record i) h).got.map fst →
            count ≤ j + chances i ((inputs.take k).foldl (record i) h).state.curIdx
              (inputs.drop k) := by
  induction inputs generalizing h with
  | nil =>
    refine ⟨fun enough => ⟨enough, fun k _ j below missing => ?_⟩, fun both => both.1⟩
    rw [take_nil] at missing
    exact absurd (mem_got_of_lt inWindow (by simpa using below.trans_le enough)) missing
  | cons input inputs ih =>
    obtain ⟨chance, split, count_next⟩ := chances_record inWindow placed input inputs
    rw [foldl_cons, ih (inWindow.record placed input) (placed_step placed input), split]
    constructor
    · rintro ⟨enough, after⟩
      refine ⟨by omega, fun k short j below missing => ?_⟩
      cases k with
      | zero =>
        have late : (released i h.outs).length ≤ j := by
          by_contra early
          exact missing (mem_got_of_lt inWindow (not_le.mp early))
        change count ≤ j + chances i h.state.curIdx (input :: inputs)
        omega
      | succ k => exact after k (by simpa using short) j below missing
    · rintro ⟨enough, all⟩
      refine ⟨?_, fun k short j below missing =>
        all (k + 1) (by simpa using short) j below missing⟩
      rcases count_next with next | ⟨next, missing⟩
      · omega
      · by_cases below : (released i h.outs).length < count
        · have enoughLater := all 1 (by simp) _ below missing
          change count ≤ _ + chances i (record i h input).state.curIdx inputs at enoughLater
          omega
        · omega

theorem mem_inputs_of_got (inputs : List (Option Flit)) (h : Recorded) :
    ∀ e ∈ (inputs.foldl (record i) h).got, e ∈ h.got ∨ some e.2 ∈ inputs := by
  induction inputs generalizing h with
  | nil => exact fun e member => .inl member
  | cons input inputs ih =>
    intro e member
    rcases ih (record i h input) e member with earlier | later
    · rcases mem_append.mp earlier with old | new
      · exact .inl old
      · rw [Option.mem_toList, receipt, Option.bind_eq_some_iff] at new
        obtain ⟨f, found, new⟩ := new
        obtain ⟨n, -, rfl⟩ := Option.map_eq_some_iff.mp new
        have here : input = some f := (Option.filter_eq_some_iff.mp found).1
        exact .inr (by simp [here])
    · exact .inr (mem_cons_of_mem _ later)

theorem heldInputs_cons (input : Option Flit) (inputs : List (Option Flit)) :
    heldInputs i (input :: inputs) = (input.filter (isHeld i)).toList ++ heldInputs i inputs := by
  cases input with
  | none => rw [heldInputs, reduceOption_cons_of_none]; rfl
  | some f =>
    rw [heldInputs, reduceOption_cons_of_some, filter_cons]
    cases held : isHeld i f <;> simp [Option.filter, held, heldInputs]

/-- The flits received are some of the held completions; with all of them received they are all,
under numbers of their own. -/
theorem got_sublist (inputs : List (Option Flit)) (h : Recorded) :
    ∃ more, (inputs.foldl (record i) h).got = h.got ++ more ∧
      (more.map snd).Sublist (heldInputs i inputs) := by
  induction inputs generalizing h with
  | nil => exact ⟨[], by simp, by simp [heldInputs]⟩
  | cons input inputs ih =>
    obtain ⟨more, got, sublist⟩ := ih (record i h input)
    refine ⟨(receipt i h.outs input).toList ++ more, ?_, ?_⟩
    · rw [foldl_cons, got, record, append_assoc]
    · rw [heldInputs_cons, map_append]
      refine Sublist.append ?_ sublist
      rw [receipt]
      cases input.filter (isHeld i) with
      | none => simp
      | some f =>
        rw [Option.bind_some]
        cases windowNumber (released i h.outs).length f <;> simp

variable {f : Flit}

theorem receipt_of_held (outs : List Flit) (held : isHeld i f = true) :
    receipt i outs (some f) = (windowNumber (released i outs).length f).map fun n => (n, f) := by
  simp [receipt, Option.filter, held]

/-- A call takes in at most one held completion; it takes it in under a number of its own exactly
if it is received. -/
theorem received_record (h : Recorded) (input : Option Flit) (nodup : (h.got.map fst).Nodup) :
    Received i h input ↔ ((record i h input).got.map fst).Nodup ∧
      (record i h input).got.length = h.got.length + (input.filter (isHeld i)).toList.length := by
  cases input with
  | none => simp [Received, record, receipt, nodup]
  | some f =>
    rw [record]
    cases held : isHeld i f with
    | false => simp [Received, held, receipt, Option.filter, nodup]
    | true =>
      rw [receipt_of_held _ held]
      cases found : windowNumber (released i h.outs).length f with
      | none => simp [Received, held, found, Option.filter]
      | some n =>
        have extended : ((h.got ++ [(n, f)]).map fst).Nodup ↔
            n ∉ h.got.map fst := by
          rw [map_append, map_singleton, nodup_append_comm,
            singleton_append, nodup_cons]
          exact ⟨fun both => both.1, fun new => ⟨new, nodup⟩⟩
        simp only [Option.map_some, Option.toList_some, extended]
        simp [Received, held, found, Option.filter]

/-- All held completions are received under numbers of their own exactly if as many numbers have
been used in the end. -/
theorem received_iff (inputs : List (Option Flit)) (h : Recorded) (nodup : (h.got.map fst).Nodup) :
    Along (record i) (Received i) h inputs ↔ ((inputs.foldl (record i) h).got.map fst).Nodup ∧
        (inputs.foldl (record i) h).got.length = h.got.length + (heldInputs i inputs).length := by
  induction inputs generalizing h with
  | nil => simpa [Along, heldInputs] using nodup
  | cons input inputs ih =>
    rw [Along, foldl_cons, heldInputs_cons, length_append, ← add_assoc]
    constructor
    · rintro ⟨received, later⟩
      have here := (received_record h input nodup).mp received
      have whole := (ih (record i h input) here.1).mp later
      exact ⟨whole.1, whole.2.trans (congrArg (· + _) here.2)⟩
    · rintro ⟨distinct, length⟩
      obtain ⟨more, got, sublist⟩ := got_sublist (i := i) inputs (record i h input)
      have start : ((record i h input).got.map fst).Nodup := by
        rw [got, map_append] at distinct
        exact (nodup_append.mp distinct).1
      have fewer := sublist.length_le
      have atMost : (record i h input).got.length ≤
          h.got.length + (input.filter (isHeld i)).toList.length := by
        obtain ⟨one, gotOne, sublistOne⟩ := got_sublist (i := i) [input] h
        have small := sublistOne.length_le
        rw [heldInputs_cons] at small
        have same : (record i h input).got = h.got ++ one := gotOne
        rw [same, length_append]
        simpa [heldInputs] using small
      have total := congrArg List.length got
      rw [length_append] at total
      rw [length_map] at fewer
      refine ⟨(received_record h input nodup).mpr ⟨start, by omega⟩, ?_⟩
      exact (ih (record i h input) start).mpr ⟨distinct, by omega⟩

/-- What has been released is what was to be held exactly if all of it has been received, under
numbers of its own, and as much has been released. -/
theorem released_perm {held : List Flit} (inWindow : InWindow i h)
    (sublist : (h.got.map snd).Sublist held) :
    (released i h.outs).Perm held ↔ ((h.got.map fst).Nodup ∧ h.got.length = held.length) ∧
        held.length ≤ (released i h.outs).length := by
  have numbers : (range (released i h.outs).length).Subperm (h.got.map fst) :=
    subperm_of_subset nodup_range fun j member =>
      mem_got_of_lt inWindow (mem_range.mp member)
  have used := numbers.length_le
  have fewer := sublist.length_le
  rw [length_range, length_map] at used
  rw [length_map] at fewer
  constructor
  · intro perm
    have length := perm.length_eq
    have all := numbers.perm_of_length_le (by rw [length_map, length_range]; omega)
    exact ⟨⟨all.nodup_iff.mp nodup_range, by omega⟩, by omega⟩
  · rintro ⟨⟨nodup, length⟩, enough⟩
    have all := numbers.perm_of_length_le (by rw [length_map, length_range]; omega)
    have received : h.got.map snd = held := sublist.eq_of_length (by simpa using length)
    rw [← map_perm_map_iff (Option.some_injective Flit), released_eq_latest inWindow,
      ← received, map_map]
    have lasts : (h.got.map fst).map (latest h.got) = h.got.map (some ∘ snd) := by
      rw [map_map]
      exact map_congr_left fun e member => latest_of_nodup nodup member
    rw [← lasts]
    exact all.map _

theorem inTime_iff (i : Fin 16) (memory : Fin 16 → Fin 8 → Flit) (inputs : List (Option Flit)) :
    InTime i memory inputs ↔ (heldInputs i inputs).length ≤
      (released i (inputs.foldl (record i) (.start memory)).outs).length := by
  have start := inWindow_start i memory
  rw [released_iff_inTime _ inputs start.1 start.2]
  have states : ∀ k, ((inputs.take k).foldl (record i) (.start memory)).state =
      step.final (init memory) (inputs.take k) :=
    fun k => (foldl_record i (.start memory) _).1
  simp only [states]
  refine ⟨fun inTime => ⟨?_, inTime⟩, fun both => both.2⟩
  -- before the first call no number has been received
  rcases Nat.eq_zero_or_pos (heldInputs i inputs).length with none | some
  · rw [none]
    exact zero_le _
  · exact inTime 0 (zero_le _) 0 some not_mem_nil

theorem released_perm_iff (i : Fin 16) (memory : Fin 16 → Fin 8 → Flit)
    (inputs : List (Option Flit)) :
    (released i (Ports.sent 1 (step.trace (init memory) inputs))).Perm (heldInputs i inputs) ↔
      Along (record i) (Received i) (.start memory) inputs ∧ InTime i memory inputs := by
  have start := inWindow_start i memory
  have inWindow := (inWindow_run i inputs start.1 start.2).1
  have sent : (inputs.foldl (record i) (.start memory)).outs =
      Ports.sent 1 (step.trace (init memory) inputs) :=
    (foldl_record i (.start memory) inputs).2
  obtain ⟨more, got, sublist⟩ := got_sublist (i := i) inputs (.start memory)
  have all : (inputs.foldl (record i) (.start memory)).got = more := got
  rw [← sent, released_perm inWindow (all ▸ sublist), inTime_iff,
    received_iff inputs (.start memory) nodup_nil]
  simp [Recorded.start]

def isBypass (f : Flit) : Bool := f.sop && !odrCompl.get f

theorem bypass_of_isHeld (held : isHeld i f = true) : isBypass f = false := by
  simp only [isHeld, and_eq_true] at held
  simp [isBypass, held.1.2]

theorem bypass_step {s : State} (placed : Placed s) (input : Option Flit) :
    ((step s input).2 1).toList.filter isBypass = input.toList.filter isBypass := by
  cases input with
  | none => rfl
  | some f =>
    simp only [step, ofOption_same]
    have quiet : (receive s f).2 = none → isBypass f = false →
        (drain (receive s f).1 (receive s f).2).2.toList.filter isBypass =
          [f].filter isBypass := by
      intro none notBypass
      rw [none, drain]
      have placed' := placed.receive f
      split
      · simp [notBypass]
      · next idx _ =>
        dsimp only
        split
        · next valid =>
          have held := placed' idx _ _ (if_pos valid)
          simp [notBypass, bypass_of_isHeld held]
        · simp [notBypass]
    rcases receive_cases s f with ⟨held, none, -⟩ | ⟨-, -, ⟨none, inner⟩ | ⟨some, passes⟩⟩
    · exact quiet none (bypass_of_isHeld held)
    · exact quiet none (by simp [isBypass, inner])
    · rw [drain, passes, some]

theorem bypass_run (inputs : List (Option Flit)) {s : State} (placed : Placed s) :
    (Ports.sent 1 (step.trace s inputs)).filter isBypass = inputs.reduceOption.filter isBypass := by
  induction inputs generalizing s with
  | nil => rfl
  | cons input inputs ih =>
    rw [Mealy.trace_cons, Ports.sent_cons, filter_append, bypass_step placed,
      ih (placed_step placed input), ← filter_append]
    cases input with
    | none => rw [reduceOption_cons_of_none]; rfl
    | some f => rw [reduceOption_cons_of_some]; rfl

theorem metas_perm {fs : List Flit} (own : ∀ f ∈ fs, f.sop = true → metaSlot f = i) :
    (fs.filter isBypass ++ fs.filter (isHeld i)).Perm (fs.filter Flit.sop) := by
  have split := filter_append_perm (fun f => !odrCompl.get f) (fs.filter Flit.sop)
  have bypass : (fs.filter Flit.sop).filter (fun f => !odrCompl.get f) =
      fs.filter isBypass := by
    rw [filter_filter]
    exact filter_congr fun f _ => and_comm ..
  have held : (fs.filter Flit.sop).filter (fun f => !!odrCompl.get f) =
      fs.filter (isHeld i) := by
    rw [filter_filter]
    refine filter_congr fun f member => ?_
    rw [Bool.not_not, isHeld]
    cases sop : f.sop with
    | false => simp
    | true => simp [own f member sop]
  rw [bypass, held] at split
  exact split

theorem mem_inputs_of_sent (sop : f.sop = true)
    (member : f ∈ Ports.sent 1 (step.trace (init memory) inputs)) : some f ∈ inputs := by
  cases odr : odrCompl.get f with
  | false =>
    have bypass : f ∈ (Ports.sent 1 (step.trace (init memory) inputs)).filter isBypass :=
      mem_filter.mpr ⟨member, by simp [isBypass, sop, odr]⟩
    rw [bypass_run inputs (inWindow_start 0 memory).2] at bypass
    exact reduceOption_mem_iff.mp (mem_filter.mp bypass).1
  | true =>
    have start := inWindow_start (metaSlot f) memory
    have inWindow := (inWindow_run (metaSlot f) inputs start.1 start.2).1
    have held : f ∈ released (metaSlot f) _ :=
      mem_filter.mpr ⟨member, by simp [isHeld, sop, odr]⟩
    obtain ⟨j, found⟩ := mem_iff_getElem?.mp held
    have last := inWindow.sent j f (by rw [(foldl_record _ _ _).2]; exact found)
    rcases mem_inputs_of_got inputs _ _ (mem_of_latest last) with old | input
    · cases old
    · exact input

theorem sent_idle (k : ℕ) (s : State) (inputs : List (Option Flit)) :
    Ports.sent 1 (step.trace s (inputs ++ replicate k none)) =
      Ports.sent 1 (step.trace s inputs) := by
  rw [Mealy.trace_append, Ports.sent_append]
  have idle : ∀ state : State, Ports.sent 1 (step.trace state (replicate k none)) = [] := by
    induction k with
    | zero => exact fun _ => rfl
    | succ k ih =>
      intro state
      rw [replicate_succ, Mealy.trace_cons, Ports.sent_cons]
      exact ih _
  rw [idle, append_nil]

/-- All completions of an initiator are released, each once, exactly if every one with ODR[2] = 1 is
received in the window, under its own number, and in time. -/
theorem allReleased_iff (r : U32) (memory : Fin 16 → Fin 8 → Flit) (inputs : List (Option Flit))
    (only : ∀ f, some f ∈ inputs → f.sop = true → iniRcId.get f = r) :
    AllReleased memory inputs ↔
      Along (record (iniSlot r)) (Received (iniSlot r)) (.start memory) inputs ∧
        InTime (iniSlot r) memory inputs := by
  have own : ∀ f, some f ∈ inputs → f.sop = true → metaSlot f = iniSlot r :=
    fun f member sop => congrArg iniSlot (only f member sop)
  have sentMetas := metas_perm fun f (member : f ∈ Ports.sent 1 (step.trace (init memory) inputs))
    sop => own f (mem_inputs_of_sent sop member) sop
  have receivedMetas := metas_perm fun f (member : f ∈ inputs.reduceOption) sop =>
    own f (reduceOption_mem_iff.mp member) sop
  rw [bypass_run inputs (inWindow_start 0 memory).2] at sentMetas
  rw [← released_perm_iff, AllReleased]
  simp only [sent_idle, exists_const]
  refine ⟨fun perm => ?_, fun perm => ?_⟩
  · exact (perm_append_left_iff _).mp (sentMetas.trans (perm.trans receivedMetas.symm))
  · exact sentMetas.symm.trans ((perm.append_left _).trans receivedMetas)

/-- Two completions with ODR[2] = 1 in the wrong order, then one with ODR[2] = 0. -/
def timelyInputs : List (Option Flit) :=
  sampleCompletion 1 1 ++ sampleCompletion 1 0 ++ sampleCompletion 0 2

theorem allReleased_iff_timelyInputs :
    (Along (record 5) (Received 5) (.start fun _ _ => default) timelyInputs ∧
        InTime 5 (fun _ _ => default) timelyInputs) ∧
      AllReleased (fun _ _ => default) timelyInputs := by
  have meets : Along (record 5) (Received 5) (.start fun _ _ => default) timelyInputs ∧
      InTime 5 (fun _ _ => default) timelyInputs := by decide +kernel
  have only : ∀ f ∈ timelyInputs.reduceOption, f.sop = true → iniRcId.get f = 5 := by
    decide
  refine ⟨meets, (allReleased_iff 5 _ timelyInputs fun f member => ?_).mpr meets⟩
  exact only f (reduceOption_mem_iff.mpr member)

/-- Two completions of one flit with ODR[2] = 1 in the wrong order. -/
def withheldInputs : List (Option Flit) :=
  [some { lane3 := (1 <<< 34) + (1 <<< 16), sop := true, eop := true },
    some { lane3 := 1 <<< 34, sop := true, eop := true }]

/-- The completion of TASSN 1 is never released: no flit follows the one of TASSN 0. -/
theorem not_allReleased_withheldInputs : withheldInputs.reduceOption.map iniTassn.get = [1, 0] ∧
      (∀ f ∈ withheldInputs.reduceOption, isHeld 0 f = true ∧ iniRcId.get f = 0) ∧
      ¬ AllReleased (fun _ _ => default) withheldInputs := by
  refine ⟨by decide, by decide, ?_⟩
  rintro ⟨k, perm⟩
  rw [sent_idle] at perm
  exact absurd perm.length_eq (by decide +kernel)

end OpenURMA.CompletionReorder
