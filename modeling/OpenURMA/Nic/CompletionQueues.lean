import OpenURMA.Library.Run
import OpenURMA.Nic.Posting

/-!
# Completion queues

`dp_push_cqe` queues a completion under the id of its JFC; `k_poll_jfc` reads it through one of 512
windows of the aperture, given by the low nine bits of the id. As long as only JFCs with a window of
their own are polled and no queue overflows, polling a JFC returns what was pushed for it.

A poll keeps nothing from one completion to the next but their number. So a poll during which
completions come in is two polls with the pushes between them.
-/

namespace OpenURMA.Nic

open Library Function Cqe List Nat

/-- The data plane and `jfc_cq_cur_`: the completions being read. -/
structure Cq where
  node : Node
  cur : U32 → List Byte

def lane0 (cqe : List Byte) : U64 := littleEndian (cqe.take 8)

/-- The read of a first lane: the next completion of the JFC, if there is one, is taken. -/
def Cq.pop (cq : Cq) (jfcId : U32) : Cq :=
  match (cq.node.jfcCq jfcId).dropWhile (lane0 · == 0) with
  | [] =>
    { node := { cq.node with jfcCq := update cq.node.jfcCq jfcId [] }
      cur := update cq.cur jfcId (replicate 64 0) }
  | cqe :: q =>
    { node := { cq.node with jfcCq := update cq.node.jfcCq jfcId q }
      cur := update cq.cur jfcId cqe }

/-- `mmio_b` for a read of eight octets from the completion windows. -/
def Cq.read (cq : Cq) (off : ℕ) : Cq × U64 :=
  if 0x4000 ≤ off ∧ off < 0x4000 + 0x200 * 0x40 then
    let jfcId := BitVec.ofNat 32 ((off - 0x4000) / 0x40)
    let cqOff := (off - 0x4000) % 0x40
    let cq := if cqOff = 0 then cq.pop jfcId else cq
    (cq, littleEndian (((cq.cur jfcId).drop cqOff).take 8))
  else (cq, 0)

inductive CrStatus where
  | success
  | wrFlushErr
  deriving DecidableEq

/-- What `k_poll_jfc` sets of a `urma_cr_t`. -/
structure Cr where
  status : CrStatus
  completionLen : U32
  userCtx : U64
  sR : U8
  opcode : U8
  immData : U32
  deriving DecidableEq

def Cr.ofLanes (l0 w1 uctx w3 : U64) : Cr :=
  let op := Library.octet 0 w1
  let sR := Library.octet 8 w1
  let immValid := Library.octet 16 w1
  { status := if l0.setWidth 32 == (0x1 : U32) then .success else .wrFlushErr
    completionLen := (l0 >>> 32).setWidth 32
    userCtx := uctx
    sR
    opcode := if sR != 0 then op else 0
    immData := if immValid != 0 then w3.setWidth 32 else 0 }

def kPollJfc (jfc : U32) : ℕ → Cq → Cq × List Cr
  | 0, cq => (cq, [])
  | crCnt + 1, cq =>
    let base := 0x4000 + (jfc &&& 0x1FF).toNat * 0x40
    let (cq, l0) := cq.read base
    if l0 = 0 then (cq, [])
    else
      let (cq, w1) := cq.read (base + 8)
      let (cq, uctx) := cq.read (base + 16)
      let (cq, w3) := cq.read (base + 24)
      let (cq, crs) := kPollJfc jfc crCnt cq
      (cq, Cr.ofLanes l0 w1 uctx w3 :: crs)

def Cqe.report (c : Cqe) : Cr :=
  { status := if c.ok then .success else .wrFlushErr
    completionLen := c.len
    userCtx := c.userCtx
    sR := if c.recv then 1 else 0
    opcode := if c.recv then c.op else 0
    immData := if c.immValid then c.imm else 0 }

section

variable (c : Cqe)

def Cqe.lane (c : Cqe) (k : ℕ) : U64 := littleEndian ((c.encode.drop (8 * k)).take 8)

theorem Cqe.lane_zero : c.lane 0 = lanePair (if c.ok then 0x1 else 0x2) c.len := by
  have octets : (c.encode.drop (8 * 0)).take 8 =
      wordOctets ((c.len.setWidth 64 <<< 32) ||| (if c.ok then 0x1 else 0x2)) := rfl
  rw [lane, octets, littleEndian_wordOctets, lanePair, BitVec.or_comm]
  cases c.ok with
  | false => rfl
  | true => rfl

theorem Cqe.lane_one : c.lane 1 =
    littleEndian [c.op, if c.recv then 1 else 0, if c.immValid then 1 else 0, 0, 0, 0, 0, 0] := rfl

theorem Cqe.lane_two : c.lane 2 = c.userCtx := by
  have octets : (c.encode.drop (8 * 2)).take 8 = wordOctets c.userCtx := rfl
  rw [lane, octets, littleEndian_wordOctets]

theorem Cqe.lane_three : (c.lane 3).setWidth 32 = c.imm := by
  have octets : (c.encode.drop (8 * 3)).take 8 = octets32 c.imm ++ replicate 4 0 := rfl
  rw [lane, octets, littleEndian_append_zeros, littleEndian_octets32]

theorem Cqe.lane_zero_ne : c.lane 0 ≠ 0 := by
  intro zero
  have low : (c.lane 0).setWidth 32 = if c.ok then (0x1 : U32) else 0x2 := by
    rw [lane_zero, lanePair_low]
  rw [zero] at low
  cases ok : c.ok with
  | false => simp [ok] at low
  | true => simp [ok] at low

theorem Cqe.ofLanes_encode :
    Cr.ofLanes (c.lane 0) (c.lane 1) (c.lane 2) (c.lane 3) = c.report := by
  have octets {position : ℕ} (within : position < 8) : Library.octet (8 * position) (c.lane 1) =
      [c.op, if c.recv then 1 else 0, if c.immValid then 1 else 0, 0, 0, 0, 0, 0].getD
        position 0 := by
    rw [lane_one, octet_littleEndian _ within]
  have op := octets (show 0 < 8 by omega)
  have recv := octets (show 1 < 8 by omega)
  have immValid := octets (show 2 < 8 by omega)
  simp only [Nat.reduceMul, getD_cons_succ, getD_cons_zero] at op recv immValid
  simp only [Cr.ofLanes, report, op, recv, immValid, lane_two, lane_three, lane_zero, lanePair_low,
    lanePair_high]
  cases c.ok <;> cases c.recv <;> cases c.immValid <;> rfl

end

section

variable {cq : Cq} {jfc : U32} {c : Cqe} {waiting : List Cqe}

def window (jfc : U32) : U32 := jfc &&& 0x1FF

theorem window_lt (jfc : U32) : (window jfc).toNat < 512 := by
  have low : (window jfc).toNat ≤ (0x1FF : U32).toNat := by
    rw [window, BitVec.toNat_and]
    exact and_le_right
  exact lt_succ_of_le low

theorem window_of_lt (small : jfc.toNat < 512) : window jfc = jfc := by
  apply BitVec.eq_of_toNat_eq
  rw [window, BitVec.toNat_and]
  exact (and_two_pow_sub_one_eq_mod jfc.toNat 9).trans (mod_eq_of_lt small)

theorem Cq.read_lane (cq : Cq) (jfc : U32) {k : ℕ} (inside : k < 8) :
    cq.read (0x4000 + (jfc &&& 0x1FF).toNat * 0x40 + 8 * k) =
      let cq := if k = 0 then cq.pop (window jfc) else cq
      (cq, littleEndian (((cq.cur (window jfc)).drop (8 * k)).take 8)) := by
  have low := window_lt jfc
  unfold window at low
  have offset : 0x4000 + (jfc &&& 0x1FF).toNat * 0x40 + 8 * k - 0x4000 =
      8 * k + 0x40 * (jfc &&& 0x1FF).toNat := by omega
  have lane : (8 * k + 0x40 * (jfc &&& 0x1FF).toNat) % 0x40 = 8 * k := by omega
  have slot : (8 * k + 0x40 * (jfc &&& 0x1FF).toNat) / 0x40 = (jfc &&& 0x1FF).toNat := by omega
  have first : 8 * k = 0 ↔ k = 0 := by omega
  rw [read, if_pos (by omega), offset, lane, slot]
  simp only [BitVec.ofNat_toNat, BitVec.setWidth_eq, first]
  rfl

theorem Cq.pop_nil (empty : cq.node.jfcCq jfc = []) :
    (cq.pop jfc).node = cq.node ∧ (cq.pop jfc).cur jfc = replicate 64 0 := by
  have same : update cq.node.jfcCq jfc [] = cq.node.jfcCq := by
    rw [← empty, update_eq_self]
  simp only [pop, empty, dropWhile_nil, same, update_self, and_self]

theorem Cq.pop_cons {q : List (List Byte)} (queue : cq.node.jfcCq jfc = c.encode :: q) :
    cq.pop jfc =
      { node := { cq.node with jfcCq := update cq.node.jfcCq jfc q }
        cur := update cq.cur jfc c.encode } := by
  have valid : (lane0 c.encode == 0) = false := beq_eq_false_iff_ne.mpr c.lane_zero_ne
  simp only [pop, queue, dropWhile_cons, valid, Bool.false_eq_true, if_false]

theorem kPollJfc_cons {q : List (List Byte)} (queue : cq.node.jfcCq (window jfc) = c.encode :: q)
    (crCnt : ℕ) :
    kPollJfc jfc (crCnt + 1) cq = ((kPollJfc jfc crCnt (cq.pop (window jfc))).1,
        c.report :: (kPollJfc jfc crCnt (cq.pop (window jfc))).2) := by
  have cur : (cq.pop (window jfc)).cur (window jfc) = c.encode := by
    rw [Cq.pop_cons queue]
    exact update_self ..
  have first : cq.read (0x4000 + (jfc &&& 0x1FF).toNat * 0x40) =
      (cq.pop (window jfc), c.lane 0) := by
    have read := cq.read_lane jfc (show 0 < 8 by omega)
    simp only [mul_zero, add_zero, if_true, cur] at read
    exact read
  have later (k : ℕ) (inside : k < 8) (positive : k ≠ 0) :
      (cq.pop (window jfc)).read (0x4000 + (jfc &&& 0x1FF).toNat * 0x40 + 8 * k) =
        (cq.pop (window jfc), c.lane k) := by
    rw [Cq.read_lane _ _ inside]
    simp only [if_neg positive, cur]
    rfl
  rw [kPollJfc]
  simp only [first, if_neg c.lane_zero_ne, later 1 (by omega) (by omega),
    later 2 (by omega) (by omega), later 3 (by omega) (by omega), c.ofLanes_encode]

theorem kPollJfc_waiting (crCnt : ℕ) (queue : cq.node.jfcCq (window jfc) = waiting.map Cqe.encode) :
    (kPollJfc jfc crCnt cq).2 = (waiting.take crCnt).map report ∧
      (kPollJfc jfc crCnt cq).1.node.jfcCq =
        update cq.node.jfcCq (window jfc) ((waiting.drop crCnt).map Cqe.encode) := by
  induction crCnt generalizing cq waiting with
  | zero =>
    rw [drop_zero, ← queue, update_eq_self]
    exact ⟨rfl, rfl⟩
  | succ crCnt ih =>
    cases waiting with
    | nil =>
      obtain ⟨node, cur⟩ := Cq.pop_nil queue
      have read := cq.read_lane jfc (show 0 < 8 by omega)
      simp only [mul_zero, add_zero, if_true, cur] at read
      have stop : kPollJfc jfc (crCnt + 1) cq = (cq.pop (window jfc), []) := by
        rw [kPollJfc]
        simp only [read]
        rfl
      rw [stop, node, drop_nil, ← queue, update_eq_self]
      exact ⟨rfl, rfl⟩
    | cons c waiting =>
      have popped := Cq.pop_cons queue
      have rest : (cq.pop (window jfc)).node.jfcCq (window jfc) = waiting.map Cqe.encode := by
        rw [popped]
        exact update_self ..
      obtain ⟨crs, left⟩ := ih rest
      rw [kPollJfc_cons queue, crs, left, popped, update_idem]
      exact ⟨rfl, rfl⟩

end

inductive CqCall where
  | push (jfc : U32) (c : Cqe)
  | poll (jfc : U32) (crCnt : ℕ)

def Cq.step : Mealy Cq CqCall (List (U32 × Cr))
  | cq, .push jfc c => ({ cq with node := cq.node.pushCqe jfc c }, [])
  | cq, .poll jfc crCnt => ((kPollJfc jfc crCnt cq).1, (kPollJfc jfc crCnt cq).2.map (Prod.mk jfc))

def pushedFor (jfc : U32) (calls : List CqCall) : List Cqe :=
  calls.filterMap fun
    | .push id c => if id = jfc then some c else none
    | .poll _ _ => none

def returnedFor (jfc : U32) (trace : List (List (U32 × Cr))) : List Cr :=
  (trace.flatten.filter (·.1 = jfc)).map Prod.snd

/-- The queue of a JFC has room for the completion; the JFC that is polled has a window. -/
def Cq.Meets (cq : Cq) : CqCall → Prop
  | .push jfc _ => (cq.node.jfcCq jfc).length < 256
  | .poll jfc _ => jfc.toNat < 512

instance (cq : Cq) : (call : CqCall) → Decidable (cq.Meets call)
  | .push _ _ => inferInstanceAs (Decidable (_ < _))
  | .poll _ _ => inferInstanceAs (Decidable (_ < _))

variable {cq : Cq} {jfc id : U32} {c : Cqe} {calls : List CqCall}

def Tracked (pushed : List Cqe) (returned : List Cr) (queue : List (List Byte)) : Prop :=
  ∃ taken waiting, pushed = taken ++ waiting ∧ returned = taken.map report ∧
    queue = waiting.map Cqe.encode

variable {pushed : List Cqe} {returned : List Cr} {queue : List (List Byte)}

theorem Tracked.push {returned : List Cr} (tracked : Tracked pushed returned queue) (c : Cqe) :
    Tracked (pushed ++ [c]) returned (queue ++ [c.encode]) := by
  obtain ⟨taken, waiting, rfl, rfl, rfl⟩ := tracked
  exact ⟨taken, waiting ++ [c], by simp, rfl, by simp⟩

theorem Tracked.waiting (tracked : Tracked pushed returned queue) :
    returned = (pushed.take returned.length).map report ∧
      queue = (pushed.drop returned.length).map Cqe.encode := by
  obtain ⟨taken, waiting, rfl, rfl, rfl⟩ := tracked
  simp

theorem Tracked.poll (tracked : Tracked pushed returned queue) (count : ℕ) :
    Tracked pushed (returned ++ ((pushed.drop returned.length).take count).map report)
      (((pushed.drop returned.length).drop count).map Cqe.encode) := by
  obtain ⟨taken, waiting, rfl, rfl, rfl⟩ := tracked
  exact ⟨taken ++ waiting.take count, waiting.drop count, by simp, by simp, by simp⟩

theorem pushedFor_snoc_push : pushedFor jfc (calls ++ [.push id c]) =
    pushedFor jfc calls ++ if id = jfc then [c] else [] := by
  rw [pushedFor, filterMap_append]
  by_cases same : id = jfc <;> simp [pushedFor, same]

theorem pushedFor_snoc_poll {crCnt : ℕ} : pushedFor jfc (calls ++ [.poll id crCnt]) =
    pushedFor jfc calls := by
  rw [pushedFor, filterMap_append]
  simp [pushedFor]

theorem returnedFor_snoc (trace : List (List (U32 × Cr))) (crs : List Cr) :
    returnedFor jfc (trace ++ [crs.map (Prod.mk id)]) =
      returnedFor jfc trace ++ if id = jfc then crs else [] := by
  rw [returnedFor, flatten_append, filter_append, map_append]
  by_cases same : id = jfc <;> simp [returnedFor, same, filter_map, comp_def]

theorem pushCqe_of_room {n : Node} (room : (n.jfcCq id).length < 256) :
    (n.pushCqe id c).jfcCq = update n.jfcCq id (n.jfcCq id ++ [c.encode]) := by
  have short : ¬(n.jfcCq id ++ [c.encode]).length > 256 := by
    rw [length_append, length_singleton]
    omega
  rw [Node.pushCqe, if_neg short]

theorem kPollJfc_tracked (crCnt : ℕ) (small : jfc.toNat < 512)
    (tracked : Tracked pushed returned (cq.node.jfcCq jfc)) :
    (kPollJfc jfc crCnt cq).2 = ((pushed.drop returned.length).take crCnt).map report ∧
      (kPollJfc jfc crCnt cq).1.node.jfcCq = update cq.node.jfcCq jfc
        (((pushed.drop returned.length).drop crCnt).map Cqe.encode) := by
  have queue : cq.node.jfcCq (window jfc) = (pushed.drop returned.length).map Cqe.encode := by
    rw [window_of_lt small]
    exact tracked.waiting.2
  obtain ⟨crs, left⟩ := kPollJfc_waiting crCnt queue
  rw [window_of_lt small] at left
  exact ⟨crs, left⟩

theorem tracked_run (empty : ∀ jfc, cq.node.jfcCq jfc = [])
    (meets : Along Cq.step.next Cq.Meets cq calls) (jfc : U32) :
    Tracked (pushedFor jfc calls) (returnedFor jfc (Cq.step.trace cq calls))
      ((Cq.step.final cq calls).node.jfcCq jfc) := by
  induction calls using reverseRecOn generalizing jfc with
  | nil => exact ⟨[], [], rfl, rfl, empty jfc⟩
  | append_singleton calls call ih =>
    obtain ⟨before, here, -⟩ := along_append.mp meets
    have tracked := ih before
    rw [Mealy.trace_append, Mealy.final_snoc]
    cases call with
    | push id c =>
      have room : ((Cq.step.final cq calls).node.jfcCq id).length < 256 := here
      have returned : returnedFor jfc (Cq.step.trace cq calls ++ [[]]) =
          returnedFor jfc (Cq.step.trace cq calls) := by
        simp [returnedFor]
      change Tracked _ (returnedFor jfc (Cq.step.trace cq calls ++ [[]]))
        (((Cq.step.final cq calls).node.pushCqe id c).jfcCq jfc)
      rw [pushedFor_snoc_push, returned, pushCqe_of_room room]
      by_cases same : id = jfc
      · rw [if_pos same, same, update_self]
        exact (tracked jfc).push c
      · rw [if_neg same, append_nil, update_of_ne (Ne.symm same)]
        exact tracked jfc
    | poll id crCnt =>
      obtain ⟨crs, left⟩ := kPollJfc_tracked crCnt here (tracked id)
      change Tracked _ (returnedFor jfc (Cq.step.trace cq calls ++
          [(kPollJfc id crCnt (Cq.step.final cq calls)).2.map (Prod.mk id)]))
        ((kPollJfc id crCnt (Cq.step.final cq calls)).1.node.jfcCq jfc)
      rw [pushedFor_snoc_poll, returnedFor_snoc, crs, left]
      by_cases same : id = jfc
      · rw [if_pos same, same, update_self]
        exact (tracked jfc).poll crCnt
      · rw [if_neg same, append_nil, update_of_ne (Ne.symm same)]
        exact tracked jfc

/-- A poll returns the completions pushed for the JFC that have not been returned yet, oldest
first, up to the number asked for. -/
theorem polls_return_pushed (cq : Cq) (calls : List CqCall) (jfc : U32) (crCnt : ℕ)
    (empty : ∀ jfc, cq.node.jfcCq jfc = [])
    (meets : Along Cq.step.next Cq.Meets cq (calls ++ [.poll jfc crCnt])) :
    let pushed := pushedFor jfc calls
    let returned := returnedFor jfc (Cq.step.trace cq calls)
    returned = (pushed.take returned.length).map report ∧
      (kPollJfc jfc crCnt (Cq.step.final cq calls)).2 =
        ((pushed.drop returned.length).take crCnt).map report := by
  obtain ⟨before, small, -⟩ := along_append.mp meets
  have tracked := tracked_run empty before jfc
  exact ⟨tracked.waiting.1, (kPollJfc_tracked crCnt small tracked).1⟩

def idleCq : Cq where
  node :=
    { guest := ⟨[], fun _ => none⟩
      memory := fun _ => 0
      pi := false
      hasPeer := false
      recvQ := []
      pendingSendQ := []
      jfcCq := fun _ => [] }
  cur := fun _ => []

/-- The send completion of a WRITE of eight octets. -/
def writeCqe : Cqe := ⟨8, 0x00, 0x77, false, false, 0, true⟩

def twoJfcs : List CqCall := [.push 3 writeCqe, .push 4 writeCqe, .push 3 writeCqe, .poll 3 1]

theorem polls_return_pushed_twoJfcs :
    Along Cq.step.next Cq.Meets idleCq (twoJfcs ++ [.poll 3 2]) ∧
      (kPollJfc 3 2 (Cq.step.final idleCq twoJfcs)).2 = [writeCqe.report] := by
  have meets : Along Cq.step.next Cq.Meets idleCq (twoJfcs ++ [.poll 3 2]) := by
    decide +kernel
  refine ⟨meets, (polls_return_pushed idleCq twoJfcs 3 2 (fun _ => rfl) meets).2.trans ?_⟩
  decide +kernel

/-- A JFC without a window of its own returns the completions of another. -/
theorem poll_returns_others :
    let calls : List CqCall := [.push 0 writeCqe]
    let returned := returnedFor 512 (Cq.step.trace idleCq calls)
    (kPollJfc 512 1 (Cq.step.final idleCq calls)).2 ≠
      (((pushedFor 512 calls).drop returned.length).take 1).map report := by
  decide +kernel

end OpenURMA.Nic
