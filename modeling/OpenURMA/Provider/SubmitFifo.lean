import OpenURMA.Provider.Post

/-!
# The doorbell FIFO under a post

`ou_post_one` hands the two flits of a request to a FIFO of 1024 flits and returns `URMA_EAGAIN` if
either is refused: because it does not fit, or because the thread that serves the wire has marked a
failure.  If only the second one is refused, the first one stays in the FIFO.
-/

namespace OpenURMA.Provider

open Library

/-- `openurma_nic_submit_wr`; `failed` tells whether `fatal_errno` is set. -/
def submitWr (failed : Bool) (wrIn : List Flit) (f : Flit) : List Flit × Bool :=
  if failed then (wrIn, false)
  else if wrIn.length < 1024 then (wrIn ++ [f], true) else (wrIn, false)

/-- `ou_post_one` with the FIFO it writes to.  `first` and `second` are the flits of the request;
`failed` is the state of the wire when either is submitted. -/
def postInto (c : Ctx) (memory : ByteMap) (wr : JfsWr) (malloc send : Bool) (failed : Bool × Bool)
    (first second : Flit) (wrIn : List Flit) : (Ctx × Posting) × List Flit :=
  let one := submitWr failed.1 wrIn first
  let two := submitWr failed.2 one.1 second
  (ouPostOne c memory wr ⟨malloc, one.2, two.2, send⟩, if c.jetty.Full then wrIn
    else
      match (prepare c memory wr malloc).2 with
      | .error _ => wrIn
      | .ok _ => if one.2 then two.1 else wrIn)

/-- The request gets as far as the FIFO. -/
def Submits (c : Ctx) (memory : ByteMap) (wr : JfsWr) (malloc : Bool) : Prop :=
  ¬c.jetty.Full ∧ ∃ p, (prepare c memory wr malloc).2 = .ok p

/-- A post that is refused leaves the FIFO, the ring and the frames for the peer alone. -/
def LeavesNoTrace (c : Ctx) (wrIn : List Flit) (result : (Ctx × Posting) × List Flit) : Prop :=
  result.1.2.status ≠ .success →
    result.2 = wrIn ∧ result.1.1.jetty = c.jetty ∧ result.1.2.sent = []

section

variable {c : Ctx} {memory : ByteMap} {wr : JfsWr} {malloc send : Bool} {failed : Bool × Bool}
variable {first second : Flit} {wrIn : List Flit}

theorem ring_of_refused {o : Outcome} (refused : (ouPostOne c memory wr o).2.status ≠ .success) :
    (ouPostOne c memory wr o).1.jetty = c.jetty ∧ (ouPostOne c memory wr o).2.sent = [] := by
  have post := posts c memory wr o
  generalize ouPostOne c memory wr o = result at post refused ⊢
  cases post with
  | refused _ after =>
    refine ⟨?_, rfl⟩
    rcases after with rfl | rfl
    · rfl
    · exact jetty_numbered c wr.opcode
  | recorded => exact absurd rfl refused

theorem status_of_submits (submits : Submits c memory wr malloc) (o : Outcome)
    (same : o.malloc = malloc) :
    (ouPostOne c memory wr o).2.status ≠ .success ↔ (o.submitMeta && o.submitExt) = false := by
  obtain ⟨room, p, prepared⟩ := submits
  unfold ouPostOne
  rw [if_neg room, same]
  generalize prepare c memory wr malloc = result at prepared ⊢
  obtain ⟨c', decided⟩ := result
  subst prepared
  cases o.submitMeta && o.submitExt with
  | false => simp
  | true =>
    simp only [Bool.not_true, Bool.false_eq_true, if_false, ne_eq, reduceCtorEq, iff_false, not_not]
    split
    · rfl
    · split <;> rfl

theorem fifo_of_not_submits (stops : ¬Submits c memory wr malloc) :
    (postInto c memory wr malloc send failed first second wrIn).2 = wrIn := by
  unfold postInto
  dsimp only
  split
  · rfl
  · next room =>
    split
    · rfl
    · next p prepared => exact absurd ⟨room, p, prepared⟩ stops

theorem fifo_of_submits (submits : Submits c memory wr malloc) :
    (postInto c memory wr malloc send failed first second wrIn).2 =
      if (submitWr failed.1 wrIn first).2 then
        (submitWr failed.2 (submitWr failed.1 wrIn first).1 second).1
      else wrIn := by
  obtain ⟨room, p, prepared⟩ := submits
  unfold postInto
  simp only [if_neg room, prepared]

theorem submitWr_of_accepts {fails : Bool} {f : Flit}
    (accepts : fails = false ∧ wrIn.length < 1024) :
    submitWr fails wrIn f = (wrIn ++ [f], true) := by
  rw [submitWr, if_neg (by simp [accepts.1]), if_pos accepts.2]

theorem submitWr_of_refuses {fails : Bool} {f : Flit}
    (refuses : ¬(fails = false ∧ wrIn.length < 1024)) : submitWr fails wrIn f = (wrIn, false) := by
  unfold submitWr
  split
  · rfl
  · next works => exact if_neg fun room => refuses ⟨by simpa using works, room⟩

/-- A request whose second flit alone is refused leaves the first one in the FIFO. -/
theorem trace_of_half (submits : Submits c memory wr malloc)
    (accepts : failed.1 = false ∧ wrIn.length < 1024)
    (half : failed.2 = true ∨ wrIn.length = 1023) :
    ¬LeavesNoTrace c wrIn (postInto c memory wr malloc send failed first second wrIn) := by
  have one := submitWr_of_accepts (f := first) accepts
  have two : submitWr failed.2 (wrIn ++ [first]) second = (wrIn ++ [first], false) := by
    refine submitWr_of_refuses fun ⟨works, room⟩ => ?_
    rw [List.length_append, List.length_singleton] at room
    rcases half with fails | single
    · exact Bool.false_ne_true (works.symm.trans fails)
    · omega
  intro leaves
  have kept := (leaves ((status_of_submits submits _ rfl).mpr (by simp [one, two]))).1
  rw [fifo_of_submits submits, one, if_pos rfl, two] at kept
  simpa using congrArg List.length kept

/-- A refused post leaves a trace exactly if its first flit is accepted and its second one is not:
the FIFO has a single place left, or the wire fails in between. -/
theorem leavesNoTrace_iff :
    LeavesNoTrace c wrIn (postInto c memory wr malloc send failed first second wrIn) ↔
      ¬(Submits c memory wr malloc ∧ (failed.1 = false ∧ wrIn.length < 1024) ∧
        (failed.2 = true ∨ wrIn.length = 1023)) := by
  refine ⟨fun leaves ⟨submits, accepts, half⟩ => trace_of_half submits accepts half leaves,
    fun other refused => ⟨?_, ring_of_refused refused⟩⟩
  by_cases submits : Submits c memory wr malloc
  · rw [fifo_of_submits submits]
    by_cases accepts : failed.1 = false ∧ wrIn.length < 1024
    · -- the second flit is accepted as well, so that the post is not refused
      have one := submitWr_of_accepts (f := first) accepts
      have whole : failed.2 = false ∧ wrIn.length ≠ 1023 := by
        simpa using fun half => other ⟨submits, accepts, half⟩
      have two : submitWr failed.2 (wrIn ++ [first]) second = (wrIn ++ [first] ++ [second], true) :=
        submitWr_of_accepts ⟨whole.1, by simp; omega⟩
      have stopped := (status_of_submits submits _ rfl).mp refused
      simp [one, two] at stopped
    · rw [submitWr_of_refuses accepts]
      rfl
  · exact fifo_of_not_submits submits

end

/-- A compare-and-swap is refused with a single place left, and its metadata flit stays. -/
theorem not_leavesNoTrace_lastPlace : ¬LeavesNoTrace (Ctx.init 1 2) (List.replicate 1023 {})
      (postInto (Ctx.init 1 2) (fun _ => 0) ⟨.cas, 7, none, none⟩ true true (false, false)
        { sop := true } { eop := true } (List.replicate 1023 {})) := by
  have single : (List.replicate 1023 ({} : Flit)).length = 1023 := List.length_replicate ..
  exact trace_of_half ⟨by decide, _, rfl⟩ ⟨rfl, by omega⟩ (.inr single)

end OpenURMA.Provider
