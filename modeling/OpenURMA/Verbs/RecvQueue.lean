import OpenURMA.Verbs.PostWr

/-!
# The receive queue of a jetty

`urma_post_jetty_recv_wr` appends to a vector and `urma_consume_recv_wr` reads it at a head index.
The entries before the head have been consumed; they are erased once they outnumber the others.
-/

namespace OpenURMA.Verbs

open Library List BitVec

structure RecvQueue (ω : Type) where
  rq : List ω := []
  rqHead : ℕ := 0

inductive RecvCall (ω : Type) where
  | post (wr : ω)
  | consume

variable {ω : Type}

namespace RecvQueue

/-- `urma_post_jetty_recv_wr`.  The number of queued entries is cast to `int`. -/
def post (rqDepth : BitVec 32) (q : RecvQueue ω) (wr : ω) : RecvQueue ω × Status :=
  if 0 < rqDepth.toInt ∧ rqDepth.toInt ≤ (BitVec.ofNat 32 (q.rq.length - q.rqHead)).toInt then
    (q, .eNomem)
  else ({ q with rq := q.rq ++ [wr] }, .ok)

def compact (q : RecvQueue ω) : RecvQueue ω :=
  if 64 < q.rqHead ∧ q.rq.length < q.rqHead * 2 then ⟨q.rq.drop q.rqHead, 0⟩ else q

def consume (q : RecvQueue ω) : RecvQueue ω × Status × Option ω :=
  match q.rq[q.rqHead]? with
  | none => (q, .eNomem, none)
  | some wr => (compact { q with rqHead := q.rqHead + 1 }, .ok, some wr)

def step (rqDepth : BitVec 32) : Mealy (RecvQueue ω) (RecvCall ω) (Status × Option ω)
  | q, .post wr => ((q.post rqDepth wr).1, (q.post rqDepth wr).2, none)
  | q, .consume => q.consume

def queued (q : RecvQueue ω) : List ω := q.rq.drop q.rqHead

end RecvQueue

/-- A queue of at most `rqDepth` entries, or of any number if `rqDepth` is not positive. -/
def fifo (rqDepth : ℤ) : Mealy (List ω) (RecvCall ω) (Status × Option ω)
  | queue, .post wr =>
    if 0 < rqDepth ∧ rqDepth ≤ queue.length then (queue, .eNomem, none)
    else (queue ++ [wr], .ok, none)
  | [], .consume => ([], .eNomem, none)
  | wr :: queue, .consume => (queue, .ok, some wr)

namespace RecvQueue

/-- The vector stands for the queue, and not too much of it has been consumed. -/
structure Holds (rqDepth : ℤ) (q : RecvQueue ω) (queue : List ω) : Prop where
  entries : q.queued = queue
  inside : q.rqHead ≤ q.rq.length
  bounded : 0 < rqDepth → queue.length ≤ rqDepth
  spare : q.rqHead ≤ max 64 queue.length

variable {rqDepth : BitVec 32} {q : RecvQueue ω} {queue : List ω}

section

variable (holds : Holds rqDepth.toInt q queue)
include holds

theorem Holds.length : q.rq.length - q.rqHead = queue.length := by
  rw [← holds.entries, queued, length_drop]

theorem Holds.full_iff :
    (0 < rqDepth.toInt ∧ rqDepth.toInt ≤ (BitVec.ofNat 32 (q.rq.length - q.rqHead)).toInt) ↔
      0 < rqDepth.toInt ∧ rqDepth.toInt ≤ queue.length := by
  refine and_congr_right fun positive => ?_
  have bounded := holds.bounded positive
  have small : rqDepth.toInt < 2 ^ 31 := toInt_lt
  have same : (BitVec.ofNat 32 queue.length).toInt = queue.length := by
    have number : (BitVec.ofNat 32 queue.length).toNat = queue.length := by
      rw [toNat_ofNat]
      omega
    rw [toInt_eq_toNat_of_lt (by omega), number]
  rw [holds.length, same]

theorem Holds.post (wr : ω) :
    Holds rqDepth.toInt (step rqDepth q (.post wr)).1 (fifo rqDepth.toInt queue (.post wr)).1 ∧
      (step rqDepth q (.post wr)).2 = (fifo rqDepth.toInt queue (.post wr)).2 := by
  simp only [step, RecvQueue.post, fifo, holds.full_iff]
  split
  · exact ⟨holds, rfl⟩
  · next room =>
    have spare := holds.spare
    refine ⟨⟨?_, ?_, fun positive => ?_, ?_⟩, rfl⟩
    · rw [← holds.entries, queued, queued, drop_append_of_le_length holds.inside]
    · exact holds.inside.trans (by simp)
    · simp only [length_append, length_singleton]
      omega
    · simp only [length_append, length_singleton]
      omega

end

theorem Holds.compact (entries : q.queued = queue) (inside : q.rqHead ≤ q.rq.length)
    (bounded : 0 < rqDepth.toInt → queue.length ≤ rqDepth.toInt) :
    Holds rqDepth.toInt q.compact queue := by
  have length : q.rq.length - q.rqHead = queue.length := by
    rw [← entries, queued, length_drop]
  unfold RecvQueue.compact
  split
  · exact ⟨entries, Nat.zero_le _, bounded, Nat.zero_le _⟩
  · exact ⟨entries, inside, bounded, by omega⟩

theorem Holds.consume (holds : Holds rqDepth.toInt q queue) :
    Holds rqDepth.toInt (step rqDepth q .consume).1 (fifo rqDepth.toInt queue .consume).1 ∧
      (step rqDepth q .consume).2 = (fifo rqDepth.toInt queue .consume).2 := by
  have first : q.rq[q.rqHead]? = queue.head? := by
    rw [← holds.entries, queued, head?_drop]
  simp only [step, RecvQueue.consume, first]
  cases queue with
  | nil => exact ⟨holds, rfl⟩
  | cons wr queue =>
    have length := holds.length
    refine ⟨Holds.compact ?_ ?_ fun positive => ?_, rfl⟩
    · have entries := congrArg tail holds.entries
      rwa [queued, tail_drop] at entries
    · simp only [length_cons] at length
      change q.rqHead + 1 ≤ q.rq.length
      omega
    · have bounded := holds.bounded positive
      simp only [length_cons] at bounded
      change (queue.length : ℤ) ≤ _
      omega

/-- The calls have the results of a queue of capacity `rqDepth`, and the vector holds at most
`max 64 n` consumed entries beside `n` queued ones. -/
theorem recvQueue_refines (rqDepth : BitVec 32) (calls : List (RecvCall ω)) :
    (step rqDepth).trace {} calls = (fifo rqDepth.toInt).trace [] calls ∧
      ((step rqDepth).final {} calls).queued = (fifo rqDepth.toInt).final [] calls ∧
      ((step rqDepth).final {} calls).rqHead ≤
        max 64 ((step rqDepth).final {} calls).queued.length := by
  have start : Holds rqDepth.toInt ({} : RecvQueue ω) [] :=
    ⟨rfl, Nat.zero_le _, fun positive => positive.le, Nat.zero_le _⟩
  have run := Mealy.refines (fun q queue call (holds : Holds rqDepth.toInt q queue) => by
    cases call with
    | post wr => exact holds.post wr
    | consume => exact holds.consume) start calls
  obtain ⟨holds, trace⟩ := run
  refine ⟨trace, holds.entries, ?_⟩
  rw [holds.entries]
  exact holds.spare

end RecvQueue

end OpenURMA.Verbs
