import OpenURMA.Provider.DataCallback

/-!
# Polling

`ou_poll_jfc` completes outstanding requests in the order in which they were posted, as long as
there is something to complete them: a completion flit of the NIC, a failed wire, or enough
polls.  A Read or Write must have been answered before.  Then it hands out what is in the JFC.
-/

namespace OpenURMA.Provider

open Library Function

/-- What a poll first notes on the oldest request: a failure of the wire, or an acknowledgement that
came too early. -/
def settle (c : Ctx) (failed : Bool) : Ctx :=
  let e := if failed then c.jetty.front.answer crAckTimeoutErr else c.jetty.front
  let slot := ackSlot e.req
  let ack := c.pendingWriteAck slot
  if e.op == .write && e.req != 0 && ack.valid && ack.req == e.req then
    { c with
      jetty := c.jetty.write c.jetty.head (e.answer ack.status)
      pendingWriteAck := update c.pendingWriteAck slot { ack with valid := false } }
  else { c with jetty := c.jetty.write c.jetty.head e }

def Out.completion (e : Out) : Cr where
  status := if e.status == 0 then crSuccess else e.status
  completionLen := e.len
  userCtx := e.userCtx

def Out.unanswered (e : Out) : Bool := (e.op == .read || e.op == .write) && e.req != 0

/-- A poll counts if nothing else makes the request ready. -/
def Out.wait (e : Out) (prompt : Bool) : Out :=
  if prompt then e else { e with waited := e.waited + 1 }

theorem Out.wait_eq (e : Out) (prompt : Bool) :
    ∃ waited, e.wait prompt = { e with waited := waited } := by
  cases prompt
  · exact ⟨_, rfl⟩
  · exact ⟨e.waited, rfl⟩

/-- A visit to the oldest request, with `cqe` completion flits left. -/
def visit (c : Ctx) (failed : Bool) (backstop : U32) (cqe : ℕ) : Ctx × Option Cr :=
  let c := settle c failed
  if c.jetty.front.unanswered then (c, none)
  else
    let prompt := failed || decide (0 < cqe)
    let e := c.jetty.front.wait prompt
    let c := { c with jetty := c.jetty.write c.jetty.head e }
    if !(prompt || e.waited > backstop) || decide c.jfc.Full then (c, none)
    else ({ c with jfc := c.jfc.push e.completion, jetty := c.jetty.pop }, some e.completion)

/-- The loop over the outstanding requests. -/
def harvest (failed : Bool) (backstop : U32) : ℕ → Ctx → ℕ → Ctx × List Cr
  | 0, c, _ => (c, [])
  | fuel + 1, c, cqe =>
    if c.jetty.Empty then (c, [])
    else
      match visit c failed backstop cqe with
      | (c, none) => (c, [])
      | (c, some cr) =>
        let (c, rest) := harvest failed backstop fuel c (cqe - 1)
        (c, cr :: rest)

def deliver : ℕ → Ring maxOut Cr → Ring maxOut Cr × List Cr
  | 0, r => (r, [])
  | count + 1, r =>
    if r.Empty then (r, [])
    else
      let (last, rest) := deliver count r.pop
      (last, r.front :: rest)

/-- `ou_poll_jfc`: the context, what has been put into the JFC and what has been handed out.
`flits` are the completion flits of the NIC. -/
def ouPollJfc (c : Ctx) (flits : List Flit) (failed : Bool) (backstop : U32) (count : ℕ) :
    Ctx × List Cr × List Cr :=
  let (c, placed) := harvest failed backstop maxOut c (flits.countP (·.sop))
  let (jfc, delivered) := deliver count c.jfc
  ({ c with jfc := jfc }, placed, delivered)

inductive Settles (c : Ctx) (failed : Bool) (e : Out) : Out → (Fin maxOut → PendingAck) → Prop where
  | kept (intact : failed = false) : Settles c failed e e c.pendingWriteAck
  | lost (broken : failed = true) : Settles c failed e (e.answer crAckTimeoutErr) c.pendingWriteAck
  | early (write : e.op = .write) (number : e.req ≠ 0)
      (valid : (c.pendingWriteAck (ackSlot e.req)).valid = true)
      (same : (c.pendingWriteAck (ackSlot e.req)).req = e.req) :
      Settles c failed e (e.answer (c.pendingWriteAck (ackSlot e.req)).status)
        (update c.pendingWriteAck (ackSlot e.req)
          { c.pendingWriteAck (ackSlot e.req) with valid := false })

theorem settles (c : Ctx) (failed : Bool) :
    ∃ e pending, Settles c failed c.jetty.front e pending ∧ settle c failed = { c with
        jetty := c.jetty.write c.jetty.head e, pendingWriteAck := pending } := by
  unfold settle
  cases failed with
  | true =>
    refine ⟨_, _, .lost rfl, ?_⟩
    simp [Out.answer]
  | false =>
    simp only [Bool.false_eq_true, if_false]
    split
    · next early =>
      simp only [Bool.and_eq_true, beq_iff_eq, bne_iff_ne] at early
      exact ⟨_, _, .early early.1.1.1 early.1.1.2 early.1.2 early.2, rfl⟩
    · exact ⟨_, _, .kept rfl, rfl⟩

inductive Visited (c : Ctx) (failed : Bool) : Ctx → Option Cr → Prop where
  | stays {c' : Ctx} {e e' : Out} {rest : List Out}
      (ring : c.jetty.contents = e :: rest) (settled : Settles c failed e e' c'.pendingWriteAck)
      (after : ∃ waited, c'.jetty.contents = { e' with waited := waited } :: rest)
      (jfc : c'.jfc = c.jfc) (number : c'.reqSeq = c.reqSeq) : Visited c failed c' none
  | completes {c' : Ctx} {e e' : Out} {rest : List Out}
      (ring : c.jetty.contents = e :: rest) (settled : Settles c failed e e' c'.pendingWriteAck)
      (answered : e'.unanswered = false) (after : c'.jetty.contents = rest)
      (room : ¬c.jfc.Full) (jfc : c'.jfc = c.jfc.push e'.completion)
      (number : c'.reqSeq = c.reqSeq) : Visited c failed c' (some e'.completion)

theorem visited {c : Ctx} (some : ¬c.jetty.Empty) (failed : Bool) (backstop : U32) (cqe : ℕ) :
    Visited c failed (visit c failed backstop cqe).1 (visit c failed backstop cqe).2 := by
  have ring := Ring.contents_pop some
  obtain ⟨e, pending, settled, settle⟩ := settles c failed
  have front : (c.jetty.write c.jetty.head e).front = e := update_self ..
  have head : (c.jetty.write c.jetty.head e).head = c.jetty.head := rfl
  unfold visit
  rw [settle]
  dsimp only
  rw [front]
  split
  · exact .stays ring settled ⟨e.waited, Ring.contents_write_head some e⟩ rfl rfl
  · next answered =>
    obtain ⟨waited, wait⟩ := e.wait_eq (failed || decide (0 < cqe))
    have same : ({ e with waited := waited } : Out).completion = e.completion := rfl
    rw [head, Ring.write_write, wait, same]
    split
    · exact .stays ring settled ⟨waited, Ring.contents_write_head some _⟩ rfl rfl
    · next goes =>
      obtain ⟨_, room⟩ := by simpa using goes
      exact .completes ring settled (by simpa using answered) (Ring.contents_pop_write some _)
        room rfl rfl

section

variable {failed : Bool} {backstop : U32}

theorem harvest_induction (holds : Ctx → List Cr → Prop)
    (stays : ∀ {c c' crs}, holds c crs → Visited c failed c' none → holds c' crs)
    (completes : ∀ {c c' crs cr}, holds c crs → Visited c failed c' (some cr) →
      holds c' (crs ++ [cr])) (fuel : ℕ) {c : Ctx} (crs : List Cr) (cqe : ℕ) (start : holds c crs) :
    holds (harvest failed backstop fuel c cqe).1
      (crs ++ (harvest failed backstop fuel c cqe).2) := by
  induction fuel generalizing c crs cqe with
  | zero => simpa [harvest] using start
  | succ fuel ih =>
    rw [harvest]
    split
    · simpa using start
    · next waiting =>
      have visit := visited waiting failed backstop cqe
      generalize Provider.visit c failed backstop cqe = result at visit ⊢
      rcases result with ⟨c', _ | cr⟩
      · simpa using stays start visit
      · have later := ih _ (cqe - 1) (completes start visit)
        rwa [List.append_assoc] at later

/-- The loop ends by itself: more rounds than there are requests change nothing. -/
theorem harvest_succ_of_lt {fuel : ℕ} {c : Ctx} (cqe : ℕ)
    (enough : c.jetty.contents.length < fuel) :
    harvest failed backstop (fuel + 1) c cqe = harvest failed backstop fuel c cqe := by
  induction fuel generalizing c cqe with
  | zero => cases enough
  | succ fuel ih =>
    rw [harvest, harvest.eq_2 _ _ c cqe fuel]
    split
    · rfl
    · next waiting =>
      have visit := visited waiting failed backstop cqe
      generalize Provider.visit c failed backstop cqe = result at visit ⊢
      rcases result with ⟨c', _ | cr⟩
      · rfl
      · cases visit with
        | completes ring settled answered after =>
          have fewer : c'.jetty.contents.length < fuel := by
            rw [ring, List.length_cons] at enough
            rw [after]
            omega
          simp only [ih (cqe - 1) fewer]

end

theorem deliver_eq (count : ℕ) (r : Ring maxOut Cr) :
    (deliver count r).2 ++ (deliver count r).1.contents = r.contents := by
  induction count generalizing r with
  | zero => rfl
  | succ count ih =>
    rw [deliver]
    split
    · rfl
    · next some => rw [Ring.contents_pop some, ← ih r.pop, List.cons_append]

end OpenURMA.Provider
