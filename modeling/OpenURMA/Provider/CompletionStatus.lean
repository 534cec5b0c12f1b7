import OpenURMA.Library.Run
import OpenURMA.Provider.Ledger

/-!
# What a completion reports

The status of a completion is that of a slot of the ring. Posting leaves it as it was, an
acknowledgement or a response sets it for Writes and Reads only, and a frame with request number 0
finds a request that has been answered. Otherwise the status is an error just if the peer has
refused the request or its frame could not be sent.
-/

namespace OpenURMA.Provider

open Library List

/-- The peer answers the number of a request with an error, or with a wrong length. -/
def Rejects (event : Event) (p : Posted) : Prop :=
  p.op.numbered = true ∧
    ((∃ status, status ≠ 0 ∧ event.IsAck p.req status) ∨
      ∃ status, status ≠ 0 ∧ event.IsResponse p.req p.len status)

def Fails (events : List Event) (p : Posted) : Prop :=
  p.queued = false ∨ ∃ event ∈ events, Rejects event p

/-- The request numbers have not come round; a request other than a Read or Write takes a slot
without an error; an acknowledgement has a number, and with an error is for an outstanding Write; a
response is for an outstanding Read. -/
def Orderly (c : Ctx) : Event → Prop
  | .post wr _ =>
    (wr.opcode.numbered = true → c.reqSeq ≠ 0) ∧
      (wr.opcode = .read ∨ wr.opcode = .write ∨ (c.jetty.cells c.jetty.tail).status = 0)
  | .frame tag buf flen _ =>
    (tag = dWriteAck → 8 ≤ flen.toNat → u32At buf 0 ≠ 0 ∧
      (u32At buf 4 = 0 ∨ ∃ e ∈ c.jetty.contents, awaitsAck (u32At buf 0) e = true)) ∧
    (tag = dReadRsp → 12 ≤ flen.toNat → u32At buf 0 ≠ 0 ∧
      ∃ e ∈ c.jetty.contents, awaitsResponse (u32At buf 0) e = true)
  | _ => True

instance decidableOrderly (c : Ctx) : (event : Event) → Decidable (Orderly c event)
  | .post .. => inferInstanceAs (Decidable (_ ∧ _))
  | .frame .. => inferInstanceAs (Decidable (_ ∧ _))
  | .registerSeg .. => inferInstanceAs (Decidable True)
  | .unregisterSeg .. => inferInstanceAs (Decidable True)
  | .allocTokenId .. => inferInstanceAs (Decidable True)
  | .postRecv .. => inferInstanceAs (Decidable True)
  | .poll .. => inferInstanceAs (Decidable True)
  | .store .. => inferInstanceAs (Decidable True)

variable {event : Event} {p : Posted}

section

variable {c : Ctx} {req req' status status' len : U32}

theorem Orderly.ack (orderly : Orderly c event) (frame : event.IsAck req status) :
    req ≠ 0 ∧ (status = 0 ∨ ∃ e ∈ c.jetty.contents, awaitsAck req e = true) := by
  cases event with
  | frame tag buf flen malloc =>
    obtain ⟨tag, long, rfl, rfl⟩ := frame
    exact orderly.1 tag long
  | _ => exact frame.elim

theorem Orderly.response (orderly : Orderly c event) (frame : event.IsResponse req len status) :
    req ≠ 0 ∧ ∃ e ∈ c.jetty.contents, awaitsResponse req e = true := by
  cases event with
  | frame tag buf flen malloc =>
    obtain ⟨tag, long, rfl, _⟩ := frame
    exact orderly.2 tag long
  | _ => exact frame.elim

theorem Event.IsAck.unique (first : event.IsAck req status) (second : event.IsAck req' status') :
    req' = req ∧ status' = status := by
  cases event with
  | frame tag buf flen malloc =>
    exact ⟨second.2.2.1.symm.trans first.2.2.1, second.2.2.2.symm.trans first.2.2.2⟩
  | _ => exact first.elim

theorem Event.IsAck.not_isResponse (ack : event.IsAck req status) :
    ¬event.IsResponse req' len status' := by
  cases event with
  | frame tag buf flen malloc =>
    intro response
    exact absurd (ack.1.symm.trans response.1) (by decide)
  | _ => exact ack.elim

theorem Event.IsResponse.req_unique {len' : U32} (first : event.IsResponse req len status)
    (second : event.IsResponse req' len' status') : req' = req := by
  cases event with
  | frame tag buf flen malloc => exact second.2.2.1.symm.trans first.2.2.1
  | _ => exact first.elim

theorem Event.IsResponse.status_unique (first : event.IsResponse req len status)
    (second : event.IsResponse req' len status') : status' = 0 ↔ status = 0 := by
  cases event with
  | frame tag buf flen malloc => exact second.2.2.2.trans first.2.2.2.symm
  | _ => exact first.elim

theorem not_rejects (noAck : ∀ req status, status ≠ 0 → ¬event.IsAck req status)
    (noResponse : ∀ req len status, ¬event.IsResponse req len status) (p : Posted) :
    ¬Rejects event p := by
  rintro ⟨_, ⟨status, error, ack⟩ | ⟨status, _, response⟩⟩
  · exact noAck _ status error ack
  · exact noResponse _ _ status response

theorem rejects_of_ack (frame : event.IsAck p.req status) (number : p.op.numbered = true) :
    Rejects event p ↔ status ≠ 0 := by
  constructor
  · rintro ⟨_, ⟨status', error, ack⟩ | ⟨_, _, response⟩⟩
    · rwa [(frame.unique ack).2] at error
    · exact absurd response frame.not_isResponse
  · exact fun error => ⟨number, .inl ⟨status, error, frame⟩⟩

theorem rejects_of_response (frame : event.IsResponse p.req p.len status)
    (number : p.op.numbered = true) : Rejects event p ↔ status ≠ 0 := by
  constructor
  · rintro ⟨_, ⟨_, _, ack⟩ | ⟨status', error, response⟩⟩
    · exact absurd frame ack.not_isResponse
    · exact fun zero => error ((frame.status_unique response).mpr zero)
  · exact fun error => ⟨number, .inr ⟨status, error, frame⟩⟩

end

structure Reported (events : List Event) (p : Posted) (cr : Cr) : Prop where
  userCtx : cr.userCtx = p.userCtx
  status : cr.status ≠ crSuccess ↔ Fails events p

/-- A request with a record: nothing has happened to it yet, or its status says what. -/
structure Tracked (events : List Event) (p : Posted) (e : Out) : Prop extends Records p e where
  unanswered : e.unanswered = true → e.req = p.req ∧ ¬Fails events p
  answered : e.unanswered = false → (e.status ≠ 0 ↔ Fails events p)

section

variable {events : List Event} {e : Out}

theorem fails_snoc_of_not (spared : ¬Rejects event p) :
    Fails (events ++ [event]) p ↔ Fails events p := by
  simp [Fails, or_and_right, exists_or, spared]

theorem Reported.mono {cr : Cr} (reported : Reported events p cr) (spared : ¬Rejects event p) :
    Reported (events ++ [event]) p cr :=
  ⟨reported.userCtx, reported.status.trans (fails_snoc_of_not spared).symm⟩

theorem Tracked.mono (tracked : Tracked events p e) (spared : ¬Rejects event p) :
    Tracked (events ++ [event]) p e where
  toRecords := tracked.toRecords
  unanswered waiting := by
    rw [fails_snoc_of_not spared]
    exact tracked.unanswered waiting
  answered done := by
    rw [fails_snoc_of_not spared]
    exact tracked.answered done

theorem answer_not_unanswered (e : Out) (status : U32) : (e.answer status).unanswered = false := by
  simp [Out.answer, Out.unanswered]

variable {status : U32}

theorem Tracked.answer (tracked : Tracked events p e)
    (waiting : e.unanswered = true) (rejects : Rejects event p ↔ status ≠ 0) :
    Tracked (events ++ [event]) p (e.answer status) where
  toRecords := tracked.toRecords.answer status
  unanswered waiting := by
    rw [answer_not_unanswered] at waiting
    cases waiting
  answered _ := by
    have before := (tracked.unanswered waiting).2
    have now : Fails (events ++ [event]) p ↔ Rejects event p := by
      simp only [Fails, not_or] at before
      simp [Fails, before.1, or_and_right, exists_or, before.2]
    exact (now.trans rejects).symm

theorem visits_tracked :
    Ledger.Visits false (Reported events) (Tracked events) fun _ status => status = 0 where
  lost broken := by cases broken
  early {p e status} tracked write number zero := by
    have waiting : e.unanswered = true := by simpa [Out.unanswered, write] using number
    refine ⟨tracked.toRecords.answer status, fun still => ?_, fun _ => ?_⟩
    · rw [answer_not_unanswered] at still
      cases still
    · exact iff_of_false (fun error => error zero) (tracked.unanswered waiting).2
  waits waited tracked :=
    ⟨tracked.toRecords.wait waited, tracked.unanswered, tracked.answered⟩
  completes {p e} tracked done := by
    refine ⟨tracked.userCtx, ?_⟩
    rw [← tracked.answered done]
    simp [Out.completion, crSuccess]

end

structure Standing (events : List Event) (c : Ctx) (requests : List Posted) (results : List Cr)
    (n : ℕ) : Prop where
  ledger : Ledger (Reported events) (Tracked events) (fun _ status => status = 0) c requests results
  numbering : Numbering c requests n
  known : ∀ event ∈ events, ∀ q, Rejects event q → q.req.toNat < n

namespace Standing

variable {events : List Event} {c c' : Ctx} {requests : List Posted}
variable {results : List Cr} {n : ℕ} {status : U32}

theorem mono (standing : Standing events c requests results n)
    (spared : ∀ q, ¬Rejects event q) : Standing (events ++ [event]) c requests results n where
  ledger := standing.ledger.mono (fun p _ _ reported => reported.mono (spared p))
    (fun p _ _ tracked => tracked.mono (spared p)) fun _ _ => id
  numbering := standing.numbering
  known other member q rejects := by
    rw [mem_append, mem_singleton] at member
    rcases member with old | rfl
    · exact standing.known other old q rejects
    · exact absurd rejects (spared q)

theorem answer (standing : Standing events c requests results n) {e : Out}
    {before after : List Out} (ring : c.jetty.contents = before ++ e :: after)
    (ring' : c'.jetty.contents = before ++ e.answer status :: after)
    (pending : c'.pendingWriteAck = c.pendingWriteAck) (number : c'.reqSeq = c.reqSeq)
    (waiting : e.unanswered = true)
    (rejects : ∀ p, Records p e → p.op.numbered = true → e.req = p.req →
      (Rejects event p ↔ status ≠ 0)) (others : ∀ q, Rejects event q → q.req = e.req) :
    Standing (events ++ [event]) c' requests results n := by
  have backlog := standing.ledger.backlog
  rw [ring] at backlog
  obtain ⟨earlier, p, later, split, tracked, replace⟩ := backlog.find
  have numbered : p.op.numbered = true := by
    rw [← tracked.op]
    simp only [Out.unanswered, Bool.and_eq_true, Bool.or_eq_true, beq_iff_eq] at waiting
    rcases waiting.1 with op | op <;> rw [op] <;> rfl
  have same := (tracked.unanswered waiting).1
  -- the numbers of the other requests differ
  have spared : ∀ q ∈ earlier ++ later, ¬Rejects event q := by
    intro q member rejected
    have distinct := standing.numbering.distinct
    rw [split, pairwise_append, pairwise_cons] at distinct
    have equal : q.req = p.req := (others q rejected).trans same
    rw [mem_append] at member
    rcases member with early | late
    · exact distinct.2.2 q early p (by simp) rejected.1 numbered equal
    · exact distinct.2.1.1 q late numbered rejected.1 equal.symm
  refine ⟨⟨ring' ▸ replace ?_ ?_ ?_, pending ▸ standing.ledger.pending⟩,
    standing.numbering.congr number, ?_⟩
  · exact fun q member _ reported => reported.mono (spared q member)
  · exact fun q member _ tracked => tracked.mono (spared q member)
  · exact tracked.answer waiting (rejects p tracked.toRecords numbered same)
  · intro other member q rejected
    rw [mem_append, mem_singleton] at member
    rcases member with old | rfl
    · exact standing.known other old q rejected
    · rw [others q rejected, same]
      exact (standing.numbering.below p (by simp [split]) numbered).2

section

variable {e : Out} {before after : List Out} {req : U32}

variable (standing : Standing events c requests results n) (nonzero : req ≠ 0)
variable (ring : c.jetty.contents = before ++ e :: after)
variable (ring' : c'.jetty.contents = before ++ e.answer status :: after)
variable (pending : c'.pendingWriteAck = c.pendingWriteAck) (number : c'.reqSeq = c.reqSeq)
include standing nonzero ring ring' pending number

theorem acked (frame : event.IsAck req status) (awaits : awaitsAck req e = true) :
    Standing (events ++ [event]) c' requests results n := by
  simp only [awaitsAck, Bool.and_eq_true, beq_iff_eq] at awaits
  rw [← awaits.1] at frame nonzero
  have waiting : e.unanswered = true := by simpa [Out.unanswered, awaits.2] using nonzero
  refine standing.answer ring ring' pending number waiting ?_ ?_
  · intro p records numbered same
    rw [same] at frame
    exact rejects_of_ack frame numbered
  · rintro q ⟨_, ⟨_, _, ack⟩ | ⟨_, _, response⟩⟩
    · exact (frame.unique ack).1
    · exact absurd response frame.not_isResponse

theorem responded (frame : event.IsResponse req e.len status)
    (awaits : awaitsResponse req e = true) :
    Standing (events ++ [event]) c' requests results n := by
  simp only [awaitsResponse, Bool.and_eq_true, beq_iff_eq, bne_iff_ne] at awaits
  rw [← awaits.1] at frame nonzero
  have member : e ∈ c.jetty.contents := by simp [ring]
  obtain ⟨p, _, tracked⟩ := standing.ledger.backlog.exists_of_mem member
  have read : e.op = .read := tracked.op.trans (tracked.buffer.mp awaits.2)
  have waiting : e.unanswered = true := by simpa [Out.unanswered, read] using nonzero
  refine standing.answer ring ring' pending number waiting ?_ ?_
  · intro p records numbered same
    rw [same, records.len] at frame
    exact rejects_of_response frame numbered
  · rintro q ⟨_, ⟨_, _, ack⟩ | ⟨_, _, response⟩⟩
    · exact absurd frame ack.not_isResponse
    · exact frame.req_unique response

end

variable (standing : Standing events c requests results n)
include standing

theorem not_fails_of_new (queued : p.queued = true) (new : p.op.numbered = true → p.req.toNat = n) :
    ¬Fails events p := by
  rintro (unsent | ⟨event, past, rejects⟩)
  · rw [queued] at unsent
    cases unsent
  · have smaller := standing.known event past p rejects
    rw [new rejects.1] at smaller
    exact Nat.lt_irrefl n smaller

theorem tracked_record {localVa : U64} (read : localVa ≠ 0 ↔ p.op = .read)
    (new : p.op.numbered = true → p.req.toNat = n)
    (clean : p.op = .read ∨ p.op = .write ∨ status = 0) :
    Tracked events p (p.record localVa status) := by
  refine ⟨records_record read, fun waiting => ?_, fun done => ?_⟩
  · cases queued : p.queued with
    | true => exact ⟨by simp [Posted.record, queued], standing.not_fails_of_new queued new⟩
    | false => simp [Out.unanswered, Posted.record, queued] at waiting
  · cases queued : p.queued with
    | true =>
      have zero : status = 0 := by
        by_contra error
        have awaits : p.op = .read ∨ p.op = .write := by tauto
        have number : p.op.numbered = true := by rcases awaits with op | op <;> rw [op] <;> rfl
        have positive := standing.numbering.least
        rw [← new number] at positive
        have none : p.req = 0 := by
          rcases awaits with op | op <;>
            simpa [Out.unanswered, Posted.record, queued, op] using done
        rw [none] at positive
        cases positive
      refine iff_of_false ?_ (standing.not_fails_of_new queued new)
      simp [Posted.record, queued, zero]
    | false =>
      refine iff_of_true ?_ (.inl queued)
      simp [Posted.record, queued, crAckTimeoutErr]

theorem posts {wr : JfsWr} {o : Outcome} {posting : Posting} (posts : Posts c wr (c', posting))
    (orderly : Orderly c (.post wr o)) :
    ∃ n', Standing events c' (requests ++ posting.posted.toList) results n' := by
  have room : wr.opcode.numbered = true → n < 2 ^ 32 := by
    intro number
    refine Nat.lt_of_le_of_ne standing.numbering.most fun round => orderly.1 number ?_
    rw [standing.numbering.next, round]
    rfl
  obtain ⟨n', more, _, numbering⟩ := standing.numbering.posts posts room
  refine ⟨n', standing.ledger.posts posts fun p localVa op req read => ?_, numbering, ?_⟩
  · refine standing.tracked_record read (fun number => ?_) (op ▸ orderly.2)
    rw [op] at number
    rw [req, if_pos number, standing.numbering.toNat_next (room number)]
  · exact fun event past q rejects => Nat.lt_of_lt_of_le (standing.known event past q rejects) more

theorem moves {out : Output} (moves : Moves c event c' out) (orderly : Orderly c event)
    (wire : ¬event.FindsFailed) :
    ∃ n', Standing (events ++ [event]) c' (requests ++ out.posted)
      (results ++ completions out.placed) n' := by
  have still : out.posted = [] → completions out.placed = [] →
      Standing (events ++ [event]) c' requests results n →
      ∃ n', Standing (events ++ [event]) c' (requests ++ out.posted)
        (results ++ completions out.placed) n' := by
    intro posted sends after
    rw [posted, sends, append_nil, append_nil]
    exact ⟨n, after⟩
  cases moves with
  | idle ring pending number posted sends noAck noResponse =>
    have spared : ∀ q, ¬Rejects event q := by
      refine not_rejects (fun req status _ => noAck req status) fun req len status response => ?_
      obtain ⟨_, e, member, awaits⟩ := orderly.response response
      rw [noResponse req len status response e member] at awaits
      cases awaits
    have after := standing.mono spared
    exact still posted sends
      ⟨after.ledger.congr ring pending, after.numbering.congr number, after.known⟩
  | @posts wr o _ posting post posts =>
    subst post
    have spared : ∀ q, ¬Rejects (.post wr o) q := not_rejects (fun _ _ _ => id) fun _ _ _ => id
    rw [← append_nil results] at standing
    exact (standing.mono spared).posts posts orderly
  | acked frame awaits ring ring' pending number posted placed =>
    exact still posted (by rw [placed]; rfl)
      (standing.acked (orderly.ack frame).1 ring ring' pending number frame awaits)
  | @unmatched _ _ req status frame missing ring pending number posted placed =>
    have zero : status = 0 := by
      rcases (orderly.ack frame).2 with zero | ⟨e, member, awaits⟩
      · exact zero
      · rw [missing e member] at awaits
        cases awaits
    have spared : ∀ q, ¬Rejects event q := by
      refine not_rejects (fun req' status' error ack => ?_) fun _ _ _ => frame.not_isResponse
      exact error ((frame.unique ack).2.trans zero)
    have after := standing.mono spared
    exact still posted (by rw [placed]; rfl)
      ⟨after.ledger.keep ring pending fun _ => zero, after.numbering.congr number, after.known⟩
  | answered frame awaits ring ring' pending number posted placed =>
    exact still posted (by rw [placed]; rfl)
      (standing.responded (orderly.response frame).1 ring ring' pending number frame awaits)
  | @polls flits failed backstop count _ c₁ crs _ poll harvested ring pending number posted sends =>
    subst poll
    have intact : failed = false := by simpa [Event.FindsFailed] using wire
    have spared : ∀ q, ¬Rejects (.poll flits failed backstop count) q :=
      not_rejects (fun _ _ _ => id) fun _ _ _ => id
    have after := standing.mono spared
    subst intact
    have ledger := (after.ledger.harvest visits_tracked harvested).congr ring pending
    have numbering := after.numbering.congr (number.trans (harvest_reqSeq harvested))
    rw [posted, sends, append_nil]
    exact ⟨n, ledger, numbering, after.known⟩

end Standing

theorem standing_final (localCna remote : U32) (memory : ByteMap) (events : List Event)
    (wire : ∀ event ∈ events, ¬event.FindsFailed)
    (orderly : Along step.next (fun w => Orderly w.ctx) (World.start localCna remote memory)
      events) :
    let w := World.start localCna remote memory
    ∃ n, Standing events (step.final w events).ctx (posted w events)
      (completions (placed w events)) n := by
  intro w
  induction events using reverseRecOn with
  | nil => exact ⟨1, ledger_init localCna remote, numbering_init localCna remote, by simp⟩
  | append_singleton events event ih =>
    rw [forall_mem_append] at wire
    rw [along_append] at orderly
    obtain ⟨n, standing⟩ := ih wire.1 orderly.1
    have moves := moves (step.final w events) event
    rw [posted_snoc, placed_snoc, completions_append, Mealy.final_snoc, Mealy.next]
    exact standing.moves moves orderly.2.1 (wire.2 event (by simp))

/-- In every orderly run without a failure of the wire, the completion of a send reports an error
just if the peer has refused the request or its frame could not be sent. -/
theorem status_iff_fails (localCna remote : U32) (memory : ByteMap) (events : List Event)
    (wire : ∀ event ∈ events, ¬event.FindsFailed)
    (orderly : Along step.next (fun w => Orderly w.ctx) (World.start localCna remote memory)
      events) :
    let w := World.start localCna remote memory
    ∀ (k : ℕ) (cr : Cr), (deliveredSends w events)[k]? = some cr →
      ∃ p, (posted w events)[k]? = some p ∧ cr.userCtx = p.userCtx ∧
        (cr.status ≠ crSuccess ↔ Fails events p) := by
  intro w k cr found
  obtain ⟨n, standing⟩ := standing_final localCna remote memory events wire orderly
  have result : (completions (placed w events))[k]? = some cr := by
    obtain ⟨rest, split⟩ := deliveredSends_initial w events
    obtain ⟨inside, _⟩ := List.getElem?_eq_some_iff.mp found
    rw [← split, getElem?_append_left inside, found]
  obtain ⟨p, same, reported⟩ := standing.ledger.backlog.getElem? result
  exact ⟨p, same, reported.userCtx, reported.status⟩

def refusedWrite : List Event := [postEight .write 5, ackWrite 1 8, pollOne]

theorem status_refusedWrite : let w := World.start 0 0 fun _ => 0
    deliveredSends w refusedWrite = [⟨8, 8, 5⟩] ∧
      ∃ p, (posted w refusedWrite)[0]? = some p ∧ Fails refusedWrite p := by
  intro w
  have delivered : deliveredSends w refusedWrite = [⟨8, 8, 5⟩] := by decide +kernel
  have wire : ∀ event ∈ refusedWrite, ¬event.FindsFailed := by
    simp [refusedWrite, postEight, ackWrite, DataFrame.arrives, pollOne, Event.FindsFailed]
  have first : (deliveredSends w refusedWrite)[0]? = some ⟨8, 8, 5⟩ := by rw [delivered]; rfl
  obtain ⟨p, found, _, status⟩ :=
      status_iff_fails 0 0 (fun _ => 0) refusedWrite wire (by decide +kernel) 0 _ first
  exact ⟨delivered, p, found, status.mp (by decide)⟩

/-- A Write with immediate data is refused as well, but nothing looks at the acknowledgement. -/
def refusedWriteImm : List Event := [postEight .writeImm 5, ackWrite 1 8, pollOne]

theorem not_status_refusedWriteImm : let w := World.start 0 0 fun _ => 0
    (∀ event ∈ refusedWriteImm, ¬event.FindsFailed) ∧
      ∃ cr p, (deliveredSends w refusedWriteImm)[0]? = some cr ∧
        (posted w refusedWriteImm)[0]? = some p ∧ cr.status = crSuccess ∧
        Fails refusedWriteImm p := by
  refine ⟨?_, ⟨0, 8, 5⟩, ⟨5, .writeImm, 8, 1, true⟩, by decide +kernel, by decide +kernel, rfl, ?_⟩
  · simp [refusedWriteImm, postEight, ackWrite, DataFrame.arrives, pollOne, Event.FindsFailed]
  · refine .inr ⟨ackWrite 1 8, by simp [refusedWriteImm], rfl, .inl ⟨8, by decide, ?_⟩⟩
    exact ⟨rfl, by decide, by decide, by decide⟩

end OpenURMA.Provider
