import OpenURMA.Provider.Ledger

/-!
# Completions come in the order of the posts

Each request has one completion, the completions are handed out in the order in which the
requests were posted, and a Read or Write is completed only after its answer, unless its frame
could not be sent or the wire has failed.
-/

namespace OpenURMA.Provider

open Library Posted List

inductive Justified (events : List Event) (p : Posted) : Prop where
  | acked {event : Event} {status : U32} (write : p.op = .write) (past : event ∈ events)
      (frame : event.IsAck p.req status)
  | answered {event : Event} {len status : U32} (read : p.op = .read) (past : event ∈ events)
      (frame : event.IsResponse p.req len status)
  | unsent (unsent : p.queued = false)
  | failed {event : Event} (past : event ∈ events) (poll : event.FindsFailed)

def Opcode.awaits (op : Opcode) : Prop := op = .read ∨ op = .write

theorem Opcode.awaits.numbered {op : Opcode} (awaits : op.awaits) : op.numbered = true := by
  rcases awaits with rfl | rfl <;> rfl

variable {events : List Event}

theorem Justified.mono {p : Posted} (justified : Justified events p) (event : Event) :
    Justified (events ++ [event]) p := by
  cases justified with
  | acked write past frame => exact .acked write (mem_append_left _ past) frame
  | answered read past frame => exact .answered read (mem_append_left _ past) frame
  | unsent unsent => exact .unsent unsent
  | failed past poll => exact .failed (mem_append_left _ past) poll

structure Completed (events : List Event) (p : Posted) (cr : Cr) : Prop where
  userCtx : cr.userCtx = p.userCtx
  reason : p.op.awaits → Justified events p

/-- A request with a record: its number is there, or there was a reason to take it away. -/
structure Outstanding (events : List Event) (p : Posted) (e : Out) : Prop extends Records p e where
  number : p.op.awaits → p.req ≠ 0
  req : e.req = p.req ∨ e.req = 0 ∧ Justified events p

def Acknowledged (events : List Event) (req status : U32) : Prop :=
  ∃ event ∈ events, event.IsAck req status

variable {status : U32}

section

variable {event : Event} {p : Posted} {e : Out}

theorem Completed.mono {cr : Cr} (completed : Completed events p cr) (event : Event) :
    Completed (events ++ [event]) p cr :=
  ⟨completed.userCtx, fun awaits => (completed.reason awaits).mono event⟩

theorem Outstanding.mono (outstanding : Outstanding events p e) (event : Event) :
    Outstanding (events ++ [event]) p e where
  toRecords := outstanding.toRecords
  number := outstanding.number
  req := outstanding.req.imp_right fun taken => ⟨taken.1, taken.2.mono event⟩

theorem Acknowledged.mono {req : U32} (acknowledged : Acknowledged events req status)
    (event : Event) : Acknowledged (events ++ [event]) req status := by
  obtain ⟨ack, past, frame⟩ := acknowledged
  exact ⟨ack, mem_append_left _ past, frame⟩

theorem Outstanding.answer (outstanding : Outstanding events p e)
    (reason : e.req = p.req → Justified events p) : Outstanding events p (e.answer status) where
  toRecords := outstanding.toRecords.answer status
  number := outstanding.number
  req := by
    rcases outstanding.req with same | taken
    · exact .inr ⟨rfl, reason same⟩
    · exact .inr ⟨rfl, taken.2⟩

theorem visits {failed : Bool} (wire : failed = true → ∃ event ∈ events, event.FindsFailed) :
    Ledger.Visits failed (Completed events) (Outstanding events) (Acknowledged events) where
  lost broken _ _ outstanding := by
    obtain ⟨poll, past, finds⟩ := wire broken
    exact outstanding.answer fun _ => .failed past finds
  early outstanding write _ acknowledged := by
    obtain ⟨ack, past, frame⟩ := acknowledged
    refine outstanding.answer fun same => ?_
    rw [same] at frame
    exact .acked (outstanding.op ▸ write) past frame
  waits waited outstanding :=
    { outstanding with toRecords := outstanding.toRecords.wait waited }
  completes {p e} outstanding answered := by
    refine ⟨outstanding.userCtx, fun awaits => ?_⟩
    have taken : e.req = 0 := by
      have op : (e.op == .read || e.op == .write) = true := by
        rw [outstanding.op]
        rcases awaits with op | op <;> rw [op] <;> rfl
      simpa [Out.unanswered, op] using answered
    rcases outstanding.req with same | reason
    · exact absurd (same.symm.trans taken) (outstanding.number awaits)
    · exact reason.2

end

section

variable {event : Event} {c c' : Ctx} {requests : List Posted}
variable {results : List Cr} {n : ℕ}

abbrev Accounts (events : List Event) : Ctx → List Posted → List Cr → Prop :=
  Ledger (Completed events) (Outstanding events) (Acknowledged events)

section

variable (accounts : Accounts events c requests results)
include accounts

theorem Accounts.mono (event : Event) : Accounts (events ++ [event]) c requests results :=
  Ledger.mono accounts (fun _ _ _ completed => completed.mono event)
    (fun _ _ _ outstanding => outstanding.mono event)
    fun _ _ acknowledged => acknowledged.mono event

theorem Accounts.answer {e : Out} {before after : List Out}
    (ring : c.jetty.contents = before ++ e :: after)
    (ring' : c'.jetty.contents = before ++ e.answer status :: after)
    (pending : c'.pendingWriteAck = c.pendingWriteAck)
    (reason : ∀ p, Records p e → e.req = p.req → Justified events p) :
    Accounts events c' requests results := by
  have backlog := accounts.backlog
  rw [ring] at backlog
  obtain ⟨earlier, p, later, _, outstanding, replace⟩ := backlog.find
  refine ⟨ring' ▸ replace (fun _ _ _ => id) (fun _ _ _ => id) ?_, pending ▸ accounts.pending⟩
  exact outstanding.answer (reason p outstanding.toRecords)

theorem Accounts.posts {wr : JfsWr} {posting : Posting} (posts : Posts c wr (c', posting))
    (number : wr.opcode.numbered = true → c.reqSeq ≠ 0) :
    Accounts events c' (requests ++ posting.posted.toList) results := by
  refine Ledger.posts accounts posts fun p localVa op req read => ?_
  refine ⟨records_record read, fun awaits => ?_, ?_⟩
  · have numbered : wr.opcode.numbered = true := op ▸ awaits.numbered
    rw [req, if_pos numbered]
    exact number numbered
  · cases queued : p.queued with
    | true => exact .inl (by simp [record, queued])
    | false => exact .inr ⟨by simp [record, queued], .unsent queued⟩

theorem Accounts.moves {out : Output} (moves : Moves c event c' out)
    (number : event.numbered = true → c.reqSeq ≠ 0) :
    Accounts (events ++ [event]) c' (requests ++ out.posted)
      (results ++ completions out.placed) := by
  have last : event ∈ events ++ [event] := by simp
  have accounts := accounts.mono event
  have still : out.posted = [] → completions out.placed = [] →
      Accounts (events ++ [event]) c' requests results →
      Accounts (events ++ [event]) c' (requests ++ out.posted)
        (results ++ completions out.placed) := by
    intro posted sends after
    rwa [posted, sends, append_nil, append_nil]
  cases moves with
  | idle ring pending number posted sends =>
    exact still posted sends (accounts.congr ring pending)
  | posts post posts =>
    subst post
    have after := accounts.posts posts number
    rwa [← append_nil results] at after
  | @acked _ _ e before after req status frame awaits ring ring' pending _ posted placed =>
    simp only [awaitsAck, Bool.and_eq_true, beq_iff_eq] at awaits
    refine still posted (by rw [placed]; rfl) (accounts.answer ring ring' pending ?_)
    intro p records same
    rw [← awaits.1, same] at frame
    exact .acked (records.op ▸ awaits.2) last frame
  | unmatched frame missing ring pending _ posted placed =>
    refine still posted (by rw [placed]; rfl) (accounts.keep ring pending fun _ => ?_)
    exact ⟨event, last, frame⟩
  | @answered _ _ e before after req status frame awaits ring ring' pending _ posted placed =>
    simp only [awaitsResponse, Bool.and_eq_true, beq_iff_eq, bne_iff_ne] at awaits
    refine still posted (by rw [placed]; rfl) (accounts.answer ring ring' pending ?_)
    intro p records same
    rw [← awaits.1, same] at frame
    exact .answered (records.buffer.mp awaits.2) last frame
  | @polls flits failed backstop count _ c₁ crs _ poll harvested ring pending number posted sends =>
    rw [posted, sends, append_nil]
    have wire : failed = true → ∃ poll ∈ events ++ [event], poll.FindsFailed := by
      intro broken
      refine ⟨event, last, ?_⟩
      rw [poll]
      exact broken
    exact (accounts.harvest (visits wire) harvested).congr ring pending

end

theorem accounts_final (localCna remote : U32) (memory : ByteMap) (events : List Event)
    (few : events.countP Event.numbered < 2 ^ 32) :
    let w := World.start localCna remote memory
    Accounts events (step.final w events).ctx (posted w events) (completions (placed w events)) ∧
      ∃ n ≤ events.countP Event.numbered + 1,
        Numbering (step.final w events).ctx (posted w events) n := by
  intro w
  induction events using reverseRecOn with
  | nil => exact ⟨ledger_init localCna remote, 1, le_rfl, numbering_init localCna remote⟩
  | append_singleton events event ih =>
    rw [countP_append, countP_singleton] at few
    obtain ⟨accounts, n, bound, numbering⟩ := ih (Nat.lt_of_le_of_lt (Nat.le_add_right ..) few)
    have moves := moves (step.final w events) event
    have room : event.numbered = true → n < 2 ^ 32 := by
      intro number
      rw [if_pos number] at few
      omega
    have next : event.numbered = true → (step.final w events).ctx.reqSeq ≠ 0 := by
      intro number zero
      have value := numbering.toNat_next (room number)
      rw [zero] at value
      exact absurd numbering.least (by simp [← value])
    obtain ⟨n', _, bound', numbering'⟩ := numbering.moves moves room
    rw [posted_snoc, placed_snoc, completions_append, Mealy.final_snoc, Mealy.next,
      countP_append, countP_singleton]
    exact ⟨accounts.moves moves next, n', by omega, numbering'⟩

end

/-- The completions of sends handed out are those of the first requests, in the order of posting,
one each; the others are in the JFC or outstanding. That of a Read or Write had a reason when it was
put into the JFC. -/
theorem deliveredSends_in_order (localCna remote : U32) (memory : ByteMap) (events : List Event)
    (few : events.countP Event.numbered < 2 ^ 32) :
    let w := World.start localCna remote memory
    delivered w events = ((placed w events).take (delivered w events).length).map Prod.snd ∧
      (deliveredSends w events).map Cr.userCtx <+: (posted w events).map userCtx ∧
      (completions (placed w events)).map Cr.userCtx ++
          (step.final w events).ctx.jetty.contents.map Out.userCtx =
        (posted w events).map userCtx ∧
      ∀ k p, k < (completions (placed w events)).length → (posted w events)[k]? = some p →
        p.op = .read ∨ p.op = .write → Justified events p := by
  intro w
  have accounts := (accounts_final localCna remote memory events few).1
  have conserved : (completions (placed w events)).map Cr.userCtx ++
      (step.final w events).ctx.jetty.contents.map Out.userCtx =
        (posted w events).map userCtx :=
    accounts.backlog.map_eq (fun _ _ completed => completed.userCtx)
      fun _ _ outstanding => outstanding.userCtx
  refine ⟨?_, ?_, conserved, fun k p complete found awaits => ?_⟩
  · rw [map_take, ← delivered_append rfl, take_left]
  · rw [← conserved]
    exact ((deliveredSends_initial w events).map _).trans (prefix_append _ _)
  · have result := getElem?_eq_getElem complete
    obtain ⟨q, same, completed⟩ := accounts.backlog.getElem? result
    obtain rfl : p = q := Option.some.inj (found.symm.trans same)
    exact completed.reason awaits

def twoWrites : List Event := [postEight .write 5, postEight .write 6, ackWrite 1 0, pollOne]

theorem deliveredSends_twoWrites : let w := World.start 0 0 fun _ => 0
    (deliveredSends w twoWrites).map Cr.userCtx = [5] ∧
      (posted w twoWrites).map userCtx = [5, 6] ∧
      (deliveredSends w twoWrites).map Cr.userCtx <+: (posted w twoWrites).map userCtx := by
  refine ⟨by decide +kernel, by decide +kernel, ?_⟩
  exact (deliveredSends_in_order 0 0 (fun _ => 0) twoWrites (by decide)).2.1

end OpenURMA.Provider
