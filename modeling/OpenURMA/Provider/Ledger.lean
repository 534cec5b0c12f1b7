import OpenURMA.Library.Backlog
import OpenURMA.Provider.Run

/-!
# The ledger of a run

The requests posted in a run, the completions put into the JFC for them and the records in the
ring are a backlog.  What a record, a completion or an acknowledgement kept for later says about
its request is left open here; this is how the events of a run carry it on.
-/

namespace OpenURMA.Provider

open Library Function List Nat Option

/-- What stays of a request in its record, whatever has happened to it. -/
structure Records (p : Posted) (e : Out) : Prop where
  userCtx : e.userCtx = p.userCtx
  op : e.op = p.op
  len : e.len = p.len
  buffer : e.localVa ≠ 0 ↔ p.op = .read

variable {p : Posted} {e : Out}

theorem Records.answer (records : Records p e) (status : U32) : Records p (e.answer status) :=
  ⟨records.userCtx, records.op, records.len, records.buffer⟩

theorem Records.wait (records : Records p e) (waited : U32) :
    Records p { e with waited := waited } :=
  ⟨records.userCtx, records.op, records.len, records.buffer⟩

theorem records_record {localVa : U64} {status : U32} (read : localVa ≠ 0 ↔ p.op = .read) :
    Records p (p.record localVa status) :=
  ⟨rfl, rfl, rfl, read⟩

structure Ledger (settled : Posted → Cr → Prop) (recorded : Posted → Out → Prop)
    (noted : U32 → U32 → Prop) (c : Ctx) (requests : List Posted) (results : List Cr) : Prop where
  backlog : Backlog settled recorded requests results c.jetty.contents
  pending : ∀ i, (c.pendingWriteAck i).valid = true →
    noted (c.pendingWriteAck i).req (c.pendingWriteAck i).status

variable {settled : Posted → Cr → Prop} {recorded : Posted → Out → Prop} {noted : U32 → U32 → Prop}

theorem ledger_init (localCna remote : U32) :
    Ledger settled recorded noted (Ctx.init localCna remote) [] [] where
  backlog := .nil
  pending i valid := by cases valid

variable {c : Ctx} {requests : List Posted} {failed : Bool} {backstop : U32}

namespace Ledger

variable {settled' : Posted → Cr → Prop} {recorded' : Posted → Out → Prop}
variable {noted' : U32 → U32 → Prop}
variable {c' : Ctx} {results : List Cr}

section

variable (ledger : Ledger settled recorded noted c requests results)
include ledger

theorem congr (ring : c'.jetty = c.jetty) (pending : c'.pendingWriteAck = c.pendingWriteAck) :
    Ledger settled recorded noted c' requests results where
  backlog := ring ▸ ledger.backlog
  pending := pending ▸ ledger.pending

theorem mono (results' : ∀ p ∈ requests, ∀ cr, settled p cr → settled' p cr)
    (queue' : ∀ p ∈ requests, ∀ e, recorded p e → recorded' p e)
    (acks' : ∀ req status, noted req status → noted' req status) :
    Ledger settled' recorded' noted' c requests results where
  backlog := ledger.backlog.mono results' queue'
  pending i valid := acks' _ _ (ledger.pending i valid)

theorem enter (room : ¬c.jetty.Full)
    (ring : c'.jetty = c.jetty.push e) (pending : c'.pendingWriteAck = c.pendingWriteAck)
    (here : recorded p e) :
    Ledger settled recorded noted c' (requests ++ [p]) results where
  backlog := by
    rw [ring, Ring.contents_push room]
    exact ledger.backlog.enter here
  pending := pending ▸ ledger.pending

variable {posting : Posting} {wr : JfsWr}

theorem posts (posts : Posts c wr (c', posting))
    (here : ∀ (p : Posted) (localVa : U64), p.op = wr.opcode →
      (p.req = if wr.opcode.numbered then c.reqSeq else 0) → (localVa ≠ 0 ↔ p.op = .read) →
      recorded p (p.record localVa (c.jetty.cells c.jetty.tail).status)) :
    Ledger settled recorded noted c' (requests ++ posting.posted.toList) results := by
  have pending := pendingWriteAck_numbered c wr.opcode
  cases posts with
  | refused failed after =>
    simp only [toList_none, append_nil]
    rcases after with rfl | rfl
    · exact ledger
    · exact ledger.congr (jetty_numbered c wr.opcode) pending
  | @recorded sent p localVa room userCtx op req read =>
    exact ledger.enter room rfl pending (here p localVa op req (op ▸ read))

theorem keep {i : Fin maxOut} {ack : PendingAck} (ring : c'.jetty = c.jetty)
    (pending : c'.pendingWriteAck = update c.pendingWriteAck i ack)
    (here : ack.valid = true → noted ack.req ack.status) :
    Ledger settled recorded noted c' requests results where
  backlog := ring ▸ ledger.backlog
  pending j := by
    rw [pending]
    by_cases same : j = i
    · rw [same, update_self]
      exact here
    · rw [update_of_ne same]
      exact ledger.pending j

end

structure Visits (failed : Bool) (settled : Posted → Cr → Prop) (recorded : Posted → Out → Prop)
    (noted : U32 → U32 → Prop) : Prop where
  lost : failed = true → ∀ {p e}, recorded p e → recorded p (e.answer crAckTimeoutErr)
  early : ∀ {p e status}, recorded p e → e.op = .write → e.req ≠ 0 → noted e.req status →
    recorded p (e.answer status)
  waits : ∀ {p e} (waited : U32), recorded p e → recorded p { e with waited := waited }
  completes : ∀ {p e}, recorded p e → e.unanswered = false → settled p e.completion

variable {pending : Fin maxOut → PendingAck}

variable (ledger : Ledger settled recorded noted c requests results)
include ledger

theorem settles (visits : Visits failed settled recorded noted) {e' : Out}
    (settled : Settles c failed e e' pending) (here : recorded p e) : recorded p e' := by
  cases settled with
  | kept => exact here
  | lost broken => exact visits.lost broken here
  | early write number valid same =>
    have ack := ledger.pending _ valid
    rw [same] at ack
    exact visits.early here write number ack

theorem pending_of_settles {e' : Out} (settled : Settles c failed e e' pending) :
    ∀ i, (pending i).valid = true → noted (pending i).req (pending i).status := by
  cases settled with
  | kept => exact ledger.pending
  | lost => exact ledger.pending
  | early =>
    intro i
    by_cases same : i = ackSlot e.req
    · rw [same, update_self]
      intro valid
      cases valid
    · rw [update_of_ne same]
      exact ledger.pending i

variable (visits : Visits failed settled recorded noted)
include visits

theorem stays
    (visit : Visited c failed c' none) : Ledger settled recorded noted c' requests results := by
  cases visit with
  | @stays e e' rest ring settled after jfc number =>
    obtain ⟨waited, after⟩ := after
    refine ⟨?_, ledger.pending_of_settles settled⟩
    have front : Backlog _ recorded requests results ([] ++ e :: rest) := ring ▸ ledger.backlog
    obtain ⟨earlier, p, later, _, here, replace⟩ := front.find
    rw [after]
    exact replace (fun _ _ _ => id) (fun _ _ _ => id)
      (visits.waits waited (ledger.settles visits settled here))

theorem completes {cr : Cr} (visit : Visited c failed c' (some cr)) :
    Ledger settled recorded noted c' requests (results ++ [cr]) := by
  cases visit with
  | @completes e e' rest ring settled answered after room jfc number =>
    refine ⟨?_, ledger.pending_of_settles settled⟩
    rw [after]
    refine (ring ▸ ledger.backlog).leave fun p here => ?_
    exact visits.completes (ledger.settles visits settled here) answered

variable {fuel cqe : ℕ}

theorem harvest {c₁ : Ctx}
    {crs : List Cr} (harvested : harvest failed backstop fuel c cqe = (c₁, crs)) :
    Ledger settled recorded noted c₁ requests (results ++ crs) := by
  have after : Ledger settled recorded noted (Provider.harvest failed backstop fuel c cqe).1
      requests (results ++ (Provider.harvest failed backstop fuel c cqe).2) :=
    harvest_induction (fun c crs => Ledger settled recorded noted c requests crs)
      (fun ledger visit => ledger.stays visits visit)
      (fun ledger visit => ledger.completes visits visit) fuel results cqe ledger
  rwa [harvested] at after

end Ledger

variable {fuel cqe : ℕ} {wr : JfsWr} {posting : Posting}

theorem harvest_reqSeq {c₁ : Ctx} {crs : List Cr}
    (harvested : harvest failed backstop fuel c cqe = (c₁, crs)) : c₁.reqSeq = c.reqSeq := by
  have after : (harvest failed backstop fuel c cqe).1.reqSeq = c.reqSeq := by
    refine harvest_induction (fun c' _ => c'.reqSeq = c.reqSeq) ?_ ?_ fuel [] cqe rfl
    · intro c₁ c₂ crs same visit
      cases visit with
      | stays ring settled after jfc number => exact number.trans same
    · intro c₁ c₂ crs cr same visit
      cases visit with
      | completes ring settled answered after room jfc number => exact number.trans same
  rwa [harvested] at after

theorem reqSeq_numbered (c : Ctx) (op : Opcode) :
    (c.numbered op).reqSeq = if op.numbered then c.reqSeq + 1 else c.reqSeq := by
  unfold Ctx.numbered
  split <;> rfl

def Event.numbered : Event → Bool
  | .post wr _ => wr.opcode.numbered
  | _ => false

/-- The counter has not come round: `n` is the next number, and no two requests have the same. -/
structure Numbering (c : Ctx) (requests : List Posted) (n : ℕ) : Prop where
  next : c.reqSeq = BitVec.ofNat 32 n
  least : 0 < n
  most : n ≤ 2 ^ 32
  below : ∀ p ∈ requests, p.op.numbered = true → 0 < p.req.toNat ∧ p.req.toNat < n
  distinct : requests.Pairwise fun p q =>
    p.op.numbered = true → q.op.numbered = true → p.req ≠ q.req

theorem numbering_init (localCna remote : U32) : Numbering (Ctx.init localCna remote) [] 1 :=
  ⟨rfl, by decide, by decide, by simp, .nil⟩

namespace Numbering

variable {c' : Ctx} {n : ℕ} (numbering : Numbering c requests n)
include numbering

theorem congr (same : c'.reqSeq = c.reqSeq) : Numbering c' requests n :=
  { numbering with next := same.trans numbering.next }

theorem toNat_next (room : n < 2 ^ 32) : c.reqSeq.toNat = n := by
  rw [numbering.next, BitVec.toNat_ofNat, mod_eq_of_lt room]

theorem take (room : n < 2 ^ 32) (next : c'.reqSeq = c.reqSeq + 1) :
    Numbering c' requests (n + 1) where
  next := by
    rw [next, numbering.next, BitVec.ofNat_add]
    rfl
  least := succ_pos n
  most := room
  below p member number := by
    have old := numbering.below p member number
    exact ⟨old.1, lt_succ_of_lt old.2⟩
  distinct := numbering.distinct

theorem post (room : n < 2 ^ 32) (next : c'.reqSeq = c.reqSeq + 1) (req : p.req = c.reqSeq) :
    Numbering c' (requests ++ [p]) (n + 1) where
  next := (numbering.take room next).next
  least := succ_pos n
  most := room
  below q member number := by
    rw [mem_append, mem_singleton] at member
    rcases member with old | rfl
    · exact (numbering.take room next).below q old number
    · rw [req, numbering.toNat_next room]
      exact ⟨numbering.least, lt_succ_self n⟩
  distinct := by
    rw [pairwise_append]
    refine ⟨numbering.distinct, pairwise_singleton _ _, fun q old r member number _ same => ?_⟩
    obtain rfl := mem_singleton.mp member
    have smaller := (numbering.below q old number).2
    rw [same, req, numbering.toNat_next room] at smaller
    exact lt_irrefl n smaller

theorem post_of_not_numbered (other : p.op.numbered = false) : Numbering c (requests ++ [p]) n where
  next := numbering.next
  least := numbering.least
  most := numbering.most
  below q member number := by
    rw [mem_append, mem_singleton] at member
    rcases member with old | rfl
    · exact numbering.below q old number
    · rw [other] at number
      cases number
  distinct := by
    rw [pairwise_append]
    refine ⟨numbering.distinct, pairwise_singleton _ _, fun q old r member _ number => ?_⟩
    obtain rfl := mem_singleton.mp member
    rw [other] at number
    cases number

theorem posts (posts : Posts c wr (c', posting)) (room : wr.opcode.numbered = true → n < 2 ^ 32) :
    ∃ n', n ≤ n' ∧ (n' ≤ n + if wr.opcode.numbered then 1 else 0) ∧
      Numbering c' (requests ++ posting.posted.toList) n' := by
  have next := reqSeq_numbered c wr.opcode
  cases posts with
  | refused failed after =>
    simp only [toList_none, append_nil]
    rcases after with rfl | rfl
    · exact ⟨n, le_rfl, Nat.le_add_right .., numbering⟩
    · cases number : wr.opcode.numbered with
      | true =>
        refine ⟨n + 1, le_succ n, le_rfl, numbering.take (room number) ?_⟩
        simp [next, number]
      | false => exact ⟨n, le_rfl, le_rfl, numbering.congr (by simp [next, number])⟩
  | @recorded sent p localVa _ _ op req read =>
    simp only [toList_some]
    cases number : wr.opcode.numbered with
    | true =>
      refine ⟨n + 1, le_succ n, le_rfl, numbering.post (room number) ?_ ?_⟩
      · simp [next, number]
      · simp [req, number]
    | false =>
      refine ⟨n, le_rfl, le_rfl, (numbering.congr ?_).post_of_not_numbered ?_⟩
      · simp [next, number]
      · rw [op, number]

theorem moves {event : Event} {out : Output} (moves : Moves c event c' out)
    (room : event.numbered = true → n < 2 ^ 32) :
    ∃ n', n ≤ n' ∧ (n' ≤ n + if event.numbered then 1 else 0) ∧
      Numbering c' (requests ++ out.posted) n' := by
  have still : c'.reqSeq = c.reqSeq → out.posted = [] →
      ∃ n', n ≤ n' ∧ (n' ≤ n + if event.numbered then 1 else 0) ∧
        Numbering c' (requests ++ out.posted) n' := by
    intro same none
    rw [none, append_nil]
    exact ⟨n, le_rfl, Nat.le_add_right .., numbering.congr same⟩
  cases moves with
  | idle ring pending number posted => exact still number posted
  | posts post posts =>
    subst post
    exact numbering.posts posts room
  | acked frame awaits ring ring' pending number posted => exact still number posted
  | unmatched frame missing ring pending number posted => exact still number posted
  | answered frame awaits ring ring' pending number posted => exact still number posted
  | polls poll harvested ring pending number posted =>
    exact still (number.trans (harvest_reqSeq harvested)) posted

end Numbering

theorem contents_jfc_frame {memory : ByteMap} {buf : Buffer} {flen : U32} {tag : U8} {h : Handled}
    (handles : Handles c memory buf flen tag h) :
    h.ctx.jfc.contents = c.jfc.contents ++ h.placed := by
  cases handles with
  | received waiting room => exact Ring.contents_push room _
  | _ => simp [ouMalformed]

theorem jfc_post {c' : Ctx} (posts : Posts c wr (c', posting)) : c'.jfc = c.jfc := by
  have same : (c.numbered wr.opcode).jfc = c.jfc := by
    unfold Ctx.numbered
    split <;> rfl
  cases posts with
  | refused failed after => rcases after with rfl | rfl <;> [rfl; exact same]
  | recorded => exact same

theorem contents_jfc_harvest : (harvest failed backstop fuel c cqe).1.jfc.contents =
      c.jfc.contents ++ (harvest failed backstop fuel c cqe).2 := by
  refine harvest_induction (fun c' crs => c'.jfc.contents = c.jfc.contents ++ crs) ?_ ?_ fuel [] cqe
    (append_nil _).symm
  · intro c₁ c₂ crs same visit
    cases visit with
    | stays ring settled after jfc number => rw [jfc, same]
  · intro c₁ c₂ crs cr same visit
    cases visit with
    | completes ring settled answered after room jfc number =>
      rw [jfc, Ring.contents_push room, same, append_assoc]

theorem contents_jfc_step (w : World) (event : Event) :
    (step w event).2.delivered ++ (step w event).1.ctx.jfc.contents =
      w.ctx.jfc.contents ++ (step w event).2.placed.map Prod.snd := by
  cases event with
  | registerSeg va len alloc =>
    obtain ⟨tokenSeq, regions, after⟩ := ouRegisterSeg_eq w.ctx va len alloc
    simp [step, after]
  | unregisterSeg s =>
    obtain ⟨regions, after⟩ := ouUnregisterSeg_eq w.ctx s
    simp [step, after]
  | allocTokenId alloc => cases alloc <;> simp [step, ouAllocTokenId]
  | postRecv wr =>
    simp only [step, ouPostJettyRecvWr]
    split <;> simp
  | post wr o =>
    have same : (ouPostOne w.ctx w.memory wr o).1.jfc = w.ctx.jfc :=
      jfc_post (posts w.ctx w.memory wr o)
    simp [step, same]
  | frame tag buf flen malloc =>
    obtain ⟨h, call, handles⟩ := handles w.ctx w.memory buf flen tag malloc
    simp [step, call, contents_jfc_frame handles, comp_def]
  | poll flits failed backstop count =>
    simp only [step, ouPollJfc]
    rw [deliver_eq, contents_jfc_harvest]
    simp [comp_def]
  | store memory => simp [step]

theorem delivered_append {w : World} (empty : w.ctx.jfc.contents = []) (events : List Event) :
    delivered w events ++ (step.final w events).ctx.jfc.contents =
      (placed w events).map Prod.snd := by
  induction events using reverseRecOn with
  | nil => simpa [delivered, placed] using empty
  | append_singleton events event ih =>
    have after := contents_jfc_step (step.final w events) event
    rw [delivered_snoc, placed_snoc, Mealy.final_snoc, append_assoc, Mealy.next, after,
      ← append_assoc, ih, map_append]

def deliveredSends (w : World) (events : List Event) : List Cr :=
  completions ((placed w events).take (delivered w events).length)

theorem deliveredSends_initial (w : World) (events : List Event) :
    deliveredSends w events <+: completions (placed w events) := by
  have first := take_prefix (delivered w events).length (placed w events)
  exact (first.filter _).map _

end OpenURMA.Provider
