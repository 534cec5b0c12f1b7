import OpenURMA.Provider.Poll
import OpenURMA.Provider.Post

/-!
# Runs of the provider

The mutex of the context serialises posts, polls and the callback for data frames, so that a run
is a sequence of events.  What a run has done is read off its outputs: the requests posted, the
completions put into the JFC, each for a send or a receive, and the completions handed out.
-/

namespace OpenURMA.Provider

open Library

inductive Origin where
  | send
  | recv
  deriving DecidableEq

inductive Event where
  | registerSeg (va len : U64) (alloc : Bool)
  | unregisterSeg (s : Seg)
  | allocTokenId (alloc : Bool)
  | postRecv (wr : JfrWr)
  | post (wr : JfsWr) (o : Outcome)
  | frame (tag : U8) (buf : Buffer) (flen : U32) (malloc : Bool × Bool)
  | poll (flits : List Flit) (failed : Bool) (backstop : U32) (count : ℕ)
  | store (memory : ByteMap)

def DataFrame.arrives (f : DataFrame) : Event :=
  .frame f.tag (fun i => f.body.getD i 0) (BitVec.ofNat 32 f.body.length) (true, true)

def postEight (op : Opcode) (userCtx : U64) : Event :=
  .post ⟨op, userCtx, some ⟨0x1000, 8, some 1⟩, some ⟨0x2000, 8, some 1⟩⟩ ⟨true, true, true, true⟩

def ackWrite (req status : U32) : Event :=
  DataFrame.arrives ⟨dWriteAck, u32Octets req ++ u32Octets status⟩

def pollOne : Event := .poll [{ sop := true, eop := true }] false 0 16

structure World where
  ctx : Ctx
  memory : ByteMap

def World.start (localCna remote : U32) (memory : ByteMap) : World :=
  ⟨Ctx.init localCna remote, memory⟩

structure Output where
  posted : List Posted := []
  placed : List (Origin × Cr) := []
  delivered : List Cr := []
  sent : List DataFrame := []

def step : Mealy World Event Output := fun w event =>
  match event with
  | .registerSeg va len alloc => ({ w with ctx := (ouRegisterSeg w.ctx va len alloc).1 }, {})
  | .unregisterSeg s => ({ w with ctx := (ouUnregisterSeg w.ctx s).1 }, {})
  | .allocTokenId alloc => ({ w with ctx := (ouAllocTokenId w.ctx alloc).1 }, {})
  | .postRecv wr => ({ w with ctx := (ouPostJettyRecvWr w.ctx wr).1 }, {})
  | .post wr o =>
    let (c, posting) := ouPostOne w.ctx w.memory wr o
    ({ w with ctx := c }, { posted := posting.posted.toList, sent := posting.sent })
  | .frame tag buf flen malloc =>
    match ouDataCb w.ctx w.memory buf flen tag malloc with
    | none => (w, {})
    | some h =>
      (⟨h.ctx, h.writes.foldl ByteMap.write w.memory⟩,
        { placed := h.placed.map (Origin.recv, ·), sent := h.sent })
  | .poll flits failed backstop count =>
    let (c, placed, delivered) := ouPollJfc w.ctx flits failed backstop count
    ({ w with ctx := c }, { placed := placed.map (Origin.send, ·), delivered := delivered })
  | .store memory => ({ w with memory := memory }, {})

section

variable (w : World) (events : List Event)

def posted : List Posted := (step.trace w events).flatMap Output.posted

/-- The completions put into the JFC in a run. -/
def placed : List (Origin × Cr) := (step.trace w events).flatMap Output.placed

def delivered : List Cr := (step.trace w events).flatMap Output.delivered

/-- The completions of sends among those put into the JFC. -/
def completions (placed : List (Origin × Cr)) : List Cr :=
  (placed.filter fun entry => entry.1 == .send).map Prod.snd

end

section

variable {w : World} {events : List Event} {event : Event}

theorem posted_snoc : posted w (events ++ [event]) =
    posted w events ++ (step (step.final w events) event).2.posted := by
  simp [posted, Mealy.trace_append]

theorem placed_snoc : placed w (events ++ [event]) =
    placed w events ++ (step (step.final w events) event).2.placed := by
  simp [placed, Mealy.trace_append]

theorem delivered_snoc : delivered w (events ++ [event]) =
    delivered w events ++ (step (step.final w events) event).2.delivered := by
  simp [delivered, Mealy.trace_append]

theorem completions_append (first second : List (Origin × Cr)) :
    completions (first ++ second) = completions first ++ completions second := by
  simp [completions]

@[simp] theorem completions_recv (crs : List Cr) : completions (crs.map (Origin.recv, ·)) = [] := by
  simp [completions]

@[simp] theorem completions_send (crs : List Cr) :
    completions (crs.map (Origin.send, ·)) = crs := by
  simp [completions, List.filter_map, Function.comp_def]

end

def Event.IsAck (event : Event) (req status : U32) : Prop :=
  match event with
  | .frame tag buf flen _ =>
    tag = dWriteAck ∧ 8 ≤ flen.toNat ∧ u32At buf 0 = req ∧ u32At buf 4 = status
  | _ => False

/-- A frame that answers a Read; `status` is what it makes of a Read of `len` octets. -/
def Event.IsResponse (event : Event) (req len status : U32) : Prop :=
  match event with
  | .frame tag buf flen _ =>
    tag = dReadRsp ∧ 12 ≤ flen.toNat ∧ u32At buf 0 = req ∧
      (status = 0 ↔ u32At buf 8 = 0 ∧ u32At buf 4 = len ∧ u32At buf 4 ≤ flen - 12)
  | _ => False

def Event.FindsFailed (event : Event) : Prop :=
  match event with
  | .poll _ failed _ _ => failed = true
  | _ => False

inductive Moves (c : Ctx) (event : Event) : Ctx → Output → Prop where
  | idle {c' : Ctx} {out : Output} (ring : c'.jetty = c.jetty)
      (pending : c'.pendingWriteAck = c.pendingWriteAck) (number : c'.reqSeq = c.reqSeq)
      (posted : out.posted = []) (sends : completions out.placed = [])
      (noAck : ∀ req status, ¬event.IsAck req status)
      (noResponse : ∀ req len status, event.IsResponse req len status →
        ∀ e ∈ c.jetty.contents, awaitsResponse req e = false) : Moves c event c' out
  | posts {wr : JfsWr} {o : Outcome} {c' : Ctx} {posting : Posting} (post : event = .post wr o)
      (posts : Posts c wr (c', posting)) :
      Moves c event c' { posted := posting.posted.toList, sent := posting.sent }
  | acked {c' : Ctx} {out : Output} {e : Out} {before after : List Out} {req status : U32}
      (frame : event.IsAck req status) (awaits : awaitsAck req e = true)
      (ring : c.jetty.contents = before ++ e :: after)
      (ring' : c'.jetty.contents = before ++ e.answer status :: after)
      (pending : c'.pendingWriteAck = c.pendingWriteAck) (number : c'.reqSeq = c.reqSeq)
      (posted : out.posted = []) (placed : out.placed = []) : Moves c event c' out
  | unmatched {c' : Ctx} {out : Output} {req status : U32} (frame : event.IsAck req status)
      (missing : ∀ e ∈ c.jetty.contents, awaitsAck req e = false) (ring : c'.jetty = c.jetty)
      (pending : c'.pendingWriteAck = Function.update c.pendingWriteAck (ackSlot req)
        ⟨req, status, true⟩) (number : c'.reqSeq = c.reqSeq)
      (posted : out.posted = []) (placed : out.placed = []) : Moves c event c' out
  | answered {c' : Ctx} {out : Output} {e : Out} {before after : List Out} {req status : U32}
      (frame : event.IsResponse req e.len status) (awaits : awaitsResponse req e = true)
      (ring : c.jetty.contents = before ++ e :: after)
      (ring' : c'.jetty.contents = before ++ e.answer status :: after)
      (pending : c'.pendingWriteAck = c.pendingWriteAck) (number : c'.reqSeq = c.reqSeq)
      (posted : out.posted = []) (placed : out.placed = []) : Moves c event c' out
  | polls {flits : List Flit} {failed : Bool} {backstop : U32} {count : ℕ} {c' c₁ : Ctx}
      {crs : List Cr} {out : Output} (poll : event = .poll flits failed backstop count)
      (harvested : harvest failed backstop maxOut c (flits.countP (·.sop)) = (c₁, crs))
      (ring : c'.jetty = c₁.jetty) (pending : c'.pendingWriteAck = c₁.pendingWriteAck)
      (number : c'.reqSeq = c₁.reqSeq) (posted : out.posted = [])
      (sends : completions out.placed = crs) : Moves c event c' out

theorem Moves.of_same {c c' : Ctx} {event : Event} (ring : c'.jetty = c.jetty)
    (pending : c'.pendingWriteAck = c.pendingWriteAck) (number : c'.reqSeq = c.reqSeq)
    (noAck : ∀ req status, ¬event.IsAck req status)
    (noResponse : ∀ req len status, ¬event.IsResponse req len status) : Moves c event c' {} :=
  .idle ring pending number rfl rfl noAck fun req len status response =>
    absurd response (noResponse req len status)

section

variable {c : Ctx} {memory : ByteMap} {tag : U8} {buf : Buffer} {flen : U32}
variable {malloc : Bool × Bool}

theorem moves_frame {h : Handled} (handles : Handles c memory buf flen tag h) :
    Moves c (.frame tag buf flen malloc) h.ctx
      { placed := h.placed.map (Origin.recv, ·), sent := h.sent } := by
  have ackTag : dWrite ≠ dWriteAck ∧ dSend ≠ dWriteAck ∧ dReadRq ≠ dWriteAck ∧
      dReadRsp ≠ dWriteAck := by decide
  have responseTag : dWrite ≠ dReadRsp ∧ dSend ≠ dReadRsp ∧ dReadRq ≠ dReadRsp := by decide
  cases handles with
  | malformed ack response =>
    refine .idle rfl rfl rfl rfl rfl (fun req status frame => ?_) fun req len status frame => ?_
    · exact absurd (ack frame.1) (Nat.not_lt.mpr frame.2.1)
    · exact absurd (response frame.1) (Nat.not_lt.mpr frame.2.1)
  | written | notWritten =>
    refine .idle rfl rfl rfl rfl rfl (fun _ _ frame => ?_) fun _ _ _ frame => ?_
    · exact absurd frame.1 ackTag.1
    · exact absurd frame.1 responseTag.1
  | received | dropped =>
    refine .idle rfl rfl rfl rfl (completions_recv _) (fun _ _ frame => ?_)
      fun _ _ _ frame => ?_
    · exact absurd frame.1 ackTag.2.1
    · exact absurd frame.1 responseTag.2.1
  | served | notServed | silent =>
    refine .idle rfl rfl rfl rfl rfl (fun _ _ frame => ?_) fun _ _ _ frame => ?_
    · exact absurd frame.1 ackTag.2.2.1
    · exact absurd frame.1 responseTag.2.2
  | acked long found =>
    obtain ⟨before, after, ring, _, awaits, replaced⟩ := Ring.find_eq_some found
    exact .acked ⟨rfl, long, rfl, rfl⟩ awaits ring (replaced _) rfl rfl rfl rfl
  | unmatched long missing =>
    have none := Ring.find_eq_none (Nat.le_of_lt (Ring.count_lt _)) missing
    exact .unmatched ⟨rfl, long, rfl, rfl⟩ none rfl rfl rfl rfl rfl
  | answered long found inside =>
    obtain ⟨before, after, ring, _, awaits, replaced⟩ := Ring.find_eq_some found
    exact .answered ⟨rfl, long, rfl, responseStatus_eq_zero_iff⟩ awaits ring (replaced _) rfl rfl
      rfl rfl
  | stray missing =>
    have none := Ring.find_eq_none (Nat.le_of_lt (Ring.count_lt _)) missing
    refine .idle rfl rfl rfl rfl rfl (fun _ _ frame => absurd frame.1 ackTag.2.2.2) ?_
    rintro req len status ⟨_, _, rfl, _⟩
    exact none

end

theorem moves (w : World) (event : Event) :
    Moves w.ctx event (step w event).1.ctx (step w event).2 := by
  cases event with
  | registerSeg va len alloc =>
    obtain ⟨tokenSeq, regions, after⟩ := ouRegisterSeg_eq w.ctx va len alloc
    simp only [step, after]
    exact .of_same rfl rfl rfl (fun _ _ => id) fun _ _ _ => id
  | unregisterSeg s =>
    obtain ⟨regions, after⟩ := ouUnregisterSeg_eq w.ctx s
    simp only [step, after]
    exact .of_same rfl rfl rfl (fun _ _ => id) fun _ _ _ => id
  | allocTokenId alloc =>
    simp only [step, ouAllocTokenId]
    split <;> exact .of_same rfl rfl rfl (fun _ _ => id) fun _ _ _ => id
  | postRecv wr =>
    simp only [step, ouPostJettyRecvWr]
    split <;> exact .of_same rfl rfl rfl (fun _ _ => id) fun _ _ _ => id
  | post wr o => exact .posts rfl (posts w.ctx w.memory wr o)
  | frame tag buf flen malloc =>
    obtain ⟨h, call, handles⟩ := handles w.ctx w.memory buf flen tag malloc
    simp only [step, call]
    exact moves_frame handles
  | poll flits failed backstop count =>
    exact .polls rfl rfl rfl rfl rfl rfl (completions_send _)
  | store memory => exact .of_same rfl rfl rfl (fun _ _ => id) fun _ _ _ => id

end OpenURMA.Provider
