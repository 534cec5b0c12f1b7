import OpenURMA.Provider.Run

/-!
# Inbound frames touch only permitted memory

Whatever the peer sends, the callback stays inside the frame, writes to the memory of the
application only where a registered region, the oldest receive or an outstanding Read allows it,
and answers a Read request only with octets of a region.
-/

namespace OpenURMA.Provider

open Library Nat List

def Ctx.LocalReads (c : Ctx) : Prop := ∀ e ∈ c.jetty.contents, e.localVa ≠ 0 → e.op = .read

theorem localReads_init (localCna remote : U32) : (Ctx.init localCna remote).LocalReads := by
  intro e member
  cases member

namespace Ctx.LocalReads

variable {c c' : Ctx} {e e' : Out} {before after : List Out} (reads : c.LocalReads)
include reads

theorem replace (ring : c.jetty.contents = before ++ e :: after)
    (ring' : c'.jetty.contents = before ++ e' :: after)
    (same : e'.op = e.op ∧ e'.localVa = e.localVa) : c'.LocalReads := by
  intro g member buffer
  rw [LocalReads, ring] at reads
  rw [ring', mem_append, mem_cons] at member
  rcases member with early | rfl | late
  · exact reads g (by simp [early]) buffer
  · rw [same.1]
    exact reads e (by simp) (same.2 ▸ buffer)
  · exact reads g (by simp [late]) buffer

theorem posts {wr : JfsWr} {posting : Posting}
    (posts : Posts c wr (c', posting)) : c'.LocalReads := by
  cases posts with
  | refused failed after =>
    rcases after with rfl | rfl
    · exact reads
    · rw [LocalReads, jetty_numbered]
      exact reads
  | @recorded sent p localVa room userCtx op req read =>
    intro e member buffer
    change e ∈ (c.jetty.push _).contents at member
    rw [Ring.contents_push room, mem_append, mem_singleton] at member
    rcases member with old | rfl
    · exact reads e old buffer
    · exact op.trans (read.mp buffer)

theorem visited {failed : Bool} {cr : Option Cr}
    (visit : Visited c failed c' cr) : c'.LocalReads := by
  have same : ∀ {e e' : Out} {pending}, Settles c failed e e' pending →
      e'.op = e.op ∧ e'.localVa = e.localVa := by
    intro e e' pending settled
    cases settled <;> exact ⟨rfl, rfl⟩
  cases visit with
  | @stays e e' rest ring settled after jfc number =>
    obtain ⟨waited, after⟩ := after
    have front : c.jetty.contents = [] ++ e :: rest := ring
    have kept := same settled
    exact reads.replace front after ⟨kept.1, kept.2⟩
  | completes ring settled answered after room jfc number =>
    rw [← after] at ring
    exact fun g member => reads g (by simp [ring, member])

theorem moves {event : Event} {out : Output} (moves : Moves c event c' out) : c'.LocalReads := by
  cases moves with
  | idle ring => rwa [LocalReads, ring]
  | posts _ posts => exact reads.posts posts
  | acked frame awaits ring ring' => exact reads.replace ring ring' ⟨rfl, rfl⟩
  | unmatched frame missing ring => rwa [LocalReads, ring]
  | answered frame awaits ring ring' => exact reads.replace ring ring' ⟨rfl, rfl⟩
  | @polls flits failed backstop count _ c₁ crs _ poll harvested ring =>
    have after : (harvest failed backstop maxOut c (flits.countP (·.sop))).1.LocalReads :=
      harvest_induction (fun c _ => c.LocalReads) (fun reads visit => reads.visited visit)
        (fun reads visit => reads.visited visit) maxOut [] _ reads
    rw [harvested] at after
    rwa [LocalReads, ring]

end Ctx.LocalReads

variable {w : World}

theorem localReads_final (reads : w.ctx.LocalReads) (events : List Event) :
    (step.final w events).ctx.LocalReads := by
  induction events generalizing w with
  | nil => exact reads
  | cons event events ih => exact ih (reads.moves (moves w event))

inductive Permitted (c : Ctx) (buf : Buffer) : U8 → U64 → Prop where
  | region {i : Fin 1024} {address : U64} (active : (c.regions i).active = true)
      (token : (c.regions i).token = u32At buf 8)
      (inside : (c.regions i).span.Contains address) : Permitted c buf dWrite address
  | receive {r : Recv} {rest : List Recv} {address : U64} (oldest : c.jfr.contents = r :: rest)
      (inside : Span.Contains ⟨r.buf, min (u32At buf 4).toNat r.len.toNat⟩ address) :
      Permitted c buf dSend address
  | read {e : Out} {address : U64} (outstanding : e ∈ c.jetty.contents) (op : e.op = .read)
      (inside : Span.Contains ⟨e.localVa, e.len.toNat⟩ address) : Permitted c buf dReadRsp address

/-- The callback stays inside the frame and inside permitted memory, and what it sends as the
data of a Read response it has read there. -/
structure Confined (w : World) (tag : U8) (buf : Buffer) (h : Handled) : Prop where
  writes : ∀ copy ∈ h.writes, ∀ address, copy.span.Contains address →
    Permitted w.ctx buf tag address
  loads : ∀ span ∈ h.loads, ∀ address, span.Contains address →
    ∃ i, (w.ctx.regions i).active = true ∧ (w.ctx.regions i).token = u32At buf 8 ∧
      (w.ctx.regions i).span.Contains address
  sent : ∀ frame ∈ h.sent, frame.tag = dReadRsp →
    ∃ header : List Byte, header.length = 12 ∧
      frame.body = header ++ h.loads.flatMap w.memory.load

theorem confined (reads : w.ctx.LocalReads) {tag : U8} {buf : Buffer} {flen : U32}
    {h : Handled} (handles : Handles w.ctx w.memory buf flen tag h) : Confined w tag buf h := by
  have others : dWriteAck ≠ dReadRsp := by decide
  cases handles with
  | malformed | acked | unmatched | dropped | silent | stray =>
    exact ⟨by simp [ouMalformed], by simp [ouMalformed], by simp [ouMalformed]⟩
  | notWritten => exact ⟨by simp, by simp, by simp [others]⟩
  | written valid =>
    obtain ⟨i, active, token, within⟩ := exists_region_of_valid valid
    refine ⟨fun copy member address inside => ?_, by simp, by simp [others]⟩
    obtain rfl := mem_singleton.mp member
    refine .region active token (Span.contains_of_within ?_ inside)
    change _ + (buf.slice 20 (u32At buf 12).toNat).length ≤ _
    rw [Buffer.slice_length]
    exact within
  | received waiting room fits =>
    refine ⟨fun copy member address inside => ?_, by simp, by simp⟩
    obtain ⟨base, buffer, data⟩ := fits copy member
    refine .receive (Ring.contents_pop waiting) ?_
    rw [Copy.span, base] at inside
    exact lt_of_lt_of_le inside (Nat.le_min.mpr ⟨data, buffer⟩)
  | @served header len size short valid =>
    obtain ⟨i, active, token, within⟩ := exists_region_of_valid valid
    refine ⟨by simp, fun span member address inside => ?_, fun frame member _ => ?_⟩
    · obtain rfl := mem_singleton.mp member
      refine ⟨i, active, token, Span.contains_of_within ?_ inside⟩
      exact le_trans (Nat.add_le_add_left short _) within
    · obtain rfl := mem_singleton.mp member
      exact ⟨header, size, by simp⟩
  | @notServed header size =>
    refine ⟨by simp, by simp, fun frame member _ => ?_⟩
    obtain rfl := mem_singleton.mp member
    exact ⟨header, size, by simp⟩
  | @answered i writes long found fits =>
    obtain ⟨before, after, ring, _, awaits, _⟩ := Ring.find_eq_some found
    have outstanding : w.ctx.jetty.cells i ∈ w.ctx.jetty.contents := by simp [ring]
    have buffer : (w.ctx.jetty.cells i).localVa ≠ 0 := by
      simp only [awaitsResponse, Bool.and_eq_true, bne_iff_ne] at awaits
      exact awaits.2
    refine ⟨fun copy member address inside => ?_, by simp, by simp⟩
    obtain ⟨base, bound⟩ := fits copy member
    refine .read outstanding (reads _ outstanding buffer) ?_
    rw [Copy.span, base] at inside
    exact lt_of_lt_of_le inside bound

theorem Confined.changed {tag : U8} {buf : Buffer} {h : Handled}
    (confined : Confined w tag buf h) {address : U64}
    (changed : h.writes.foldl ByteMap.write w.memory address ≠ w.memory address) :
    Permitted w.ctx buf tag address := by
  by_contra forbidden
  refine changed (ByteMap.foldl_write_of_not_contains fun copy member inside => forbidden ?_)
  exact confined.writes copy member address inside

/-- In every state of every run, the callback handles every frame without reading beyond it, it
is confined, and memory changes only where the frame may write. -/
theorem frame_confined (localCna remote : U32) (memory : ByteMap) (events : List Event)
    (tag : U8) (buf : Buffer) (flen : U32) (malloc : Bool × Bool) :
    let w := step.final (World.start localCna remote memory) events
    ∃ h, ouDataCb w.ctx w.memory buf flen tag malloc = some h ∧ Confined w tag buf h ∧
      ∀ address, (step w (.frame tag buf flen malloc)).1.memory address ≠ w.memory address →
        Permitted w.ctx buf tag address := by
  intro w
  have reads : w.ctx.LocalReads := localReads_final (localReads_init localCna remote) events
  obtain ⟨h, call, handles⟩ := handles w.ctx w.memory buf flen tag malloc
  have confined := confined reads handles
  refine ⟨h, call, confined, fun address changed => confined.changed ?_⟩
  simpa only [step, call] using changed

end OpenURMA.Provider
