import OpenURMA.Fields

/-!
# Packets

A packet on an internal link: a metadata flit marked `sop`, then any number of flits
without that mark, with `eop` on the last flit and on no other.
-/

namespace OpenURMA

def EopLast : List Flit → Prop
  | [] => False
  | [f] => f.eop = true
  | f :: g :: rest => f.eop = false ∧ EopLast (g :: rest)

instance decidableEopLast : (flits : List Flit) → Decidable (EopLast flits)
  | [] => inferInstanceAs (Decidable False)
  | [f] => inferInstanceAs (Decidable (f.eop = true))
  | f :: g :: rest =>
    have := decidableEopLast (g :: rest)
    inferInstanceAs (Decidable (f.eop = false ∧ EopLast (g :: rest)))

structure Packet where
  head : Flit
  rest : List Flit
  sop_head : head.sop = true
  sop_rest : ∀ f ∈ rest, f.sop = false
  eop_last : EopLast (head :: rest)

theorem sop_nil : ∀ f ∈ ([] : List Flit), f.sop = false := by simp

theorem sop_end : ∀ f ∈ [({ eop := true } : Flit)], f.sop = false := by simp

namespace Packet

def flits (p : Packet) : List Flit := p.head :: p.rest

/-- Replace the metadata flit by one with the same framing marks. -/
def withHead (p : Packet) (f : Flit) (sop : f.sop = p.head.sop)
    (eop : f.eop = p.head.eop) : Packet where
  head := f
  rest := p.rest
  sop_head := sop.trans p.sop_head
  sop_rest := p.sop_rest
  eop_last := by
    have framed := p.eop_last
    cases equal : p.rest with
    | nil => rw [equal] at framed; exact eop.trans framed
    | cons g rest => rw [equal] at framed; exact ⟨eop.trans framed.1, framed.2⟩

end Packet

/-! ## Streaming

Most elements decide on the metadata flit what to do with the packet and then pass the
remaining flits on until the last one. -/

open Library Ports

variable {σ : Type} {step : Mealy σ Flit (Ports Flit)} {busy done : σ} {port : Nat}

structure Streams (step : Mealy σ Flit (Ports Flit)) (busy done : σ) (port : Nat) :
    Prop where
  more : ∀ f : Flit, f.sop = false → f.eop = false → step busy f = (busy, emit port f)
  last : ∀ f : Flit, f.sop = false → f.eop = true → step busy f = (done, emit port f)

theorem Streams.run (streams : Streams step busy done port) (flits : List Flit)
    (inner : ∀ f ∈ flits, f.sop = false) (framed : EopLast flits) :
    step.final busy flits = done ∧ step.trace busy flits = flits.map (emit port) := by
  induction flits with
  | nil => exact framed.elim
  | cons f flits ih =>
    have notSop : f.sop = false := inner f (by simp)
    cases flits with
    | nil =>
      have call := streams.last f notSop framed
      simp [call]
    | cons g flits =>
      have call := streams.more f notSop framed.1
      have rest := ih (fun h member => inner h (by simp [member])) framed.2
      simp only [Mealy.final_cons, Mealy.trace_cons, call, rest, List.map_cons, and_self]

/-- An element that decides on the metadata flit whether the rest of a packet goes to port 1. -/
def Gated (step : Mealy σ Flit (Ports Flit)) (pass : σ → Bool) : Prop :=
  ∀ s f, f.sop = false → step s f = (s, if pass s then emit 1 f else silent)

variable {pass : σ → Bool}

theorem Gated.rest (gated : Gated step pass) (s : σ) {flits : List Flit}
    (inner : ∀ f ∈ flits, f.sop = false) :
    step.final s flits = s ∧ sent 1 (step.trace s flits) = (if pass s then flits else []) ∧
      sent 2 (step.trace s flits) = [] := by
  induction flits with
  | nil => simp
  | cons f flits ih =>
    rw [List.forall_mem_cons] at inner
    obtain ⟨final, passed, acked⟩ := ih inner.2
    rw [Mealy.final_cons, Mealy.trace_cons, sent_cons, sent_cons, gated s f inner.1,
      final, passed, acked]
    cases pass s <;> simp

theorem Gated.packet (gated : Gated step pass) (s : σ) (p : Packet) :
    step.final s p.flits = (step s p.head).1 ∧ sent 1 (step.trace s p.flits) =
        ((step s p.head).2 1).toList ++ (if pass (step s p.head).1 then p.rest else []) ∧
      sent 2 (step.trace s p.flits) = ((step s p.head).2 2).toList := by
  obtain ⟨final, passed, acked⟩ := gated.rest (step s p.head).1 p.sop_rest
  rw [Packet.flits, Mealy.final_cons, Mealy.trace_cons, sent_cons, sent_cons, final, passed, acked]
  simp

end OpenURMA
