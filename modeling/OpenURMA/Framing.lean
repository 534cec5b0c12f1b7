import OpenURMA.Packet

/-!
# Streams of packets

A link carries packets one after another.  `scan` checks the marks of such a stream flit by
flit and says whether it ends within a packet; `ofKey` picks the flits of those packets whose
metadata flit has a given key, which is how flits without metadata are told apart.
-/

namespace OpenURMA

/-- Check the marks of a stream: a flit carries `sop` exactly if no packet is under way.  The
result says whether one is under way at the end. -/
def scan : Bool → List Flit → Option Bool
  | inside, [] => some inside
  | inside, f :: flits => if f.sop = !inside then scan (!f.eop) flits else none

theorem scan_append (inside : Bool) (first second : List Flit) :
    scan inside (first ++ second) = (scan inside first).bind (scan · second) := by
  induction first generalizing inside with
  | nil => rfl
  | cons f first ih =>
    rw [List.cons_append, scan, scan]
    split
    · exact ih _
    · rfl

variable {flits : List Flit} {inside : Bool} {f : Flit}

theorem scan_snoc {within : Bool} (framed : scan inside flits = some within)
    (mark : f.sop = !within) :
    scan inside (flits ++ [f]) = some !f.eop := by
  rw [scan_append, framed, Option.bind_some, scan, if_pos mark, scan]

theorem scan_rest (inner : ∀ f ∈ flits, f.sop = false) (framed : EopLast flits) :
    scan true flits = some false := by
  induction flits with
  | nil => exact framed.elim
  | cons f flits ih =>
    rw [scan, if_pos (show f.sop = !true from inner f (by simp))]
    cases flits with
    | nil =>
      have last : f.eop = true := framed
      rw [last]
      rfl
    | cons g flits =>
      have more : f.eop = false := framed.1
      rw [more]
      exact ih (fun h member => inner h (by simp [member])) framed.2

theorem Packet.scan_flits (p : Packet) : scan false p.flits = some false := by
  have framed := p.eop_last
  have inner := p.sop_rest
  rw [flits, scan, if_pos (show p.head.sop = !false from p.sop_head)]
  cases shape : p.rest with
  | nil =>
    rw [shape] at framed
    have last : p.head.eop = true := framed
    rw [last]
    rfl
  | cons f rest =>
    rw [shape] at framed inner
    rw [framed.1]
    exact scan_rest inner framed.2

theorem scan_packets (packets : List Packet) :
    scan false (packets.flatMap Packet.flits) = some false := by
  induction packets with
  | nil => rfl
  | cons p packets ih =>
    rw [List.flatMap_cons, scan_append, p.scan_flits, Option.bind_some, ih]

theorem scan_singles (single : ∀ f ∈ flits, f.sop = true ∧ f.eop = true) :
    scan false flits = some false := by
  induction flits with
  | nil => rfl
  | cons f flits ih =>
    have marks := single f (by simp)
    rw [scan, if_pos (show f.sop = !false from marks.1), marks.2]
    exact ih fun g member => single g (by simp [member])

/-- Part of a packet, possibly nothing, with flits still missing at its end. -/
def Begun (part : List Flit) : Prop :=
  ∃ (p : Packet) (missing : List Flit), missing ≠ [] ∧ p.flits = part ++ missing

/-- Whole packets, the last of which may still be under way. -/
def WellFramed (stream : List Flit) : Prop :=
  ∃ (packets : List Packet) (part : List Flit),
    stream = packets.flatMap Packet.flits ++ part ∧ Begun part

theorem eopLast_snoc (more : ∀ f ∈ flits, f.eop = false) (last : f.eop = true) :
    EopLast (flits ++ [f]) := by
  induction flits with
  | nil => exact last
  | cons g flits ih =>
    have rest := ih fun h member => more h (by simp [member])
    cases shape : flits ++ [f] with
    | nil => simp at shape
    | cons h tail =>
      rw [shape] at rest
      rw [List.cons_append, shape]
      exact ⟨more g (by simp), rest⟩

/-- A packet under way: `sop` on its first flit only and no `eop` yet. -/
structure Partial (part : List Flit) : Prop where
  sop_head : ∀ m rest, part = m :: rest → m.sop = true ∧ ∀ f ∈ rest, f.sop = false
  more : ∀ f ∈ part, f.eop = false

variable {part : List Flit}

namespace Partial

theorem nil : Partial [] := ⟨by simp, by simp⟩

variable (under : Partial part)
include under

theorem sop_snoc (mark : f.sop = part.isEmpty) :
    ∀ m rest, part ++ [f] = m :: rest → m.sop = true ∧ ∀ g ∈ rest, g.sop = false := by
  intro m rest shape
  cases part with
  | nil =>
    obtain ⟨rfl, rfl⟩ := List.cons.inj shape
    exact ⟨mark, by simp⟩
  | cons first others =>
    obtain ⟨rfl, rfl⟩ := List.cons.inj shape
    have marks := under.sop_head first others rfl
    exact ⟨marks.1, List.forall_mem_append.mpr ⟨marks.2, List.forall_mem_singleton.mpr mark⟩⟩

theorem snoc (mark : f.sop = part.isEmpty) (more : f.eop = false) : Partial (part ++ [f]) := by
  exact ⟨under.sop_snoc mark, List.forall_mem_append.mpr
    ⟨under.more, List.forall_mem_singleton.mpr more⟩⟩

theorem complete (mark : f.sop = part.isEmpty) (last : f.eop = true) :
    ∃ p : Packet, p.flits = part ++ [f] := by
  have framed := eopLast_snoc under.more last
  have marks := under.sop_snoc mark
  cases shape : part ++ [f] with
  | nil => simp at shape
  | cons m rest =>
    rw [shape] at framed
    exact ⟨⟨m, rest, (marks m rest shape).1, (marks m rest shape).2, framed⟩, rfl⟩

theorem begun : Begun part := by
  obtain ⟨p, flits⟩ := under.complete (f := { sop := part.isEmpty, eop := true }) rfl rfl
  exact ⟨p, _, List.cons_ne_nil _ _, flits⟩

end Partial

variable {stream : List Flit}

/-- A stream with correct marks parses into packets; one is under way exactly if the scan says
so. -/
theorem parse_of_scan (framed : scan false stream = some inside) :
    ∃ (packets : List Packet) (part : List Flit),
      stream = packets.flatMap Packet.flits ++ part ∧ Partial part ∧ part.isEmpty = !inside := by
  induction stream using List.reverseRecOn generalizing inside with
  | nil =>
    obtain rfl : false = inside := by simpa [scan] using framed
    exact ⟨[], [], rfl, .nil, rfl⟩
  | append_singleton stream f ih =>
    rw [scan_append] at framed
    cases before : scan false stream with
    | none => simp [before] at framed
    | some within =>
      obtain ⟨packets, part, split, under, closed⟩ := ih before
      rw [before, Option.bind_some, scan] at framed
      split at framed
      · next mark =>
        rw [← closed] at mark
        obtain rfl : (!f.eop) = inside := by simpa [scan] using framed
        cases last : f.eop with
        | false =>
          refine ⟨packets, part ++ [f], ?_, under.snoc mark last, by simp⟩
          rw [split, List.append_assoc]
        | true =>
          obtain ⟨p, flits⟩ := under.complete mark last
          refine ⟨packets ++ [p], [], ?_, .nil, rfl⟩
          rw [split, List.flatMap_append, List.flatMap_singleton, flits,
            List.append_assoc, List.append_nil]
      · simp at framed

theorem wellFramed_of_scan (framed : scan false stream = some inside) : WellFramed stream := by
  obtain ⟨packets, part, split, under, _⟩ := parse_of_scan framed
  exact ⟨packets, part, split, under.begun⟩

theorem WellFramed.scan (framed : WellFramed stream) :
    ∃ inside, scan false stream = some inside := by
  obtain ⟨packets, part, rfl, p, missing, _, flits⟩ := framed
  have whole := p.scan_flits
  rw [flits, scan_append] at whole
  cases begun : OpenURMA.scan false part with
  | none => simp [begun] at whole
  | some inside =>
    exact ⟨inside, by rw [scan_append, scan_packets, Option.bind_some, begun]⟩

theorem eopLast_append_inj {first second rest others : List Flit} (one : EopLast first)
    (two : EopLast second) (same : first ++ rest = second ++ others) :
    first = second ∧ rest = others := by
  induction first generalizing second with
  | nil => exact one.elim
  | cons f first ih =>
    cases second with
    | nil => exact two.elim
    | cons g second =>
      obtain ⟨rfl, tails⟩ := List.cons.inj same
      cases first with
      | nil =>
        cases second with
        | nil => exact ⟨rfl, tails⟩
        | cons h second => exact absurd (show f.eop = true from one) (by simp [two.1])
      | cons h first =>
        cases second with
        | nil => exact absurd (show f.eop = true from two) (by simp [one.1])
        | cons h' second =>
          obtain ⟨whole, others⟩ := ih one.2 two.2 tails
          exact ⟨congrArg (f :: ·) whole, others⟩

theorem Packet.flits_inj {p q : Packet} (same : p.flits = q.flits) : p = q := by
  cases p
  cases q
  obtain ⟨rfl, rfl⟩ := List.cons.inj same
  rfl

theorem packets_inj {packets others : List Packet}
    (same : packets.flatMap Packet.flits = others.flatMap Packet.flits) : packets = others := by
  induction packets generalizing others with
  | nil =>
    cases others with
    | nil => rfl
    | cons q others => simp [Packet.flits] at same
  | cons p packets ih =>
    cases others with
    | nil => simp [Packet.flits] at same
    | cons q others =>
      rw [List.flatMap_cons, List.flatMap_cons] at same
      obtain ⟨first, rest⟩ := eopLast_append_inj p.eop_last q.eop_last same
      rw [Packet.flits_inj first, ih rest]

theorem eopLast_split {more : List Flit} (framed : EopLast (part ++ f :: more)) :
    (∀ g ∈ part, g.eop = false) ∧ f.eop = more.isEmpty := by
  induction part with
  | nil =>
    cases more with
    | nil => exact ⟨by simp, framed⟩
    | cons h more => exact ⟨by simp, framed.1⟩
  | cons g part ih =>
    have later : EopLast (part ++ f :: more) ∧ g.eop = false := by
      cases part with
      | nil => exact ⟨framed.2, framed.1⟩
      | cons h part => exact ⟨framed.2, framed.1⟩
    obtain ⟨others, last⟩ := ih later.1
    exact ⟨List.forall_mem_cons.mpr ⟨later.2, others⟩, last⟩

namespace Packet

variable {p : Packet} {more : List Flit}

theorem marks (split : p.flits = part ++ f :: more) :
    f.sop = part.isEmpty ∧ f.eop = more.isEmpty := by
  have framed : EopLast p.flits := p.eop_last
  rw [split] at framed
  refine ⟨?_, (eopLast_split framed).2⟩
  cases part with
  | nil =>
    obtain ⟨rfl, _⟩ := List.cons.inj split
    exact p.sop_head
  | cons m part =>
    obtain ⟨_, rest⟩ := List.cons.inj split
    exact p.sop_rest f (by simp [rest])

theorem partial_of_split (split : p.flits = part ++ more) (missing : more ≠ []) : Partial part := by
  have framed : EopLast p.flits := p.eop_last
  obtain ⟨f, later, rfl⟩ := List.exists_cons_of_ne_nil missing
  rw [split] at framed
  refine ⟨fun m rest shape => ?_, (eopLast_split framed).1⟩
  subst shape
  obtain ⟨rfl, tail⟩ := List.cons.inj split
  exact ⟨p.sop_head, fun g member => p.sop_rest g (by simp [tail, member])⟩

end Packet

theorem Partial.scan (under : Partial part) : OpenURMA.scan false part = some !part.isEmpty := by
  obtain ⟨p, missing, more, flits⟩ := under.begun
  have whole := p.scan_flits
  rw [flits, scan_append] at whole
  cases begun : OpenURMA.scan false part with
  | none => simp [begun] at whole
  | some inside =>
    obtain ⟨packets, tail, split, _, closed⟩ := parse_of_scan begun
    cases packets with
    | nil =>
      obtain rfl : part = tail := split
      rw [closed, Bool.not_not]
    | cons q packets =>
      -- a whole packet would have brought its last flit
      rw [List.flatMap_cons, List.append_assoc] at split
      have first : EopLast q.flits := q.eop_last
      have member : q.flits.getLast (by simp [Packet.flits]) ∈ part := by
        rw [split]
        exact List.mem_append_left _ (List.getLast_mem _)
      have last := List.dropLast_append_getLast (l := q.flits) (by simp [Packet.flits])
      rw [← last] at first
      exact absurd (eopLast_split first).2 (by simp [under.more _ member])

theorem head_of_sop {packets : List Packet} {f : Flit} (member : f ∈ packets.flatMap Packet.flits)
    (sop : f.sop = true) : ∃ p ∈ packets, p.head = f := by
  obtain ⟨p, listed, member⟩ := List.mem_flatMap.mp member
  rcases List.mem_cons.mp member with rfl | inner
  · exact ⟨p, listed, rfl⟩
  · exact absurd sop (by simp [p.sop_rest f inner])

def Whole (stream : List Packet) (flits : List Flit) : Prop :=
  ∃ (packets : List Packet) (part : List Flit),
    flits = packets.flatMap Packet.flits ++ part ∧ (∀ p ∈ packets, p ∈ stream) ∧
      (part = [] ∨ ∃ p ∈ stream, ∃ missing, missing ≠ [] ∧ p.flits = part ++ missing)

theorem Whole.scan {stream : List Packet} (whole : Whole stream flits) :
    OpenURMA.scan false flits ≠ none := by
  obtain ⟨packets, part, rfl, _, begun⟩ := whole
  have under : Partial part := by
    rcases begun with rfl | ⟨p, _, missing, more, split⟩
    · exact .nil
    · exact p.partial_of_split split more
  rw [scan_append, scan_packets, Option.bind_some, under.scan]
  exact Option.some_ne_none _

section

open Library

variable {σ ι : Type} {step : Mealy σ ι (Ports Flit)} {flitOf : ι → Option Flit}
variable {invariant : σ → Bool → Prop} {good : Flit → Prop}

theorem sent_of_passes (passes : ∀ s within input, invariant s within →
      (∀ f ∈ flitOf input, f.sop = !within ∧ good f) →
        invariant (step s input).1 ((flitOf input).elim within (!·.eop)) ∧
          (step s input).2 1 = flitOf input)
    {s : σ} {within after : Bool} (holds : invariant s within) {inputs : List ι}
    (framed : scan within (inputs.filterMap flitOf) = some after)
    (all : ∀ f ∈ inputs.filterMap flitOf, good f) :
    Ports.sent 1 (step.trace s inputs) = inputs.filterMap flitOf := by
  induction inputs generalizing s within with
  | nil => rfl
  | cons input inputs ih =>
    rw [Mealy.trace_cons, Ports.sent_cons]
    cases flit : flitOf input with
    | none =>
      rw [List.filterMap_cons_none flit] at framed all ⊢
      obtain ⟨next, out⟩ := passes s within input holds (by simp [flit])
      rw [flit] at next out
      rw [out]
      exact ih next framed all
    | some f =>
      rw [List.filterMap_cons_some flit] at framed all ⊢
      rw [scan] at framed
      split at framed
      · next mark =>
        have own : ∀ g ∈ flitOf input, g.sop = !within ∧ good g := by
          intro g member
          obtain rfl : f = g := by simpa [flit] using member
          exact ⟨mark, all f (by simp)⟩
        obtain ⟨next, out⟩ := passes s within input holds own
        rw [flit] at next out
        rw [out]
        exact congrArg (f :: ·) (ih next framed fun g member => all g (by simp [member]))
      · cases framed

end

/-! ## Packets told apart by a key of their metadata flit -/

variable {κ : Type*} [DecidableEq κ] (key : Flit → κ)

def owner (current : Option κ) (f : Flit) : Option κ := if f.sop then some (key f) else current

def advance (current : Option κ) (f : Flit) : Option κ :=
  if f.eop then none else owner key current f

def underway (stream : List Flit) : Option κ := stream.foldl (advance key) none

def share (k : κ) : Option κ → List Flit → List Flit
  | _, [] => []
  | current, f :: stream =>
    (if owner key current f = some k then [f] else []) ++ share k (advance key current f) stream

def ofKey (k : κ) (stream : List Flit) : List Flit := share key k none stream

variable {key}

theorem share_append (k : κ) (current : Option κ) (first second : List Flit) :
    share key k current (first ++ second) =
      share key k current first ++ share key k (first.foldl (advance key) current) second := by
  induction first generalizing current with
  | nil => rfl
  | cons f first ih => rw [List.cons_append, share, share, ih, List.append_assoc, List.foldl_cons]

theorem ofKey_snoc (k : κ) (stream : List Flit) (f : Flit) : ofKey key k (stream ++ [f]) =
      ofKey key k stream ++ if owner key (underway key stream) f = some k then [f] else [] := by
  rw [ofKey, ofKey, share_append, share, share, List.append_nil]
  rfl

omit [DecidableEq κ] in
theorem underway_snoc (stream : List Flit) (f : Flit) :
    underway key (stream ++ [f]) = advance key (underway key stream) f := by
  rw [underway, underway, List.foldl_append]
  rfl

theorem share_framed (k : κ) {current : Option κ} {c : κ} {rest : List Flit}
    (own : owner key current f = some c) (inner : ∀ g ∈ rest, g.sop = false)
    (framed : EopLast (f :: rest)) :
    share key k current (f :: rest) = (if c = k then f :: rest else []) ∧
      (f :: rest).foldl (advance key) current = none := by
  induction rest generalizing current f with
  | nil =>
    have last : f.eop = true := framed
    rw [share, List.foldl_cons, advance, own, if_pos last]
    by_cases same : c = k <;> simp [same, share]
  | cons g rest ih =>
    have next : advance key current f = some c := by simp [advance, framed.1, own]
    have own' : owner key (some c) g = some c := by simp [owner, inner g (by simp)]
    obtain ⟨later, closed⟩ := ih own' (fun h member => inner h (by simp [member])) framed.2
    rw [share, List.foldl_cons, next, own, later]
    refine ⟨?_, closed⟩
    by_cases same : c = k <;> simp [same]

theorem ofKey_packets (k : κ) (packets : List Packet) : ofKey key k (packets.flatMap Packet.flits) =
      (packets.filter fun p => key p.head = k).flatMap Packet.flits := by
  induction packets with
  | nil => rfl
  | cons p packets ih =>
    have own : owner key none p.head = some (key p.head) := by rw [owner, if_pos p.sop_head]
    obtain ⟨flits, closed⟩ := share_framed k own p.sop_rest p.eop_last
    rw [List.flatMap_cons, ofKey, share_append, Packet.flits, flits, closed, List.filter_cons]
    change _ ++ ofKey key k _ = _
    rw [ih]
    by_cases same : key p.head = k <;> simp [same, Packet.flits]

theorem underway_packets (packets : List Packet) :
    underway key (packets.flatMap Packet.flits) = none := by
  induction packets using List.reverseRecOn with
  | nil => rfl
  | append_singleton packets p ih =>
    have own : owner key none p.head = some (key p.head) := by rw [owner, if_pos p.sop_head]
    have closed := (share_framed (key p.head) own p.sop_rest p.eop_last).2
    rw [List.flatMap_append, underway, List.foldl_append, List.flatMap_singleton]
    rw [underway] at ih
    rw [ih]
    exact closed

end OpenURMA
