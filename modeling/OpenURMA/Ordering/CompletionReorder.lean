import OpenURMA.Library.SlidingRing
import OpenURMA.Ordering.IniQueues

/-!
# `UB_Completion_Reorder`

Completions with ODR[2] = 0 pass at once.  Those with ODR[2] = 1 are held in a window of eight
TASSNs per slot and leave it in the order of their TASSNs, one in a call, and only in calls with
a flit at the input.
-/

namespace OpenURMA.CompletionReorder

open Library Function UbMeta Ports List Option Bool

/-- The parts of the arrays that belong to one value of `ini_rc_id & INI_MASK`. -/
structure Scoreboard where
  fa : Fin 8 → Flit
  validA : Fin 8 → Bool
  nextTassn : U16
  head : Fin 8

structure State where
  ini : Fin 16 → Scoreboard
  sawMeta : Bool
  curIdx : Option (Fin 16)

def init (memory : Fin 16 → Fin 8 → Flit) : State where
  ini i := ⟨memory i, fun _ => false, 0, 0⟩
  sawMeta := false
  curIdx := some 0

def State.setIni (s : State) (idx : Fin 16) (b : Scoreboard) : State :=
  { s with ini := update s.ini idx b }

def Scoreboard.cell (b : Scoreboard) (off : Nat) : Fin 8 :=
  ⟨(b.head.val + off) % 8, Nat.mod_lt _ (by decide)⟩

def Scoreboard.offset (b : Scoreboard) (f : Flit) : Nat :=
  (iniTassn.get f - b.nextTassn).toNat

def Scoreboard.hold (b : Scoreboard) (f : Flit) : Scoreboard :=
  let off := b.offset f
  if off < 8 then
    { b with
      fa := update b.fa (b.cell off) f
      validA := update b.validA (b.cell off) true }
  else b

def receive (s : State) (f : Flit) : State × Option Flit :=
  if f.sop then
    if !odrCompl.get f then ({ s with sawMeta := true, curIdx := none }, some f)
    else
      let idx := metaSlot f
      ({ s.setIni idx ((s.ini idx).hold f) with sawMeta := true, curIdx := some idx }, none)
  else if s.sawMeta then
    let s₁ := { s with sawMeta := if f.eop then false else s.sawMeta }
    match s.curIdx with
    | none => (s₁, some f)
    | some _ => (s₁, none)
  else (s, none)

def Scoreboard.advance (b : Scoreboard) : Scoreboard :=
  { b with
    validA := update b.validA b.head false
    head := b.cell 1
    nextTassn := b.nextTassn + 1 }

def drain (s : State) (out : Option Flit) : State × Option Flit :=
  match s.curIdx with
  | none => (s, out)
  | some idx =>
    let b := s.ini idx
    if b.validA b.head then (s.setIni idx b.advance, some (b.fa b.head)) else (s, out)

def step : Mealy State (Option Flit) (Ports Flit) := fun s input =>
  match input with
  | none => (s, silent)
  | some f =>
    let received := receive s f
    let result := drain received.1 received.2
    (result.1, ofOption 1 result.2)

theorem sent_bypass_rest {s : State} (saw : s.sawMeta = true) (current : s.curIdx = none)
    {flits : List Flit} (inner : ∀ f ∈ flits, f.sop = false) (framed : EopLast flits) :
    Ports.sent 1 (step.trace s (flits.map some)) = flits := by
  induction flits generalizing s with
  | nil => exact framed.elim
  | cons f flits ih =>
    have call : step s (some f) =
        ({ s with sawMeta := if f.eop then false else true }, emit 1 f) := by
      simp [step, receive, drain, inner f (by simp), saw, current, ofOption]
    rw [map_cons, Mealy.trace_cons, Ports.sent_cons, call]
    cases flits with
    | nil => rfl
    | cons g flits =>
      have rest := ih (s := { s with sawMeta := if f.eop then false else true })
        (by simp [framed.1]) current (fun h member => inner h (by simp [member])) framed.2
      rw [rest]
      rfl

theorem sent_bypass (s : State) (p : Packet) (bypass : odrCompl.get p.head = false) :
    Ports.sent 1 (step.trace s (p.flits.map some)) = p.flits := by
  have call : step s (some p.head) =
      ({ s with sawMeta := true, curIdx := none }, emit 1 p.head) := by
    simp [step, receive, drain, p.sop_head, bypass, ofOption]
  have framed := p.eop_last
  have inner := p.sop_rest
  rw [Packet.flits, map_cons, Mealy.trace_cons, Ports.sent_cons, call]
  cases shape : p.rest with
  | nil => rfl
  | cons g flits =>
    rw [shape] at framed inner
    rw [sent_bypass_rest rfl rfl inner framed.2]
    rfl

section

variable (i : Fin 16)

def isHeld (f : Flit) : Bool :=
  f.sop && odrCompl.get f && metaSlot f == i

def Scoreboard.ring (b : Scoreboard) : SlidingRing 8 Flit where
  cells j := if b.validA j then some (b.fa j) else none
  head := b.head

theorem ring_hold {b : Scoreboard} {f : Flit} (inside : b.offset f < 8) :
    (b.hold f).ring = b.ring.store (b.offset f) f := by
  have cells : (b.hold f).ring.cells = (b.ring.store (b.offset f) f).cells := by
    funext j
    change (if (b.hold f).validA j then some ((b.hold f).fa j) else none) =
      update b.ring.cells (b.cell (b.offset f)) (some f) j
    rw [Scoreboard.hold, if_pos inside]
    by_cases here : j = b.cell (b.offset f)
    · subst here
      simp only [update_self, if_true]
    · simp only [update_of_ne here]
      rfl
  have head : (b.hold f).ring.head = b.ring.head := by
    rw [Scoreboard.hold, if_pos inside]
    rfl
  cases result : (b.hold f).ring with
  | mk cells' head' =>
    rw [result] at cells head
    subst cells head
    rfl

theorem ring_advance (b : Scoreboard) : b.advance.ring = b.ring.slide := by
  have cells : b.advance.ring.cells = b.ring.slide.cells := by
    funext j
    change (if update b.validA b.head false j then some (b.fa j) else none) =
      update b.ring.cells b.head none j
    by_cases here : j = b.head
    · subst here
      simp only [update_self, false_eq_true, if_false]
    · simp only [update_of_ne here]
      rfl
  exact congrArg (fun cells => (⟨cells, b.cell 1⟩ : SlidingRing 8 Flit)) cells

/-- The completions of a slot that have been held and released, among the flits sent. -/
def released (outs : List Flit) : List Flit := outs.filter (isHeld i)

/-- The number that the TASSN of a metadata flit has in the window from `next` on, if any. -/
def windowNumber (next : ℕ) (f : Flit) : Option ℕ :=
  let off := (iniTassn.get f - BitVec.ofNat 16 next).toNat
  if off < 8 then some (next + off) else none

/-- The element, the flits sent so far, and the metadata flits received for a slot with their
numbers in the window of the time. -/
structure Recorded where
  state : State
  outs : List Flit
  got : List (ℕ × Flit)

def Recorded.start (memory : Fin 16 → Fin 8 → Flit) : Recorded := ⟨init memory, [], []⟩

def receipt (outs : List Flit) (input : Option Flit) : Option (ℕ × Flit) :=
  (input.filter (isHeld i)).bind fun f =>
    (windowNumber (released i outs).length f).map fun n => (n, f)

def record (h : Recorded) (input : Option Flit) : Recorded where
  state := (step h.state input).1
  outs := h.outs ++ ((step h.state input).2 1).toList
  got := h.got ++ (receipt i h.outs input).toList

/-- The metadata flits that a run receives for a slot, with their numbers. -/
def receipts (memory : Fin 16 → Fin 8 → Flit) (inputs : List (Option Flit)) : List (ℕ × Flit) :=
  (inputs.foldl (record i) (.start memory)).got

theorem foldl_record (h : Recorded) (inputs : List (Option Flit)) :
    (inputs.foldl (record i) h).state = step.final h.state inputs ∧
      (inputs.foldl (record i) h).outs = h.outs ++ Ports.sent 1 (step.trace h.state inputs) := by
  induction inputs generalizing h with
  | nil => simp
  | cons input inputs ih =>
    rw [foldl_cons, Mealy.final_cons, Mealy.trace_cons, Ports.sent_cons, ← append_assoc]
    exact ih (record i h input)

end

def Placed (s : State) : Prop :=
  ∀ k j g, (s.ini k).ring.cells j = some g → isHeld k g = true

/-- A slot holds the completions received last under the numbers of its window; those released
before were the last received under theirs. -/
structure InWindow (i : Fin 16) (h : Recorded) : Prop where
  tassn : (h.state.ini i).nextTassn = BitVec.ofNat 16 (released i h.outs).length
  holds : (h.state.ini i).ring.Holds (released i h.outs).length h.got
  own : ∀ e ∈ h.got, isHeld i e.2 = true ∧ iniTassn.get e.2 = BitVec.ofNat 16 e.1
  sent : ∀ j g, (released i h.outs)[j]? = some g → latest h.got j = some g

variable {i : Fin 16}

section

variable {s : State} {outs : List Flit} {got : List (ℕ × Flit)} {f : Flit}
variable {out : Option Flit}

theorem receive_cases (s : State) (f : Flit) :
    (isHeld (metaSlot f) f = true ∧ (receive s f).2 = none ∧
        (receive s f).1.ini = update s.ini (metaSlot f) ((s.ini (metaSlot f)).hold f) ∧
        (receive s f).1.curIdx = some (metaSlot f)) ∨
      ((∀ k, isHeld k f = false) ∧ (receive s f).1.ini = s.ini ∧
        ((receive s f).2 = none ∧ f.sop = false ∨
          (receive s f).2 = some f ∧ (receive s f).1.curIdx = none)) := by
  unfold receive
  split
  · next sop =>
    split
    · next bypass =>
      refine .inr ⟨fun k => ?_, rfl, .inr ⟨rfl, rfl⟩⟩
      have clear : odrCompl.get f = false := by simpa using bypass
      simp [isHeld, clear]
    · next ordered =>
      refine .inl ⟨?_, rfl, rfl, rfl⟩
      have set : odrCompl.get f = true := by simpa using ordered
      simp [isHeld, sop, set]
  · next inner =>
    have notHeld : ∀ k, isHeld k f = false := fun k => by simp [isHeld, inner]
    split
    · dsimp only
      cases bypass : s.curIdx with
      | none => exact .inr ⟨notHeld, rfl, .inr ⟨rfl, rfl⟩⟩
      | some idx => exact .inr ⟨notHeld, rfl, .inl ⟨rfl, by simpa using inner⟩⟩
    · exact .inr ⟨notHeld, rfl, .inl ⟨rfl, by simpa using inner⟩⟩

theorem passes_of_receive (i : Fin 16) (s : State) (f : Flit) :
    ∀ g ∈ (receive s f).2, isHeld i g = false := by
  rcases receive_cases s f with ⟨-, none, -⟩ | ⟨notHeld, -, ⟨none, -⟩ | ⟨some, -⟩⟩
  · simp [none]
  · simp [none]
  · simpa [some] using notHeld i

theorem slot_of_isHeld (held : isHeld i f = true) : metaSlot f = i := by
  rw [isHeld, and_eq_true, beq_iff_eq] at held
  exact held.2

variable {s' : State}

theorem Placed.update (placed : Placed s) {k : Fin 16} {b : Scoreboard}
    (own : ∀ j g, b.ring.cells j = some g → isHeld k g = true) (ini : s'.ini = update s.ini k b) :
    Placed s' := by
  intro l j g found
  rw [ini] at found
  by_cases same : l = k
  · subst same
    rw [update_self] at found
    exact own j g found
  · rw [update_of_ne same] at found
    exact placed l j g found

theorem Placed.receive (placed : Placed s) (f : Flit) : Placed (receive s f).1 := by
  rcases receive_cases s f with ⟨held, -, ini, -⟩ | ⟨-, ini, -⟩
  · refine placed.update (fun j g found => ?_) ini
    by_cases inside : (s.ini (metaSlot f)).offset f < 8
    · rw [ring_hold inside] at found
      rcases SlidingRing.cells_store found with rfl | old
      · exact held
      · exact placed _ j g old
    · rw [Scoreboard.hold, if_neg inside] at found
      exact placed _ j g found
  · intro k j g found
    rw [ini] at found
    exact placed k j g found

theorem Placed.drain (placed : Placed s) (out : Option Flit) : Placed (drain s out).1 := by
  unfold CompletionReorder.drain
  split
  · exact placed
  · next idx _ =>
    dsimp only
    split
    · refine placed.update (fun j g found => ?_) rfl
      rw [ring_advance] at found
      exact placed idx j g (SlidingRing.cells_slide found)
    · exact placed

theorem InWindow.congr (inWindow : InWindow i ⟨s, outs, got⟩) (same : s'.ini i = s.ini i) :
    InWindow i ⟨s', outs, got⟩ :=
  ⟨same ▸ inWindow.tassn, same ▸ inWindow.holds, inWindow.own, inWindow.sent⟩

theorem tassn_of_windowNumber {next n : ℕ} (found : windowNumber next f = some n) :
    next ≤ n ∧ iniTassn.get f = BitVec.ofNat 16 n := by
  simp only [windowNumber] at found
  split at found
  · obtain rfl := some.inj found
    refine ⟨Nat.le_add_right .., ?_⟩
    rw [BitVec.ofNat_add, BitVec.ofNat_toNat, BitVec.setWidth_eq, BitVec.add_comm,
      BitVec.sub_add_cancel]
  · cases found

variable (inWindow : InWindow i ⟨s, outs, got⟩)
include inWindow

theorem InWindow.hold (held : isHeld i f = true) (slot : s'.ini i = (s.ini i).hold f) :
    InWindow i ⟨s', outs, got ++ (receipt i outs (some f)).toList⟩ := by
  have offset : (s.ini i).offset f =
      (iniTassn.get f - BitVec.ofNat 16 (released i outs).length).toNat := by
    rw [Scoreboard.offset, inWindow.tassn]
  have number : receipt i outs (some f) =
      (windowNumber (released i outs).length f).map fun n => (n, f) := by
    simp [receipt, Option.filter, held]
  rw [number, windowNumber, ← offset]
  by_cases inside : (s.ini i).offset f < 8
  · rw [if_pos inside]
    have found : windowNumber (released i outs).length f =
        some ((released i outs).length + (s.ini i).offset f) := by
      rw [windowNumber, ← offset, if_pos inside]
    have numbered := tassn_of_windowNumber found
    refine ⟨?_, ?_, fun e member => ?_, fun j g sent => ?_⟩
    · rw [slot, Scoreboard.hold, if_pos inside]
      exact inWindow.tassn
    · rw [slot, ring_hold inside]
      exact inWindow.holds.store inside f
    · rcases mem_append.mp member with old | new
      · exact inWindow.own e old
      · rw [mem_singleton.mp new]
        exact ⟨held, numbered.2⟩
    · have earlier : j < (released i outs).length := (List.getElem?_eq_some_iff.mp sent).1
      rw [map_some, toList_some, latest_snoc_other (by omega)]
      exact inWindow.sent j g sent
  · rw [if_neg inside, map_none, toList_none, append_nil]
    rw [Scoreboard.hold, if_neg inside] at slot
    exact inWindow.congr slot

theorem InWindow.receive (f : Flit) :
    InWindow i ⟨(receive s f).1, outs, got ++ (receipt i outs (some f)).toList⟩ := by
  have foreign : isHeld i f = false → receipt i outs (some f) = none := fun notHeld => by
    simp [receipt, Option.filter, notHeld]
  rcases receive_cases s f with ⟨held, -, ini, -⟩ | ⟨notHeld, ini, -⟩
  · by_cases here : metaSlot f = i
    · subst here
      exact inWindow.hold held (by rw [ini, update_self])
    · have notHeld : isHeld i f = false := by
        rw [eq_false_iff]
        exact fun held => here (slot_of_isHeld held)
      rw [foreign notHeld, toList_none, append_nil]
      refine inWindow.congr ?_
      rw [ini, update_of_ne (Ne.symm here)]
  · rw [foreign (notHeld i), toList_none, append_nil]
    exact inWindow.congr (congrFun ini i)

theorem InWindow.passed (notHeld : isHeld i f = false) : InWindow i ⟨s, outs ++ [f], got⟩ := by
  have same : released i (outs ++ [f]) = released i outs := by simp [released, notHeld]
  exact ⟨same ▸ inWindow.tassn, same ▸ inWindow.holds, inWindow.own, same ▸ inWindow.sent⟩

theorem InWindow.advance (valid : (s.ini i).validA (s.ini i).head = true)
    (slot : s'.ini i = (s.ini i).advance) :
    InWindow i ⟨s', outs ++ [(s.ini i).fa (s.ini i).head], got⟩ := by
  have found : latest got (released i outs).length = some ((s.ini i).fa (s.ini i).head) := by
    have first := inWindow.holds.get 0 (by decide)
    rw [Nat.add_zero] at first
    rw [← first, SlidingRing.get, SlidingRing.place_zero]
    exact if_pos valid
  have held : isHeld i ((s.ini i).fa (s.ini i).head) = true :=
    (inWindow.own _ (mem_of_latest found)).1
  have longer : released i (outs ++ [(s.ini i).fa (s.ini i).head]) =
      released i outs ++ [(s.ini i).fa (s.ini i).head] := by
    simp [released, held]
  refine ⟨?_, ?_, inWindow.own, fun j g sent => ?_⟩
  · rw [longer, length_append, length_singleton, BitVec.ofNat_add, ← inWindow.tassn, slot]
    rfl
  · rw [longer, length_append, length_singleton, slot, ring_advance]
    exact inWindow.holds.slide
  · dsimp only at sent
    rw [longer, getElem?_append] at sent
    split at sent
    · exact inWindow.sent j g sent
    · next beyond =>
      have here : j = (released i outs).length := by
        have := (List.getElem?_eq_some_iff.mp sent).1
        rw [length_singleton] at this
        omega
      rw [here, Nat.sub_self] at sent
      rw [here, found]
      exact sent

theorem InWindow.drain (placed : Placed s) (passes : ∀ f ∈ out, isHeld i f = false) :
    InWindow i ⟨(drain s out).1, outs ++ (drain s out).2.toList, got⟩ := by
  have untouched : InWindow i ⟨s, outs ++ out.toList, got⟩ := by
    cases out with
    | none => simpa using inWindow
    | some f => exact inWindow.passed (passes f rfl)
  unfold CompletionReorder.drain
  split
  · exact untouched
  · next idx _ =>
    dsimp only
    split
    · next valid =>
      by_cases here : idx = i
      · subst here
        exact inWindow.advance valid (update_self ..)
      · have foreign : isHeld i ((s.ini idx).fa (s.ini idx).head) = false := by
          rw [eq_false_iff]
          intro held
          have own := placed idx (s.ini idx).head _ (if_pos valid)
          exact here ((slot_of_isHeld own).symm.trans (slot_of_isHeld held))
        refine (inWindow.passed foreign).congr ?_
        exact update_of_ne (Ne.symm here) ..
    · exact untouched

end

theorem placed_step {s : State} (placed : Placed s) (input : Option Flit) :
    Placed (step s input).1 := by
  cases input with
  | none => exact placed
  | some f => exact (placed.receive f).drain _

variable {h : Recorded}

theorem InWindow.record (inWindow : InWindow i h) (placed : Placed h.state) (input : Option Flit) :
    InWindow i (record i h input) := by
  cases input with
  | none => simpa [CompletionReorder.record, step, receipt] using inWindow
  | some f =>
    have received := InWindow.receive inWindow f
    simpa only [CompletionReorder.record, step, ofOption_same] using
      received.drain (placed.receive f) (passes_of_receive i h.state f)

theorem inWindow_run (i : Fin 16) (inputs : List (Option Flit)) (inWindow : InWindow i h)
    (placed : Placed h.state) :
    InWindow i (inputs.foldl (record i) h) ∧ Placed (inputs.foldl (record i) h).state := by
  induction inputs generalizing h with
  | nil => exact ⟨inWindow, placed⟩
  | cons input inputs ih => exact ih (inWindow.record placed input) (placed_step placed input)

theorem inWindow_start (i : Fin 16) (memory : Fin 16 → Fin 8 → Flit) :
    InWindow i (.start memory) ∧ Placed (init memory) := by
  refine ⟨⟨rfl, ⟨fun _ _ => rfl, nofun⟩, ?_, ?_⟩, ?_⟩
  · exact fun e member => absurd member not_mem_nil
  · intro j g sent
    simp [Recorded.start, released] at sent
  · intro k j g found
    cases found

theorem released_eq_latest (inWindow : InWindow i h) :
    (released i h.outs).map some = (range (released i h.outs).length).map (latest h.got) := by
  refine ext_getElem (by simp) fun j inside _ => ?_
  rw [length_map] at inside
  rw [getElem_map, getElem_map, getElem_range]
  exact (inWindow.sent j _ (getElem?_eq_getElem inside)).symm

theorem tassn_of_released (inWindow : InWindow i h) : (released i h.outs).map iniTassn.get =
      (range (released i h.outs).length).map (BitVec.ofNat 16) := by
  refine ext_getElem (by simp) fun j inside _ => ?_
  rw [length_map] at inside
  rw [getElem_map, getElem_map, getElem_range]
  have last := inWindow.sent j _ (getElem?_eq_getElem inside)
  exact (inWindow.own _ (mem_of_latest last)).2

/-- The completions that a slot releases carry the TASSNs 0, 1, 2, … modulo 2^16, each once, and
each is the metadata flit received last for its number. -/
theorem completions_in_order (memory : Fin 16 → Fin 8 → Flit) (inputs : List (Option Flit))
    (i : Fin 16) :
    let outs := released i (Ports.sent 1 (step.trace (init memory) inputs))
    outs.map iniTassn.get = (range outs.length).map (BitVec.ofNat 16) ∧
      outs.map some = (range outs.length).map (latest (receipts i memory inputs)) := by
  have start := inWindow_start i memory
  have inWindow := (inWindow_run i inputs start.1 start.2).1
  have sent : (inputs.foldl (record i) (.start memory)).outs =
      Ports.sent 1 (step.trace (init memory) inputs) :=
    (foldl_record i (.start memory) inputs).2
  rw [← sent]
  exact ⟨tassn_of_released inWindow, released_eq_latest inWindow⟩

def sampleCompletion (odr tassn : U64) : List (Option Flit) :=
  [some { lane3 := (5 <<< 43) + (odr <<< 34) + (tassn <<< 16), sop := true }, some { eop := true }]

example : (released 5 (Ports.sent 1 (step.trace (init fun _ _ => default)
    (sampleCompletion 1 2 ++ sampleCompletion 1 0 ++ sampleCompletion 1 1)))).map
      iniTassn.get = [0, 1, 2] := by
  decide +kernel

end OpenURMA.CompletionReorder
