import OpenURMA.Library.Run
import OpenURMA.Transport.ChannelTx
import OpenURMA.Transport.Window

/-!
# Runs of the receiver

The 16 channel records together implement a table of sliding windows, one for each source
that currently holds a slot.  A run is a sequence of whole packets, each with the
unbounded sequence number that its PSN abbreviates.
-/

namespace OpenURMA.TpChannelRx

open Library Function Receiver List

/-- A packet at the receiver; its PSN is the low 24 bits of its sequence number. -/
structure Arrival where
  number : ℕ
  packet : Packet
  stamped : (UbMeta.psn.get packet.head).toNat = number % 2 ^ 24

def Arrival.source (a : Arrival) : U32 := UbMeta.scna.get a.packet.head

def Arrival.plain (source : U32) (number : ℕ) : Arrival where
  number := number
  packet :=
    { head := UbMeta.psn.set (BitVec.ofNat 32 number)
        (UbMeta.scna.set source { sop := true })
      rest := [{ lane0 := BitVec.ofNat 64 number, eop := true }]
      sop_head := by simp
      sop_rest := TpChannelTx.Sender.sop_numbered number
      eop_last := by simp [EopLast] }
  stamped := by
    rw [Field.toNat_get_set _ (by decide), BitVec.toNat_ofNat]
    exact Nat.mod_mod_of_dvd number (by decide)

def sent (sender : TpChannelTx.Sender) (n : ℕ) : Arrival where
  number := n
  packet := sender.packet n
  stamped := sender.psn_packet n

@[simp] theorem source_sent (sender : TpChannelTx.Sender) (n : ℕ) :
    (sent sender n).source = sender.cna := sender.scna_packet n

def run (s : State) (history : List Arrival) : State :=
  history.foldl (fun s a => deliver s a.packet) s

def acceptance (s : State) (a : Arrival) : List (U32 × ℕ) :=
  if forwarded s a.packet = [] then [] else [(a.source, a.number)]

/-- The packets handed on by a run, by source and number. -/
def acceptances : State → List Arrival → List (U32 × ℕ)
  | _, [] => []
  | s, a :: history => acceptance s a ++ acceptances (deliver s a.packet) history

theorem acceptances_append (s : State) (first second : List Arrival) :
    acceptances s (first ++ second) = acceptances s first ++ acceptances (run s first) second := by
  induction first generalizing s with
  | nil => rfl
  | cons a first ih =>
    rw [cons_append, acceptances, ih, acceptances, append_assoc]
    rfl

abbrev Slots := Fin 16 → Option (U32 × Receiver 64)

variable {slots : Slots} {source : U32} {r : Receiver 64} {history : List Arrival}

namespace Slots

def empty : Slots := fun _ => none

section

variable (slots : Slots) (source : U32)

/-- The window that an arrival meets: that of its source, or a new one that expects the
arrival if the slot is vacant or held by another source. -/
def receiver (number : ℕ) : Receiver 64 :=
  match slots (idx source) with
  | some (holder, r) => if holder = source then r else .opened 64 number
  | none => .opened 64 number

def arrive (number : ℕ) : Slots :=
  update slots (idx source)
    (some (source, (slots.receiver source number).arrive number))

def run (history : List Arrival) : Slots :=
  history.foldl (fun slots a => slots.arrive a.source a.number) slots

/-- What a source has got delivered; a window it has lost does not count. -/
def got : Finset ℕ := (slots.receiver source 0).got

theorem got_receiver (number : ℕ) : (slots.receiver source number).got = slots.got source := by
  unfold got receiver
  cases slots (idx source) with
  | none => rfl
  | some entry => by_cases same : entry.1 = source <;> simp [same, opened]

end

theorem receiver_of_held (held : slots (idx source) = some (source, r)) (number : ℕ) :
    slots.receiver source number = r := by
  simp [receiver, held]

theorem receiver_of_taken {holder : U32} (taken : slots (idx source) = some (holder, r))
    (other : holder ≠ source) (number : ℕ) :
    slots.receiver source number = .opened 64 number := by
  simp [receiver, taken, other]

theorem arrive_held (slots : Slots) (source : U32) (number : ℕ) :
    slots.arrive source number (idx source) =
      some (source, (slots.receiver source number).arrive number) :=
  update_self ..

def Keeps (slots : Slots) (a : Arrival) : Prop :=
  ∀ entry ∈ slots (idx a.source), entry.1 = a.source
deriving Decidable

variable {other : U32}

theorem receiver_arrive_of_ne (different : idx other ≠ idx source) (slots : Slots) (number m : ℕ) :
    (slots.arrive source number).receiver other m = slots.receiver other m := by
  rw [receiver, arrive, update_of_ne different, receiver]

theorem receiver_arrive_other {a : Arrival} (keeps : slots.Keeps a) (different : other ≠ a.source)
    (number m : ℕ) :
    (slots.arrive a.source number).receiver other m = slots.receiver other m := by
  by_cases here : idx other = idx a.source
  · rw [receiver, receiver, here, arrive_held]
    simp only [if_neg (Ne.symm different)]
    cases held : slots (idx a.source) with
    | none => rfl
    | some entry =>
      have holder := keeps entry held
      simp only [holder, if_neg (Ne.symm different)]
  · exact receiver_arrive_of_ne here slots number m

/-- Every arrival of a run meets a condition on the table it finds. -/
abbrev Along (meets : Slots → Arrival → Prop) (slots : Slots) (history : List Arrival) : Prop :=
  Library.Along (fun slots a => slots.arrive a.source a.number) meets slots history

theorem along_cons_sent {meets : Slots → Arrival → Prop} {sender : TpChannelTx.Sender} {n : ℕ} :
    slots.Along meets (sent sender n :: history) ↔
      meets slots (sent sender n) ∧ (slots.arrive sender.cna n).Along meets history := by
  rw [Along, Library.Along, source_sent]
  rfl

/-- An arrival is within half the PSN space of the number its window expects. -/
def Close (slots : Slots) (a : Arrival) : Prop :=
  Near (slots.receiver a.source a.number).next a.number
deriving Decidable

/-- The window of a source has accepted the numbers below `n`, from the one that opened it
on, and nothing else. -/
structure Expects (slots : Slots) (source : U32) (n : ℕ) : Prop where
  own : ∀ entry ∈ slots (idx source), entry.1 = source
  vacant : slots (idx source) = none → n = 0
  window : (slots.receiver source n).next = n ∧ ∀ k ∈ (slots.receiver source n).got, k < n

theorem expects_empty (source : U32) : empty.Expects source 0 where
  own _ impossible := by cases impossible
  vacant _ := rfl
  window := ⟨rfl, fun _ impossible => by cases impossible⟩

variable {n m : ℕ}

theorem Expects.verdict (expects : slots.Expects source n) :
    (slots.receiver source n).verdict n = .inOrder := by
  rw [Receiver.verdict, if_pos expects.window.1.symm]

theorem Expects.receiver_before (expects : slots.Expects source n) (before : m < n) :
    slots.receiver source m = slots.receiver source n := by
  cases held : slots (idx source) with
  | none =>
    have := expects.vacant held
    omega
  | some entry =>
    have heldBy : slots (idx source) = some (source, entry.2) := by
      rw [held, ← expects.own entry held]
    rw [receiver_of_held heldBy, receiver_of_held heldBy]

theorem expects_arrive (next : ((slots.receiver source m).arrive m).next = n)
    (below : ∀ k ∈ ((slots.receiver source m).arrive m).got, k < n) :
    (slots.arrive source m).Expects source n where
  own entry member := by
    rw [arrive_held] at member
    cases member
    rfl
  vacant none := by
    rw [arrive_held] at none
    cases none
  window := by
    rw [receiver_of_held (slots.arrive_held source m)]
    exact ⟨next, below⟩

variable (expects : slots.Expects source n)
include expects

theorem Expects.arrive_next : (slots.arrive source n).Expects source (n + 1) := by
  obtain ⟨next, below⟩ := expects.window
  have advance := advance_of_below fun k member => next.symm ▸ below k member
  rw [← arrive_inOrder, next] at advance
  exact expects_arrive advance.1 advance.2

theorem Expects.arrive_before (before : m < n) : (slots.arrive source m).Expects source n := by
  obtain ⟨next, below⟩ := expects.window
  have refused : (slots.receiver source m).arrive m = slots.receiver source n := by
    rw [expects.receiver_before before, arrive_refused (.inl (by omega))]
  exact expects_arrive (by rw [refused, next]) (by rwa [refused])

theorem Expects.arrive_other (different : idx source ≠ idx other) (number : ℕ) :
    (slots.arrive other number).Expects source n where
  own entry member := by
    rw [arrive, update_of_ne different] at member
    exact expects.own entry member
  vacant none := by
    rw [arrive, update_of_ne different] at none
    exact expects.vacant none
  window := by
    rw [receiver_arrive_of_ne different]
    exact expects.window

end Slots

/-- The settings of a channel that only control messages change. -/
structure Config where
  valid : Bool
  remoteCna : U32
  rolMode : U8
  oooEnabled : U8

def RxChan.config (c : RxChan) : Config :=
  ⟨c.valid, c.remoteCna, c.rolMode, c.oooEnabled⟩

theorem config_noteMax (psn : U32) (c : RxChan) : (noteMax psn c).config = c.config := by
  unfold noteMax
  split <;> rfl

theorem config_receivePsn (c : RxChan) (psn : U32) : (receivePsn c psn).1.config = c.config := by
  have kept : ∀ d : RxChan, slideGuard d = true → d.config = c.config →
      (slideBody d).config = c.config := fun _ _ same => same
  have slid : (whileUpTo slideGuard slideBody 64 (slideBody c)).config = c.config :=
    whileUpTo_invariant kept 64 rfl
  simp only [receivePsn]
  split
  · rw [config_noteMax, slid]
  · split
    · split <;> exact config_noteMax ..
    · split <;> rfl

/-- A channel record implements a slot of the table, with the settings of `.init`. -/
structure Implements (c : RxChan) (entry : Option (U32 × Receiver 64)) : Prop where
  rolMode : c.rolMode = 0
  oooEnabled : c.oooEnabled ≠ 0
  vacant : entry = none → c.valid = false
  held : ∀ holder r, entry = some (holder, r) →
    c.valid = true ∧ c.remoteCna = holder ∧ Refines c r

def Represents (s : State) (slots : Slots) : Prop := ∀ i, Implements (s.rxchan i) (slots i)

theorem represents_init (memory : Fin 16 → U32) : Represents (init memory) Slots.empty :=
  fun _ =>
    { rolMode := rfl
      oooEnabled := show (1 : U8) ≠ 0 by decide
      vacant := fun _ => rfl
      held := fun _ _ impossible => by cases impossible }

section

variable {s : State} (represents : Represents s slots)
include represents

theorem openChannel_spec (source : U32) {psn : U32} {number : ℕ}
    (stamped : psn.toNat = number % 2 ^ 24) :
    Refines (openChannel (s.rxchan (idx source)) source psn) (slots.receiver source number) ∧
      (openChannel (s.rxchan (idx source)) source psn).config =
        ⟨true, source, (s.rxchan (idx source)).rolMode, (s.rxchan (idx source)).oooEnabled⟩ := by
  have fresh : ∀ c, Refines (freshChannel c source psn) (.opened 64 number) := fun c =>
    ⟨stamped, rfl, fun i _ => by simp [opened, freshChannel]⟩
  unfold openChannel Slots.receiver
  cases slot : slots (idx source) with
  | none =>
    rw [(represents _).vacant slot]
    exact ⟨fresh _, rfl⟩
  | some entry =>
    obtain ⟨valid, holder, refines⟩ := (represents _).held _ _ slot
    rw [valid, holder]
    by_cases same : entry.1 = source
    · simp only [same, if_true, bne_self_eq_false, Bool.not_true, Bool.or_self,
        Bool.false_eq_true, if_false]
      exact ⟨refines, by rw [RxChan.config, valid, holder, same]⟩
    · simp only [if_neg same, bne_iff_ne.mpr same, Bool.or_true, if_true]
      exact ⟨fresh _, rfl⟩

theorem checkMeta_spec (a : Arrival) (close : slots.Close a) :
    (checkMeta s a.packet.head).2 = flagsOf (seenAs (slots.receiver a.source a.number) a.number) ∧
      Refines (checkMeta s a.packet.head).1 ((slots.receiver a.source a.number).arrive a.number) ∧
      (checkMeta s a.packet.head).1.config =
        ⟨true, a.source, 0, (s.rxchan (idx a.source)).oooEnabled⟩ := by
  obtain ⟨opened, config⟩ := openChannel_spec represents a.source a.stamped
  rw [(represents (idx a.source)).rolMode] at config
  have same : (openChannel (s.rxchan (idx a.source)) a.source
      (UbMeta.psn.get a.packet.head)).oooEnabled = (s.rxchan (idx a.source)).oooEnabled :=
    congrArg Config.oooEnabled config
  have checked := receivePsn_refines opened
    (same ▸ (represents (idx a.source)).oooEnabled) a.stamped close
  exact ⟨checked.1, checked.2, (config_receivePsn _ _).trans config⟩

theorem represents_deliver (a : Arrival) (close : slots.Close a) :
    Represents (deliver s a.packet) (slots.arrive a.source a.number) := by
  intro i
  have table : (deliver s a.packet).rxchan =
      update s.rxchan (idx a.source) (checkMeta s a.packet.head).1 := by
    rw [deliver_eq]
    rfl
  rw [table]
  by_cases here : i = idx a.source
  · obtain ⟨_, refines, config⟩ := checkMeta_spec represents a close
    have enabled : (checkMeta s a.packet.head).1.oooEnabled = _ :=
      congrArg Config.oooEnabled config
    rw [here, Slots.arrive_held, update_self]
    refine ⟨congrArg Config.rolMode config,
      enabled ▸ (represents (idx a.source)).oooEnabled, fun impossible => (by cases impossible), ?_⟩
    rintro holder r ⟨⟩
    exact ⟨congrArg Config.valid config, congrArg Config.remoteCna config, refines⟩
  · rw [update_of_ne here, Slots.arrive, update_of_ne here]
    exact represents i

theorem represents_run (close : slots.Along Slots.Close history) :
    Represents (run s history) (slots.run history) := by
  induction history generalizing s slots with
  | nil => exact represents
  | cons a history ih => exact ih (represents_deliver represents a close.1) close.2

theorem forwarded_spec (a : Arrival) (close : slots.Close a) : forwarded s a.packet =
      if ((slots.receiver a.source a.number).verdict a.number).accepts then a.packet.flits
      else [] := by
  obtain ⟨flags, _, config⟩ := checkMeta_spec represents a close
  have plain : passedMeta (checkMeta s a.packet.head).1 a.packet.head = a.packet.head := by
    rw [passedMeta, show (checkMeta s a.packet.head).1.rolMode = 0 from
      congrArg Config.rolMode config]
    rfl
  rw [forwarded_eq, flags, plain, ← accepts_seenAs]
  cases seenAs (slots.receiver a.source a.number) a.number <;> rfl

theorem acceptance_spec (a : Arrival) (close : slots.Close a) :
    acceptance s a = if ((slots.receiver a.source a.number).verdict a.number).accepts
      then [(a.source, a.number)] else [] := by
  rw [acceptance, forwarded_spec represents a close]
  cases ((slots.receiver a.source a.number).verdict a.number).accepts <;> simp [Packet.flits]

end

def Logged (slots : Slots) (log : List (U32 × ℕ)) : Prop :=
  ∀ source n, (source, n) ∈ log ↔ n ∈ slots.got source

theorem logged_empty : Logged Slots.empty [] := fun _ _ => by
  simp [Slots.got, Slots.receiver, Slots.empty, opened]

section

variable {s : State} {log : List (U32 × ℕ)}

theorem logged_arrive (represents : Represents s slots) (logged : Logged slots log)
    {a : Arrival} (close : slots.Close a) (keeps : slots.Keeps a) :
    Logged (slots.arrive a.source a.number) (log ++ acceptance s a) := by
  intro source n
  rw [mem_append, logged, acceptance_spec represents a close]
  by_cases same : source = a.source
  · subst same
    rw [← Slots.got_receiver (slots.arrive a.source a.number) a.source a.number,
      Slots.receiver_of_held (slots.arrive_held _ _), mem_got_arrive, Slots.got_receiver]
    cases ((slots.receiver a.source a.number).verdict a.number).accepts <;> simp
  · have other : (source, n) ≠ (a.source, a.number) := fun equal => same (congrArg Prod.fst equal)
    have unchanged : (slots.arrive a.source a.number).got source = slots.got source := by
      rw [Slots.got, Slots.got, Slots.receiver_arrive_other keeps same]
    rw [unchanged]
    cases ((slots.receiver a.source a.number).verdict a.number).accepts <;> simp [other]

theorem logged_run (represents : Represents s slots) (logged : Logged slots log)
    (close : slots.Along Slots.Close history) (keeps : slots.Along Slots.Keeps history) :
    Logged (slots.run history) (log ++ acceptances s history) := by
  induction history generalizing s slots log with
  | nil => rwa [acceptances, append_nil]
  | cons a history ih =>
    rw [acceptances, ← append_assoc]
    exact ih (represents_deliver represents a close.1)
      (logged_arrive represents logged close.1 keeps.1) close.2 keeps.2

end

theorem keeps_of_alone (own : ∀ entry ∈ slots (idx source), entry.1 = source)
    (alone : ∀ a ∈ history, a.source = source) : slots.Along Slots.Keeps history := by
  induction history generalizing slots with
  | nil => trivial
  | cons a history ih =>
    have here : a.source = source := alone a (by simp)
    refine ⟨by rw [Slots.Keeps, here]; exact own, ?_⟩
    refine ih (fun entry member => ?_) fun b member => alone b (by simp [member])
    change entry ∈ slots.arrive a.source a.number (idx source) at member
    rw [here, Slots.arrive_held] at member
    cases member
    rfl

theorem held_of_alone (held : slots (idx source) = some (source, r))
    (alone : ∀ a ∈ history, a.source = source) :
    ∃ r', slots.run history (idx source) = some (source, r') ∧ r'.start = r.start := by
  induction history generalizing slots r with
  | nil => exact ⟨r, held, rfl⟩
  | cons a history ih =>
    have here : a.source = source := alone a (by simp)
    have next := slots.arrive_held source a.number
    rw [Slots.receiver_of_held held] at next
    obtain ⟨r', held', start⟩ := ih next fun b member => alone b (by simp [member])
    refine ⟨r', ?_, start.trans (start_arrive r a.number)⟩
    rw [← held', ← here]
    rfl

end OpenURMA.TpChannelRx
