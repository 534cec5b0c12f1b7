import OpenURMA.Transport.Receivers

/-!
# The receive window over whole runs

For one source and no control messages the channel record says, after any arrivals, what
has been accepted and what is missing, and the descriptors report it.
-/

namespace OpenURMA.TpChannelRx

open Library Slots

/-- `next` is expected, everything from `first` up to it has been accepted, and the bitmap marks
what has been accepted above it. -/
structure WindowInvariant (c : RxChan) (source : U32) (first next : ℕ)
    (log : List (U32 × ℕ)) : Prop where
  epsn : c.epsn.toNat = next % 2 ^ 24
  basePsn : c.basePsn = c.epsn
  bitmap_zero : c.bitmap.getLsbD 0 = false
  bitmap : ∀ i, 1 ≤ i → i < 64 → (c.bitmap.getLsbD i = true ↔ (source, next + i) ∈ log)
  reached : first ≤ next
  complete : ∀ n, first ≤ n → n < next → (source, n) ∈ log
  missing : (source, next) ∉ log

def metChannel (s : State) (a : Arrival) : RxChan :=
  openChannel (s.rxchan (idx a.source)) a.source (UbMeta.psn.get a.packet.head)

def channelAfter (s : State) (a : Arrival) : RxChan :=
  (deliver s a.packet).rxchan (idx a.source)

/-- The only descriptor for an arrival, which meets a window that expects `next`. -/
structure Answered (s : State) (a : Arrival) (next : ℕ) (d : Flit) : Prop where
  only : acknowledged s a.packet = [d]
  selective : d.lane2 = tpopTpsack.setWidth 64 →
    d.lane1 = (channelAfter s a).epsn.setWidth 64 ∧ d.lane3 = (channelAfter s a).bitmap
  cumulative : a.number ≤ next ∨ (deliver s a.packet).thisIsDup = true →
    d.lane2 = tpopTpack.setWidth 64 ∧
      d.lane1.toNat = ((channelAfter s a).epsn.toNat + (2 ^ 24 - 1)) % 2 ^ 24
  slides : a.number = next → ∃ rounds ≤ 64, ∃ c,
    Runs slideGuard slideBody (slideBody (metChannel s a)) rounds c

theorem toNat_prevPsn (epsn : U32) :
    (((epsn - 1) &&& 0xFFFFFF).setWidth 64).toNat = (epsn.toNat + (2 ^ 24 - 1)) % 2 ^ 24 := by
  have step : (epsn - 1).toNat = (2 ^ 32 - 1 + epsn.toNat) % 2 ^ 32 := BitVec.toNat_sub ..
  rw [BitVec.toNat_setWidth, toNat_and_psnMask, step]
  omega

theorem descriptor_selective {c : RxChan} {flags : Flags} {scna : U32}
    (sack : (descriptor c flags scna).lane2 = tpopTpsack.setWidth 64) :
    (descriptor c flags scna).lane1 = c.epsn.setWidth 64 ∧
      (descriptor c flags scna).lane3 = c.bitmap := by
  unfold descriptor at sack ⊢
  split
  · exact ⟨rfl, rfl⟩
  · next ordered =>
    have other : tpopTpack.setWidth 64 ≠ tpopTpsack.setWidth 64 := by decide
    rw [if_neg ordered] at sack
    split at sack <;> exact (other sack).elim

theorem descriptor_cumulative {flags : Flags} (ordered : flags.isOoo = false)
    (known : flags.inWindow = true ∨ flags.isDup = true) (c : RxChan) (scna : U32) :
    (descriptor c flags scna).lane2 = tpopTpack.setWidth 64 ∧
      (descriptor c flags scna).lane1.toNat = (c.epsn.toNat + (2 ^ 24 - 1)) % 2 ^ 24 := by
  rw [descriptor, if_neg (by simp [ordered]), if_pos (by simpa using known)]
  exact ⟨rfl, toNat_prevPsn c.epsn⟩

theorem channelAfter_eq (s : State) (a : Arrival) :
    channelAfter s a = (checkMeta s a.packet.head).1 := by
  rw [channelAfter, deliver_eq]
  exact Function.update_self ..

/-- What the code takes for expected or behind is neither ahead nor refused. -/
theorem flags_of_not_after {r : Receiver 64} {n : ℕ}
    (notAfter : n ≤ r.next ∨ (flagsOf (seenAs r n)).isDup = true) :
    (flagsOf (seenAs r n)).isOoo = false ∧
      ((flagsOf (seenAs r n)).inWindow = true ∨ (flagsOf (seenAs r n)).isDup = true) := by
  rcases notAfter with early | dup
  · rw [seenAs, if_neg (by omega)]
    rcases Nat.lt_or_eq_of_le early with before | rfl
    · rw [Receiver.verdict_behind before]
      exact ⟨rfl, .inr rfl⟩
    · rw [Receiver.verdict_next]
      exact ⟨rfl, .inl rfl⟩
  · refine ⟨?_, .inr dup⟩
    revert dup
    cases seenAs r n <;> simp [flagsOf]

theorem answered {s : State} {slots : Slots} (represents : Represents s slots) {a : Arrival}
    (close : slots.Close a) :
    ∃ d, Answered s a (slots.receiver a.source a.number).next d := by
  obtain ⟨flags, _, _⟩ := checkMeta_spec represents a close
  refine ⟨_, acknowledged_eq s a.packet, ?_, ?_, ?_⟩
  · rw [channelAfter_eq]
    exact descriptor_selective
  · intro notAfter
    have dup : (deliver s a.packet).thisIsDup = (checkMeta s a.packet.head).2.isDup := by
      rw [deliver_eq]
      rfl
    rw [dup, flags] at notAfter
    rw [channelAfter_eq, flags]
    obtain ⟨ordered, known⟩ := flags_of_not_after notAfter
    exact descriptor_cumulative ordered known _ _
  · intro _
    obtain ⟨rounds, bound, c, runs, _⟩ :=
        advance_runs (openChannel_spec represents a.source a.stamped).1
    exact ⟨rounds, bound, c, runs⟩

theorem windowInvariant_of_refines {c : RxChan} {slots : Slots} {source : U32}
    {log : List (U32 × ℕ)} (logged : Logged slots log)
    (refines : Refines c (slots.receiver source 0)) :
    WindowInvariant c source (slots.receiver source 0).start (slots.receiver source 0).next
      log where
  epsn := refines.epsn
  basePsn := refines.basePsn
  bitmap_zero := by
    rw [refines.bitmap 0 (by omega)]
    exact decide_eq_false (slots.receiver source 0).fresh
  bitmap i _ inside := by
    rw [refines.bitmap i inside, decide_eq_true_eq, logged]
    rfl
  reached := (slots.receiver source 0).started
  complete n above below :=
    (logged source n).mpr ((slots.receiver source 0).complete n above below)
  missing member := (slots.receiver source 0).fresh ((logged source _).mp member)

def firstNumber (history : List Arrival) : ℕ := (history.head?.map (·.number)).getD 0

theorem refines_of_alone (memory : Fin 16 → U32) {source : U32} {history : List Arrival}
    (alone : ∀ a ∈ history, a.source = source) (close : empty.Along Close history) :
    Refines ((run (init memory) history).rxchan (idx source))
        ((empty.run history).receiver source 0) ∧
      ((empty.run history).receiver source 0).start = firstNumber history := by
  cases history with
  | nil => exact ⟨⟨rfl, rfl, fun i _ => by simp [run, init, receiver, Slots.run, empty,
      Receiver.opened]⟩, rfl⟩
  | cons a history =>
    have here : a.source = source := alone a (by simp)
    have held : empty.arrive a.source a.number (idx source) =
        some (source, (Receiver.opened 64 a.number).arrive a.number) := by
      rw [here]
      exact arrive_held ..
    have rest : ∀ b ∈ history, b.source = source := fun b member => alone b (by simp [member])
    obtain ⟨r, heldAfter, start⟩ := held_of_alone held rest
    have represents := represents_run (represents_init memory) close
    rw [show (empty.run (a :: history)).receiver source 0 = r from
      receiver_of_held heldAfter 0]
    exact ⟨((represents (idx source)).held _ _ heldAfter).2.2,
      start.trans (Receiver.start_arrive _ a.number)⟩

/-- For one source and arrivals within half the PSN space, every reachable state describes what has
been accepted, and every arrival is answered by a descriptor that reports it. -/
theorem receive_window (memory : Fin 16 → U32) (source : U32) (history : List Arrival)
    (alone : ∀ a ∈ history, a.source = source) (close : empty.Along Close history) :
    WindowInvariant ((run (init memory) history).rxchan (idx source)) source
        (firstNumber history) ((empty.run history).receiver source 0).next
        (acceptances (init memory) history) ∧ ∀ before a after, history = before ++ a :: after →
        ∃ d, Answered (run (init memory) before) a
          ((empty.run before).receiver a.source a.number).next d := by
  constructor
  · have keeps : empty.Along Keeps history :=
      keeps_of_alone (fun entry impossible => by cases impossible) alone
    have logged := logged_run (represents_init memory) logged_empty close keeps
    rw [List.nil_append] at logged
    obtain ⟨refines, start⟩ := refines_of_alone memory alone close
    rw [← start]
    exact windowInvariant_of_refines logged refines
  · rintro before a after rfl
    replace close := along_append.mp close
    exact answered (represents_run (represents_init memory) close.1) close.2.1

/-- The window opens at 5; 7 arrives ahead of its turn. -/
theorem receive_window_gap :
    WindowInvariant ((run (init fun _ => 0) [.plain 3 5, .plain 3 7]).rxchan (idx 3)) 3 5 6
      (acceptances (init fun _ => 0) [.plain 3 5, .plain 3 7]) := by
  have next : ((empty.run [.plain 3 5, .plain 3 7]).receiver 3 0).next = 6 := by
    decide +kernel
  exact next ▸ (receive_window (fun _ => 0) 3 [.plain 3 5, .plain 3 7] (by decide +kernel)
    (by decide +kernel)).1

end OpenURMA.TpChannelRx
