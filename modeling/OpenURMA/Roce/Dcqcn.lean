import OpenURMA.Fields

/-!
# The rates of `RoCE_DCQCN`

A congestion notification makes the rate of a queue pair its target and takes a share off the rate.
A tick goes half the way back to the target.
-/

namespace OpenURMA.Roce.Dcqcn

open Library Function Nat

/-- `struct DCQCN`; `T_alpha_ticks` is never used. -/
structure Qp where
  rCurr : ℕ := 100000
  rTarget : ℕ := 100000
  alphaQ15 : ℕ := 32768
  cnpCount : U32 := 0
  inflightBytes : U32 := 0

namespace Qp

def cnp (q : Qp) : Qp :=
  let a := min (q.alphaQ15 * 15 % 2 ^ 32 / 16 + 2048) 32768
  let scale := 32768 - a / 2
  { q with
    rCurr := max (q.rCurr * scale / 32768 % 2 ^ 32) 1
    rTarget := q.rCurr
    alphaQ15 := a
    cnpCount := q.cnpCount + 1 }

def tick (q : Qp) : Qp :=
  { q with
    rCurr := min ((q.rCurr + q.rTarget) % 2 ^ 32 / 2) 100000
    alphaQ15 := q.alphaQ15 * 15 % 2 ^ 32 / 16 }

end Qp

abbrev State := Fin 16 → Qp

def init : State := fun _ => {}

/-- The queue pair that a notification names. -/
def cnpIdx (e : Flit) : Fin 16 := idx ((e.get 0 &&& 0xFFFFFF).setWidth 32)

inductive Event where
  | call (cnp packet : Option Flit)
  | tick

def takeCnp (s : State) : Option Flit → State
  | none => s
  | some e => update s (cnpIdx e) (s (cnpIdx e)).cnp

def takePacket (s : State) : Option Flit → State
  | none => s
  | some f =>
    let i := idx (RoceMeta.destQp.get f)
    if f.sop then
      update s i { s i with inflightBytes := (s i).inflightBytes + 64 }
    else s

def step : Mealy State Event (Ports Flit)
  | s, .call cnp packet => (takePacket (takeCnp s cnp) packet, Ports.ofOption 1 packet)
  | s, .tick => (fun i => (s i).tick, Ports.silent)

namespace Qp

structure Sound (q : Qp) : Prop where
  positive : 1 ≤ q.rCurr
  below : q.rCurr ≤ q.rTarget
  bounded : q.rTarget ≤ 100000
  alpha : q.alphaQ15 ≤ 32768

def slack (q : Qp) : ℕ := q.rTarget - q.rCurr - 1

variable {q : Qp} (sound : q.Sound)
include sound

theorem rCurr_cnp : q.cnp.rCurr ≤ q.rCurr := by
  have positive := sound.positive
  have share : q.rCurr * (32768 - min (q.alphaQ15 * 15 % 2 ^ 32 / 16 + 2048) 32768 / 2) / 32768 ≤
      q.rCurr * 32768 / 32768 :=
    Nat.div_le_div_right (mul_le_mul_left _ (sub_le ..))
  rw [Nat.mul_div_cancel _ (by decide)] at share
  simp only [cnp]
  omega

theorem rCurr_cnp_half (full : q.alphaQ15 = 32768) : q.cnp.rCurr = max (q.rCurr / 2) 1 := by
  have below := sound.below
  have bounded := sound.bounded
  have scale : 32768 - min (32768 * 15 % 2 ^ 32 / 16 + 2048) 32768 / 2 = 16384 := by decide
  simp only [cnp, full, scale]
  omega

theorem Sound.cnp : q.cnp.Sound where
  positive := le_max_right ..
  below := rCurr_cnp sound
  bounded := sound.below.trans sound.bounded
  alpha := min_le_right ..

theorem rCurr_tick : q.tick.rCurr = (q.rCurr + q.rTarget) / 2 := by
  have below := sound.below
  have bounded := sound.bounded
  simp only [tick]
  omega

theorem Sound.tick : q.tick.Sound := by
  have positive := sound.positive
  have below := sound.below
  have bounded := sound.bounded
  have alpha := sound.alpha
  have rate := rCurr_tick sound
  have target : q.tick.rTarget = q.rTarget := rfl
  have small : q.alphaQ15 * 15 < 2 ^ 32 := by omega
  refine ⟨by omega, by omega, by omega, ?_⟩
  simp only [Qp.tick, mod_eq_of_lt small]
  omega

theorem slack_tick : q.tick.slack = q.slack / 2 := by
  have below := sound.below
  have target : q.tick.rTarget = q.rTarget := rfl
  rw [slack, slack, rCurr_tick sound, target]
  omega

/-- All that notifications and ticks change; packets change the rest. -/
def rates (q : Qp) : ℕ × ℕ × ℕ × U32 := (q.rCurr, q.rTarget, q.alphaQ15, q.cnpCount)

theorem Sound.of_rates {q' : Qp} (same : q'.rates = q.rates) : q'.Sound := by
  simp only [rates, Prod.mk.injEq] at same
  obtain ⟨curr, target, alpha, _⟩ := same
  exact ⟨by rw [curr]; exact sound.positive, by rw [curr, target]; exact sound.below,
    by rw [target]; exact sound.bounded, by rw [alpha]; exact sound.alpha⟩

end Qp

variable {s : State} {i : Fin 16}

theorem rates_takePacket (s : State) (packet : Option Flit) (i : Fin 16) :
    (takePacket s packet i).rates = (s i).rates := by
  cases packet with
  | none => rfl
  | some f =>
    unfold takePacket
    dsimp only
    split
    · by_cases here : i = idx (RoceMeta.destQp.get f)
      · rw [here, update_self]
        rfl
      · rw [update_of_ne here]
    · rfl

/-- A call without notification for the queue pair. -/
def Event.Spares (i : Fin 16) : Event → Prop
  | .call cnp _ => ∀ e ∈ cnp, cnpIdx e ≠ i
  | .tick => True

theorem rates_call (packet : Option Flit) {cnp : Option Flit} (other : ∀ e ∈ cnp, cnpIdx e ≠ i) :
    (step.next s (.call cnp packet) i).rates = (s i).rates := by
  refine (rates_takePacket _ packet i).trans ?_
  cases cnp with
  | none => rfl
  | some e => rw [takeCnp, update_of_ne (other e rfl).symm]

theorem rates_cnp (e : Flit) (packet : Option Flit) :
    (step.next s (.call (some e) packet) (cnpIdx e)).rates = (s (cnpIdx e)).cnp.rates := by
  refine (rates_takePacket _ packet _).trans ?_
  rw [takeCnp, update_self]

theorem sound_step (sound : ∀ i, (s i).Sound) (event : Event) (i : Fin 16) :
    (step.next s event i).Sound := by
  cases event with
  | tick => exact (sound i).tick
  | call cnp packet =>
    by_cases other : ∀ e ∈ cnp, cnpIdx e ≠ i
    · exact (sound i).of_rates (rates_call packet other)
    · simp only [not_forall, not_not] at other
      obtain ⟨e, rfl, rfl⟩ := other
      exact (sound _).cnp.of_rates (rates_cnp e packet)

theorem sound_run (events : List Event) (i : Fin 16) : (step.final init events i).Sound := by
  induction events using List.reverseRecOn generalizing i with
  | nil =>
    have fresh : ({} : Qp).Sound := ⟨by decide, by decide, by decide, by decide⟩
    exact fresh
  | append_singleton events event ih =>
    rw [Mealy.final_snoc]
    exact sound_step ih event i

def Event.isTick : Event → Bool
  | .call _ _ => false
  | .tick => true

theorem slack_run (sound : ∀ i, (s i).Sound) {events : List Event}
    (spared : ∀ e ∈ events, e.Spares i) :
    (step.final s events i).slack = (s i).slack / 2 ^ events.countP Event.isTick := by
  induction events generalizing s with
  | nil => simp
  | cons event events ih =>
    rw [List.forall_mem_cons] at spared
    change (step.final (step.next s event) events i).slack = _
    rw [ih (sound_step sound event) spared.2]
    cases event with
    | tick =>
      change (s i).tick.slack / _ = _
      rw [Qp.slack_tick (sound i), List.countP_cons_of_pos rfl, pow_succ', Nat.div_div_eq_div_mul]
    | call cnp packet =>
      have same := rates_call (s := s) packet spared.1
      simp only [Qp.rates, Prod.mk.injEq] at same
      rw [List.countP_cons_of_neg (by simp [Event.isTick]), Qp.slack, same.1, same.2.1, Qp.slack]

/-- The laws of the rates in every state that notifications, ticks and packets lead to. -/
theorem rate_laws (events : List Event) (i : Fin 16) :
    (step.final init events i).Sound ∧ (∀ e packet, cnpIdx e ≠ i →
        (step.final init (events ++ [.call (some e) packet]) i).rates =
          (step.final init events i).rates) ∧ (∀ e packet, cnpIdx e = i →
        (step.final init (events ++ [.call (some e) packet]) i).rCurr ≤
            (step.final init events i).rCurr ∧ ((step.final init events i).alphaQ15 = 32768 →
            (step.final init (events ++ [.call (some e) packet]) i).rCurr =
              max ((step.final init events i).rCurr / 2) 1)) ∧
      (step.final init events i).rCurr ≤ (step.final init (events ++ [.tick]) i).rCurr ∧
      ∀ later : List Event, (∀ e ∈ later, e.Spares i) → 17 ≤ later.countP Event.isTick →
        (step.final init (events ++ later) i).rTarget - 1 ≤
          (step.final init (events ++ later) i).rCurr := by
  have sound := sound_run events
  refine ⟨sound i, fun e packet other => ?_, fun e packet here => ?_, ?_,
    fun later spared many => ?_⟩
  · rw [Mealy.final_snoc]
    refine rates_call packet fun e' member => ?_
    cases member
    exact other
  · subst here
    have rates := rates_cnp (s := step.final init events) e packet
    simp only [Qp.rates, Prod.mk.injEq] at rates
    rw [Mealy.final_snoc, rates.1]
    exact ⟨Qp.rCurr_cnp (sound _), Qp.rCurr_cnp_half (sound _)⟩
  · rw [Mealy.final_snoc]
    change _ ≤ (step.final init events i).tick.rCurr
    have below := (sound i).below
    rw [Qp.rCurr_tick (sound i)]
    omega
  · have slack := slack_run sound spared
    have bounded := (sound i).bounded
    have small : (step.final init events i).slack < 2 ^ 17 := by
      rw [Qp.slack]
      omega
    have none : (step.final init events i).slack / 2 ^ later.countP Event.isTick = 0 :=
      div_eq_of_lt (small.trans_le (Nat.pow_le_pow_right (by decide) many))
    rw [none, Qp.slack] at slack
    rw [Mealy.final_append]
    omega

end OpenURMA.Roce.Dcqcn
