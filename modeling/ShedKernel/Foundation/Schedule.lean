import Mathlib.Order.Basic

/-! A deterministic system under an infinite schedule of events: invariants, and a rule for
what happens in the end when the events that help keep coming. -/

set_option autoImplicit false

namespace ShedKernel.Foundation

section Schedule

variable {State Event : Type} (step : State → Event → State)

/-- The state after the first `count` events of the schedule. -/
def scheduled (start : State) (schedule : Nat → Event) : Nat → State
  | 0 => start
  | count + 1 => step (scheduled start schedule count) (schedule count)

/-- Events of a kind keep coming. -/
def Recurs (schedule : Nat → Event) (kind : Event → Prop) : Prop :=
  ∀ count, ∃ later, count ≤ later ∧ kind (schedule later)

variable {step} {start : State} {schedule : Nat → Event}

theorem scheduled_invariant {holds : State → Prop} (initial : holds start)
    (preserved : ∀ state event, holds state → holds (step state event)) (count : Nat) :
    holds (scheduled step start schedule count) := by
  induction count with
  | zero => exact initial
  | succ count ih => exact preserved _ _ ih

section Measure

variable {measure : State → Nat} (shrinks : ∀ state event, measure (step state event) ≤ measure state)

include shrinks

theorem scheduled_antitone {count later : Nat} (order : count ≤ later) :
    measure (scheduled step start schedule later) ≤ measure (scheduled step start schedule count) := by
  induction order with
  | refl => exact Nat.le_refl _
  | step _ ih => exact Nat.le_trans (shrinks _ _) ih

/-- At each value of the measure but 0 some kind of event lowers it. When each of these kinds
recurs the measure comes down to 0, and stays there. -/
theorem scheduled_reaches_zero {helpful : Nat → Event → Prop}
    (lowers : ∀ state event, measure state ≠ 0 → helpful (measure state) event →
      measure (step state event) < measure state)
    (fair : ∀ value, value ≠ 0 → Recurs schedule (helpful value)) (count : Nat) :
    ∃ later, count ≤ later ∧ ∀ after, later ≤ after → measure (scheduled step start schedule after) = 0 := by
  induction size : measure (scheduled step start schedule count) using Nat.strongRecOn
    generalizing count with
  | ind value ih =>
    by_cases done : value = 0
    · refine ⟨count, Nat.le_refl _, fun after order => ?_⟩
      have below := @scheduled_antitone _ _ step start schedule measure shrinks _ _ order
      omega
    · obtain ⟨turn, order, helps⟩ := fair value done count
      have below := @scheduled_antitone _ _ step start schedule measure shrinks _ _ order
      have lower : measure (scheduled step start schedule (turn + 1)) < value := by
        by_cases same : measure (scheduled step start schedule turn) = value
        · have step := lowers (scheduled step start schedule turn) (schedule turn) (same ▸ done) (same ▸ helps)
          rwa [same] at step
        · have next : measure (scheduled step start schedule (turn + 1)) ≤
              measure (scheduled step start schedule turn) := shrinks _ _
          omega
      obtain ⟨later, further, zero⟩ := ih _ lower (turn + 1) rfl
      exact ⟨later, by omega, zero⟩

end Measure

end Schedule

end ShedKernel.Foundation
