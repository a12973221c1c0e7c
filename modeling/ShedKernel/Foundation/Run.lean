import Mathlib.Logic.Basic

/-! Finite runs of a labelled step relation and their induction rules. -/

set_option autoImplicit false

namespace ShedKernel.Foundation

/-- The states reached from `start` by performing the listed actions in order. -/
inductive Run {State Action : Type} (step : State → Action → State → Prop) (start : State) :
    List Action → State → Prop where
  | nil : Run step start [] start
  | snoc {actions : List Action} {current next : State} {action : Action} :
      Run step start actions current → step current action next →
      Run step start (actions ++ [action]) next

namespace Run

variable {State Action : Type} {step : State → Action → State → Prop}
  {start middle final : State} {actions later : List Action}

theorem single {action : Action} (stepped : step start action final) :
    Run step start [action] final :=
  .snoc .nil stepped

theorem append (first : Run step start actions middle) (second : Run step middle later final) :
    Run step start (actions ++ later) final := by
  induction second with
  | nil => simpa using first
  | snoc _ stepped ih => simpa only [List.append_assoc] using ih.snoc stepped

/-- What holds at the start and survives every step holds wherever a run ends. -/
theorem invariant {holds : State → Prop} (run : Run step start actions final)
    (initial : holds start)
    (preserved : ∀ current action next, holds current → step current action next → holds next) :
    holds final := by
  induction run with
  | nil => exact initial
  | snoc _ stepped ih => exact preserved _ _ _ ih stepped

theorem last {action : Action} (run : Run step start (actions ++ [action]) final) :
    ∃ before, Run step start actions before ∧ step before action final := by
  generalize whole : actions ++ [action] = performed at run
  cases run with
  | nil => simp at whole
  | snoc first stepped =>
      obtain ⟨rfl, same⟩ := List.append_inj' whole rfl
      cases same
      exact ⟨_, first, stepped⟩

/-- Under a deterministic step the actions determine where a run ends. -/
theorem unique {other : State} (run : Run step start actions final)
    (deterministic : ∀ current action left right,
      step current action left → step current action right → left = right)
    (otherRun : Run step start actions other) : other = final := by
  induction run generalizing other with
  | nil =>
      generalize none : [] = performed at otherRun
      cases otherRun with
      | nil => rfl
      | snoc => simp at none
  | snoc _ stepped ih =>
      obtain ⟨before, first, otherStepped⟩ := otherRun.last
      rw [ih first] at otherStepped
      exact deterministic _ _ _ _ otherStepped stepped

/-- A run under a stronger step relation is a run under a weaker one. -/
theorem weaken {weaker : State → Action → State → Prop} (run : Run step start actions final)
    (included : ∀ current action next, step current action next → weaker current action next) :
    Run weaker start actions final := by
  induction run with
  | nil => exact .nil
  | snoc _ stepped ih => exact ih.snoc (included _ _ _ stepped)

end Run

end ShedKernel.Foundation
