import ShedKernel.Foundation.Run

/-! Forward simulation of computations that may stop, with the rules that compose it: the
concrete one returns what the abstract one returns, or stops as it does, or stops for a
reason that the abstract one does not know. -/

set_option autoImplicit false

namespace ShedKernel.Foundation

variable {Stop Other Value Image Next NextImage : Type}

/-- `excused` stops need no counterpart, the others correspond by `same`. -/
def Simulates (excused : Stop → Prop) (same : Stop → Other → Prop) (related : Value → Image → Prop)
    (concrete : Except Stop Value) (abstract : Except Other Image) : Prop :=
  match concrete with
  | .ok value => ∃ image, abstract = .ok image ∧ related value image
  | .error stop => excused stop ∨ ∃ other, abstract = .error other ∧ same stop other

namespace Simulates

variable {excused : Stop → Prop} {same : Stop → Other → Prop} {related better : Value → Image → Prop}
  {concrete : Except Stop Value} {abstract : Except Other Image}

theorem ok {value : Value} {image : Image} (holds : related value image) :
    Simulates excused same related (.ok value) (.ok image) :=
  ⟨image, rfl, holds⟩

theorem error {stop : Stop} {other : Other} (corresponds : same stop other) :
    Simulates excused same related (.error stop) (.error other) :=
  .inr ⟨other, rfl, corresponds⟩

theorem refused {stop : Stop} (excuse : excused stop) :
    Simulates excused same related (.error stop) abstract :=
  .inl excuse

/-- Related values go on to related computations. -/
theorem bind {later : Next → NextImage → Prop} {next : Value → Except Stop Next}
    {nextImage : Image → Except Other NextImage}
    (first : Simulates excused same related concrete abstract)
    (continues : ∀ value image, related value image →
      Simulates excused same later (next value) (nextImage image)) :
    Simulates excused same later (concrete >>= next) (abstract >>= nextImage) := by
  cases concrete with
  | error stop =>
      cases first with
      | inl excuse => exact .inl excuse
      | inr stops =>
          obtain ⟨other, rfl, corresponds⟩ := stops
          exact .inr ⟨other, rfl, corresponds⟩
  | ok value =>
      obtain ⟨image, rfl, holds⟩ := first
      exact continues value image holds

/-- The abstract computation has no step of its own here. -/
theorem bind_ok {later : Next → NextImage → Prop} {image : Image} {next : Value → Except Stop Next}
    {rest : Except Other NextImage} (first : Simulates excused same related concrete (.ok image))
    (continues : ∀ value, related value image → Simulates excused same later (next value) rest) :
    Simulates excused same later (concrete >>= next) rest := by
  cases concrete with
  | error stop =>
      cases first with
      | inl excuse => exact .inl excuse
      | inr stops =>
          obtain ⟨_, returned, _⟩ := stops
          cases returned
  | ok value =>
      obtain ⟨_, returned, holds⟩ := first
      cases returned
      exact continues value holds

theorem imp (simulates : Simulates excused same related concrete abstract)
    (implies : ∀ value image, related value image → better value image) :
    Simulates excused same better concrete abstract := by
  cases concrete with
  | error stop => exact simulates
  | ok value =>
      obtain ⟨image, returned, holds⟩ := simulates
      exact ⟨image, returned, implies value image holds⟩

/-- A concrete result is an abstract one. -/
theorem of_ok {value : Value} (simulates : Simulates excused same related concrete abstract)
    (returned : concrete = .ok value) : ∃ image, abstract = .ok image ∧ related value image := by
  rw [returned] at simulates
  exact simulates

end Simulates

/-- Step by step, a concrete run is a run of the images. -/
theorem Run.simulated {State Image Action : Type} {step : State → Action → State → Prop}
    {imageStep : Image → Action → Image → Prop} {related : State → Image → Prop} {start final : State}
    {image : Image} {actions : List Action} (run : Run step start actions final)
    (initial : related start image)
    (simulated : ∀ current currentImage action next, related current currentImage →
      step current action next → ∃ nextImage, imageStep currentImage action nextImage ∧
        related next nextImage) :
    ∃ finalImage, Run imageStep image actions finalImage ∧ related final finalImage := by
  induction run with
  | nil => exact ⟨image, .nil, initial⟩
  | snoc _ stepped ih =>
      obtain ⟨middle, first, holds⟩ := ih
      obtain ⟨finalImage, last, holdsFinal⟩ := simulated _ middle _ _ holds stepped
      exact ⟨finalImage, first.snoc last, holdsFinal⟩

end ShedKernel.Foundation
