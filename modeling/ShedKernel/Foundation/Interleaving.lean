import ShedKernel.Foundation.Run

/-! A program whose instructions are interleaved with steps of its surroundings: what it
computes on the part of the state that the surroundings leave alone. -/

set_option autoImplicit false

namespace ShedKernel.Foundation

/-- What is left of the program, and the state. -/
structure Configuration (State Instruction : Type) where
  left : List Instruction
  state : State

section Interleaving

variable {State View Instruction Event : Type} {exec : State → Instruction → State}
  {around : State → Event → State → Prop}

/-- The next instruction of the program, or a step of the surroundings at any time. -/
inductive Turn (exec : State → Instruction → State) (around : State → Event → State → Prop) :
    Configuration State Instruction → Option Event → Configuration State Instruction → Prop where
  | program (instruction : Instruction) (left : List Instruction) (state : State) :
      Turn exec around ⟨instruction :: left, state⟩ none ⟨left, exec state instruction⟩
  | around (left : List Instruction) {state next : State} {event : Event} :
      around state event next → Turn exec around ⟨left, state⟩ (some event) ⟨left, next⟩

theorem Run.executed {start final : Configuration State Instruction} {events : List (Option Event)}
    (run : Run (Turn exec around) start events final) : ∃ executed, start.left = executed ++ final.left := by
  induction run with
  | nil => exact ⟨[], rfl⟩
  | snoc _ turn ih =>
      obtain ⟨executed, split⟩ := ih
      cases turn with
      | program instruction left state => exact ⟨executed ++ [instruction], by rw [split]; simp⟩
      | around left step => exact ⟨executed, split⟩

/-- The view of the state depends on the instructions executed and on nothing else. -/
theorem Run.view {start final : Configuration State Instruction} {events : List (Option Event)}
    (view : State → View) (execView : View → Instruction → View)
    (follows : ∀ state instruction, view (exec state instruction) = execView (view state) instruction)
    (unseen : ∀ state event next, around state event next → view next = view state)
    (run : Run (Turn exec around) start events final) :
    ∃ executed, start.left = executed ++ final.left ∧
      view final.state = executed.foldl execView (view start.state) := by
  induction run with
  | nil => exact ⟨[], rfl, rfl⟩
  | snoc _ turn ih =>
      obtain ⟨executed, split, same⟩ := ih
      cases turn with
      | program instruction left state =>
          refine ⟨executed ++ [instruction], by rw [split]; simp, ?_⟩
          rw [List.foldl_append, ← same]
          exact follows state instruction
      | around left step => exact ⟨executed, split, (unseen _ _ _ step).trans same⟩

/-- The program without any step of the surroundings. -/
theorem Run.alone (exec : State → Instruction → State) (around : State → Event → State → Prop)
    (program left : List Instruction) (start : State) :
    Run (Turn exec around) ⟨program ++ left, start⟩ (List.replicate program.length none)
      ⟨left, program.foldl exec start⟩ := by
  induction program generalizing start with
  | nil => exact .nil
  | cons instruction program ih =>
      exact (Run.single (.program instruction (program ++ left) start)).append (ih (exec start instruction))

end Interleaving

end ShedKernel.Foundation
