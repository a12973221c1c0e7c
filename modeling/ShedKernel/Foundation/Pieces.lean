import Mathlib.Data.List.Basic

/-! A list cut at the elements with a property: how many pieces there are, and what they
give when they are joined again. -/

set_option autoImplicit false

namespace ShedKernel.Foundation

namespace Pieces

variable {α : Type} (cuts : α → Bool) (separator : α)

/-- One piece more than there are cuts. -/
theorem length_splitOnP (list : List α) :
    (list.splitOnP cuts).length = list.countP cuts + 1 := by
  induction list with
  | nil => rfl
  | cons element rest ih =>
      rw [List.splitOnP_cons_eq_if_modifyHead, List.countP_cons]
      split
      · rw [List.length_cons, ih]
      · rw [List.length_modifyHead, ih, Nat.add_zero]

theorem intercalate_modifyHead (element : α) {pieces : List (List α)} (some_piece : pieces ≠ []) :
    [separator].intercalate (pieces.modifyHead (element :: ·)) =
      element :: [separator].intercalate pieces := by
  cases pieces with
  | nil => exact absurd rfl some_piece
  | cons piece rest =>
      cases rest with
      | nil => simp
      | cons next rest => simp

/-- The pieces, joined with one separator, are the list with that separator at every cut. -/
theorem intercalate_splitOnP (list : List α) :
    [separator].intercalate (list.splitOnP cuts) =
      list.map fun element => if cuts element then separator else element := by
  induction list with
  | nil => rfl
  | cons element rest ih =>
      have more : rest.splitOnP cuts ≠ [] := List.splitOnP_ne_nil cuts rest
      rw [List.splitOnP_cons_eq_if_modifyHead, List.map_cons, ← ih]
      split
      · obtain ⟨piece, others, pieces⟩ := List.exists_cons_of_ne_nil more
        rw [pieces]
        simp
      · exact intercalate_modifyHead separator element more

end Pieces

end ShedKernel.Foundation
