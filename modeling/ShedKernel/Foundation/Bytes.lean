import Mathlib.Data.List.Basic
import Mathlib.Data.List.InsertIdx
import ShedKernel.Foundation.ByteMemory

/-! The list of bytes that a memory holds in a range. -/

set_option autoImplicit false

namespace ShedKernel.Foundation

namespace Memory

def bytesAt (memory : Nat → UInt8) (start count : Nat) : List UInt8 :=
  (List.range count).map fun index => memory (start + index)

variable {memory changed : Nat → UInt8} {start count : Nat} {bytes : List UInt8}

@[simp] theorem length_bytesAt : (bytesAt memory start count).length = count := by
  simp [bytesAt]

@[simp] theorem bytesAt_zero : bytesAt memory start 0 = [] := rfl

theorem bytesAt_add (more : Nat) :
    bytesAt memory start (count + more) =
      bytesAt memory start count ++ bytesAt memory (start + count) more := by
  simp [bytesAt, List.range_add, Function.comp_def, Nat.add_assoc]

theorem bytesAt_succ :
    bytesAt memory start (count + 1) = memory start :: bytesAt memory (start + 1) count := by
  simp [bytesAt, List.range_succ_eq_map, Function.comp_def, Nat.add_assoc, Nat.add_comm 1]

theorem bytesAt_congr (same : ∀ index, index < count → changed (start + index) = memory (start + index)) :
    bytesAt changed start count = bytesAt memory start count := by
  apply List.map_congr_left
  intro index member
  exact same index (List.mem_range.mp member)

theorem bytesAt_eq_iff (length : bytes.length = count) :
    bytesAt memory start count = bytes ↔
      ∀ index, index < count → memory (start + index) = bytes.getD index 0 := by
  subst length
  constructor
  · intro same index inside
    rw [← same]
    simp [bytesAt, inside]
  · intro same
    apply List.ext_getElem
    · simp
    · intro index inside _
      simp only [length_bytesAt] at inside
      simp [bytesAt, same index inside, inside]

/-- The bytes from `place` on moved one up, and a new byte in the gap. -/
theorem bytesAt_insertIdx {place : Nat} {byte : UInt8}
    (held : bytesAt memory start count = bytes) (inside : place ≤ count)
    (before : ∀ index, index < place → changed (start + index) = memory (start + index))
    (here : changed (start + place) = byte)
    (after : ∀ index, place ≤ index → index < count →
      changed (start + (index + 1)) = memory (start + index)) :
    bytesAt changed start (count + 1) = bytes.insertIdx place byte := by
  subst held
  apply List.ext_getElem
  · rw [List.length_insertIdx_of_le_length (by simpa using inside)]
    simp
  · intro index small _
    rw [length_bytesAt] at small
    rw [List.getElem_insertIdx]
    simp only [bytesAt, List.getElem_map, List.getElem_range]
    split
    · next lower => exact before index lower
    · next notLower =>
        split
        · next same =>
            rw [same]
            exact here
        · next different =>
            have moved := after (index - 1) (by omega) (by omega)
            rwa [Nat.sub_add_cancel (by omega)] at moved

/-- The bytes behind `place` moved one down. -/
theorem bytesAt_eraseIdx {place : Nat} (held : bytesAt memory start count = bytes)
    (inside : place < count)
    (before : ∀ index, index < place → changed (start + index) = memory (start + index))
    (after : ∀ index, place ≤ index → index + 1 < count →
      changed (start + index) = memory (start + (index + 1))) :
    bytesAt changed start (count - 1) = bytes.eraseIdx place := by
  subst held
  apply List.ext_getElem
  · rw [List.length_eraseIdx_of_lt (by simpa using inside)]
    simp
  · intro index small _
    rw [length_bytesAt] at small
    rw [List.getElem_eraseIdx]
    simp only [bytesAt, List.getElem_map, List.getElem_range]
    split
    · next lower => exact before index lower
    · next notLower => exact after index (by omega) (by omega)

/-- The two halves of a range. -/
theorem bytesAt_append_iff {front back : List UInt8} :
    bytesAt memory start (front ++ back).length = front ++ back ↔
      bytesAt memory start front.length = front ∧
        bytesAt memory (start + front.length) back.length = back := by
  rw [List.length_append, bytesAt_add]
  constructor
  · intro same
    exact List.append_inj same (by simp)
  · intro ⟨first, second⟩
    rw [first, second]

end Memory

end ShedKernel.Foundation
