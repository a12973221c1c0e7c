import ShedKernel.Foundation.ByteCopy

/-! `memcpy` and `memmove` of `string.h`, on ranges that do not wrap around. -/

set_option autoImplicit false

namespace ShedKernel.Strings

open Foundation

def memcpy (memory : Memory) (dest src n : Nat) : Memory := memory.copyForward dest src n

def memmove (memory : Memory) (dest src n : Nat) : Memory :=
  if dest < src then memory.copyForward dest src n else memory.copyBackward dest src n

variable {memory : Memory} {dest src n index other : Nat}

theorem memcpy_inside (apart : dest + n ≤ src ∨ src + n ≤ dest) (bounded : index < n) :
    memcpy memory dest src n (dest + index) = memory (src + index) :=
  Memory.copyForward_of_disjoint apart bounded

theorem memcpy_outside (outside : other < dest ∨ dest + n ≤ other) :
    memcpy memory dest src n other = memory other :=
  Memory.copyForward_of_outside outside

/-- `memmove` copies what the source held, however the ranges overlap. -/
theorem memmove_inside (bounded : index < n) :
    memmove memory dest src n (dest + index) = memory (src + index) := by
  unfold memmove
  split
  · next below => exact Memory.copyForward_of_le (Nat.le_of_lt below) bounded
  · next above => exact Memory.copyBackward_of_le (Nat.le_of_not_lt above) bounded

theorem memmove_outside (outside : other < dest ∨ dest + n ≤ other) :
    memmove memory dest src n other = memory other := by
  unfold memmove
  split
  · exact Memory.copyForward_of_outside outside
  · exact Memory.copyBackward_of_outside outside

end ShedKernel.Strings
