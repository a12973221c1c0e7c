import ShedKernel.Foundation.ByteMemory

/-! Byte copies between overlapping ranges: a copy that goes up is right when its target
is not above its source, a copy that goes down when it is not below. -/

set_option autoImplicit false

namespace ShedKernel.Foundation

namespace Memory

/-- Copy `count` bytes one at a time, highest address first. -/
def copyBackward (memory : Memory) (target source : Nat) : Nat → Memory
  | 0 => memory
  | count + 1 =>
      copyBackward (memory.storeByte (target + count) (memory (source + count))) target source count

variable {memory : Memory} {target source count index other : Nat}

theorem copyForward_of_le (below : target ≤ source) (bounded : index < count) :
    memory.copyForward target source count (target + index) = memory (source + index) := by
  induction count with
  | zero => omega
  | succ count ih =>
      simp only [copyForward]
      by_cases last : index = count
      · -- the source byte lies past everything copied so far
        rw [last, storeByte_self]
        by_cases same : target = source
        · rw [same]
          by_cases first : count = 0
          · rw [first]
            rfl
          · exact copyForward_of_outside (.inr (by omega))
        · exact copyForward_of_outside (by omega)
      · rw [storeByte_of_ne (by omega), ih (by omega)]

theorem copyBackward_of_outside (outside : other < target ∨ target + count ≤ other) :
    memory.copyBackward target source count other = memory other := by
  induction count generalizing memory with
  | zero => rfl
  | succ count ih =>
      rw [copyBackward, ih (by omega), storeByte_of_ne (by omega)]

theorem copyBackward_of_le (above : source ≤ target) (bounded : index < count) :
    memory.copyBackward target source count (target + index) = memory (source + index) := by
  induction count generalizing memory with
  | zero => omega
  | succ count ih =>
      rw [copyBackward]
      by_cases last : index = count
      · rw [last, copyBackward_of_outside (.inr (by omega)), storeByte_self]
      · rw [ih (by omega), storeByte_of_ne (by omega)]

end Memory

end ShedKernel.Foundation
