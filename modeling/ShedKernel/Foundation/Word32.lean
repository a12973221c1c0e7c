import ShedKernel.Foundation.ByteMemory

/-! Unsigned 32-bit arithmetic on natural numbers below `2 ^ 32`, and byte copies
at addresses that wrap around. -/

set_option autoImplicit false

namespace ShedKernel.Foundation

def add32 (left right : Nat) : Nat := (left + right) % 4294967296

def sub32 (left right : Nat) : Nat := (left + (4294967296 - right)) % 4294967296

theorem add32_of_lt {left right : Nat} (small : left + right < 4294967296) :
    add32 left right = left + right := Nat.mod_eq_of_lt small

theorem sub32_of_le {left right : Nat} (ordered : right ≤ left) (small : left < 4294967296) :
    sub32 left right = left - right := by
  unfold sub32
  omega

theorem add32_lt (left right : Nat) : add32 left right < 4294967296 :=
  Nat.mod_lt _ (by decide)

theorem sub32_lt (left right : Nat) : sub32 left right < 4294967296 :=
  Nat.mod_lt _ (by decide)

namespace Memory

/-- The bytes behind a 32-bit pointer. -/
def behind (memory : Memory) (pointer : Nat) : Nat → UInt8 :=
  fun index => memory (add32 pointer index)

/-- Fill `count` bytes from a 32-bit pointer on with the bytes of another object. -/
def blit32 (memory : Memory) (pointer : Nat) (source : Nat → UInt8) (count : Nat) : Memory :=
  fun address =>
    if address < 4294967296 ∧ sub32 address pointer < count then source (sub32 address pointer)
    else memory address

/-- A filled range holds the source's bytes. -/
theorem blit32_of_inside {memory : Memory} {pointer start count place : Nat} {source : Nat → UInt8}
    (small : start + count ≤ 4294967296) (low : start ≤ place) (high : place < start + count) :
    memory.blit32 (add32 pointer start) source count (add32 pointer place) =
      source (place - start) := by
  have offset : sub32 (add32 pointer place) (add32 pointer start) = place - start := by
    unfold sub32 add32
    omega
  unfold blit32
  rw [offset, if_pos ⟨add32_lt _ _, by omega⟩]

theorem blit32_of_outside {memory : Memory} {pointer start count place : Nat} {source : Nat → UInt8}
    (small : start + count ≤ 4294967296) (bounded : place < 4294967296)
    (outside : place < start ∨ start + count ≤ place) :
    memory.blit32 (add32 pointer start) source count (add32 pointer place) =
      memory (add32 pointer place) := by
  refine if_neg fun inside => ?_
  have offset := inside.2
  unfold sub32 add32 at offset
  omega

theorem blit32_congr {memory : Memory} {pointer count : Nat} {first second : Nat → UInt8}
    (same : ∀ index, index < count → first index = second index) :
    memory.blit32 pointer first count = memory.blit32 pointer second count := by
  funext address
  unfold blit32
  split
  · next inside => exact same _ inside.2
  · rfl

/-- `target[i] = source[i]` for `i` up to `count`, at 32-bit pointers. -/
def copyForward32 (memory : Memory) (target source : Nat) : Nat → Memory
  | 0 => memory
  | count + 1 =>
      let copied := copyForward32 memory target source count
      copied.storeByte (add32 target count) (copied (add32 source count))

theorem copyForward32_of_outside {memory : Memory} {target source count other : Nat}
    (outside : ∀ index, index < count → other ≠ add32 target index) :
    memory.copyForward32 target source count other = memory other := by
  induction count with
  | zero => rfl
  | succ count ih =>
      rw [copyForward32, storeByte_of_ne (outside count (Nat.lt_succ_self count))]
      exact ih fun index inside => outside index (Nat.lt_succ_of_lt inside)

/-- A copy that stores into none of its source bytes copies all of them. -/
theorem copyForward32_of_disjoint {memory : Memory} {target source count index : Nat}
    (small : count ≤ 4294967296)
    (disjoint : ∀ place, place < count → ∀ other, other < count →
      add32 source place ≠ add32 target other)
    (bounded : index < count) :
    memory.copyForward32 target source count (add32 target index) =
      memory (add32 source index) := by
  induction count with
  | zero => omega
  | succ count ih =>
      rw [copyForward32]
      by_cases last : index = count
      · rw [last, storeByte_self]
        exact copyForward32_of_outside fun other inside =>
          disjoint count (Nat.lt_succ_self count) other (Nat.lt_succ_of_lt inside)
      · have elsewhere : add32 target index ≠ add32 target count := by
          unfold add32
          omega
        rw [storeByte_of_ne elsewhere]
        exact ih (by omega) (fun place inside other below =>
          disjoint place (Nat.lt_succ_of_lt inside) other (Nat.lt_succ_of_lt below)) (by omega)

/-- Such a copy fills the target with what the source held. -/
theorem copyForward32_eq_blit32 {memory : Memory} {target source count : Nat}
    (pointer : target < 4294967296) (small : count ≤ 4294967296)
    (disjoint : ∀ place, place < count → ∀ other, other < count →
      add32 source place ≠ add32 target other) :
    memory.copyForward32 target source count = memory.blit32 target (memory.behind source) count := by
  funext address
  unfold blit32
  split
  · next inside =>
      have there : add32 target (sub32 address target) = address := by
        unfold add32 sub32
        omega
      have copied := @copyForward32_of_disjoint memory target source count _ small disjoint inside.2
      rwa [there] at copied
  · next elsewhere =>
      refine copyForward32_of_outside fun index inside same => elsewhere ?_
      have offset : sub32 (add32 target index) target = index := by
        unfold add32 sub32
        omega
      rw [same, offset]
      exact ⟨add32_lt _ _, inside⟩

end Memory

end ShedKernel.Foundation
