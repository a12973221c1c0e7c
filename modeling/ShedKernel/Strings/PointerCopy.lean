import ShedKernel.Foundation.Word32
import ShedKernel.Strings.Copy

/-! The loops of `memcpy` and `memmove` on 32-bit pointers. A range may end at the last
address, where the pointer behind it wraps around. -/

set_option autoImplicit false

namespace ShedKernel.Strings

open Foundation

/-- `while (n--) *d++ = *s++;` -/
def copyUp (memory : Memory) (d s : Nat) : Nat → Memory
  | 0 => memory
  | n + 1 => copyUp (memory.storeByte d (memory s)) (add32 d 1) (add32 s 1) n

/-- `while (n--) *--d = *--s;` -/
def copyDown (memory : Memory) (d s : Nat) : Nat → Memory
  | 0 => memory
  | n + 1 =>
      let d := sub32 d 1
      let s := sub32 s 1
      copyDown (memory.storeByte d (memory s)) d s n

def memcpy32 (memory : Memory) (dest src n : Nat) : Memory := copyUp memory dest src n

def memmove32 (memory : Memory) (dest src n : Nat) : Memory :=
  if dest < src then copyUp memory dest src n else copyDown memory (add32 dest n) (add32 src n) n

/-- Neither range wraps around. -/
structure Unwrapped (dest src n : Nat) : Prop where
  dest : dest + n ≤ 4294967296
  src : src + n ≤ 4294967296

section

variable {memory : Memory} {dest src n : Nat}

/-- The upward loop, from its first turn on. -/
theorem copyForward_first : memory.copyForward dest src (n + 1) =
    (memory.storeByte dest (memory src)).copyForward (dest + 1) (src + 1) n := by
  induction n with
  | zero => rfl
  | succ n ih =>
      rw [Memory.copyForward, ih]
      simp only [Memory.copyForward, Nat.add_assoc, Nat.add_comm 1]

private theorem copyUp_eq (unwrapped : Unwrapped dest src n) :
    copyUp memory dest src n = memory.copyForward dest src n := by
  induction n generalizing memory dest src with
  | zero => rfl
  | succ n ih =>
      rw [copyUp, copyForward_first]
      cases n with
      | zero => rfl
      | succ n =>
          have destFits := unwrapped.dest
          have srcFits := unwrapped.src
          rw [add32_of_lt (show dest + 1 < 4294967296 by omega), add32_of_lt (show src + 1 < 4294967296 by omega)]
          exact ih ⟨by omega, by omega⟩

private theorem copyDown_eq (unwrapped : Unwrapped dest src n) :
    copyDown memory (add32 dest n) (add32 src n) n = memory.copyBackward dest src n := by
  induction n generalizing memory with
  | zero => rfl
  | succ n ih =>
      have destFits := unwrapped.dest
      have srcFits := unwrapped.src
      have back (start : Nat) (fits : start + (n + 1) ≤ 4294967296) :
          sub32 (add32 start (n + 1)) 1 = start + n ∧ add32 start n = start + n := by
        unfold sub32 add32
        omega
      have destBack := back dest destFits
      have srcBack := back src srcFits
      have rest := @ih (memory.storeByte (dest + n) (memory (src + n))) ⟨by omega, by omega⟩
      rw [destBack.2, srcBack.2] at rest
      rw [copyDown, destBack.1, srcBack.1]
      exact rest

private theorem memmove32_eq (unwrapped : Unwrapped dest src n) :
    memmove32 memory dest src n = memmove memory dest src n := by
  rw [memmove32, memmove, copyUp_eq unwrapped, copyDown_eq unwrapped]

end

/-- What a copy of the old source leaves. -/
def Copied (before after : Memory) (dest src n : Nat) : Prop :=
  (∀ index, index < n → after (dest + index) = before (src + index)) ∧
    ∀ address, address < dest ∨ dest + n ≤ address → after address = before address

theorem Copied.unique {before after other : Memory} {dest src n : Nat} (copied : Copied before after dest src n)
    (also : Copied before other dest src n) : other = after := by
  funext address
  by_cases outside : address < dest ∨ dest + n ≤ address
  · rw [copied.2 address outside, also.2 address outside]
  · obtain ⟨index, rfl⟩ := Nat.exists_eq_add_of_le (show dest ≤ address by omega)
    rw [copied.1 index (by omega), also.1 index (by omega)]

/-- `memmove` copies the old source however the ranges overlap, and `memcpy` does so unless
the target begins inside the source, behind its start. -/
theorem memmove_copies_overlapping (memory : Memory) (dest src n : Nat) (unwrapped : Unwrapped dest src n) :
    Copied memory (memmove32 memory dest src n) dest src n ∧
      (dest + n ≤ src ∨ src + n ≤ dest ∨ dest ≤ src →
        memcpy32 memory dest src n = memmove32 memory dest src n) := by
  have moved : Copied memory (memmove32 memory dest src n) dest src n := by
    rw [memmove32_eq unwrapped]
    exact ⟨fun _ bounded => memmove_inside bounded, fun _ outside => memmove_outside outside⟩
  refine ⟨moved, fun orderly => moved.unique ?_⟩
  rw [memcpy32, copyUp_eq unwrapped]
  refine ⟨fun index bounded => ?_, fun _ outside => Memory.copyForward_of_outside outside⟩
  by_cases below : dest ≤ src
  · exact Memory.copyForward_of_le below bounded
  · exact Memory.copyForward_of_disjoint (by omega) bounded

/-- Four bytes moved up by two. -/
theorem memmove_copies_overlapping_up :
    Copied (fun address => UInt8.ofNat address) (memmove32 (fun address => UInt8.ofNat address) 12 10 4) 12 10 4 :=
  (memmove_copies_overlapping _ 12 10 4 ⟨by decide, by decide⟩).1

end ShedKernel.Strings
