import Mathlib.Logic.Basic

/-! Byte-addressed memories, their little-endian 32-bit words, and the forward
byte copy. Addresses are natural numbers; wrap-around belongs to the client. -/

set_option autoImplicit false

namespace ShedKernel.Foundation

/-- The bytes held at every address. -/
abbrev Memory := Nat → UInt8

namespace Memory

def storeByte (memory : Memory) (address : Nat) (value : UInt8) : Memory :=
  fun other => if other = address then value else memory other

def load32 (memory : Memory) (address : Nat) : Nat :=
  (memory address).toNat + 256 * (memory (address + 1)).toNat +
    65536 * (memory (address + 2)).toNat + 16777216 * (memory (address + 3)).toNat

/-- Store the low 32 bits of `value`, least significant byte first. -/
def store32 (memory : Memory) (address value : Nat) : Memory :=
  fun other =>
    if other = address then UInt8.ofNat value
    else if other = address + 1 then UInt8.ofNat (value / 256)
    else if other = address + 2 then UInt8.ofNat (value / 65536)
    else if other = address + 3 then UInt8.ofNat (value / 16777216)
    else memory other

def store16 (memory : Memory) (address : Nat) (value : UInt16) : Memory :=
  (memory.storeByte address value.toUInt8).storeByte (address + 1) (value >>> 8).toUInt8

/-- Copy `count` bytes one at a time, lowest address first. A destination that
overlaps the source sees the bytes already copied. -/
def copyForward (memory : Memory) (target source : Nat) : Nat → Memory
  | 0 => memory
  | count + 1 =>
      let copied := copyForward memory target source count
      copied.storeByte (target + count) (copied (source + count))

/-- Fill `count` bytes from `target` on with the bytes of another object. -/
def blit (memory : Memory) (target : Nat) (source : Nat → UInt8) (count : Nat) : Memory :=
  fun other =>
    if target ≤ other ∧ other < target + count then source (other - target) else memory other

@[simp] theorem storeByte_self (memory : Memory) (address : Nat) (value : UInt8) :
    memory.storeByte address value address = value := by
  simp [storeByte]

theorem storeByte_of_ne {memory : Memory} {address other : Nat} {value : UInt8}
    (different : other ≠ address) : memory.storeByte address value other = memory other := by
  simp [storeByte, different]

theorem load32_lt (memory : Memory) (address : Nat) : memory.load32 address < 4294967296 := by
  have b0 := (memory address).toNat_lt
  have b1 := (memory (address + 1)).toNat_lt
  have b2 := (memory (address + 2)).toNat_lt
  have b3 := (memory (address + 3)).toNat_lt
  unfold load32
  omega

/-- A word depends on its four bytes only. -/
theorem load32_congr {first second : Memory} {address : Nat}
    (same : ∀ other, address ≤ other → other < address + 4 → first other = second other) :
    first.load32 address = second.load32 address := by
  simp only [load32, same address (by omega) (by omega), same (address + 1) (by omega) (by omega),
    same (address + 2) (by omega) (by omega), same (address + 3) (by omega) (by omega)]

theorem store32_of_outside {memory : Memory} {address value other : Nat}
    (outside : other < address ∨ address + 4 ≤ other) :
    memory.store32 address value other = memory other := by
  unfold store32
  rw [if_neg (by omega), if_neg (by omega), if_neg (by omega), if_neg (by omega)]

theorem load32_store32 (memory : Memory) (address value : Nat) :
    (memory.store32 address value).load32 address = value % 4294967296 := by
  simp only [load32, store32, Nat.add_eq_left, Nat.add_left_cancel_iff, Nat.reduceEqDiff,
    Nat.succ_ne_zero, ↓reduceIte, UInt8.toNat_ofNat']
  omega

theorem load32_store32_of_lt {memory : Memory} {address value : Nat}
    (small : value < 4294967296) : (memory.store32 address value).load32 address = value := by
  rw [load32_store32, Nat.mod_eq_of_lt small]

/-- Storing the word that is there changes nothing. -/
theorem store32_load32 (memory : Memory) (address : Nat) :
    memory.store32 address (memory.load32 address) = memory := by
  have b0 := (memory address).toNat_lt
  have b1 := (memory (address + 1)).toNat_lt
  have b2 := (memory (address + 2)).toNat_lt
  have b3 := (memory (address + 3)).toNat_lt
  funext other
  have byte : ∀ value : Nat, value % 256 = (memory other).toNat →
      UInt8.ofNat value = memory other := by
    intro value same
    exact UInt8.toNat_inj.mp (by rw [UInt8.toNat_ofNat', same])
  unfold store32 load32
  split
  · next same => exact byte _ (by subst same; omega)
  split
  · next same => exact byte _ (by subst same; omega)
  split
  · next same => exact byte _ (by subst same; omega)
  split
  · next same => exact byte _ (by subst same; omega)
  · rfl

theorem load32_store32_of_disjoint {memory : Memory} {address other value : Nat}
    (disjoint : other + 4 ≤ address ∨ address + 4 ≤ other) :
    (memory.store32 address value).load32 other = memory.load32 other :=
  load32_congr fun _ _ _ => store32_of_outside (by omega)

/-- Only the last of two words at an address is seen. -/
theorem store32_store32 (memory : Memory) (address first second : Nat) :
    (memory.store32 address first).store32 address second = memory.store32 address second := by
  funext other
  by_cases outside : other < address ∨ address + 4 ≤ other
  · rw [store32_of_outside outside, store32_of_outside outside, store32_of_outside outside]
  · unfold store32
    split
    · rfl
    split
    · rfl
    split
    · rfl
    rw [if_pos (show other = address + 3 by omega), if_pos (show other = address + 3 by omega)]

theorem store32_storeByte_of_outside {memory : Memory} {address value other : Nat} {byte : UInt8}
    (outside : other < address ∨ address + 4 ≤ other) :
    (memory.store32 address value).storeByte other byte = (memory.storeByte other byte).store32 address value := by
  funext place
  by_cases same : place = other
  · subst same
    rw [storeByte_self, store32_of_outside outside, storeByte_self]
  · rw [storeByte_of_ne same]
    unfold store32
    rw [storeByte_of_ne same]

theorem copyForward_of_outside {memory : Memory} {target source count other : Nat}
    (outside : other < target ∨ target + count ≤ other) :
    memory.copyForward target source count other = memory other := by
  induction count with
  | zero => rfl
  | succ count ih =>
      simp only [copyForward]
      rw [storeByte_of_ne (by omega), ih (by omega)]

/-- Copying to a region disjoint from the source yields the source's bytes. -/
theorem copyForward_of_disjoint {memory : Memory} {target source count index : Nat}
    (disjoint : target + count ≤ source ∨ source + count ≤ target) (bounded : index < count) :
    memory.copyForward target source count (target + index) = memory (source + index) := by
  induction count with
  | zero => omega
  | succ count ih =>
      simp only [copyForward]
      by_cases last : index = count
      · subst last
        rw [storeByte_self, copyForward_of_outside (by omega)]
      · rw [storeByte_of_ne (by omega), ih (by omega) (by omega)]

theorem blit_of_outside {memory : Memory} {target count other : Nat} {source : Nat → UInt8}
    (outside : other < target ∨ target + count ≤ other) :
    memory.blit target source count other = memory other :=
  if_neg (by omega)

theorem blit_of_inside {memory : Memory} {target count index : Nat} {source : Nat → UInt8}
    (inside : index < count) : memory.blit target source count (target + index) = source index := by
  rw [blit, if_pos (by omega), Nat.add_sub_cancel_left]

theorem blit_congr {memory : Memory} {target count : Nat} {first second : Nat → UInt8}
    (same : ∀ index, index < count → first index = second index) :
    memory.blit target first count = memory.blit target second count := by
  funext other
  unfold blit
  split
  · exact same _ (by omega)
  · rfl

end Memory

end ShedKernel.Foundation
