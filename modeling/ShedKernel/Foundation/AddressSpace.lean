import Mathlib.Logic.Function.Basic
import ShedKernel.Foundation.ByteMemory

/-! Memory as it is seen through a translation of addresses, and the regions that loops
fill in it. -/

set_option autoImplicit false

namespace ShedKernel.Foundation

/-- The bytes behind the addresses that can be reached. -/
abbrev Contents := Nat → Option UInt8

namespace Contents

def view (memory : Memory) (place : Nat → Option Nat) : Contents := fun address =>
  (place address).map memory

/-- `count` bytes from `base` on are reached and hold the given ones. -/
def region (contents : Contents) (base : Nat) (bytes : Nat → UInt8) (count : Nat) : Contents :=
  fun address =>
    if base ≤ address ∧ address < base + count then some (bytes (address - base)) else contents address

variable {memory : Memory} {place : Nat → Option Nat} {contents : Contents} {bytes : Nat → UInt8}
  {base count address physical : Nat}

/-- A store through a translation that has no other address for the place. -/
theorem view_storeByte {value : UInt8} (found : place address = some physical)
    (alone : ∀ other, place other = some physical → other = address) :
    view (memory.storeByte physical value) place =
      Function.update (view memory place) address (some value) := by
  funext other
  by_cases here : other = address
  · subst here
    rw [Function.update_self, view, found, Option.map_some, Memory.storeByte_self]
  · rw [Function.update_of_ne here]
    unfold view
    cases reached : place other with
    | none => rfl
    | some elsewhere =>
      have different : elsewhere ≠ physical := fun same => here (alone other (same ▸ reached))
      simp only [Option.map_some, Memory.storeByte_of_ne different]

theorem region_inside (inside : base ≤ address ∧ address < base + count) :
    contents.region base bytes count address = some (bytes (address - base)) :=
  if_pos inside

theorem region_outside (outside : address < base ∨ base + count ≤ address) :
    contents.region base bytes count address = contents address :=
  if_neg (by omega)

@[simp] theorem region_empty : contents.region base bytes 0 = contents := by
  funext address
  exact region_outside (by omega)

theorem region_append (more : Nat) :
    (contents.region base bytes count).region (base + count) (fun index => bytes (count + index)) more =
      contents.region base bytes (count + more) := by
  funext address
  by_cases later : base + count ≤ address
  · by_cases inside : address < base + count + more
    · rw [region_inside ⟨later, inside⟩, region_inside (by omega)]
      congr 2
      omega
    · rw [region_outside (by omega), region_outside (by omega), region_outside (by omega)]
  · rw [region_outside (by omega)]
    by_cases inside : base ≤ address
    · rw [region_inside (by omega), region_inside (by omega)]
    · rw [region_outside (by omega), region_outside (by omega)]

/-- One more byte of a region. -/
theorem update_region : Function.update (contents.region base bytes count) (base + count)
    (some (bytes count)) = contents.region base bytes (count + 1) := by
  rw [← region_append 1]
  funext address
  by_cases here : address = base + count
  · subst here
    rw [Function.update_self, region_inside (by omega), Nat.sub_self, Nat.add_zero]
  · rw [Function.update_of_ne here]
    exact (@region_outside _ _ _ _ address (by omega)).symm

/-- A region written over another from its start on. -/
theorem region_over {inner : Nat → UInt8} {part : Nat} (within : part ≤ count) :
    (contents.region base bytes count).region base inner part =
      contents.region base (fun index => if index < part then inner index else bytes index) count := by
  funext address
  by_cases inside : base ≤ address ∧ address < base + count
  · rw [region_inside inside]
    by_cases early : address < base + part
    · rw [region_inside ⟨inside.1, early⟩, if_pos (by omega)]
    · rw [region_outside (by omega), region_inside inside, if_neg (by omega)]
  · rw [region_outside (by omega), region_outside (by omega), region_outside (by omega)]

/-- Regions that do not overlap may be filled in either order. -/
theorem region_comm {other more : Nat} {others : Nat → UInt8}
    (apart : base + count ≤ other ∨ other + more ≤ base) :
    (contents.region base bytes count).region other others more =
      (contents.region other others more).region base bytes count := by
  funext address
  by_cases inside : base ≤ address ∧ address < base + count
  · rw [region_inside inside, region_outside (by omega), region_inside inside]
  · by_cases there : other ≤ address ∧ address < other + more
    · rw [region_inside there, region_outside (by omega), region_inside there]
    · rw [region_outside (by omega), region_outside (by omega), region_outside (by omega),
        region_outside (by omega)]

end Contents

end ShedKernel.Foundation
