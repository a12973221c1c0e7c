import ShedKernel.Foundation.Bitmap
import ShedKernel.Foundation.CString

/-! Memories that agree below an address. Stores of the same bytes at the same places keep
the agreement, whatever the memories hold behind it. -/

set_option autoImplicit false

namespace ShedKernel.Foundation

/-- Both memories hold the same bytes below the address. -/
def AgreeBelow (bound : Nat) (left right : Memory) : Prop :=
  ∀ address, address < bound → left address = right address

namespace AgreeBelow

variable {bound : Nat} {left right : Memory}

theorem refl (bound : Nat) (memory : Memory) : AgreeBelow bound memory memory := fun _ _ => rfl

theorem trans {last : Memory} (first : AgreeBelow bound left right)
    (second : AgreeBelow bound right last) : AgreeBelow bound left last :=
  fun address inside => (first address inside).trans (second address inside)

theorem symm (agree : AgreeBelow bound left right) : AgreeBelow bound right left :=
  fun address inside => (agree address inside).symm

theorem load32 (agree : AgreeBelow bound left right) {address : Nat} (inside : address + 4 ≤ bound) :
    left.load32 address = right.load32 address :=
  Memory.load32_congr fun other _ high => agree other (by omega)

theorem storeByte (agree : AgreeBelow bound left right) (address : Nat) (value : UInt8) :
    AgreeBelow bound (left.storeByte address value) (right.storeByte address value) := by
  intro other inside
  unfold Memory.storeByte
  rw [agree other inside]

theorem store32 (agree : AgreeBelow bound left right) (address value : Nat) :
    AgreeBelow bound (left.store32 address value) (right.store32 address value) := by
  intro other inside
  unfold Memory.store32
  rw [agree other inside]

theorem storeBytes (agree : AgreeBelow bound left right) (address : Nat) (bytes : List UInt8) :
    AgreeBelow bound (left.storeBytes address bytes) (right.storeBytes address bytes) := by
  induction bytes generalizing address left right with
  | nil => exact agree
  | cons byte rest ih => exact ih (agree.storeByte address byte) (address + 1)

theorem setBit (agree : AgreeBelow bound left right) {base index : Nat}
    (inside : base + index / 8 < bound) :
    AgreeBelow bound (left.setBit base index) (right.setBit base index) := by
  unfold Memory.setBit
  rw [agree _ inside]
  exact agree.storeByte _ _

theorem clearBit (agree : AgreeBelow bound left right) {base index : Nat}
    (inside : base + index / 8 < bound) :
    AgreeBelow bound (left.clearBit base index) (right.clearBit base index) := by
  unfold Memory.clearBit
  rw [agree _ inside]
  exact agree.storeByte _ _

end AgreeBelow

end ShedKernel.Foundation
