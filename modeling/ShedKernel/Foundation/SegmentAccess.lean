import ShedKernel.Foundation.SegmentDescriptor

/-! Which offsets a segment of the x86 lets through: a limit counted in bytes or in pages, and
segments that grow down, whose offsets are those above the limit. -/

set_option autoImplicit false

namespace ShedKernel.Foundation.SegmentDescriptor

/-- The last byte that the limit names; bit 3 of the flags counts it in pages. -/
def lastByte (descriptor : SegmentDescriptor) : Nat :=
  if descriptor.flags.toNat / 8 % 2 = 1 then 4096 * descriptor.limit.toNat + 4095 else descriptor.limit.toNat

/-- A data segment (bit 3 of the access byte is clear) with bit 2 set. -/
def ExpandsDown (descriptor : SegmentDescriptor) : Prop :=
  descriptor.access.toNat / 8 % 2 = 0 ∧ descriptor.access.toNat / 4 % 2 = 1

instance (descriptor : SegmentDescriptor) : Decidable descriptor.ExpandsDown :=
  inferInstanceAs (Decidable (_ ∧ _))

/-- Where a segment that grows down ends; bit 2 of the flags makes it a 32-bit one. -/
def upperBound (descriptor : SegmentDescriptor) : Nat :=
  if descriptor.flags.toNat / 4 % 2 = 1 then 0xFFFFFFFF else 0xFFFF

/-- An access to `size` bytes from `offset` on is within the segment. -/
def Reaches (descriptor : SegmentDescriptor) (offset size : Nat) : Prop :=
  if descriptor.ExpandsDown then descriptor.lastByte < offset ∧ offset + size ≤ descriptor.upperBound + 1
  else offset + size ≤ descriptor.lastByte + 1

/-- A segment of pages that grows up and has the largest limit is all of memory. -/
theorem reaches_of_flat {descriptor : SegmentDescriptor} (up : ¬descriptor.ExpandsDown)
    (last : descriptor.lastByte = 0xFFFFFFFF) (offset size : Nat) :
    descriptor.Reaches offset size ↔ offset + size ≤ 4294967296 := by
  rw [Reaches, if_neg up, last]

/-- Growing down from the same limit there is nothing left. -/
theorem not_reaches_of_full {descriptor : SegmentDescriptor} (down : descriptor.ExpandsDown)
    (last : descriptor.lastByte = 0xFFFFFFFF) {offset size : Nat} (some : 0 < size) :
    ¬descriptor.Reaches offset size := by
  rw [Reaches, if_pos down, last]
  rintro ⟨above, below⟩
  have bound : descriptor.upperBound ≤ 0xFFFFFFFF := by
    unfold upperBound
    split <;> decide
  omega

end ShedKernel.Foundation.SegmentDescriptor
