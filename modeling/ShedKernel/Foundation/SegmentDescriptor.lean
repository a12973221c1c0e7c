import ShedKernel.Foundation.ByteMemory

/-! Segment descriptors of the x86 and the eight bytes that hold one: the limit in bytes 0
and 1 and the low half of byte 6, the base in bytes 2 to 4 and 7, the access byte 5 and the
flags in the high half of byte 6. -/

set_option autoImplicit false

namespace ShedKernel.Foundation

@[ext]
structure SegmentDescriptor where
  base : UInt32
  limit : UInt32
  access : UInt8
  flags : UInt8
  limit_lt : limit.toNat < 1048576
  flags_lt : flags.toNat < 16

namespace SegmentDescriptor

theorem largestLimit_lt : (0xFFFFF : UInt32).toNat < 1048576 := by decide

/-- The descriptor that eight bytes hold. -/
def decode (memory : Memory) (address : Nat) : SegmentDescriptor where
  base := UInt32.ofNat ((memory (address + 2)).toNat + 256 * (memory (address + 3)).toNat +
    65536 * (memory (address + 4)).toNat + 16777216 * (memory (address + 7)).toNat)
  limit := UInt32.ofNat ((memory address).toNat + 256 * (memory (address + 1)).toNat +
    65536 * ((memory (address + 6)).toNat % 16))
  access := memory (address + 5)
  flags := UInt8.ofNat ((memory (address + 6)).toNat / 16)
  limit_lt := by
    have low := (memory address).toNat_lt
    have high := (memory (address + 1)).toNat_lt
    rw [UInt32.toNat_ofNat']
    omega
  flags_lt := by
    have half := (memory (address + 6)).toNat_lt
    rw [UInt8.toNat_ofNat']
    omega

/-- Only the eight bytes matter. -/
theorem decode_congr {memory changed : Memory} {address other : Nat}
    (same : ∀ index, index < 8 → changed (other + index) = memory (address + index)) :
    decode changed other = decode memory address := by
  have first := same 0 (by decide)
  rw [Nat.add_zero, Nat.add_zero] at first
  ext1 <;> simp only [decode, first, same 1 (by decide), same 2 (by decide), same 3 (by decide),
    same 4 (by decide), same 5 (by decide), same 6 (by decide), same 7 (by decide)]

/-- The ring that a segment belongs to. -/
def privilege (descriptor : SegmentDescriptor) : Nat := descriptor.access.toNat / 32 % 4

/-- Bit 3 of the access byte tells code from data, bit 2 conforming code from other code. -/
def ConformingCode (descriptor : SegmentDescriptor) : Prop :=
  descriptor.access.toNat / 8 % 2 = 1 ∧ descriptor.access.toNat / 4 % 2 = 1

instance (descriptor : SegmentDescriptor) : Decidable descriptor.ConformingCode :=
  inferInstanceAs (Decidable (_ ∧ _))

end SegmentDescriptor

end ShedKernel.Foundation
