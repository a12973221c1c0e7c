import ShedKernel.Foundation.SegmentDescriptor
import Mathlib.Algebra.Group.Nat.Defs

/-! The global descriptor table of `kernel.c`: how `init_gdt_descriptor` lays out an entry
and what `gdt_init` puts into the table. -/

set_option autoImplicit false

namespace ShedKernel.Cpu

open Foundation

/-! Fields of `struct GDT_entry`. The two bit-fields share byte 6, low half first. -/

namespace GdtEntry

def setLim0_15 (memory : Memory) (entry : Nat) (value : UInt16) : Memory := memory.store16 entry value

def setBase0_15 (memory : Memory) (entry : Nat) (value : UInt16) : Memory := memory.store16 (entry + 2) value

def setBase16_23 (memory : Memory) (entry : Nat) (value : UInt8) : Memory := memory.storeByte (entry + 4) value

def setAcces (memory : Memory) (entry : Nat) (value : UInt8) : Memory := memory.storeByte (entry + 5) value

def setLim16_19 (memory : Memory) (entry : Nat) (value : UInt8) : Memory :=
  memory.storeByte (entry + 6) ((memory (entry + 6) &&& (0xF0 : UInt8)) ||| (value &&& (0x0F : UInt8)))

def setOther (memory : Memory) (entry : Nat) (value : UInt8) : Memory :=
  memory.storeByte (entry + 6) ((memory (entry + 6) &&& (0x0F : UInt8)) ||| (value <<< (4 : UInt8)))

def setBase24_31 (memory : Memory) (entry : Nat) (value : UInt8) : Memory := memory.storeByte (entry + 7) value

end GdtEntry

def initGdtDescriptor (memory : Memory) (base limite : UInt32) (acces other : UInt8) (entry : Nat) : Memory :=
  let memory := GdtEntry.setLim0_15 memory entry (limite &&& 0xffff).toUInt16
  let memory := GdtEntry.setBase0_15 memory entry (base &&& 0xffff).toUInt16
  let memory := GdtEntry.setBase16_23 memory entry ((base &&& 0xff0000) >>> 16).toUInt8
  let memory := GdtEntry.setAcces memory entry acces
  let memory := GdtEntry.setLim16_19 memory entry ((limite &&& 0xf0000) >>> 16).toUInt8
  let memory := GdtEntry.setOther memory entry (other &&& 0xf)
  GdtEntry.setBase24_31 memory entry ((base &&& 0xff000000) >>> 24).toUInt8

/-! The table. -/

def gdtBase : Nat := 0x800

/-- The calls of `gdt_init`, for the array at `kgdt`, and the copy of the array. -/
def gdtInit (memory : Memory) (kgdt : Nat) (defaultTss : UInt32) : Memory :=
  let memory := initGdtDescriptor memory 0x0 0x0 0x00 0x00 kgdt
  let memory := initGdtDescriptor memory 0x0 0xFFFFF 0x9B 0x0D (kgdt + 8)
  let memory := initGdtDescriptor memory 0x0 0xFFFFF 0x93 0x0D (kgdt + 16)
  let memory := initGdtDescriptor memory 0x0 0x0 0x97 0x0D (kgdt + 24)
  let memory := initGdtDescriptor memory 0x0 0xFFFFF 0xFF 0x0D (kgdt + 32)
  let memory := initGdtDescriptor memory 0x0 0xFFFFF 0xF3 0x0D (kgdt + 40)
  let memory := initGdtDescriptor memory 0x0 0xFFFFF 0xF7 0x0D (kgdt + 48)
  let memory := initGdtDescriptor memory defaultTss 0x67 0xE9 0x00 (kgdt + 56)
  memory.copyForward gdtBase kgdt 64

/-! Bits of a number. -/

/-- A masked field, shifted down to bit 0. -/
theorem field_toNat (value mask shift : UInt32) {start width : Nat} (starts : shift.toNat = start)
    (small : start < 32) (masks : mask.toNat >>> start = 2 ^ width - 1) (narrow : width ≤ 8) :
    ((value &&& mask) >>> shift).toUInt8.toNat = value.toNat / 2 ^ start % 2 ^ width := by
  have fits : value.toNat / 2 ^ start % 2 ^ width < 256 :=
    Nat.lt_of_lt_of_le (Nat.mod_lt _ (Nat.two_pow_pos width)) (Nat.pow_le_pow_right (by decide) narrow)
  rw [UInt32.toNat_toUInt8, UInt32.toNat_shiftRight, UInt32.toNat_and, starts, Nat.mod_eq_of_lt small,
    Nat.shiftRight_and_distrib, masks, Nat.and_two_pow_sub_one_eq_mod, Nat.shiftRight_eq_div_pow]
  exact Nat.mod_eq_of_lt fits

/-- The two halves of a byte, stored one after the other. -/
theorem halves_toNat (byte low high : UInt8) :
    ((((byte &&& (0xF0 : UInt8)) ||| (low &&& (0x0F : UInt8))) &&& (0x0F : UInt8)) ||| (high <<< (4 : UInt8))).toNat =
      low.toNat % 16 + 16 * (high.toNat % 16) := by
  have kept : ((byte.toNat &&& 240) ||| (low.toNat &&& 15)) &&& 15 = low.toNat % 16 := by
    have masked (value : Nat) : value &&& 15 = value % 2 ^ 4 := Nat.and_two_pow_sub_one_eq_mod value 4
    rw [masked, masked, Nat.or_mod_two_pow, Nat.and_mod_two_pow]
    simp
  have shifted : high.toNat <<< 4 % 256 = (high.toNat % 16) <<< 4 := by
    rw [Nat.shiftLeft_eq, Nat.shiftLeft_eq]
    omega
  have joined := Nat.shiftLeft_add_eq_or_of_lt (show low.toNat % 16 < 2 ^ 4 from Nat.mod_lt _ (by decide))
    (high.toNat % 16)
  rw [UInt8.toNat_or, UInt8.toNat_and, UInt8.toNat_or, UInt8.toNat_and, UInt8.toNat_and, UInt8.toNat_shiftLeft]
  show ((byte.toNat &&& 240) ||| (low.toNat &&& 15)) &&& 15 ||| high.toNat <<< 4 % 256 = _
  rw [kept, shifted, Nat.or_comm, ← joined, Nat.shiftLeft_eq]
  omega

/-- The two bytes of the low half of a word. -/
theorem lowHalf_toNat (value : UInt32) :
    (value &&& 0xffff).toUInt16.toUInt8.toNat = value.toNat % 256 ∧
      ((value &&& 0xffff).toUInt16 >>> 8).toUInt8.toNat = value.toNat / 256 % 256 := by
  have half : (value &&& 0xffff).toUInt16.toNat = value.toNat % 65536 := by
    rw [UInt32.toNat_toUInt16, UInt32.toNat_and]
    show (value.toNat &&& 2 ^ 16 - 1) % 65536 = _
    rw [Nat.and_two_pow_sub_one_eq_mod]
    omega
  constructor
  · rw [UInt16.toNat_toUInt8, half]
    omega
  · rw [UInt16.toNat_toUInt8, UInt16.toNat_shiftRight, half]
    show (value.toNat % 65536) >>> 8 % 256 = _
    rw [Nat.shiftRight_eq_div_pow]
    omega

/-! An entry. -/

section Entry

variable (memory : Memory) (base limite : UInt32) (acces other : UInt8) (entry : Nat)

/-- The stores, byte by byte. -/
theorem initGdtDescriptor_eq : initGdtDescriptor memory base limite acces other entry =
    ((((((((memory.storeByte entry (limite &&& 0xffff).toUInt16.toUInt8).storeByte
      (entry + 1) ((limite &&& 0xffff).toUInt16 >>> 8).toUInt8).storeByte
      (entry + 2) (base &&& 0xffff).toUInt16.toUInt8).storeByte
      (entry + 3) ((base &&& 0xffff).toUInt16 >>> 8).toUInt8).storeByte
      (entry + 4) ((base &&& 0xff0000) >>> 16).toUInt8).storeByte (entry + 5) acces |>
      fun memory => GdtEntry.setLim16_19 memory entry ((limite &&& 0xf0000) >>> 16).toUInt8) |>
      fun memory => GdtEntry.setOther memory entry (other &&& 0xf)).storeByte
      (entry + 7) ((base &&& 0xff000000) >>> 24).toUInt8) := rfl

private theorem initGdtDescriptor_of_outside {place : Nat} (outside : place < entry ∨ entry + 8 ≤ place) :
    initGdtDescriptor memory base limite acces other entry place = memory place := by
  rw [initGdtDescriptor_eq]
  unfold GdtEntry.setLim16_19 GdtEntry.setOther
  simp (disch := omega) only [Memory.storeByte_of_ne]

/-- The bytes of the entry, whatever it held before. -/
theorem initGdtDescriptor_bytes :
    let after := initGdtDescriptor memory base limite acces other entry
    (after entry).toNat = limite.toNat % 256 ∧ (after (entry + 1)).toNat = limite.toNat / 256 % 256 ∧
      (after (entry + 2)).toNat = base.toNat % 256 ∧ (after (entry + 3)).toNat = base.toNat / 256 % 256 ∧
      (after (entry + 4)).toNat = base.toNat / 65536 % 256 ∧ after (entry + 5) = acces ∧
      (after (entry + 6)).toNat = limite.toNat / 65536 % 16 + 16 * (other.toNat % 16) ∧
      (after (entry + 7)).toNat = base.toNat / 16777216 % 256 := by
  have limLow := lowHalf_toNat limite
  have baseLow := lowHalf_toNat base
  have limHigh := @field_toNat limite 0xf0000 16 16 4 rfl (by decide) rfl (by decide)
  have baseThird := @field_toNat base 0xff0000 16 16 8 rfl (by decide) rfl (by decide)
  have baseHigh := @field_toNat base 0xff000000 24 24 8 rfl (by decide) rfl (by decide)
  have otherLow : (other &&& 0xf).toNat = other.toNat % 16 := by
    rw [UInt8.toNat_and]
    exact Nat.and_two_pow_sub_one_eq_mod other.toNat 4
  have halves := halves_toNat (memory (entry + 6)) ((limite &&& 0xf0000) >>> 16).toUInt8 (other &&& 0xf)
  rw [initGdtDescriptor_eq]
  unfold GdtEntry.setLim16_19 GdtEntry.setOther
  simp (disch := omega) only [Memory.storeByte_self, Memory.storeByte_of_ne]
  refine ⟨limLow.1, limLow.2, baseLow.1, baseLow.2, baseThird, trivial, ?_, baseHigh⟩
  rw [halves, limHigh, otherLow]
  omega

/-- The entry decodes to the arguments, as far as their fields hold them. -/
theorem decode_initGdtDescriptor (descriptor : SegmentDescriptor) :
    SegmentDescriptor.decode (initGdtDescriptor memory descriptor.base descriptor.limit descriptor.access
      descriptor.flags entry) entry = descriptor := by
  obtain ⟨lim0, lim1, base0, base1, base2, access, half, base3⟩ :=
    initGdtDescriptor_bytes memory descriptor.base descriptor.limit descriptor.access descriptor.flags entry
  have limitSmall := descriptor.limit_lt
  have flagsSmall := descriptor.flags_lt
  have baseSmall := descriptor.base.toNat_lt
  ext1
  · rw [← UInt32.toNat_inj]
    simp only [SegmentDescriptor.decode, UInt32.toNat_ofNat', base0, base1, base2, base3]
    omega
  · rw [← UInt32.toNat_inj]
    simp only [SegmentDescriptor.decode, UInt32.toNat_ofNat', lim0, lim1, half]
    omega
  · exact access
  · rw [← UInt8.toNat_inj]
    simp only [SegmentDescriptor.decode, UInt8.toNat_ofNat', half]
    omega

theorem decode_initGdtDescriptor_of_outside {place : Nat} (apart : place + 8 ≤ entry ∨ entry + 8 ≤ place) :
    SegmentDescriptor.decode (initGdtDescriptor memory base limite acces other entry) place =
      SegmentDescriptor.decode memory place :=
  SegmentDescriptor.decode_congr fun _ _ => initGdtDescriptor_of_outside _ _ _ _ _ _ (by omega)

end Entry

/-- Whatever the entry held before, its eight bytes decode to the descriptor, and nothing else
is stored; so two descriptors never share their eight bytes. -/
theorem gdt_descriptor_round_trip (memory : Memory) (entry : Nat) (descriptor : SegmentDescriptor) :
    let after := initGdtDescriptor memory descriptor.base descriptor.limit descriptor.access descriptor.flags entry
    SegmentDescriptor.decode after entry = descriptor ∧
      (∀ place, place < entry ∨ entry + 8 ≤ place → after place = memory place) ∧
      ∀ other changed, (∀ index, index < 8 → initGdtDescriptor changed other.base other.limit other.access
        other.flags entry (entry + index) = after (entry + index)) → other = descriptor := by
  intro after
  have decoded := decode_initGdtDescriptor memory entry descriptor
  refine ⟨decoded, fun place outside => initGdtDescriptor_of_outside _ _ _ _ _ _ outside, ?_⟩
  intro other changed same
  calc other = SegmentDescriptor.decode (initGdtDescriptor changed other.base other.limit other.access
          other.flags entry) entry := (decode_initGdtDescriptor changed entry other).symm
    _ = SegmentDescriptor.decode after entry := SegmentDescriptor.decode_congr same
    _ = descriptor := decoded

end ShedKernel.Cpu
