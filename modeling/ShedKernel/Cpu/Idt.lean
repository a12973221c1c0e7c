import ShedKernel.Cpu.SyscallProperties
import ShedKernel.Foundation.InterruptGate

/-! The interrupt table of `kernel.c`: the entries that `idt_init` fills in, the operand that
it makes for `lidt`, and the gates that the processor then finds. -/

set_option autoImplicit false

namespace ShedKernel.Cpu

open Foundation Foundation.X86

/-- Where the linker put the other two handlers, what they call, and the table. -/
structure HandlerImage extends KernelImage where
  kbdHandler : UInt32
  kbdHandlerMain : UInt32
  behindKbdHandlerMain : UInt32
  timerHandler : UInt32
  timerCallback : UInt32
  behindTimerCallback : UInt32
  idt : UInt32
  handlers_apart : kbdHandler ≠ timerHandler
  idt_inside : idt.toNat + 2048 < 4294967296

/-! The table in memory. -/

namespace IdtEntry

def setOffsetLowerbits (memory : Memory) (entry : Nat) (value : UInt16) : Memory := memory.store16 entry value

def setSelector (memory : Memory) (entry : Nat) (value : UInt16) : Memory := memory.store16 (entry + 2) value

def setZero (memory : Memory) (entry : Nat) (value : UInt8) : Memory := memory.storeByte (entry + 4) value

def setTypeAttr (memory : Memory) (entry : Nat) (value : UInt8) : Memory := memory.storeByte (entry + 5) value

def setOffsetHigherbits (memory : Memory) (entry : Nat) (value : UInt16) : Memory :=
  memory.store16 (entry + 6) value

/-- The five assignments to an entry. -/
def assign (memory : Memory) (entry : Nat) (offsetLowerbits selector : UInt16) (zero typeAttr : UInt8)
    (offsetHigherbits : UInt16) : Memory :=
  let memory := setOffsetLowerbits memory entry offsetLowerbits
  let memory := setSelector memory entry selector
  let memory := setZero memory entry zero
  let memory := setTypeAttr memory entry typeAttr
  setOffsetHigherbits memory entry offsetHigherbits

end IdtEntry

def idtSize : Nat := 256

def interruptGate : UInt8 := 0x8e

def kernelCodeSegmentOffset : UInt16 := 0x08

/-- The assignments of `idt_init` to `IDT`. -/
def fillIdt (image : HandlerImage) (memory : Memory) : Memory :=
  let idt := image.idt.toNat
  let keyboardAddress := image.kbdHandler
  let memory := IdtEntry.assign memory (idt + 8 * 0x21) (keyboardAddress &&& 0xffff).toUInt16
    kernelCodeSegmentOffset 0 interruptGate ((keyboardAddress &&& 0xffff0000) >>> 16).toUInt16
  let timerAddress := image.timerHandler
  let memory := IdtEntry.assign memory (idt + 8 * 0x20) (timerAddress &&& 0xffff).toUInt16
    kernelCodeSegmentOffset 0 interruptGate (timerAddress >>> 16).toUInt16
  IdtEntry.assign memory (idt + 8 * 0x80) (image.syscallHandler &&& 0xffff).toUInt16
    kernelCodeSegmentOffset 0 0xEF (image.syscallHandler >>> 16).toUInt16

/-- The two words of `idt_ptr`, an array on the stack. -/
def fillIdtPtr (image : HandlerImage) (memory : Memory) (idtPtr : Nat) : Memory :=
  let idtAddress := image.idt
  let memory := memory.store32 idtPtr
    (UInt32.ofNat (8 * idtSize) + ((idtAddress &&& 0xffff) <<< 16)).toNat
  memory.store32 (idtPtr + 4) (idtAddress >>> 16).toNat

/-- Memory when `idt_init` calls `load_idt`. -/
def idtInit (image : HandlerImage) (memory : Memory) (idtPtr : Nat) : Memory :=
  fillIdtPtr image (fillIdt image memory) idtPtr

/-! An entry. -/

theorem highHalf_toNat (value : UInt32) : (value >>> 16).toUInt16.toNat = value.toNat / 65536 ∧
    ((value &&& 0xffff0000) >>> 16).toUInt16.toNat = value.toNat / 65536 := by
  have small := value.toNat_lt
  have half : value.toNat / 65536 < 65536 := by omega
  constructor
  · rw [UInt32.toNat_toUInt16, UInt32.toNat_shiftRight]
    show value.toNat >>> 16 % 65536 = _
    rw [Nat.shiftRight_eq_div_pow]
    exact Nat.mod_eq_of_lt half
  · rw [UInt32.toNat_toUInt16, UInt32.toNat_shiftRight, UInt32.toNat_and]
    show (value.toNat &&& 4294901760) >>> 16 % 65536 = _
    rw [Nat.shiftRight_and_distrib]
    show (value.toNat >>> 16 &&& 2 ^ 16 - 1) % 65536 = _
    rw [Nat.and_two_pow_sub_one_eq_mod, Nat.shiftRight_eq_div_pow]
    omega

section Entry

variable (memory : Memory) (entry : Nat) (lower selector : UInt16) (zero attributes : UInt8) (higher : UInt16)

theorem IdtEntry.assign_of_outside {place : Nat} (outside : place < entry ∨ entry + 8 ≤ place) :
    IdtEntry.assign memory entry lower selector zero attributes higher place = memory place := by
  unfold IdtEntry.assign IdtEntry.setOffsetLowerbits IdtEntry.setSelector IdtEntry.setZero IdtEntry.setTypeAttr
    IdtEntry.setOffsetHigherbits Memory.store16
  simp (disch := omega) only [Memory.storeByte_of_ne]

theorem IdtEntry.decode_assign (address : UInt32) (low : lower.toNat = address.toNat % 65536)
    (high : higher.toNat = address.toNat / 65536) :
    InterruptGate.decode (IdtEntry.assign memory entry lower selector zero attributes higher) entry =
      ⟨address, selector, attributes⟩ := by
  have halves (value : UInt16) : value.toUInt8.toNat = value.toNat % 256 ∧
      (value >>> 8).toUInt8.toNat = value.toNat / 256 := by
    have small := value.toNat_lt
    constructor
    · exact UInt16.toNat_toUInt8 value
    · rw [UInt16.toNat_toUInt8, UInt16.toNat_shiftRight]
      show value.toNat >>> 8 % 256 = _
      rw [Nat.shiftRight_eq_div_pow]
      omega
  have lowHalves := halves lower
  have selectorHalves := halves selector
  have highHalves := halves higher
  have addressSmall := address.toNat_lt
  have selectorSmall := selector.toNat_lt
  unfold IdtEntry.assign IdtEntry.setOffsetLowerbits IdtEntry.setSelector IdtEntry.setZero IdtEntry.setTypeAttr
    IdtEntry.setOffsetHigherbits Memory.store16
  ext1
  · rw [← UInt32.toNat_inj]
    simp (disch := omega) only [InterruptGate.decode, Memory.storeByte_self, Memory.storeByte_of_ne,
      UInt32.toNat_ofNat', lowHalves, highHalves]
    omega
  · rw [← UInt16.toNat_inj]
    simp (disch := omega) only [InterruptGate.decode, Memory.storeByte_self, Memory.storeByte_of_ne,
      UInt16.toNat_ofNat', selectorHalves]
    omega
  · simp (disch := omega) only [InterruptGate.decode, Memory.storeByte_self, Memory.storeByte_of_ne]

end Entry

end ShedKernel.Cpu
