import ShedKernel.Foundation.X86String

/-! `_start` of `boot.asm`, up to the first instruction of `kernel_main`, and what `kernel_main`
then reads of the boot loader's information. -/

set_option autoImplicit false

namespace ShedKernel.Cpu

open Foundation Foundation.X86

/-- Where the linker put the zeroed variables, above 1 MiB. -/
structure BssImage where
  bssStart : UInt32
  bssEnd : UInt32
  kernelMain : UInt32
  behindKernelMain : UInt32
  ordered : bssStart.toNat ≤ bssEnd.toNat
  above : 0x100000 ≤ bssStart.toNat

def BssImage.size (image : BssImage) : Nat := image.bssEnd.toNat - image.bssStart.toNat

/-- `cli` and the stack. The flags that arithmetic sets are not followed. -/
def startStack (machine : Machine) : Machine :=
  { machine with eflags := machine.eflags &&& ~~~0x200, esp := 0x90000 }

def pushArguments (machine : Machine) : Machine := (startStack machine).pushAll [machine.ebx, machine.eax]

/-- `edi`, `ecx` and `eax` for `rep stosd`. -/
def loadBss (image : BssImage) (machine : Machine) : Machine :=
  let machine := { machine with edi := image.bssStart }
  let machine := { machine with ecx := image.bssEnd }
  let machine := { machine with ecx := machine.ecx - machine.edi }
  { machine with eax := machine.eax ^^^ machine.eax }

def start (image : BssImage) (machine : Machine) : Machine :=
  (loadBss image (pushArguments machine)).repStosd.call image.kernelMain image.behindKernelMain

/-! The framebuffer of `multiboot_info_t`. -/

structure FramebufferInfo where
  fbPhysAddr : Nat
  fbPitch : Nat
  fbWidth : Nat
  fbHeight : Nat
  fbBpp : Nat
  deriving DecidableEq

/-- The variables as they begin. -/
def noFramebuffer : FramebufferInfo := ⟨0, 0, 0, 0, 0⟩

def multibootSize : Nat := 110

/-- The first statements of `kernel_main`: bit 12 of the flags tells that the fields are there,
and of the 64-bit address the low half is taken. -/
def parseFramebuffer (memory : Memory) (mb : Nat) : FramebufferInfo :=
  if mb ≠ 0 ∧ memory.load32 mb / 4096 % 2 = 1 then
    { fbPhysAddr := memory.load32 (mb + 88)
      fbPitch := memory.load32 (mb + 96)
      fbWidth := memory.load32 (mb + 100)
      fbHeight := memory.load32 (mb + 104)
      fbBpp := (memory (mb + 108)).toNat }
  else noFramebuffer

end ShedKernel.Cpu
