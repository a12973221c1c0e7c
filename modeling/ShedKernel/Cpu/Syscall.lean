import ShedKernel.Cpu.Gdt
import ShedKernel.Foundation.X86

/-! `syscall_handler` of `boot.asm`, from `int 0x80` to its `iretd`, around a
`syscall_dispatch` that is only known to be a C function. `iretd` brings back the flags,
so those that the handler's instructions set on the way are not followed. -/

set_option autoImplicit false

namespace ShedKernel.Cpu

open Foundation Foundation.X86

/-! The handler. -/

/-- Where the linker put things; the image begins at 1 MiB. -/
structure KernelImage where
  syscallHandler : UInt32
  syscallDispatch : UInt32
  behindDispatch : UInt32
  lshLoop : UInt32
  behindLoop : UInt32
  exitRequested : UInt32
  kernelEspSave : UInt32
  exitRequested_inside : 0x100000 ≤ exitRequested.toNat

/-- `default_tss` -/
def defaultTss : InnerStack := ⟨0x10, 0x1FFF0⟩

/-- `IDT[0x80]`: `type_attr` 0xEF is a trap gate that ring 3 may use. -/
def syscallGate (image : KernelImage) : TrapGate := ⟨0x08, image.syscallHandler⟩

/-- `int 0x80`, an instruction of two bytes. -/
def int80 (image : KernelImage) (machine : Machine) : Machine :=
  { machine with eip := machine.eip + 2 }.trapInward (syscallGate image) defaultTss

/-- `mov ax, 0x10` and `ax` into the four data segment registers. -/
def loadDataSegments (machine : Machine) : Machine :=
  let machine := machine.movAx 0x10
  let segment := Segment.load machine.memory gdtBase machine.eax.toUInt16
  { machine with ds := segment, es := segment, fs := segment, gs := segment }

/-- From `push eax` to `pop eax`. -/
def enterSegments (machine : Machine) : Machine :=
  let machine := loadDataSegments (machine.push machine.eax)
  { machine.drop with eax := machine.top }

/-- The four words read from the frame of `pusha`. -/
def takeArguments (machine : Machine) : Machine :=
  let machine := { machine with eax := machine.read (machine.esp + 28) }
  let machine := { machine with ebx := machine.read (machine.esp + 16) }
  let machine := { machine with ecx := machine.read (machine.esp + 24) }
  { machine with edx := machine.read (machine.esp + 20) }

/-- `syscall_handler` up to the first instruction of `syscall_dispatch`. -/
def syscallEntry (image : KernelImage) (machine : Machine) : Machine :=
  let machine := takeArguments (enterSegments machine).pusha
  let machine := machine.pushAll [machine.edx, machine.ecx, machine.ebx, machine.eax]
  machine.call image.syscallDispatch image.behindDispatch

/-- `.do_exit`, up to the first instruction of `lsh_loop`. -/
def doExit (image : KernelImage) (machine : Machine) : Machine :=
  let machine := loadDataSegments (machine.write image.exitRequested 0)
  let machine := { machine with esp := machine.read image.kernelEspSave }
  machine.call image.lshLoop image.behindLoop

/-- `add esp, 16` and the result into the frame of `pusha`. -/
def plantResult (machine : Machine) : Machine :=
  let machine := machine.addEsp 16
  machine.write (machine.esp + 28) machine.eax

def testExitRequested (image : KernelImage) (machine : Machine) : Machine :=
  let machine := { machine with eax := machine.read image.exitRequested }
  if machine.eax ≠ 0 then doExit image machine else machine.popa.iretd

/-- `syscall_handler` from where `syscall_dispatch` returns to. -/
def syscallReturn (image : KernelImage) (machine : Machine) : Machine :=
  testExitRequested image (plantResult machine)

/-- The machine as `syscall_dispatch` finds it. -/
def dispatched (image : KernelImage) (user : Machine) : Machine := syscallEntry image (int80 image user)

/-- A whole system call. A `dispatch` without a result does not return. -/
def syscall (image : KernelImage) (dispatch : Machine → Option Machine) (user : Machine) : Option Machine :=
  (dispatch (dispatched image user)).map (syscallReturn image)

end ShedKernel.Cpu
