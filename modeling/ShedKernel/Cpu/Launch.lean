import ShedKernel.Cpu.Segments
import ShedKernel.Foundation.Run

/-! The way to ring 3 and back: `jump_to_userspace`, `jump_to_editor`, `jump_to_shell`, and the
system call that asks for the exit. -/

set_option autoImplicit false

namespace ShedKernel.Cpu

open Foundation Foundation.X86

/-- The stack and the entry that a jump is made with. -/
structure UserProgram where
  stack : UInt32
  entry : UInt32

def userspace : UserProgram := ⟨0xB0000FF0, 0xA0000020⟩

def editor : UserProgram := ⟨0x71000FF0, 0x70000000⟩

def userShell : UserProgram := ⟨0xD0000FF0, 0xC0000000⟩

/-- `mov $0x2B, %ax` and `ax` into the four data segment registers. -/
def loadUserSegments (machine : Machine) : Machine :=
  let machine := machine.movAx 0x2B
  let segment := Segment.load machine.memory gdtBase machine.eax.toUInt16
  { machine with ds := segment, es := segment, fs := segment, gs := segment }

/-- The statements of the three functions; `pushf` pushes the flags as they are. -/
def jumpTo (program : UserProgram) (image : KernelImage) (machine : Machine) : Machine :=
  let machine := machine.write image.kernelEspSave machine.esp
  let machine := loadUserSegments machine
  (machine.pushAll [0x33, program.stack, machine.eflags, 0x23, program.entry]).iretd

def jumpToUserspace : KernelImage → Machine → Machine := jumpTo userspace

def jumpToEditor : KernelImage → Machine → Machine := jumpTo editor

def jumpToShell : KernelImage → Machine → Machine := jumpTo userShell

/-- The kernel's variables and the table, at the places that the following needs them at. -/
structure KernelLayout (image : KernelImage) : Prop where
  kernelEspSave_inside : 0x100000 ≤ image.kernelEspSave.toNat
  apart : image.kernelEspSave.toNat + 4 ≤ image.exitRequested.toNat ∨
    image.exitRequested.toNat + 4 ≤ image.kernelEspSave.toNat

/-- Ring 0 in a C function of the kernel, with a stack between the table and the image. -/
structure InKernel (tss : UInt32) (machine : Machine) : Prop where
  ring : ring machine.cs = 0
  table : HasSegments machine.memory tss
  above : gdtBase + 84 ≤ machine.esp.toNat
  below : machine.esp.toNat ≤ 0x100000

/-! Who runs. -/

/-- The kernel's shell at the first instruction of `lsh_loop`, or a program in ring 3. -/
inductive Session where
  | shell (machine : Machine)
  | program (machine : Machine)

/-- Each depth is how far the C functions on the way to the jump have moved `esp`. -/
inductive SessionEvent where
  | launch (program : UserProgram) (depth : Nat)
  | run
  | execEditor (depth : Nat)
  | exit

/-- The program runs, with system calls that return and interrupts, and stays out of the table
and of the kernel's variable. -/
structure StaysOutside (image : KernelImage) (tss : UInt32) (before after : Machine) : Prop where
  ring : ring after.cs = 3
  table : HasSegments after.memory tss
  saved : after.read image.kernelEspSave = before.read image.kernelEspSave

/-- `syscall_dispatch` returns to the handler and has set `exit_requested`. -/
structure RequestsExit (image : KernelImage) (tss : UInt32) (user back : Machine) : Prop where
  returned : CdeclReturn (dispatched image user) back 4 0x1FFF0
  requested : back.read image.exitRequested ≠ 0
  table : HasSegments back.memory tss
  saved : back.read image.kernelEspSave = user.read image.kernelEspSave

inductive SessionStep (image : KernelImage) (tss : UInt32) : Session → SessionEvent → Session → Prop where
  | launch {entry machine : Machine} (program : UserProgram) {depth : Nat} :
      InKernel tss machine → machine.esp.toNat + depth = entry.esp.toNat →
      SessionStep image tss (.shell entry) (.launch program depth) (.program (jumpTo program image machine))
  | run {before after : Machine} :
      StaysOutside image tss before after → SessionStep image tss (.program before) .run (.program after)
  | execEditor {user machine : Machine} {depth : Nat} :
      InKernel tss machine → machine.esp.toNat + depth = (dispatched image user).esp.toNat →
      SessionStep image tss (.program user) (.execEditor depth) (.program (jumpToEditor image machine))
  | exit {user back : Machine} :
      RequestsExit image tss user back →
      SessionStep image tss (.program user) .exit (.shell (syscallReturn image back))

/-- Where the kernel's stack pointer is, or has been saved, after one more event. -/
def SessionEvent.stackTop (top : Nat) : SessionEvent → Nat
  | .launch _ depth => top - depth
  | .run => top
  | .execEditor depth => 0x1FFF0 - 72 - depth
  | .exit => top - 4

/-- The bytes of stack that an event takes for good. -/
def SessionEvent.spent : SessionEvent → Nat
  | .launch _ depth => depth
  | .exit => 4
  | _ => 0

/-- The event ends with the jump to the program. -/
inductive SessionEvent.Jumps : SessionEvent → UserProgram → Prop where
  | launch (program : UserProgram) (depth : Nat) : Jumps (.launch program depth) program
  | execEditor (depth : Nat) : Jumps (.execEditor depth) editor

def SessionEvent.IsExecEditor : SessionEvent → Prop
  | .execEditor _ => True
  | _ => False

end ShedKernel.Cpu
