import ShedKernel.Cpu.IdtProperties
import ShedKernel.Cpu.Segments
import ShedKernel.Foundation.Interleaving
import ShedKernel.Foundation.X86Interrupt

/-! `kbd_handler` and `timer_handler` of `boot.asm`, and what a program sees of the interrupts
that come between its instructions: nothing. -/

set_option autoImplicit false

namespace ShedKernel.Cpu

open Foundation Foundation.X86

inductive Irq where
  | timer
  | keyboard

def Irq.vector : Irq → UInt8
  | .timer => 0x20
  | .keyboard => 0x21

def Irq.gate (image : HandlerImage) : Irq → InterruptGate
  | .timer => timerGate image
  | .keyboard => keyboardGate image

theorem Irq.gate_installed (image : HandlerImage) (irq : Irq) : gates image irq.vector = some (irq.gate image) := by
  cases irq <;> rfl

/-- A segment through which a C function reaches all of memory: no null selector, base 0, and a
writable data segment of 4 GiB. -/
structure FlatData (segment : Segment) : Prop where
  loaded : 4 ≤ segment.selector.toNat
  base : segment.descriptor.base = 0
  writable : segment.descriptor.access.toNat / 8 % 2 = 0 ∧ segment.descriptor.access.toNat / 2 % 2 = 1
  reaches : ∀ offset size, segment.descriptor.Reaches offset size ↔ offset + size ≤ 4294967296

/-- What is relied on of the compiled C functions `timer_callback` and `kbd_handler_main`, given
by what `handler` leaves when it returns: called with their variables `sound`, flat segments in
`ds` and `es` and `cost` bytes of stack above `low`, they return and have written nothing but
the bytes that `own` tells, their variables, and the stack from `low` on. -/
structure HandlersReturn (handler : Irq → Machine → Machine) (own : Nat → Bool) (sound : Memory → Prop) (cost : Nat) :
    Prop where
  sound_congr : ∀ memory changed, (∀ place, own place = true → changed place = memory place) →
    sound memory → sound changed
  returns : ∀ irq entry low stackEnd, sound entry.memory → FlatData entry.ds → FlatData entry.es →
    low + cost ≤ entry.esp.toNat →
    (∀ place, own place = true → place < entry.esp.toNat ∨ stackEnd ≤ place) →
    QuietReturn entry (handler irq entry) own low stackEnd

/-- When an interrupt goes well: the handler finds room on its stack, its variables are in order
and not on that stack, and since it reloads no segment register, `ds` and `es` hold flat data
segments, which the interrupted ring may keep. -/
structure Interruptible (own : Nat → Bool) (sound : Memory → Prop) (low cost : Nat) (machine : Machine) : Prop where
  room : low + cost + 56 ≤ machine.innerTop defaultTss
  ordered : sound machine.memory
  apart : ∀ place, own place = true →
    place < machine.innerTop defaultTss - 56 ∨ machine.innerTop defaultTss ≤ place
  segments : machine.KeptSegments
  ds : FlatData machine.ds
  es : FlatData machine.es

/-- What a program may look at: not the variables of the handlers, and not the stack below its
own part of it; in ring 3 that is the whole kernel stack. -/
def Unseen (own : Nat → Bool) (low : Nat) (machine : Machine) (place : Nat) : Prop :=
  own place = true ∨ (low ≤ place ∧ place < machine.innerTop defaultTss)

instance (own : Nat → Bool) (low : Nat) (machine : Machine) (place : Nat) :
    Decidable (Unseen own low machine place) := inferInstanceAs (Decidable (_ ∨ _))

def seen (own : Nat → Bool) (low : Nat) (machine : Machine) : Machine :=
  { machine with memory := fun place => if Unseen own low machine place then 0 else machine.memory place }

/-- The same registers, and the same memory as far as a program may look at it. -/
structure LooksLike (own : Nat → Bool) (low : Nat) (machine other : Machine) : Prop where
  registers : other = { machine with memory := other.memory }
  memory : ∀ place, ¬Unseen own low machine place → other.memory place = machine.memory place

section

variable {own : Nat → Bool} {low : Nat} {machine other : Machine}

theorem LooksLike.seen (like : LooksLike own low machine other) : seen own low other = seen own low machine := by
  have same := like.memory
  rw [like.registers]
  generalize other.memory = memory at same
  unfold Cpu.seen
  congr 1
  funext place
  by_cases unseen : Unseen own low machine place
  · rw [if_pos unseen]
    exact if_pos unseen
  · rw [if_neg unseen, ← same place unseen]
    exact if_neg unseen

/-- The C function of the handler is called as it has to be, and returns. -/
theorem Interruptible.returned {handler : Irq → Machine → Machine} {sound : Memory → Prop} {cost : Nat}
    (returns : HandlersReturn handler own sound cost) (ready : Interruptible own sound low cost machine)
    (gate : InterruptGate) (function behind : UInt32) (irq : Irq) :
    QuietReturn (machine.served gate defaultTss function behind)
      (handler irq (machine.served gate defaultTss function behind)) own low (machine.innerTop defaultTss) := by
  have room := ready.room
  have place := Machine.served_esp gate function behind (show 56 ≤ machine.innerTop defaultTss by omega)
  have length := Machine.innerFrame_length machine
  have small : 4 * machine.interruptFrame.length ≤ 20 := by
    rw [length]
    split <;> decide
  have memory : ∀ byte, own byte = true →
      (machine.served gate defaultTss function behind).memory byte = machine.memory byte :=
    fun byte owned => Machine.served_memory gate function behind (by omega) (ready.apart byte owned)
  obtain ⟨-, ds, es, -⟩ := @Machine.interrupt_keeps machine gate defaultTss
  have kept := @Machine.serviceEntry_keeps (machine.interrupt gate defaultTss) function behind
  refine returns.returns irq _ low _ (returns.sound_congr _ _ memory ready.ordered) ?_ ?_ ?_ fun byte owned => ?_
  · exact (kept.ds.trans ds).symm ▸ ready.ds
  · exact (kept.es.trans es).symm ▸ ready.es
  · rw [place]
    omega
  · have away := ready.apart byte owned
    rw [place]
    omega

end

/-- A program that made a system call is not interrupted well any more: what is left in its `ds`
is the null selector. -/
theorem not_interruptible_after_syscall {image : KernelImage} {user back : Machine} {own : Nat → Bool}
    {sound : Memory → Prop} {low cost : Nat} (outside : ring user.cs = 3) (table : HasKernelData user.memory)
    (returned : CdeclReturn (dispatched image user) back 4 0x1FFF0) (running : back.read image.exitRequested = 0) :
    ¬Interruptible own sound low cost (syscallReturn image back) := by
  obtain ⟨memory, result⟩ := syscallReturn_spec outside table returned running
  intro ready
  have loaded := ready.ds.loaded
  rw [result] at loaded
  exact absurd (show 4 ≤ (0 : UInt16).toNat from loaded) (by decide)

/-! An example: ring 3 counts in `eax` and is interrupted by a key. -/

end ShedKernel.Cpu
