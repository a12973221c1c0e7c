import ShedKernel.Foundation.InterruptGate
import ShedKernel.Foundation.X86

/-! Interrupts of devices on the x86: the way in through an interrupt gate from any ring, a
service routine around a C function, and what is left of it when the routine returns. -/

set_option autoImplicit false

namespace ShedKernel.Foundation.X86

/-- What an interrupt gate clears: IF beside the flags that a trap gate clears. -/
def interruptClears : UInt32 := trapClears ||| 0x200

namespace Machine

/-- The address below which the processor and ring 0 push. -/
def innerTop (machine : Machine) (stack : InnerStack) : Nat :=
  if 0 < ring machine.cs then stack.esp0.toNat else machine.esp.toNat

/-- From a ring further out the processor changes to the inner stack first. -/
def enterStack (machine : Machine) (stack : InnerStack) : Machine :=
  if 0 < ring machine.cs then
    { machine with ss := stack.ss0, esp := stack.esp0 }.pushAll [machine.ss.toUInt32, machine.esp]
  else machine

/-- An interrupt through an interrupt gate into ring 0. -/
def interrupt (machine : Machine) (gate : InterruptGate) (stack : InnerStack) : Machine :=
  let inner := (machine.enterStack stack).pushAll [machine.eflags, machine.cs.toUInt32, machine.eip]
  { inner with cs := gate.selector, eip := gate.offset, eflags := machine.eflags &&& ~~~interruptClears }

/-- `pusha` and `call function`. -/
def serviceEntry (machine : Machine) (function behind : UInt32) : Machine := machine.pusha.call function behind

/-- The words that the processor pushes. -/
def interruptFrame (machine : Machine) : List UInt32 :=
  [machine.eip, machine.cs.toUInt32, machine.eflags] ++
    if 0 < ring machine.cs then [machine.esp, machine.ss.toUInt32] else []

/-- The data segments may be kept in the machine's ring. -/
structure KeptSegments (machine : Machine) : Prop where
  ds : machine.ds.outward (ring machine.cs) = machine.ds
  es : machine.es.outward (ring machine.cs) = machine.es
  fs : machine.fs.outward (ring machine.cs) = machine.fs
  gs : machine.gs.outward (ring machine.cs) = machine.gs

section

variable {machine : Machine} (gate : InterruptGate) {stack : InnerStack}

theorem enterStack_esp (room : 8 ≤ machine.innerTop stack) : (machine.enterStack stack).esp.toNat =
    machine.innerTop stack - if 0 < ring machine.cs then 8 else 0 := by
  unfold innerTop at room ⊢
  unfold enterStack
  split
  · next outer =>
      rw [if_pos outer] at room
      exact @pushAll_esp { machine with ss := stack.ss0, esp := stack.esp0 } [machine.ss.toUInt32, machine.esp] room
  · rfl

theorem enterStack_memory (room : 8 ≤ machine.innerTop stack) {other : Nat}
    (outside : other < machine.innerTop stack - 8 ∨ machine.innerTop stack ≤ other) :
    (machine.enterStack stack).memory other = machine.memory other := by
  unfold innerTop at room outside
  unfold enterStack
  split
  · next outer =>
      rw [if_pos outer] at room outside
      exact @pushAll_memory_of_outside { machine with ss := stack.ss0, esp := stack.esp0 }
        [machine.ss.toUInt32, machine.esp] room other outside
  · rfl

theorem enterStack_keeps : machine.KeepsGeneral (machine.enterStack stack) ∧
    (machine.enterStack stack).ds = machine.ds ∧ (machine.enterStack stack).es = machine.es ∧
      (machine.enterStack stack).fs = machine.fs ∧ (machine.enterStack stack).gs = machine.gs ∧
      (machine.enterStack stack).ss = if 0 < ring machine.cs then stack.ss0 else machine.ss := by
  unfold enterStack
  split
  · have kept := ({ machine with ss := stack.ss0, esp := stack.esp0 } : Machine).pushAll_keeps
      [machine.ss.toUInt32, machine.esp]
    exact ⟨{ kept.toKeepsGeneral with }, kept.ds, kept.es, kept.fs, kept.gs, kept.ss⟩
  · exact ⟨(Keeps.refl machine).toKeepsGeneral, rfl, rfl, rfl, rfl, rfl⟩

theorem innerFrame_length (machine : Machine) :
    4 * machine.interruptFrame.length = 12 + if 0 < ring machine.cs then 8 else 0 := by
  unfold interruptFrame
  split <;> rfl

theorem interrupt_esp (room : 20 ≤ machine.innerTop stack) : (machine.interrupt gate stack).esp.toNat =
    machine.innerTop stack - 4 * machine.interruptFrame.length := by
  have entered := @enterStack_esp machine stack (by omega)
  have pushed := @pushAll_esp (machine.enterStack stack) [machine.eflags, machine.cs.toUInt32, machine.eip] (by
    rw [entered]
    simp only [List.length_cons, List.length_nil]
    split <;> omega)
  refine pushed.trans ?_
  rw [entered, innerFrame_length]
  simp only [List.length_cons, List.length_nil]
  omega

theorem interrupt_memory (room : 20 ≤ machine.innerTop stack) {other : Nat}
    (outside : other < machine.innerTop stack - 20 ∨ machine.innerTop stack ≤ other) :
    (machine.interrupt gate stack).memory other = machine.memory other := by
  have entered := @enterStack_esp machine stack (by omega)
  have fits : 12 ≤ (machine.enterStack stack).esp.toNat ∧
      machine.innerTop stack - 8 ≤ (machine.enterStack stack).esp.toNat ∧
        (machine.enterStack stack).esp.toNat ≤ machine.innerTop stack := by
    rw [entered]
    split <;> omega
  calc (machine.interrupt gate stack).memory other
      = (machine.enterStack stack).memory other :=
        pushAll_memory_of_outside [machine.eflags, machine.cs.toUInt32, machine.eip] fits.1
          (by simp only [List.length_cons, List.length_nil]; omega)
    _ = machine.memory other := enterStack_memory (by omega) (by omega)

theorem interrupt_keeps : machine.KeepsGeneral (machine.interrupt gate stack) ∧
    (machine.interrupt gate stack).ds = machine.ds ∧ (machine.interrupt gate stack).es = machine.es ∧
      (machine.interrupt gate stack).fs = machine.fs ∧ (machine.interrupt gate stack).gs = machine.gs ∧
      (machine.interrupt gate stack).ss = if 0 < ring machine.cs then stack.ss0 else machine.ss := by
  obtain ⟨general, ds, es, fs, gs, ss⟩ := @enterStack_keeps machine stack
  have pushed := (machine.enterStack stack).pushAll_keeps [machine.eflags, machine.cs.toUInt32, machine.eip]
  refine ⟨?_, pushed.ds.trans ds, pushed.es.trans es, pushed.fs.trans fs, pushed.gs.trans gs, pushed.ss.trans ss⟩
  exact {
    eax := pushed.eax.trans general.eax
    ecx := pushed.ecx.trans general.ecx
    edx := pushed.edx.trans general.edx
    ebx := pushed.ebx.trans general.ebx
    ebp := pushed.ebp.trans general.ebp
    esi := pushed.esi.trans general.esi
    edi := pushed.edi.trans general.edi }

theorem serviceEntry_esp (room : 36 ≤ machine.esp.toNat) (function behind : UInt32) :
    (machine.serviceEntry function behind).esp.toNat = machine.esp.toNat - 36 := by
  have below := @pusha_esp machine (by omega)
  rw [serviceEntry, call_esp (by omega), below]
  omega

theorem serviceEntry_memory (room : 36 ≤ machine.esp.toNat) (function behind : UInt32) {other : Nat}
    (outside : other < machine.esp.toNat - 36 ∨ machine.esp.toNat ≤ other) :
    (machine.serviceEntry function behind).memory other = machine.memory other := by
  have below := @pusha_esp machine (by omega)
  have pushed : machine.pusha.memory other = machine.memory other := by
    refine pushAll_memory_of_outside [machine.eax, machine.ecx, machine.edx, machine.ebx, machine.esp, machine.ebp,
      machine.esi, machine.edi] ?_ ?_ <;> simp only [List.length_cons, List.length_nil] <;> omega
  rw [serviceEntry, ← pushed]
  generalize machine.pusha = saved at below ⊢
  exact @push_memory_of_outside saved behind other (by omega) (by omega)

theorem serviceEntry_keeps (function behind : UInt32) : machine.Keeps (machine.serviceEntry function behind) :=
  (pusha_keeps machine).trans (call_keeps machine.pusha function behind)

/-- The machine as the C function of the service routine finds it. -/
def served (machine : Machine) (gate : InterruptGate) (stack : InnerStack) (function behind : UInt32) : Machine :=
  (machine.interrupt gate stack).serviceEntry function behind

section

variable (function behind : UInt32)

theorem interrupt_room (room : 56 ≤ machine.innerTop stack) : 36 ≤ (machine.interrupt gate stack).esp.toNat ∧
    machine.innerTop stack - 20 ≤ (machine.interrupt gate stack).esp.toNat ∧
      (machine.interrupt gate stack).esp.toNat ≤ machine.innerTop stack := by
  rw [interrupt_esp gate (by omega), innerFrame_length machine]
  split <;> omega

theorem served_esp (room : 56 ≤ machine.innerTop stack) : (machine.served gate stack function behind).esp.toNat =
    machine.innerTop stack - (36 + 4 * machine.interruptFrame.length) := by
  rw [served, serviceEntry_esp (interrupt_room gate room).1, interrupt_esp gate (by omega)]
  omega

theorem served_memory (room : 56 ≤ machine.innerTop stack) {other : Nat}
    (outside : other < machine.innerTop stack - 56 ∨ machine.innerTop stack ≤ other) :
    (machine.served gate stack function behind).memory other = machine.memory other := by
  have bounds := interrupt_room gate room
  exact (serviceEntry_memory bounds.1 function behind (by omega)).trans (interrupt_memory gate (by omega) (by omega))

end

section Exit

variable {back : Machine} {function behind : UInt32}

end Exit

end

end Machine

/-- A C function without arguments returned, having written its own variables and the stack from
`low` on below its frame. -/
structure QuietReturn (entry exit : Machine) (own : Nat → Bool) (low stackEnd : Nat) : Prop
    extends CdeclReturn entry exit 0 stackEnd where
  memory : ∀ other, own other = false → other < low ∨ entry.esp.toNat ≤ other →
    exit.memory other = entry.memory other

end ShedKernel.Foundation.X86
