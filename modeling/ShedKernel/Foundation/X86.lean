import ShedKernel.Foundation.SegmentDescriptor

/-! The 32-bit x86 as far as interrupts and the stack go: the registers, pushes and pops,
entering ring 0 through a trap gate and leaving it with `iretd`. Memory is addressed
linearly, as flat segments and an identity mapping make it. No instruction faults. -/

set_option autoImplicit false

namespace ShedKernel.Foundation.X86

/-- A data segment register with its hidden part. -/
structure Segment where
  selector : UInt16
  descriptor : SegmentDescriptor

/-- `eip` is the address of the next instruction. -/
structure Machine where
  eax : UInt32
  ecx : UInt32
  edx : UInt32
  ebx : UInt32
  esp : UInt32
  ebp : UInt32
  esi : UInt32
  edi : UInt32
  eip : UInt32
  eflags : UInt32
  cs : UInt16
  ss : UInt16
  ds : Segment
  es : Segment
  fs : Segment
  gs : Segment
  memory : Memory

structure TrapGate where
  selector : UInt16
  offset : UInt32

/-- The stack that ring 0 is entered with. -/
structure InnerStack where
  ss0 : UInt16
  esp0 : UInt32

/-- The privilege level of a code selector; 0 is the innermost. -/
def ring (selector : UInt16) : Nat := selector.toNat % 4

/-- TF, NT, RF and VM, which a trap gate clears. -/
def trapClears : UInt32 := 0x00034100

namespace Segment

/-- The selector's entry in the table at `gdt`. -/
def load (memory : Memory) (gdt : Nat) (selector : UInt16) : Segment :=
  ⟨selector, SegmentDescriptor.decode memory (gdt + 8 * (selector.toNat / 8))⟩

/-- What becomes of the segment when control passes out to ring `outer`: a null selector,
data of a ring further in and its non-conforming code give way to the null selector 0. -/
def outward (segment : Segment) (outer : Nat) : Segment :=
  if segment.selector.toNat < 4 ∨
      (segment.descriptor.privilege < outer ∧ ¬segment.descriptor.ConformingCode) then
    { segment with selector := 0 }
  else segment

end Segment

namespace Machine

def read (machine : Machine) (address : UInt32) : UInt32 :=
  UInt32.ofNat (machine.memory.load32 address.toNat)

def write (machine : Machine) (address value : UInt32) : Machine :=
  { machine with memory := machine.memory.store32 address.toNat value.toNat }

def push (machine : Machine) (value : UInt32) : Machine :=
  { machine.write (machine.esp - 4) value with esp := machine.esp - 4 }

def pushAll (machine : Machine) (values : List UInt32) : Machine := values.foldl push machine

/-- The word that a `pop` takes. -/
def top (machine : Machine) : UInt32 := machine.read machine.esp

/-- `add esp, offset` -/
def addEsp (machine : Machine) (offset : UInt32) : Machine := { machine with esp := machine.esp + offset }

/-- Pop a word and leave it. -/
def drop (machine : Machine) : Machine := machine.addEsp 4

def pusha (machine : Machine) : Machine :=
  machine.pushAll [machine.eax, machine.ecx, machine.edx, machine.ebx, machine.esp, machine.ebp,
    machine.esi, machine.edi]

/-- The word that `esp` was pushed to is skipped. -/
def popa (machine : Machine) : Machine :=
  { machine with
    edi := machine.read machine.esp
    esi := machine.read (machine.esp + 4)
    ebp := machine.read (machine.esp + 8)
    ebx := machine.read (machine.esp + 16)
    edx := machine.read (machine.esp + 20)
    ecx := machine.read (machine.esp + 24)
    eax := machine.read (machine.esp + 28)
    esp := machine.esp + 32 }

def movAx (machine : Machine) (value : UInt16) : Machine :=
  { machine with eax := (machine.eax &&& 0xFFFF0000) ||| value.toUInt32 }

/-- `call target`, with the address behind the instruction. -/
def call (machine : Machine) (target behind : UInt32) : Machine := { machine.push behind with eip := target }

/-- A trap into ring 0 from a ring further out. -/
def trapInward (machine : Machine) (gate : TrapGate) (stack : InnerStack) : Machine :=
  let inner := { machine with ss := stack.ss0, esp := stack.esp0 }.pushAll
    [machine.ss.toUInt32, machine.esp, machine.eflags, machine.cs.toUInt32, machine.eip]
  { inner with cs := gate.selector, eip := gate.offset, eflags := machine.eflags &&& ~~~trapClears }

/-- `iretd`; leaving for a ring further out also takes the outer stack back. -/
def iretd (machine : Machine) : Machine :=
  let eip := machine.top
  let cs := machine.drop.top.toUInt16
  let eflags := machine.drop.drop.top
  let popped := machine.drop.drop.drop
  if ring machine.cs < ring cs then
    { machine with
      eip := eip, cs := cs, eflags := eflags
      esp := popped.top, ss := popped.drop.top.toUInt16
      ds := machine.ds.outward (ring cs), es := machine.es.outward (ring cs)
      fs := machine.fs.outward (ring cs), gs := machine.gs.outward (ring cs) }
  else { popped with eip := eip, cs := cs, eflags := eflags }

end Machine

/-! The words on the stack. -/

def HoldsWords (memory : Memory) : Nat → List UInt32 → Prop
  | _, [] => True
  | address, word :: rest => memory.load32 address = word.toNat ∧ HoldsWords memory (address + 4) rest

theorem HoldsWords.congr {memory changed : Memory} {address : Nat} {words : List UInt32}
    (holds : HoldsWords memory address words)
    (same : ∀ other, address ≤ other → other < address + 4 * words.length → changed other = memory other) :
    HoldsWords changed address words := by
  induction words generalizing address with
  | nil => trivial
  | cons word rest ih =>
      rw [List.length_cons] at same
      refine ⟨?_, ih holds.2 fun other low high => same other (by omega) (by omega)⟩
      rw [← holds.1]
      exact Memory.load32_congr fun other low high => same other low (by omega)

theorem HoldsWords.getElem {memory : Memory} {address index : Nat} {words : List UInt32}
    (holds : HoldsWords memory address words) (inside : index < words.length) :
    memory.load32 (address + 4 * index) = words[index].toNat := by
  induction words generalizing address index with
  | nil => cases inside
  | cons word rest ih =>
      cases index with
      | zero => exact holds.1
      | succ index =>
          have later := ih holds.2 (Nat.lt_of_succ_lt_succ inside)
          rw [Nat.mul_succ, Nat.add_comm (4 * index) 4, ← Nat.add_assoc]
          exact later

theorem HoldsWords.append {memory : Memory} {address : Nat} {front back : List UInt32} :
    HoldsWords memory address (front ++ back) ↔
      HoldsWords memory address front ∧ HoldsWords memory (address + 4 * front.length) back := by
  induction front generalizing address with
  | nil => simp [HoldsWords]
  | cons word front ih =>
      have shifted : address + 4 + 4 * front.length = address + 4 * (word :: front).length := by
        rw [List.length_cons]
        omega
      rw [List.cons_append, HoldsWords, HoldsWords, ih, shifted, and_assoc]

theorem HoldsWords.set {memory : Memory} {address index : Nat} {words : List UInt32}
    (holds : HoldsWords memory address words) (inside : index < words.length) (word : UInt32) :
    HoldsWords (memory.store32 (address + 4 * index) word.toNat) address (words.set index word) := by
  induction words generalizing address index with
  | nil => cases inside
  | cons first rest ih =>
      cases index with
      | zero =>
          refine ⟨Memory.load32_store32_of_lt word.toNat_lt, holds.2.congr ?_⟩
          intro other low _
          exact Memory.store32_of_outside (by omega)
      | succ index =>
          have later := ih holds.2 (Nat.lt_of_succ_lt_succ inside)
          rw [Nat.mul_succ, Nat.add_comm (4 * index) 4, ← Nat.add_assoc]
          refine ⟨?_, later⟩
          rw [Memory.load32_store32_of_disjoint (by omega)]
          exact holds.1

namespace Machine

/-- The words from `esp` on; the address behind the last of them does not wrap around. -/
structure Stack (machine : Machine) (words : List UInt32) : Prop where
  holds : HoldsWords machine.memory machine.esp.toNat words
  inside : machine.esp.toNat + 4 * words.length < 4294967296

theorem sub_four_toNat {address : UInt32} (room : 4 ≤ address.toNat) : (address - 4).toNat = address.toNat - 4 :=
  UInt32.toNat_sub_of_le address 4 (UInt32.le_iff_toNat_le.mpr room)

theorem push_memory_of_outside {machine : Machine} {value : UInt32} {other : Nat} (room : 4 ≤ machine.esp.toNat)
    (outside : other < machine.esp.toNat - 4 ∨ machine.esp.toNat ≤ other) :
    (machine.push value).memory other = machine.memory other := by
  have below := sub_four_toNat room
  exact Memory.store32_of_outside (by omega)

/-- The general registers but `esp` are the same. -/
structure KeepsGeneral (before after : Machine) : Prop where
  eax : after.eax = before.eax
  ecx : after.ecx = before.ecx
  edx : after.edx = before.edx
  ebx : after.ebx = before.ebx
  ebp : after.ebp = before.ebp
  esi : after.esi = before.esi
  edi : after.edi = before.edi

/-- All registers but `esp` and `eip` are the same. -/
structure Keeps (before after : Machine) : Prop extends KeepsGeneral before after where
  eflags : after.eflags = before.eflags
  cs : after.cs = before.cs
  ss : after.ss = before.ss
  ds : after.ds = before.ds
  es : after.es = before.es
  fs : after.fs = before.fs
  gs : after.gs = before.gs

theorem Keeps.refl (machine : Machine) : machine.Keeps machine := by
  refine ⟨?_, rfl, rfl, rfl, rfl, rfl, rfl, rfl⟩
  constructor <;> rfl

theorem Keeps.trans {first second third : Machine} (former : first.Keeps second) (latter : second.Keeps third) :
    first.Keeps third where
  eax := latter.eax.trans former.eax
  ecx := latter.ecx.trans former.ecx
  edx := latter.edx.trans former.edx
  ebx := latter.ebx.trans former.ebx
  ebp := latter.ebp.trans former.ebp
  esi := latter.esi.trans former.esi
  edi := latter.edi.trans former.edi
  eflags := latter.eflags.trans former.eflags
  cs := latter.cs.trans former.cs
  ss := latter.ss.trans former.ss
  ds := latter.ds.trans former.ds
  es := latter.es.trans former.es
  fs := latter.fs.trans former.fs
  gs := latter.gs.trans former.gs

theorem call_keeps (machine : Machine) (target behind : UInt32) : machine.Keeps (machine.call target behind) :=
  { Keeps.refl machine with }

theorem pushAll_keeps (machine : Machine) (values : List UInt32) : machine.Keeps (machine.pushAll values) := by
  induction values generalizing machine with
  | nil => exact Keeps.refl machine
  | cons value values ih =>
      have rest := ih (machine.push value)
      exact { rest with }

theorem trapInward_keeps (machine : Machine) (gate : TrapGate) (inner : InnerStack) :
    machine.KeepsGeneral (machine.trapInward gate inner) := by
  have pushed := ({ machine with ss := inner.ss0, esp := inner.esp0 } : Machine).pushAll_keeps
    [machine.ss.toUInt32, machine.esp, machine.eflags, machine.cs.toUInt32, machine.eip]
  exact { pushed.toKeepsGeneral with }

theorem pusha_keeps (machine : Machine) : machine.Keeps machine.pusha := machine.pushAll_keeps _

section Stack

variable {machine : Machine} {words : List UInt32}

theorem Stack.push (stack : machine.Stack words) (room : 4 ≤ machine.esp.toNat) (value : UInt32) :
    (machine.push value).Stack (value :: words) := by
  have below : (machine.push value).esp.toNat = machine.esp.toNat - 4 := sub_four_toNat room
  constructor
  · rw [below]
    refine ⟨?_, ?_⟩
    · rw [← sub_four_toNat room]
      exact Memory.load32_store32_of_lt value.toNat_lt
    · rw [Nat.sub_add_cancel room]
      exact stack.holds.congr fun other low _ => push_memory_of_outside room (.inr low)
  · have inside := stack.inside
    rw [below, List.length_cons]
    omega

theorem Stack.call (stack : machine.Stack words) (room : 4 ≤ machine.esp.toNat) (target behind : UInt32) :
    (machine.call target behind).Stack (behind :: words) :=
  ⟨(stack.push room behind).holds, (stack.push room behind).inside⟩

theorem call_esp (room : 4 ≤ machine.esp.toNat) (target behind : UInt32) :
    (machine.call target behind).esp.toNat = machine.esp.toNat - 4 := sub_four_toNat room

theorem pushAll_esp (values : List UInt32) (room : 4 * values.length ≤ machine.esp.toNat) :
    (machine.pushAll values).esp.toNat = machine.esp.toNat - 4 * values.length := by
  induction values generalizing machine with
  | nil => rfl
  | cons value values ih =>
      rw [List.length_cons] at room
      have below : (machine.push value).esp.toNat = machine.esp.toNat - 4 := sub_four_toNat (by omega)
      have rest := @ih (machine.push value) (by omega)
      rw [List.length_cons]
      exact rest.trans (by omega)

theorem pushAll_memory_of_outside (values : List UInt32) (room : 4 * values.length ≤ machine.esp.toNat)
    {other : Nat} (outside : other < machine.esp.toNat - 4 * values.length ∨ machine.esp.toNat ≤ other) :
    (machine.pushAll values).memory other = machine.memory other := by
  induction values generalizing machine with
  | nil => rfl
  | cons value values ih =>
      rw [List.length_cons] at room outside
      have below : (machine.push value).esp.toNat = machine.esp.toNat - 4 := sub_four_toNat (by omega)
      have rest := @ih (machine.push value) (by omega) (by omega)
      exact rest.trans (push_memory_of_outside (by omega) (by omega))

/-- The last value pushed is the first on the stack. -/
theorem Stack.pushAll (stack : machine.Stack words) (values : List UInt32)
    (room : 4 * values.length ≤ machine.esp.toNat) :
    (machine.pushAll values).Stack (values.reverse ++ words) := by
  induction values generalizing machine words with
  | nil => exact stack
  | cons value values ih =>
      rw [List.length_cons] at room
      have below : (machine.push value).esp.toNat = machine.esp.toNat - 4 := sub_four_toNat (by omega)
      have rest := ih (stack.push (by omega) value) (by omega)
      rw [List.reverse_cons, List.append_assoc]
      exact rest

theorem Stack.offset (stack : machine.Stack words) (index : Nat) (inside : index < words.length)
    {offset : UInt32} (places : offset.toNat = 4 * index) :
    (machine.esp + offset).toNat = machine.esp.toNat + 4 * index := by
  have bound := stack.inside
  rw [UInt32.toNat_add, places, Nat.mod_eq_of_lt (by omega)]

theorem Stack.read (stack : machine.Stack words) (index : Nat) (inside : index < words.length)
    {offset : UInt32} (places : offset.toNat = 4 * index) :
    machine.read (machine.esp + offset) = words[index] := by
  rw [Machine.read, stack.offset index inside places, stack.holds.getElem inside, UInt32.ofNat_toNat]

theorem Stack.write (stack : machine.Stack words) (index : Nat) (inside : index < words.length)
    {offset : UInt32} (places : offset.toNat = 4 * index) (value : UInt32) :
    (machine.write (machine.esp + offset) value).Stack (words.set index value) := by
  constructor
  · show HoldsWords (machine.memory.store32 (machine.esp + offset).toNat value.toNat) machine.esp.toNat _
    rw [stack.offset index inside places]
    exact stack.holds.set inside value
  · rw [List.length_set]
    exact stack.inside

theorem Stack.top {word : UInt32} (stack : machine.Stack (word :: words)) : machine.top = word := by
  rw [Machine.top, Machine.read, stack.holds.1, UInt32.ofNat_toNat]

theorem Stack.addEsp {front : List UInt32} (stack : machine.Stack (front ++ words)) {offset : UInt32}
    (places : offset.toNat = 4 * front.length) : (machine.addEsp offset).Stack words := by
  have inside := stack.inside
  rw [List.length_append] at inside
  have above : (machine.addEsp offset).esp.toNat = machine.esp.toNat + 4 * front.length := by
    show (machine.esp + offset).toNat = _
    rw [UInt32.toNat_add, places, Nat.mod_eq_of_lt (by omega)]
  constructor
  · rw [above]
    exact (HoldsWords.append.mp stack.holds).2
  · rw [above]
    omega

theorem Stack.drop {word : UInt32} (stack : machine.Stack (word :: words)) : machine.drop.Stack words :=
  @Stack.addEsp machine words [word] stack 4 rfl

theorem Stack.pusha (stack : machine.Stack words) (room : 32 ≤ machine.esp.toNat) :
    machine.pusha.Stack ([machine.edi, machine.esi, machine.ebp, machine.esp, machine.ebx, machine.edx,
      machine.ecx, machine.eax] ++ words) :=
  stack.pushAll _ room

theorem pusha_esp (room : 32 ≤ machine.esp.toNat) : machine.pusha.esp.toNat = machine.esp.toNat - 32 :=
  pushAll_esp _ room

theorem Stack.popa {edi esi ebp esp ebx edx ecx eax : UInt32}
    (stack : machine.Stack ([edi, esi, ebp, esp, ebx, edx, ecx, eax] ++ words)) :
    machine.popa = { machine with
      edi := edi, esi := esi, ebp := ebp, ebx := ebx, edx := edx, ecx := ecx, eax := eax
      esp := machine.esp + 32 } := by
  have first := stack.top
  have second := @Stack.read _ _ stack 1 (by simp) 4 rfl
  have third := @Stack.read _ _ stack 2 (by simp) 8 rfl
  have fifth := @Stack.read _ _ stack 4 (by simp) 16 rfl
  have sixth := @Stack.read _ _ stack 5 (by simp) 20 rfl
  have seventh := @Stack.read _ _ stack 6 (by simp) 24 rfl
  have eighth := @Stack.read _ _ stack 7 (by simp) 28 rfl
  rw [Machine.top] at first
  rw [Machine.popa, first, second, third, fifth, sixth, seventh, eighth]
  rfl

theorem Stack.behindPopa {edi esi ebp esp ebx edx ecx eax : UInt32}
    (stack : machine.Stack ([edi, esi, ebp, esp, ebx, edx, ecx, eax] ++ words)) : machine.popa.Stack words := by
  have behind : (machine.addEsp 32).Stack words := stack.addEsp rfl
  exact ⟨behind.holds, behind.inside⟩

theorem Stack.iretd {eip cs eflags esp ss : UInt32} (stack : machine.Stack [eip, cs, eflags, esp, ss])
    (outer : ring machine.cs < ring cs.toUInt16) :
    machine.iretd = { machine with
      eip := eip, cs := cs.toUInt16, eflags := eflags, esp := esp, ss := ss.toUInt16
      ds := machine.ds.outward (ring cs.toUInt16), es := machine.es.outward (ring cs.toUInt16)
      fs := machine.fs.outward (ring cs.toUInt16), gs := machine.gs.outward (ring cs.toUInt16) } := by
  have second := stack.drop
  have third := second.drop
  have fourth := third.drop
  have fifth := fourth.drop
  rw [Machine.iretd, stack.top, second.top, third.top, fourth.top, fifth.top, if_pos outer]

theorem trapInward_stack (gate : TrapGate) (inner : InnerStack) (room : 20 ≤ inner.esp0.toNat) :
    (machine.trapInward gate inner).Stack
      [machine.eip, machine.cs.toUInt32, machine.eflags, machine.esp, machine.ss.toUInt32] := by
  have empty : ({ machine with ss := inner.ss0, esp := inner.esp0 } : Machine).Stack [] :=
    ⟨trivial, inner.esp0.toNat_lt⟩
  have pushed := empty.pushAll
    [machine.ss.toUInt32, machine.esp, machine.eflags, machine.cs.toUInt32, machine.eip] room
  exact ⟨pushed.holds, pushed.inside⟩

theorem trapInward_esp (gate : TrapGate) (inner : InnerStack) (room : 20 ≤ inner.esp0.toNat) :
    (machine.trapInward gate inner).esp.toNat = inner.esp0.toNat - 20 :=
  @pushAll_esp { machine with ss := inner.ss0, esp := inner.esp0 } _ room

theorem trapInward_memory_of_below (gate : TrapGate) (inner : InnerStack) (room : 20 ≤ inner.esp0.toNat)
    {other : Nat} (below : other < inner.esp0.toNat - 20) :
    (machine.trapInward gate inner).memory other = machine.memory other :=
  @pushAll_memory_of_outside { machine with ss := inner.ss0, esp := inner.esp0 }
    [machine.ss.toUInt32, machine.esp, machine.eflags, machine.cs.toUInt32, machine.eip] room other (.inl below)

end Stack

end Machine

/-! Calls of C functions. -/

/-- What a C function called with `arguments` words on the stack leaves its caller: `eax`,
`ecx` and `edx` may change, and the words of the arguments; the caller's part of the stack,
which ends at `stackEnd`, does not. -/
structure CdeclReturn (entry exit : Machine) (arguments stackEnd : Nat) : Prop where
  ebx : exit.ebx = entry.ebx
  ebp : exit.ebp = entry.ebp
  esi : exit.esi = entry.esi
  edi : exit.edi = entry.edi
  esp : exit.esp = entry.esp + 4
  eip : exit.eip = entry.top
  cs : exit.cs = entry.cs
  ss : exit.ss = entry.ss
  ds : exit.ds = entry.ds
  es : exit.es = entry.es
  fs : exit.fs = entry.fs
  gs : exit.gs = entry.gs
  frame : ∀ other, entry.esp.toNat + 4 * (arguments + 1) ≤ other → other < stackEnd →
    exit.memory other = entry.memory other

/-- The caller takes its arguments off the stack and finds its own words again. -/
theorem CdeclReturn.stack {entry exit : Machine} {arguments frame : List UInt32} {behind : UInt32} {stackEnd : Nat}
    (returned : CdeclReturn entry exit arguments.length stackEnd)
    (stack : entry.Stack (behind :: arguments ++ frame))
    (covers : entry.esp.toNat + 4 * (arguments.length + 1 + frame.length) ≤ stackEnd) {offset : UInt32}
    (places : offset.toNat = 4 * arguments.length) : (exit.addEsp offset).Stack frame := by
  have later : (entry.drop.addEsp offset).Stack frame := stack.drop.addEsp places
  have same : (exit.addEsp offset).esp = (entry.drop.addEsp offset).esp := by
    show exit.esp + offset = entry.esp + 4 + offset
    rw [returned.esp]
  have above : (entry.drop.addEsp offset).esp.toNat = entry.esp.toNat + 4 * (arguments.length + 1) := by
    have inside := stack.inside
    simp only [List.length_append, List.length_cons] at inside
    show (entry.esp + 4 + offset).toNat = _
    rw [UInt32.toNat_add, UInt32.toNat_add, places]
    show ((entry.esp.toNat + 4) % 4294967296 + _) % 4294967296 = _
    omega
  constructor
  · rw [same]
    refine later.holds.congr fun other low high => returned.frame other (by omega) (by omega)
  · rw [same]
    exact later.inside

end ShedKernel.Foundation.X86
