import ShedKernel.Cpu.Start

/-! What `_start` leaves `kernel_main`, in the zeroed variables and in the boot loader's
information. -/

set_option autoImplicit false

namespace ShedKernel.Cpu

open Foundation Foundation.X86

/-- The bytes that `rep stosd` clears: it counts the bytes of the variables, but stores words. -/
def Cleared (image : BssImage) (place : Nat) : Prop :=
  image.bssStart.toNat ≤ place ∧ place < image.bssStart.toNat + 4 * image.size

/-- The three words that `_start` pushes. -/
def StartStack (place : Nat) : Prop := 0x8FFF4 ≤ place ∧ place < 0x90000

/-- `kernel_main` begins with interrupts off, its two arguments on the stack and its variables
zero. -/
structure Started (image : BssImage) (machine after : Machine) : Prop where
  eip : after.eip = image.kernelMain
  esp : after.esp.toNat = 0x8FFF4
  stack : after.Stack [image.behindKernelMain, machine.eax, machine.ebx]
  closed : after.eflags.toNat.testBit 9 = false
  cleared : ∀ place, Cleared image place → after.memory place = 0
  kept : ∀ place, ¬Cleared image place → ¬StartStack place → after.memory place = machine.memory place

section

variable {image : BssImage} {machine : Machine}

private theorem startStack_room (machine : Machine) : 8 ≤ (startStack machine).esp.toNat :=
  show 8 ≤ (0x90000 : UInt32).toNat by decide

private theorem pushArguments_stack (machine : Machine) : (pushArguments machine).Stack [machine.eax, machine.ebx] := by
  have empty : (startStack machine).Stack [] := ⟨trivial, (startStack machine).esp.toNat_lt⟩
  exact empty.pushAll [machine.ebx, machine.eax] (startStack_room machine)

private theorem pushArguments_esp (machine : Machine) : (pushArguments machine).esp.toNat = 0x8FFF8 :=
  @Machine.pushAll_esp (startStack machine) [machine.ebx, machine.eax] (startStack_room machine)

private theorem pushArguments_memory (machine : Machine) {place : Nat} (outside : ¬StartStack place) :
    (pushArguments machine).memory place = machine.memory place := by
  refine @Machine.pushAll_memory_of_outside (startStack machine) [machine.ebx, machine.eax] (startStack_room machine)
    place ?_
  show place < 0x90000 - 8 ∨ 0x90000 ≤ place
  unfold StartStack at outside
  omega

private theorem pushArguments_eflags (machine : Machine) :
    (pushArguments machine).eflags = machine.eflags &&& ~~~0x200 :=
  ((startStack machine).pushAll_keeps [machine.ebx, machine.eax]).eflags

private theorem eflags_testBit (flags : UInt32) (bit : Nat) :
    (flags &&& ~~~0x200).toNat.testBit bit = (flags.toNat.testBit bit && Nat.testBit 0xFFFFFDFF bit) := by
  rw [UInt32.toNat_and, Nat.testBit_and]
  rfl

/-- `rep stosd` makes as many turns as the variables have bytes. -/
theorem loadBss_ecx (image : BssImage) (machine : Machine) : (loadBss image machine).ecx.toNat = image.size := by
  show (image.bssEnd - image.bssStart).toNat = _
  exact UInt32.toNat_sub_of_le _ _ (UInt32.le_iff_toNat_le.mpr image.ordered)

/-- The words that it stores are zero. -/
theorem clearBss_memory (ready : Machine) (upward : ¬ready.Downward)
    (fits : image.bssStart.toNat + 4 * image.size ≤ 4294967296) :
    let after := (loadBss image ready).repStosd
    after = { ready with eax := 0, ecx := after.ecx, edi := after.edi, memory := after.memory } ∧
      (∀ place, Cleared image place → after.memory place = 0) ∧
      ∀ place, ¬Cleared image place → after.memory place = ready.memory place := by
  have turns := loadBss_ecx image ready
  have stored := Machine.stosdTurns_stored (loadBss image ready).ecx.toNat (loadBss image ready) upward
    (by rw [turns]; exact fits)
  have zero : ready.eax ^^^ ready.eax = 0 := UInt32.xor_self
  rw [turns] at stored
  unfold Machine.repStosd
  rw [turns]
  generalize (loadBss image ready).stosdTurns image.size = after at stored ⊢
  refine ⟨?_, fun place cleared => ?_, fun place kept => ?_⟩
  · refine stored.registers.trans ?_
    unfold loadBss
    dsimp only
    rw [zero]
  · obtain ⟨low, high⟩ := cleared
    have word := stored.inside ((place - image.bssStart.toNat) / 4) (by omega)
    have value : (loadBss image ready).eax.toNat = 0 := congrArg UInt32.toNat zero
    have begins : (loadBss image ready).edi.toNat = image.bssStart.toNat := rfl
    rw [value, begins] at word
    exact Memory.byte_of_load32_zero word (by omega) (by omega)
  · refine stored.outside place ?_
    show place < image.bssStart.toNat ∨ image.bssStart.toNat + 4 * image.size ≤ place
    unfold Cleared at kept
    omega

private theorem start_started (upward : ¬machine.Downward)
    (fits : image.bssStart.toNat + 4 * image.size ≤ 4294967296) : Started image machine (start image machine) := by
  have pushed := pushArguments_stack machine
  have place := pushArguments_esp machine
  have memory {place : Nat} := @pushArguments_memory machine place
  have flags := pushArguments_eflags machine
  have above := image.above
  unfold start
  generalize pushArguments machine = ready at pushed place memory flags ⊢
  have downward : ¬ready.Downward := by
    rw [Machine.Downward, flags, eflags_testBit, Bool.and_eq_true, not_and_or]
    exact .inl upward
  obtain ⟨registers, cleared, kept⟩ := clearBss_memory ready downward fits
  generalize (loadBss image ready).repStosd = zeroed at registers cleared kept ⊢
  have esp : zeroed.esp = ready.esp := by rw [registers]
  have closed : zeroed.eflags = ready.eflags := by rw [registers]
  have held : zeroed.Stack [machine.eax, machine.ebx] := by
    refine ⟨?_, by rw [esp]; exact pushed.inside⟩
    rw [esp]
    refine pushed.holds.congr fun other low high => kept other fun inside => ?_
    have bottom := inside.1
    simp only [List.length_cons, List.length_nil] at high
    omega
  have room : 4 ≤ zeroed.esp.toNat := by
    rw [esp, place]
    decide
  have below : (zeroed.call image.kernelMain image.behindKernelMain).esp.toNat = zeroed.esp.toNat - 4 :=
    Machine.call_esp room _ _
  have called {other : Nat} (outside : ¬StartStack other) :
      (zeroed.call image.kernelMain image.behindKernelMain).memory other = zeroed.memory other := by
    refine Machine.push_memory_of_outside room ?_
    rw [esp, place]
    unfold StartStack at outside
    omega
  have apart {other : Nat} (inside : Cleared image other) : ¬StartStack other := by
    rintro ⟨-, high⟩
    have low := inside.1
    omega
  refine ⟨rfl, ?_, held.call room _ _, ?_, fun other inside => ?_, fun other outside beside => ?_⟩
  · rw [below, esp, place]
  · show zeroed.eflags.toNat.testBit 9 = false
    rw [closed, flags, eflags_testBit]
    exact Bool.and_false _
  · rw [called (apart inside)]
    exact cleared other inside
  · rw [called beside, kept other outside, memory beside]

/-- Only 110 bytes of memory decide. -/
theorem parseFramebuffer_congr {memory changed : Memory} {mb : Nat}
    (same : ∀ place, mb ≤ place → place < mb + multibootSize → changed place = memory place) :
    parseFramebuffer changed mb = parseFramebuffer memory mb := by
  have word {offset : Nat} (inside : offset + 4 ≤ multibootSize) :
      changed.load32 (mb + offset) = memory.load32 (mb + offset) :=
    Memory.load32_congr fun place low high => same place (by omega) (by omega)
  have flags := @word 0 (by decide)
  have byte := same (mb + 108) (by omega) (by show mb + 108 < mb + 110; omega)
  rw [Nat.add_zero] at flags
  unfold parseFramebuffer
  rw [flags, @word 88 (by decide), @word 96 (by decide), @word 100 (by decide), @word 104 (by decide), byte]

end

/-- `_start` calls `kernel_main` with the boot loader's two registers as arguments and all its
variables zero, but clears four times their length: the boot loader's information is what it
was when it lies outside, and when its flags lie inside, even behind the variables, the kernel
finds no framebuffer. -/
theorem start_reaches_kernel_main (image : BssImage) (machine : Machine) (upward : ¬machine.Downward)
    (fits : image.bssStart.toNat + 4 * image.size ≤ 4294967296) :
    Started image machine (start image machine) ∧
      (∀ mb, (∀ place, mb ≤ place → place < mb + multibootSize → ¬Cleared image place ∧ ¬StartStack place) →
        parseFramebuffer (start image machine).memory mb = parseFramebuffer machine.memory mb) ∧
      ∀ mb, (∀ place, mb ≤ place → place < mb + 4 → Cleared image place) →
        parseFramebuffer (start image machine).memory mb = noFramebuffer := by
  have started := start_started upward fits
  refine ⟨started, fun mb outside => ?_, fun mb inside => ?_⟩
  · refine parseFramebuffer_congr fun place low high => ?_
    obtain ⟨uncleared, unpushed⟩ := outside place low high
    exact started.kept place uncleared unpushed
  · have byte (offset : Nat) (below : offset < 4) : (start image machine).memory (mb + offset) = 0 :=
      started.cleared _ (inside _ (by omega) (by omega))
    have flags : (start image machine).memory.load32 mb = 0 := by
      have first := byte 0 (by decide)
      rw [Nat.add_zero] at first
      rw [Memory.load32, first, byte 1 (by decide), byte 2 (by decide), byte 3 (by decide)]
      rfl
    refine if_neg fun found => ?_
    rw [flags] at found
    exact absurd found.2 (by decide)

/-- The linker's layout of an example, with the boot loader's information 64 KiB behind the variables. -/
def linkedBss : BssImage := ⟨0x10A000, 0x220000, 0x103000, 0x1000A0, by decide, by decide⟩

def loadedData : Segment := ⟨0x18, ⟨0, 0xFFFFF, 0x93, 0x0C, SegmentDescriptor.largestLimit_lt, by decide⟩⟩

def loadedKernel : Machine :=
  { eax := 0x2BADB002, ecx := 0, edx := 0, ebx := 0x230000, esp := 0x7FF00, ebp := 0, esi := 0, edi := 0
    eip := 0x100080, eflags := 0x2, cs := 0x10, ss := 0x18
    ds := loadedData
    es := loadedData
    fs := loadedData
    gs := loadedData
    memory := fun place => if place = 0x230001 then 0x10 else if place = 0x230060 then 5 else 0 }

theorem start_reaches_kernel_main_lost :
    parseFramebuffer loadedKernel.memory 0x230000 = ⟨0, 5, 0, 0, 0⟩ ∧
      parseFramebuffer (start linkedBss loadedKernel).memory 0x230000 = noFramebuffer := by
  have checked := start_reaches_kernel_main linkedBss loadedKernel (by decide) (by decide)
  refine ⟨by decide, checked.2.2 0x230000 fun place low high => ?_⟩
  have size : linkedBss.size = 0x116000 := by decide
  have begins : linkedBss.bssStart.toNat = 0x10A000 := by decide
  unfold Cleared
  rw [size, begins]
  omega

end ShedKernel.Cpu
