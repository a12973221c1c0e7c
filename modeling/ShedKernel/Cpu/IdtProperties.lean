import ShedKernel.Cpu.Idt

/-! What the processor finds after `idt_init`: the gates of the three handlers and no other. -/

set_option autoImplicit false

namespace ShedKernel.Cpu

open Foundation Foundation.X86

def timerGate (image : HandlerImage) : InterruptGate := ⟨image.timerHandler, 0x08, 0x8E⟩

def keyboardGate (image : HandlerImage) : InterruptGate := ⟨image.kbdHandler, 0x08, 0x8E⟩

def systemCallGate (image : HandlerImage) : InterruptGate := ⟨image.syscallHandler, 0x08, 0xEF⟩

/-- The gate of each vector. -/
def gates (image : HandlerImage) (vector : UInt8) : Option InterruptGate :=
  if vector = 0x20 then some (timerGate image)
  else if vector = 0x21 then some (keyboardGate image)
  else if vector = 0x80 then some (systemCallGate image)
  else none

private theorem interruptGate_closes (offset : UInt32) (selector : UInt16) :
    InterruptGate.ClosesInterrupts ⟨offset, selector, interruptGate⟩ :=
  show (0x8E : UInt8).toNat % 32 = 0x0E by decide

private theorem interruptGate_usable (offset : UInt32) (selector : UInt16) :
    InterruptGate.Usable ⟨offset, selector, interruptGate⟩ :=
  ⟨show 128 ≤ (0x8E : UInt8).toNat by decide, .inl (interruptGate_closes offset selector)⟩

private theorem systemCallGate_usable (image : HandlerImage) : (systemCallGate image).Usable :=
  ⟨show 128 ≤ (0xEF : UInt8).toNat by decide, .inr (show (0xEF : UInt8).toNat % 32 = 0x0F by decide)⟩

/-- `IDT` is a static array, so it begins as zeros; `idt_ptr` is elsewhere. -/
structure ClearIdt (image : HandlerImage) (memory : Memory) (idtPtr : Nat) : Prop where
  clear : ∀ other, image.idt.toNat ≤ other → other < image.idt.toNat + 2048 → memory other = 0
  apart : idtPtr + 8 ≤ image.idt.toNat ∨ image.idt.toNat + 2048 ≤ idtPtr

section

variable (image : HandlerImage) {memory : Memory} {idtPtr : Nat}

private theorem fillIdt_of_outside (memory : Memory) {place : Nat}
    (outside : ∀ vector, vector = 0x20 ∨ vector = 0x21 ∨ vector = 0x80 →
      place < image.idt.toNat + 8 * vector ∨ image.idt.toNat + 8 * vector + 8 ≤ place) :
    fillIdt image memory place = memory place := by
  unfold fillIdt
  rw [IdtEntry.assign_of_outside _ _ _ _ _ _ _ (outside 0x80 (.inr (.inr rfl))),
    IdtEntry.assign_of_outside _ _ _ _ _ _ _ (outside 0x20 (.inl rfl)),
    IdtEntry.assign_of_outside _ _ _ _ _ _ _ (outside 0x21 (.inr (.inl rfl)))]

private theorem fillIdtPtr_of_outside (memory : Memory) {place : Nat} (outside : place < idtPtr ∨ idtPtr + 8 ≤ place) :
    fillIdtPtr image memory idtPtr place = memory place := by
  unfold fillIdtPtr
  rw [Memory.store32_of_outside (by omega), Memory.store32_of_outside (by omega)]

private theorem lowBits_toNat (address : UInt32) : (address &&& 0xffff).toUInt16.toNat = address.toNat % 65536 := by
  rw [UInt32.toNat_toUInt16, UInt32.toNat_and]
  show (address.toNat &&& 2 ^ 16 - 1) % 65536 = _
  rw [Nat.and_two_pow_sub_one_eq_mod]
  omega

private theorem IdtEntry.decode_beside (memory : Memory) {entry place : Nat} {lower selector : UInt16}
    {zero attributes : UInt8} {higher : UInt16} (apart : place + 8 ≤ entry ∨ entry + 8 ≤ place) :
    InterruptGate.decode (IdtEntry.assign memory entry lower selector zero attributes higher) place =
      InterruptGate.decode memory place :=
  InterruptGate.decode_congr fun _ _ _ => IdtEntry.assign_of_outside _ _ _ _ _ _ _ (by omega)

private theorem fillIdt_timer (memory : Memory) :
    InterruptGate.decode (fillIdt image memory) (image.idt.toNat + 8 * 0x20) = timerGate image := by
  unfold fillIdt
  rw [IdtEntry.decode_beside _ (by omega)]
  exact IdtEntry.decode_assign _ _ _ _ _ _ _ _ (lowBits_toNat _) (highHalf_toNat _).1

private theorem fillIdt_keyboard (memory : Memory) :
    InterruptGate.decode (fillIdt image memory) (image.idt.toNat + 8 * 0x21) = keyboardGate image := by
  unfold fillIdt
  rw [IdtEntry.decode_beside _ (by omega), IdtEntry.decode_beside _ (by omega)]
  exact IdtEntry.decode_assign _ _ _ _ _ _ _ _ (lowBits_toNat _) (highHalf_toNat _).2

private theorem fillIdt_syscall (memory : Memory) :
    InterruptGate.decode (fillIdt image memory) (image.idt.toNat + 8 * 0x80) = systemCallGate image := by
  unfold fillIdt
  exact IdtEntry.decode_assign _ _ _ _ _ _ _ _ (lowBits_toNat _) (highHalf_toNat _).1

/-- The two words that `idt_ptr` gets make up the six bytes that `lidt` reads. -/
theorem fillIdtPtr_register (memory : Memory) :
    TableRegister.decode (fillIdtPtr image memory idtPtr) idtPtr = ⟨0x800, image.idt.toNat⟩ := by
  have small := image.idt.toNat_lt
  have firstWord : (UInt32.ofNat (8 * idtSize) + ((image.idt &&& 0xffff) <<< 16)).toNat =
      2048 + 65536 * (image.idt.toNat % 65536) := by
    have masked : image.idt.toNat &&& 65535 = image.idt.toNat % 65536 :=
      Nat.and_two_pow_sub_one_eq_mod image.idt.toNat 16
    rw [UInt32.toNat_add, UInt32.toNat_shiftLeft, UInt32.toNat_and]
    show (2048 + (image.idt.toNat &&& 65535) <<< 16 % 4294967296) % 4294967296 = _
    rw [masked, Nat.shiftLeft_eq]
    omega
  have secondWord : (image.idt >>> 16).toNat = image.idt.toNat / 65536 := by
    rw [UInt32.toNat_shiftRight]
    exact Nat.shiftRight_eq_div_pow image.idt.toNat 16
  unfold fillIdtPtr
  dsimp only
  rw [firstWord, secondWord]
  simp only [TableRegister.decode, Memory.load32, Memory.store32, Nat.add_assoc, Nat.add_eq_left,
    Nat.left_eq_add, Nat.add_left_cancel_iff, Nat.reduceEqDiff, Nat.reduceAdd, Nat.succ_ne_zero, ↓reduceIte,
    UInt8.toNat_ofNat', TableRegister.mk.injEq]
  constructor <;> omega

/-- Every vector has the gate that `idt_init` installed for it, or none. -/
theorem idtInit_gates (clear : ClearIdt image memory idtPtr) (vector : UInt8) :
    (TableRegister.mk 0x800 image.idt.toNat).gate (idtInit image memory idtPtr) vector = gates image vector := by
  have apart := clear.apart
  have small := vector.toNat_lt
  have above (place : Nat) (low : image.idt.toNat ≤ place) (high : place < image.idt.toNat + 2048) :
      idtInit image memory idtPtr place = fillIdt image memory place :=
    fillIdtPtr_of_outside image _ (by omega)
  have installed {gate : InterruptGate}
      (found : InterruptGate.decode (fillIdt image memory) (image.idt.toNat + 8 * vector.toNat) = gate)
      (usable : gate.Usable) :
      (TableRegister.mk 0x800 image.idt.toNat).gate (idtInit image memory idtPtr) vector = some gate := by
    refine TableRegister.gate_of_usable _ _ (by dsimp only; omega) ?_ usable
    rw [← found]
    refine InterruptGate.decode_congr fun other low high => ?_
    dsimp only at low high
    exact above other (by omega) (by omega)
  unfold gates
  split
  · next timer =>
      subst timer
      exact installed (fillIdt_timer image memory) (interruptGate_usable _ _)
  split
  · next keyboard =>
      subst keyboard
      exact installed (fillIdt_keyboard image memory) (interruptGate_usable _ _)
  split
  · next syscall =>
      subst syscall
      exact installed (fillIdt_syscall image memory) (systemCallGate_usable image)
  · next notTimer notKeyboard notSyscall =>
      have different {value : UInt8} (notThis : vector ≠ value) : vector.toNat ≠ value.toNat :=
        fun same => notThis (UInt8.toNat_inj.mp same)
      have first := different notTimer
      have second := different notKeyboard
      have third := different notSyscall
      simp only [UInt8.reduceToNat] at first second third
      refine TableRegister.gate_of_zero _ _ ?_
      dsimp only
      rw [above _ (by omega) (by omega), fillIdt_of_outside image memory fun entry which => by omega]
      exact clear.clear _ (by omega) (by omega)

end

/-- After `idt_init` the processor has the three gates and no other, the two hardware handlers
run with interrupts off, and the only way in that a program in ring 3 can name is `int 0x80`. -/
theorem idt_init_gates (image : HandlerImage) (memory : Memory) (idtPtr : Nat)
    (clear : ClearIdt image memory idtPtr) :
    let after := idtInit image memory idtPtr
    let table := TableRegister.decode after idtPtr
    (∀ vector, table.gate after vector = gates image vector) ∧
      (∀ vector, table.gateFrom after 3 vector = if vector = 0x80 then some (systemCallGate image) else none) ∧
      (timerGate image).ClosesInterrupts ∧ (keyboardGate image).ClosesInterrupts ∧
      ¬(systemCallGate image).ClosesInterrupts ∧
      syscallGate image.toKernelImage = ⟨(systemCallGate image).selector, (systemCallGate image).offset⟩ := by
  intro after table
  have register : table = ⟨0x800, image.idt.toNat⟩ := fillIdtPtr_register image _
  have found (vector : UInt8) : table.gate after vector = gates image vector := by
    rw [register]
    exact idtInit_gates image clear vector
  refine ⟨found, fun vector => ?_, interruptGate_closes _ _, interruptGate_closes _ _,
    show ¬(0xEF : UInt8).toNat % 32 = 0x0E by decide, rfl⟩
  have filtered (gate : InterruptGate) {level : Nat} (same : gate.privilege = level) :
      (some gate).filter (fun gate => decide (3 ≤ gate.privilege)) = if 3 ≤ level then some gate else none := by
    rw [Option.filter_some, same]
    simp only [decide_eq_true_eq]
  rw [TableRegister.gateFrom, found, gates]
  split
  · next timer =>
      subst timer
      exact filtered (timerGate image) (show (0x8E : UInt8).toNat / 32 % 4 = 0 by decide)
  split
  · next keyboard =>
      subst keyboard
      exact filtered (keyboardGate image) (show (0x8E : UInt8).toNat / 32 % 4 = 0 by decide)
  split
  · exact filtered (systemCallGate image) (show (0xEF : UInt8).toNat / 32 % 4 = 3 by decide)
  · rfl

/-- The linker's layout of an example. -/
def linkedHandlers : HandlerImage :=
  { linkedImage with
    kbdHandler := 0x100040, kbdHandlerMain := 0x101000, behindKbdHandlerMain := 0x100046
    timerHandler := 0x100048, timerCallback := 0x102000, behindTimerCallback := 0x10004E
    idt := 0x10A000, handlers_apart := by decide, idt_inside := by decide }

theorem linkedHandlers_clear : ClearIdt linkedHandlers (fun _ => 0) 0x8FF00 :=
  ⟨fun _ _ _ => rfl, .inl (by decide)⟩

theorem idt_init_gates_linked :
    let after := idtInit linkedHandlers (fun _ => 0) 0x8FF00
    let table := TableRegister.decode after 0x8FF00
    table.gate after 0x20 = some (timerGate linkedHandlers) ∧ table.gateFrom after 3 0x20 = none ∧
      table.gateFrom after 3 0x80 = some (systemCallGate linkedHandlers) := by
  have checked := idt_init_gates linkedHandlers (fun _ => 0) 0x8FF00 linkedHandlers_clear
  exact ⟨checked.1 0x20, checked.2.1 0x20, checked.2.1 0x80⟩

end ShedKernel.Cpu
