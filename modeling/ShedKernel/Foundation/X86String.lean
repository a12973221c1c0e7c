import ShedKernel.Foundation.X86

/-! The string store of the x86: `stosd` and its repetition. -/

set_option autoImplicit false

namespace ShedKernel.Foundation

theorem Memory.byte_of_load32_zero {memory : Memory} {address place : Nat} (zero : memory.load32 address = 0)
    (low : address ≤ place) (high : place < address + 4) : memory place = 0 := by
  rw [Memory.load32] at zero
  have which : place = address ∨ place = address + 1 ∨ place = address + 2 ∨ place = address + 3 := by omega
  rw [← UInt8.toNat_inj]
  show (memory place).toNat = 0
  rcases which with rfl | rfl | rfl | rfl <;> omega

end ShedKernel.Foundation

namespace ShedKernel.Foundation.X86.Machine

/-- DF makes string instructions go down. -/
def Downward (machine : Machine) : Prop := machine.eflags.toNat.testBit 10 = true

instance (machine : Machine) : Decidable machine.Downward := inferInstanceAs (Decidable (_ = _))

def stosd (machine : Machine) : Machine :=
  { machine.write machine.edi machine.eax with
    edi := if machine.Downward then machine.edi - 4 else machine.edi + 4 }

def stosdTurns (machine : Machine) : Nat → Machine
  | 0 => machine
  | turns + 1 => stosdTurns { machine.stosd with ecx := machine.ecx - 1 } turns

/-- `rep stosd` -/
def repStosd (machine : Machine) : Machine := machine.stosdTurns machine.ecx.toNat

/-- What the repetition does going up, short of the end of memory. -/
structure Stored (turns : Nat) (machine after : Machine) : Prop where
  registers : after = { machine with edi := after.edi, ecx := after.ecx, memory := after.memory }
  inside : ∀ index, index < turns → after.memory.load32 (machine.edi.toNat + 4 * index) = machine.eax.toNat
  outside : ∀ place, place < machine.edi.toNat ∨ machine.edi.toNat + 4 * turns ≤ place →
    after.memory place = machine.memory place

theorem stosdTurns_stored (turns : Nat) (machine : Machine) (upward : ¬machine.Downward)
    (fits : machine.edi.toNat + 4 * turns ≤ 4294967296) : Stored turns machine (machine.stosdTurns turns) := by
  induction turns generalizing machine with
  | zero => exact ⟨rfl, fun _ none => absurd none (Nat.not_lt_zero _), fun _ _ => rfl⟩
  | succ turns ih =>
      let next : Machine := { machine.stosd with ecx := machine.ecx - 1 }
      have moved : next.edi = machine.edi + 4 := if_neg upward
      have stored (place : Nat) : next.memory place =
          machine.memory.store32 machine.edi.toNat machine.eax.toNat place := rfl
      show Stored (turns + 1) machine (next.stosdTurns turns)
      cases turns with
      | zero =>
          refine ⟨rfl, fun index below => ?_, fun place beyond => ?_⟩
          · obtain rfl : index = 0 := by omega
            exact Memory.load32_store32_of_lt machine.eax.toNat_lt
          · exact Memory.store32_of_outside (by omega)
      | succ turns =>
          have further : next.edi.toNat = machine.edi.toNat + 4 := by
            rw [moved, UInt32.toNat_add]
            exact Nat.mod_eq_of_lt (show machine.edi.toNat + 4 < 2 ^ 32 by omega)
          have rest := ih next upward (by omega)
          generalize next.stosdTurns (turns + 1) = after at rest ⊢
          refine ⟨rest.registers, fun index below => ?_, fun place beyond => ?_⟩
          · cases index with
            | zero =>
                have kept : after.memory.load32 machine.edi.toNat = next.memory.load32 machine.edi.toNat :=
                  Memory.load32_congr fun place low high => rest.outside place (by omega)
                rw [Nat.mul_zero, Nat.add_zero, kept]
                exact Memory.load32_store32_of_lt machine.eax.toNat_lt
            | succ index =>
                have word := rest.inside index (by omega)
                rw [further] at word
                rw [show machine.edi.toNat + 4 * (index + 1) = machine.edi.toNat + 4 + 4 * index by omega]
                exact word
          · rw [rest.outside place (by omega), stored]
            exact Memory.store32_of_outside (by omega)

end ShedKernel.Foundation.X86.Machine
