import ShedKernel.Foundation.ByteMemory

/-! The interrupt table of the x86: the eight bytes of a gate, with the offset of the handler
in bytes 0, 1, 6 and 7, the selector in bytes 2 and 3 and the attributes in byte 5; and
which gates an interrupt can go through. -/

set_option autoImplicit false

namespace ShedKernel.Foundation

@[ext]
structure InterruptGate where
  offset : UInt32
  selector : UInt16
  attributes : UInt8

namespace InterruptGate

def decode (memory : Memory) (address : Nat) : InterruptGate where
  offset := UInt32.ofNat ((memory address).toNat + 256 * (memory (address + 1)).toNat +
    65536 * (memory (address + 6)).toNat + 16777216 * (memory (address + 7)).toNat)
  selector := UInt16.ofNat ((memory (address + 2)).toNat + 256 * (memory (address + 3)).toNat)
  attributes := memory (address + 5)

/-- Only the eight bytes matter. -/
theorem decode_congr {memory changed : Memory} {address : Nat}
    (same : ∀ other, address ≤ other → other < address + 8 → changed other = memory other) :
    decode changed address = decode memory address := by
  ext1 <;> simp (disch := omega) only [decode, same]

def Present (gate : InterruptGate) : Prop := 128 ≤ gate.attributes.toNat

/-- The outermost ring that may name the gate in an `int` instruction. -/
def privilege (gate : InterruptGate) : Nat := gate.attributes.toNat / 32 % 4

/-- The gate clears the interrupt flag on the way in; a trap gate does not. -/
def ClosesInterrupts (gate : InterruptGate) : Prop := gate.attributes.toNat % 32 = 0x0E

instance (gate : InterruptGate) : Decidable gate.Present := inferInstanceAs (Decidable (_ ≤ _))

instance (gate : InterruptGate) : Decidable gate.ClosesInterrupts := inferInstanceAs (Decidable (_ = _))

/-- A present gate to 32-bit code: an interrupt gate or a trap gate. -/
def Usable (gate : InterruptGate) : Prop :=
  gate.Present ∧ (gate.ClosesInterrupts ∨ gate.attributes.toNat % 32 = 0x0F)

instance (gate : InterruptGate) : Decidable gate.Usable := inferInstanceAs (Decidable (_ ∧ _))

end InterruptGate

/-- What `lidt` loads: the table's last byte and its first. -/
structure TableRegister where
  limit : Nat
  base : Nat

namespace TableRegister

/-- The six bytes of the operand of `lidt`. -/
def decode (memory : Memory) (address : Nat) : TableRegister where
  limit := (memory address).toNat + 256 * (memory (address + 1)).toNat
  base := memory.load32 (address + 2)

variable (table : TableRegister) (memory : Memory)

/-- The gate that an interrupt of a device goes through. -/
def gate (vector : UInt8) : Option InterruptGate :=
  let gate := InterruptGate.decode memory (table.base + 8 * vector.toNat)
  if 8 * vector.toNat + 7 ≤ table.limit ∧ gate.Usable then some gate else none

/-- The gate that `int vector` in ring `ring` goes through. -/
def gateFrom (ring : Nat) (vector : UInt8) : Option InterruptGate :=
  (table.gate memory vector).filter fun gate => ring ≤ gate.privilege

theorem gate_of_usable {vector : UInt8} {gate : InterruptGate} (inside : 8 * vector.toNat + 7 ≤ table.limit)
    (decoded : InterruptGate.decode memory (table.base + 8 * vector.toNat) = gate) (usable : gate.Usable) :
    table.gate memory vector = some gate := by
  rw [TableRegister.gate, decoded]
  exact if_pos ⟨inside, usable⟩

/-- Eight zero bytes are no gate. -/
theorem gate_of_zero {vector : UInt8}
    (zero : memory (table.base + 8 * vector.toNat + 5) = 0) : table.gate memory vector = none := by
  refine if_neg fun found => ?_
  have present := found.2.1
  rw [InterruptGate.Present, InterruptGate.decode] at present
  dsimp only at present
  rw [zero] at present
  exact absurd present (by decide)

end TableRegister

end ShedKernel.Foundation
