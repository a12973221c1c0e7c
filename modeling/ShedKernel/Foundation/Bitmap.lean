import Mathlib.Data.Nat.Bitwise
import ShedKernel.Foundation.ByteMemory

/-! Bitmaps in a byte memory, bit `index` being bit `index % 8` of byte
`index / 8`, and the number of clear bits among the first ones. -/

set_option autoImplicit false

namespace ShedKernel.Foundation

namespace Memory

def bitMask (index : Nat) : UInt8 := 1 <<< UInt8.ofNat (index % 8)

def bit (memory : Memory) (base index : Nat) : Bool :=
  memory (base + index / 8) &&& bitMask index != 0

def setBit (memory : Memory) (base index : Nat) : Memory :=
  memory.storeByte (base + index / 8) (memory (base + index / 8) ||| bitMask index)

def clearBit (memory : Memory) (base index : Nat) : Memory :=
  memory.storeByte (base + index / 8) (memory (base + index / 8) &&& ~~~bitMask index)

/-- The number of clear bits below `count`. -/
def clearBits (memory : Memory) (base count : Nat) : Nat :=
  (List.range count).countP fun index => !memory.bit base index

private theorem bitMask_getLsbD (index position : Nat) (small : position < 8) :
    (bitMask index).toBitVec.getLsbD position = decide (position = index % 8) := by
  have bounded : index % 8 < 8 := Nat.mod_lt _ (by decide)
  unfold bitMask
  generalize index % 8 = shift at bounded
  revert small bounded position shift
  decide

private theorem and_bitMask_ne_zero (byte : UInt8) (index : Nat) :
    (byte &&& bitMask index != 0) = byte.toBitVec.getLsbD (index % 8) := by
  have bounded : index % 8 < 8 := Nat.mod_lt _ (by decide)
  have mask := fun position small => bitMask_getLsbD index position small
  rw [Bool.eq_iff_iff, bne_iff_ne, ne_eq, ← UInt8.toBitVec_inj, UInt8.toBitVec_and]
  constructor
  · intro nonzero
    by_contra clear
    refine nonzero (BitVec.eq_of_getLsbD_eq fun position small => ?_)
    rw [BitVec.getLsbD_and, mask position small]
    by_cases same : position = index % 8
    · subst same
      simpa using clear
    · simp [same]
  · intro set zero
    have here := congrArg (fun bits => bits.getLsbD (index % 8)) zero
    simp only [BitVec.getLsbD_and, mask _ bounded, set] at here
    simp at here

theorem bit_eq_testBit (memory : Memory) (base index : Nat) :
    memory.bit base index = (memory (base + index / 8)).toNat.testBit (index % 8) :=
  and_bitMask_ne_zero _ index

/-- A bit that was clear is clear again. -/
theorem clearBit_setBit {memory : Memory} {base index : Nat} (clear : memory.bit base index = false) :
    (memory.setBit base index).clearBit base index = memory := by
  have disjoint : memory (base + index / 8) &&& bitMask index = 0 := by simpa [bit] using clear
  have restored : (memory (base + index / 8) ||| bitMask index) &&& ~~~bitMask index =
      memory (base + index / 8) := by
    rw [← UInt8.toBitVec_inj] at disjoint ⊢
    refine BitVec.eq_of_getLsbD_eq fun position small => ?_
    have here := congrArg (fun bits => bits.getLsbD position) disjoint
    simp only [UInt8.toBitVec_and, UInt8.toBitVec_or, UInt8.toBitVec_not, BitVec.getLsbD_and, BitVec.getLsbD_or,
      BitVec.getLsbD_not, small, decide_true, Bool.true_and] at here ⊢
    cases byte : (memory (base + index / 8)).toBitVec.getLsbD position <;>
      cases mask : (bitMask index).toBitVec.getLsbD position <;> simp_all
  funext other
  by_cases same : other = base + index / 8
  · subst same
    rw [clearBit, storeByte_self, setBit, storeByte_self]
    exact restored
  · rw [clearBit, storeByte_of_ne same, setBit, storeByte_of_ne same]

theorem bit_congr {first second : Memory} {base index : Nat}
    (same : first (base + index / 8) = second (base + index / 8)) :
    first.bit base index = second.bit base index := by
  unfold bit
  rw [same]

theorem bit_setBit (memory : Memory) (base index other : Nat) :
    (memory.setBit base index).bit base other = (decide (other = index) || memory.bit base other) := by
  by_cases sameByte : other / 8 = index / 8
  · have bounded : other % 8 < 8 := Nat.mod_lt _ (by decide)
    have sameBit : other % 8 = index % 8 ↔ other = index := by omega
    unfold setBit bit
    rw [sameByte, storeByte_self, and_bitMask_ne_zero, and_bitMask_ne_zero, UInt8.toBitVec_or,
      BitVec.getLsbD_or, bitMask_getLsbD index _ bounded, Bool.or_comm]
    simp only [sameBit]
  · have different : other ≠ index := fun same => sameByte (by rw [same])
    have elsewhere : memory.setBit base index (base + other / 8) = memory (base + other / 8) :=
      storeByte_of_ne (by omega)
    rw [bit_congr elsewhere]
    simp [different]

theorem bit_clearBit (memory : Memory) (base index other : Nat) :
    (memory.clearBit base index).bit base other =
      (decide (other ≠ index) && memory.bit base other) := by
  by_cases sameByte : other / 8 = index / 8
  · have bounded : other % 8 < 8 := Nat.mod_lt _ (by decide)
    have sameBit : other % 8 = index % 8 ↔ other = index := by omega
    unfold clearBit bit
    rw [sameByte, storeByte_self, and_bitMask_ne_zero, and_bitMask_ne_zero, UInt8.toBitVec_and,
      UInt8.toBitVec_not, BitVec.getLsbD_and, BitVec.getLsbD_not,
      bitMask_getLsbD index _ bounded, Bool.and_comm]
    simp [bounded, sameBit]
  · have different : other ≠ index := fun same => sameByte (by rw [same])
    have elsewhere : memory.clearBit base index (base + other / 8) = memory (base + other / 8) :=
      storeByte_of_ne (by omega)
    rw [bit_congr elsewhere]
    simp [different]

/-- Two predicates that differ at one place only count apart by one. -/
theorem countP_range_flip {before after : Nat → Bool} {count index : Nat} (inside : index < count)
    (held : before index = true) (lost : after index = false)
    (same : ∀ other, other ≠ index → after other = before other) :
    (List.range count).countP after + 1 = (List.range count).countP before := by
  induction count with
  | zero => omega
  | succ count ih =>
      simp only [List.range_succ, List.countP_append, List.countP_singleton]
      by_cases last : index = count
      · subst last
        have front : (List.range index).countP after = (List.range index).countP before :=
          List.countP_congr fun other member => by
            rw [same other (by have := List.mem_range.mp member; omega)]
        rw [held, lost, front]
        simp
      · have front := ih (by omega)
        rw [same count (Ne.symm last)]
        omega

theorem clearBits_setBit {memory : Memory} {base count index : Nat} (inside : index < count)
    (clear : memory.bit base index = false) :
    (memory.setBit base index).clearBits base count + 1 = memory.clearBits base count := by
  refine countP_range_flip inside (by rw [clear]; rfl) (by simp [bit_setBit]) fun other different => ?_
  simp [bit_setBit, different]

theorem clearBits_clearBit {memory : Memory} {base count index : Nat} (inside : index < count)
    (set : memory.bit base index = true) :
    (memory.clearBit base index).clearBits base count = memory.clearBits base count + 1 := by
  refine (countP_range_flip inside (by simp [bit_clearBit]) (by rw [set]; rfl)
    fun other different => ?_).symm
  simp [bit_clearBit, different]

theorem clearBits_le (memory : Memory) (base count : Nat) : memory.clearBits base count ≤ count := by
  have bounded := @List.countP_le_length _ (fun index => !memory.bit base index) (List.range count)
  rwa [List.length_range] at bounded

theorem clearBits_congr {first second : Memory} {base count : Nat}
    (same : ∀ index, index < count → first.bit base index = second.bit base index) :
    first.clearBits base count = second.clearBits base count :=
  List.countP_congr fun index member => by rw [same index (List.mem_range.mp member)]

theorem clearBits_of_clear {memory : Memory} {base count : Nat}
    (clear : ∀ index, index < count → memory.bit base index = false) :
    memory.clearBits base count = count := by
  have all : (List.range count).countP (fun index => !memory.bit base index) =
      (List.range count).length :=
    List.countP_eq_length.mpr fun index member => by
      rw [clear index (List.mem_range.mp member)]
      rfl
  rw [clearBits, all, List.length_range]

end Memory

end ShedKernel.Foundation
