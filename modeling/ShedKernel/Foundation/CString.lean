import ShedKernel.Foundation.ByteMemory
import Mathlib.Data.List.GetD

/-! NUL-terminated strings in a byte memory. -/

set_option autoImplicit false

namespace ShedKernel.Foundation

/-- The bytes of a C string in front of its terminator. -/
structure CString where
  bytes : List UInt8
  terminated : 0 ∉ bytes
  deriving DecidableEq

namespace Memory

/-- `strcmp(address, text) == 0`, for a string in memory and one given by its bytes. -/
def strcmpEqual (memory : Memory) (address : Nat) : List UInt8 → Bool
  | [] => memory address == 0
  | byte :: rest => memory address == byte && strcmpEqual memory (address + 1) rest

/-- The string at `address` is `text`. -/
def HoldsString (memory : Memory) : Nat → List UInt8 → Prop
  | address, [] => memory address = 0
  | address, byte :: rest =>
      memory address = byte ∧ byte ≠ 0 ∧ HoldsString memory (address + 1) rest

instance holdsStringDecidable (memory : Memory) :
    ∀ address text, Decidable (memory.HoldsString address text)
  | address, [] => inferInstanceAs (Decidable (memory address = 0))
  | address, byte :: rest =>
      have := holdsStringDecidable memory (address + 1) rest
      inferInstanceAs (Decidable (memory address = byte ∧ byte ≠ 0 ∧
        memory.HoldsString (address + 1) rest))

/-- The bytes in front of the first NUL among `turns` many. -/
def stringAt (memory : Memory) (address : Nat) : Nat → List UInt8
  | 0 => []
  | turns + 1 =>
      if memory address = 0 then [] else memory address :: stringAt memory (address + 1) turns

def storeBytes (memory : Memory) (address : Nat) : List UInt8 → Memory
  | [] => memory
  | byte :: rest => storeBytes (memory.storeByte address byte) (address + 1) rest

private theorem notMem_cons {byte other : UInt8} {rest : List UInt8} :
    byte ∉ other :: rest ↔ byte ≠ other ∧ byte ∉ rest := by
  rw [List.mem_cons, not_or]

theorem strcmpEqual_iff {memory : Memory} {address : Nat} {text : List UInt8} (proper : 0 ∉ text) :
    memory.strcmpEqual address text = true ↔ memory.HoldsString address text := by
  induction text generalizing address with
  | nil => simp [strcmpEqual, HoldsString]
  | cons byte rest ih =>
      obtain ⟨nonzero, later⟩ := notMem_cons.mp proper
      simp [strcmpEqual, HoldsString, ih later, Ne.symm nonzero]

namespace HoldsString

variable {memory changed : Memory} {address : Nat} {text other : List UInt8}

theorem proper (holds : memory.HoldsString address text) : 0 ∉ text := by
  induction text generalizing address with
  | nil => simp
  | cons byte rest ih =>
      exact notMem_cons.mpr ⟨Ne.symm holds.2.1, ih holds.2.2⟩

theorem unique (holds : memory.HoldsString address text) (also : memory.HoldsString address other) :
    text = other := by
  induction text generalizing address other with
  | nil =>
      cases other with
      | nil => rfl
      | cons byte rest => exact absurd (also.1.symm.trans holds) also.2.1
  | cons byte rest ih =>
      cases other with
      | nil => exact absurd (holds.1.symm.trans also) holds.2.1
      | cons otherByte otherRest =>
          rw [ih holds.2.2 also.2.2, holds.1.symm.trans also.1]

theorem congr (holds : memory.HoldsString address text)
    (same : ∀ place, address ≤ place → place < address + text.length + 1 →
      changed place = memory place) : changed.HoldsString address text := by
  induction text generalizing address with
  | nil => exact (same address (Nat.le_refl _) (by simp)).trans holds
  | cons byte rest ih =>
      simp only [List.length_cons] at same
      refine ⟨(same address (Nat.le_refl _) (by omega)).trans holds.1, holds.2.1, ih holds.2.2 ?_⟩
      exact fun place _ _ => same place (by omega) (by omega)

/-- The bytes of a string one by one. -/
theorem bytes_iff : memory.HoldsString address text ↔
    0 ∉ text ∧ (∀ index, index < text.length → memory (address + index) = text.getD index 0) ∧
      memory (address + text.length) = 0 := by
  induction text generalizing address with
  | nil => simp [HoldsString]
  | cons byte rest ih =>
      rw [HoldsString, ih, notMem_cons]
      constructor
      · rintro ⟨first, nonzero, proper, bytes, last⟩
        refine ⟨⟨Ne.symm nonzero, proper⟩, fun index inside => ?_, ?_⟩
        · cases index with
          | zero => exact first
          | succ index =>
              have byteAt := bytes index (Nat.lt_of_succ_lt_succ inside)
              rwa [Nat.add_assoc, Nat.add_comm 1] at byteAt
        · rwa [Nat.add_assoc, Nat.add_comm 1] at last
      · rintro ⟨⟨nonzero, proper⟩, bytes, last⟩
        refine ⟨bytes 0 (Nat.succ_pos _), Ne.symm nonzero, proper, fun index inside => ?_, ?_⟩
        · rw [Nat.add_assoc, Nat.add_comm 1]
          exact bytes (index + 1) (Nat.succ_lt_succ inside)
        · rwa [Nat.add_assoc, Nat.add_comm 1]

theorem snoc {byte : UInt8} (holds : memory.HoldsString address text) (nonzero : byte ≠ 0) :
    ((memory.storeByte (address + text.length) byte).storeByte (address + text.length + 1) 0).HoldsString
      address (text ++ [byte]) := by
  obtain ⟨proper, bytes, _⟩ := bytes_iff.mp holds
  refine bytes_iff.mpr ⟨by simp [proper, Ne.symm nonzero], fun index inside => ?_, ?_⟩
  · rw [List.length_append, List.length_singleton] at inside
    rw [storeByte_of_ne (by omega)]
    by_cases last : index = text.length
    · subst last
      rw [storeByte_self, List.getD_append_right _ _ _ _ (Nat.le_refl _), Nat.sub_self]
      rfl
    · rw [storeByte_of_ne (by omega), bytes index (by omega), List.getD_append _ _ _ _ (by omega)]
  · rw [List.length_append, List.length_singleton, ← Nat.add_assoc, storeByte_self]

/-- A terminator in place of the last byte. -/
theorem dropLast (holds : memory.HoldsString address text) (nonempty : 0 < text.length) :
    (memory.storeByte (address + (text.length - 1)) 0).HoldsString address text.dropLast := by
  obtain ⟨proper, bytes, _⟩ := bytes_iff.mp holds
  refine bytes_iff.mpr ⟨fun member => proper (List.dropLast_subset _ member), fun index inside => ?_, ?_⟩
  · rw [List.length_dropLast] at inside
    rw [storeByte_of_ne (by omega), bytes index (by omega), List.getD_eq_getElem _ _ (by omega),
      List.getD_eq_getElem _ _ (by rw [List.length_dropLast]; omega), List.getElem_dropLast]
  · rw [List.length_dropLast, storeByte_self]

/-- Reading back a string, with enough turns. -/
theorem stringAt_eq (holds : memory.HoldsString address text) {turns : Nat} (enough : text.length < turns) :
    memory.stringAt address turns = text := by
  induction text generalizing address turns with
  | nil =>
      obtain ⟨turns, rfl⟩ := Nat.exists_eq_succ_of_ne_zero (Nat.ne_of_gt enough)
      exact if_pos holds
  | cons byte rest ih =>
      obtain ⟨turns, rfl⟩ := Nat.exists_eq_succ_of_ne_zero (Nat.ne_of_gt (Nat.lt_trans (Nat.succ_pos _) enough))
      rw [stringAt, if_neg (holds.1 ▸ holds.2.1), holds.1,
        ih holds.2.2 (Nat.lt_of_succ_lt_succ enough)]

end HoldsString

/-- A NUL ends some string. -/
theorem exists_holdsString {memory : Memory} {address length : Nat} (terminated : memory (address + length) = 0) :
    ∃ text, memory.HoldsString address text ∧ text.length ≤ length := by
  induction length generalizing address with
  | zero => exact ⟨[], terminated, Nat.le_refl _⟩
  | succ length ih =>
      by_cases ended : memory address = 0
      · exact ⟨[], ended, Nat.zero_le _⟩
      · obtain ⟨rest, holds, bounded⟩ := @ih (address + 1) (by rwa [Nat.add_assoc, Nat.add_comm 1])
        exact ⟨memory address :: rest, ⟨rfl, ended, holds⟩, Nat.succ_le_succ bounded⟩

theorem stringAt_proper (memory : Memory) (address turns : Nat) : 0 ∉ memory.stringAt address turns := by
  induction turns generalizing address with
  | zero => exact List.not_mem_nil
  | succ turns ih =>
      unfold stringAt
      split
      · exact List.not_mem_nil
      · next nonzero => exact notMem_cons.mpr ⟨Ne.symm nonzero, ih _⟩

theorem storeBytes_append (memory : Memory) (address : Nat) (first second : List UInt8) :
    memory.storeBytes address (first ++ second) =
      (memory.storeBytes address first).storeBytes (address + first.length) second := by
  induction first generalizing memory address with
  | nil => rfl
  | cons byte rest ih =>
      rw [List.cons_append, storeBytes, ih, storeBytes, List.length_cons, Nat.add_assoc,
        Nat.add_comm 1]

theorem storeBytes_of_outside {memory : Memory} {address other : Nat} {bytes : List UInt8}
    (outside : other < address ∨ address + bytes.length ≤ other) :
    memory.storeBytes address bytes other = memory other := by
  induction bytes generalizing memory address with
  | nil => rfl
  | cons byte rest ih =>
      simp only [List.length_cons] at outside
      rw [storeBytes, ih (by omega), storeByte_of_ne (by omega)]

theorem storeBytes_of_inside {memory : Memory} {address index : Nat} {bytes : List UInt8}
    (inside : index < bytes.length) :
    memory.storeBytes address bytes (address + index) = bytes.getD index 0 := by
  induction bytes generalizing memory address index with
  | nil => cases inside
  | cons byte rest ih =>
      cases index with
      | zero =>
          rw [Nat.add_zero, storeBytes, storeBytes_of_outside (.inl (Nat.lt_succ_self _)), storeByte_self]
          rfl
      | succ index =>
          rw [storeBytes, ← Nat.add_assoc, Nat.add_right_comm, ih (Nat.lt_of_succ_lt_succ inside)]
          rfl

/-- A string stored with its terminator is the string held there. -/
theorem storeBytes_holdsString (memory : Memory) (address : Nat) {text : List UInt8}
    (proper : 0 ∉ text) :
    (memory.storeBytes address (text ++ [0])).HoldsString address text := by
  induction text generalizing memory address with
  | nil => simp [storeBytes, HoldsString]
  | cons byte rest ih =>
      obtain ⟨nonzero, later⟩ := notMem_cons.mp proper
      refine ⟨?_, Ne.symm nonzero, ih (memory.storeByte address byte) (address + 1) later⟩
      rw [List.cons_append, storeBytes, storeBytes_of_outside (.inl (by omega)), storeByte_self]

end Memory

end ShedKernel.Foundation
