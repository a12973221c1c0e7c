import Mathlib.Data.List.Basic
import Mathlib.Data.List.InsertIdx
import ShedKernel.Foundation.ByteMemory

/-! Arrays of records of two 32-bit words each. -/

set_option autoImplicit false

namespace ShedKernel.Foundation

/-- The record at every index, as the pair of its words. -/
def Records (memory : Memory) (start : Nat) (records : List (Nat × Nat)) : Prop :=
  ∀ index record, records[index]? = some record →
    memory.load32 (start + 8 * index) = record.1 ∧
      memory.load32 (start + 8 * index + 4) = record.2

namespace Records

variable {memory changed : Memory} {start target place : Nat} {records : List (Nat × Nat)}

theorem nil (memory : Memory) (start : Nat) : Records memory start [] := by
  intro index record found
  simp at found

/-- Two words move with their eight bytes. -/
private theorem words_moved {place new : Nat}
    (same : ∀ byte, byte < 8 → changed (new + byte) = memory (place + byte)) :
    changed.load32 new = memory.load32 place ∧
      changed.load32 (new + 4) = memory.load32 (place + 4) := by
  have b0 := same 0 (by decide)
  have b1 := same 1 (by decide)
  have b2 := same 2 (by decide)
  have b3 := same 3 (by decide)
  have b4 := same 4 (by decide)
  have b5 := same 5 (by decide)
  have b6 := same 6 (by decide)
  have b7 := same 7 (by decide)
  simp only [Nat.add_zero] at b0
  simp only [Memory.load32, Nat.add_assoc, Nat.reduceAdd, b0, b1, b2, b3, b4, b5, b6, b7, and_self]

theorem moved (held : Records memory start records)
    (same : ∀ byte, byte < 8 * records.length → changed (target + byte) = memory (start + byte)) :
    Records changed target records := by
  intro index record found
  have inside := (List.getElem?_eq_some_iff.mp found).1
  have words := @words_moved memory changed (start + 8 * index) (target + 8 * index)
    fun byte small => by
      have moved := same (8 * index + byte) (by omega)
      rwa [← Nat.add_assoc, ← Nat.add_assoc] at moved
  rw [words.1, words.2]
  exact held index record found

/-- Moving the records from `place` on one up, and a new record in the gap. -/
theorem insert (held : Records memory start records)
    (before : ∀ byte, byte < 8 * place → changed (start + byte) = memory (start + byte))
    (after : ∀ byte, 8 * place ≤ byte → byte < 8 * records.length →
      changed (start + 8 + byte) = memory (start + byte))
    (record : Nat × Nat) (first : changed.load32 (start + 8 * place) = record.1)
    (second : changed.load32 (start + 8 * place + 4) = record.2) :
    Records changed start (records.insertIdx place record) := by
  intro index other found
  rw [List.getElem?_insertIdx] at found
  split at found
  · next lower =>
      have words := @words_moved memory changed (start + 8 * index) (start + 8 * index)
        fun byte small => by
          have kept := before (8 * index + byte) (by omega)
          rwa [← Nat.add_assoc] at kept
      rw [words.1, words.2]
      exact held index other found
  · split at found
    · next here =>
        split at found
        · obtain rfl := Option.some.inj found
          rw [here]
          exact ⟨first, second⟩
        · cases found
    · next higher =>
        have old := (List.getElem?_eq_some_iff.mp found).1
        have words := @words_moved memory changed (start + 8 * (index - 1)) (start + 8 * index)
          fun byte small => by
            have shifted := after (8 * (index - 1) + byte) (by omega) (by omega)
            rw [← Nat.add_assoc, ← Nat.add_assoc] at shifted
            rw [show start + 8 * index + byte = start + 8 + 8 * (index - 1) + byte by omega]
            exact shifted
        rw [words.1, words.2]
        exact held (index - 1) other found

/-- Moving the records behind `place` one down. -/
theorem erase (held : Records memory start records)
    (before : ∀ byte, byte < 8 * place → changed (start + byte) = memory (start + byte))
    (after : ∀ byte, 8 * place ≤ byte → byte + 8 < 8 * records.length →
      changed (start + byte) = memory (start + 8 + byte)) :
    Records changed start (records.eraseIdx place) := by
  intro index other found
  rw [List.getElem?_eraseIdx] at found
  split at found
  · next lower =>
      have old := (List.getElem?_eq_some_iff.mp found).1
      have words := @words_moved memory changed (start + 8 * index) (start + 8 * index)
        fun byte small => by
          have kept := before (8 * index + byte) (by omega)
          rwa [← Nat.add_assoc] at kept
      rw [words.1, words.2]
      exact held index other found
  · next higher =>
      have old := (List.getElem?_eq_some_iff.mp found).1
      have words := @words_moved memory changed (start + 8 * (index + 1)) (start + 8 * index)
        fun byte small => by
          have shifted := after (8 * index + byte) (by omega) (by omega)
          rw [← Nat.add_assoc, ← Nat.add_assoc] at shifted
          rw [show start + 8 * (index + 1) + byte = start + 8 + 8 * index + byte by omega]
          exact shifted
      rw [words.1, words.2]
      exact held (index + 1) other found

/-- New words in one record. -/
theorem set (held : Records memory start records)
    (same : ∀ byte, byte < 8 * records.length → byte < 8 * place ∨ 8 * place + 8 ≤ byte →
      changed (start + byte) = memory (start + byte))
    (record : Nat × Nat) (first : changed.load32 (start + 8 * place) = record.1)
    (second : changed.load32 (start + 8 * place + 4) = record.2) :
    Records changed start (records.set place record) := by
  intro index other found
  rw [List.getElem?_set] at found
  split at found
  · next here =>
      split at found
      · obtain rfl := Option.some.inj found
        rw [← here]
        exact ⟨first, second⟩
      · cases found
  · next different =>
      have inside := (List.getElem?_eq_some_iff.mp found).1
      have words := @words_moved memory changed (start + 8 * index) (start + 8 * index)
        fun byte small => by
          have kept := same (8 * index + byte) (by omega) (by omega)
          rwa [← Nat.add_assoc] at kept
      rw [words.1, words.2]
      exact held index other found

end Records

end ShedKernel.Foundation
