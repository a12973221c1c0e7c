import ShedKernel.Editor.RowRefusals
import ShedKernel.Foundation.Records
import ShedKernel.Foundation.TextCursor
import ShedKernel.Heap.Ownership

/-! The blocks behind the rows of the editor: the array and one block a row, owned by the
editor. An operation works on the array and one row while the other rows stay untouched. -/

set_option autoImplicit false

namespace ShedKernel.Editor

open Foundation Heap Strings

/-- A row with its characters and its block. -/
structure HeapRow where
  chars : Nat
  room : Nat
  text : List UInt8

namespace HeapRow

def chunk (row : HeapRow) : Chunk := ⟨row.chars, row.room⟩

/-- The two fields of its `erow`. -/
def record (row : HeapRow) : Nat × Nat := (row.text.length, row.chars)

structure Holds (row : HeapRow) (memory : Memory) : Prop where
  bytes : Memory.bytesAt memory row.chars row.text.length = row.text
  ended : memory (row.chars + row.text.length) = 0
  fits : row.text.length < row.room

namespace Holds

variable {row : HeapRow} {memory changed : Memory} {chars room place : Nat} {text : List UInt8}

theorem moved (holds : row.Holds memory) (enough : row.room ≤ room)
    (same : ∀ index, index < row.room → changed (chars + index) = memory (row.chars + index)) :
    Holds ⟨chars, room, row.text⟩ changed where
  bytes := by
    have fits := holds.fits
    refine Eq.trans (List.map_congr_left fun index member => ?_) holds.bytes
    have inside : index < row.text.length := List.mem_range.mp member
    exact same index (by omega)
  ended := (same _ holds.fits).trans holds.ended
  fits := Nat.lt_of_lt_of_le holds.fits enough

theorem congr (holds : row.Holds memory)
    (same : ∀ index, index < row.room → changed (row.chars + index) = memory (row.chars + index)) :
    row.Holds changed :=
  holds.moved le_rfl same

/-- A text that is there, and a terminator behind it. -/
theorem terminate (bytes : Memory.bytesAt memory chars text.length = text)
    (roomy : text.length < room) :
    Holds ⟨chars, room, text⟩ (memory.storeByte (chars + text.length) 0) where
  bytes := by
    have same : ∀ index, index < text.length →
        memory.storeByte (chars + text.length) 0 (chars + index) = memory (chars + index) :=
      fun index inside => Memory.storeByte_of_ne (by omega)
    exact (Memory.bytesAt_congr same).trans bytes
  ended := Memory.storeByte_self _ _ _
  fits := roomy

/-- The characters from `place` on and the terminator moved one up. -/
theorem insertChar {byte : UInt8} (holds : Holds ⟨chars, room, text⟩ memory)
    (roomy : text.length + 1 < room) (inside : place ≤ text.length) :
    Holds ⟨chars, room, text.insertIdx place byte⟩
      ((memmove memory (chars + (place + 1)) (chars + place) (text.length - place + 1)).storeByte
        (chars + place) byte) := by
  have shifted : ∀ index, place ≤ index → index ≤ text.length →
      memmove memory (chars + (place + 1)) (chars + place) (text.length - place + 1)
        (chars + (index + 1)) = memory (chars + index) := by
    intro index low high
    have moved := @memmove_inside memory (chars + (place + 1)) (chars + place)
      (text.length - place + 1) (index - place) (by omega)
    rwa [show chars + (place + 1) + (index - place) = chars + (index + 1) by omega,
      show chars + place + (index - place) = chars + index by omega] at moved
  have length : (text.insertIdx place byte).length = text.length + 1 :=
    List.length_insertIdx_of_le_length inside byte
  have bytes : Memory.bytesAt memory chars text.length = text := holds.bytes
  refine ⟨?_, ?_, by simpa only [length] using roomy⟩
  · simp only [length]
    refine Memory.bytesAt_insertIdx bytes inside ?_ (Memory.storeByte_self _ _ _) ?_
    · intro index lower
      rw [Memory.storeByte_of_ne (by omega), memmove_outside (.inl (by omega))]
    · intro index low high
      rw [Memory.storeByte_of_ne (by omega)]
      exact shifted index low (Nat.le_of_lt high)
  · simp only [length]
    rw [Memory.storeByte_of_ne (by omega), shifted text.length inside le_rfl]
    exact holds.ended

/-- The characters behind `place` and the terminator moved one down. -/
theorem delChar (holds : Holds ⟨chars, room, text⟩ memory) (inside : place < text.length) :
    Holds ⟨chars, room, text.eraseIdx place⟩
      (memmove memory (chars + place) (chars + (place + 1)) (text.length - place)) := by
  have fits := holds.fits
  simp only at fits
  have shifted : ∀ index, place ≤ index → index < text.length →
      memmove memory (chars + place) (chars + (place + 1)) (text.length - place)
        (chars + index) = memory (chars + (index + 1)) := by
    intro index low high
    have moved := @memmove_inside memory (chars + place) (chars + (place + 1))
      (text.length - place) (index - place) (by omega)
    rwa [show chars + (place + 1) + (index - place) = chars + (index + 1) by omega,
      show chars + place + (index - place) = chars + index by omega] at moved
  have length : (text.eraseIdx place).length = text.length - 1 :=
    List.length_eraseIdx_of_lt inside
  have bytes : Memory.bytesAt memory chars text.length = text := holds.bytes
  refine ⟨?_, ?_, by simp only [length]; omega⟩
  · simp only [length]
    refine Memory.bytesAt_eraseIdx bytes inside ?_ ?_
    · intro index lower
      exact memmove_outside (.inl (by omega))
    · intro index low high
      exact shifted index low (by omega)
  · simp only [length]
    have last := shifted (text.length - 1) (by omega) (by omega)
    rw [last, Nat.sub_add_cancel (by omega)]
    exact holds.ended

end Holds

end HeapRow

/-- The store keeps `rows`, in blocks of its own. -/
structure HoldsRows (area : Area) (begun : List Block) (store : RowStore)
    (array : Option Chunk) (rows : List HeapRow) : Prop where
  owns : Owns area begun store.memory (array.toList ++ rows.map HeapRow.chunk)
  pointer : store.rows = array.elim nullPointer Chunk.p
  numrows : store.numrows = rows.length
  space : 8 * rows.length ≤ array.elim 0 Chunk.size
  records : Records store.memory store.rows (rows.map HeapRow.record)
  holds : ∀ row ∈ rows, row.Holds store.memory

/-- The blocks of the rows but the one at work. -/
def otherChunks (front back : List HeapRow) : List Chunk := (front ++ back).map HeapRow.chunk

/-- Work on the row between `front` and `back`: `record` is its `erow`, its block is `row`,
and the blocks of the other rows are as they were at `start`. -/
structure Editing (area : Area) (begun : List Block) (front back : List HeapRow)
    (start memory : Memory) (array row : Chunk) (record : Nat × Nat) : Prop where
  owns : Owns area begun memory (array :: row :: otherChunks front back)
  space : 8 * (front.length + 1 + back.length) ≤ array.size
  records : Records memory array.p
    (front.map HeapRow.record ++ record :: back.map HeapRow.record)
  untouched : Untouched area begun (otherChunks front back) start memory

namespace Editing

variable {area : Area} {begun : List Block} {front back : List HeapRow}
  {start memory changed : Memory} {array row : Chunk} {value : Nat} {record new : Nat × Nat}

theorem size (editing : Editing area begun front back start memory array row record) :
    Erow.size memory (array.p + sizeofErow * front.length) = record.1 :=
  (editing.records front.length record (by simp)).1

theorem chars (editing : Editing area begun front back start memory array row record) :
    Erow.chars memory (array.p + sizeofErow * front.length) = record.2 :=
  (editing.records front.length record (by simp)).2

private theorem array_kept (editing : Editing area begun front back start memory array row record)
    {own : List Chunk} (kept : Untouched area begun (array :: own) memory changed) :
    Records changed array.p (front.map HeapRow.record ++ record :: back.map HeapRow.record) := by
  refine editing.records.moved fun byte inside => kept.own array List.mem_cons_self byte ?_
  have space := editing.space
  simp only [List.length_append, List.length_cons, List.length_map] at inside
  omega

/-- Stores into the row at work. -/
theorem storeRow (editing : Editing area begun front back start memory array row record)
    (same : ∀ other, other < row.p ∨ row.p + row.size ≤ other → changed other = memory other) :
    Editing area begun front back start changed array row record := by
  obtain ⟨owns, kept⟩ := (editing.owns.perm (.swap _ _ _)).store same
  exact ⟨owns.perm (.swap _ _ _), editing.space, editing.array_kept kept,
    editing.untouched.trans (kept.mono fun chunk member => List.mem_cons_of_mem _ member)⟩

/-- Stores into the `erow` at work. -/
theorem storeRecord (editing : Editing area begun front back start memory array row record)
    (same : ∀ other, other < array.p + 8 * front.length ∨ array.p + 8 * front.length + 8 ≤ other →
      changed other = memory other)
    (first : changed.load32 (array.p + 8 * front.length) = new.1)
    (second : changed.load32 (array.p + 8 * front.length + 4) = new.2) :
    Editing area begun front back start changed array row new ∧
      ∀ index, index < row.size → changed (row.p + index) = memory (row.p + index) := by
  have space := editing.space
  have inArray : ∀ other, other < array.p ∨ array.p + array.size ≤ other →
      changed other = memory other :=
    fun other outside => same other (by omega)
  obtain ⟨owns, kept⟩ := editing.owns.store inArray
  refine ⟨⟨owns, space, ?_, ?_⟩, kept.own row List.mem_cons_self⟩
  · have edited := editing.records.set (fun byte _ apart => same _ (by omega)) new first second
    rwa [← List.length_map HeapRow.record, set_append] at edited
  · exact editing.untouched.trans (kept.mono fun chunk member => List.mem_cons_of_mem _ member)

theorem setSize (editing : Editing area begun front back start memory array row record)
    (small : value < 4294967296) :
    Editing area begun front back start
        (Erow.setSize memory (array.p + sizeofErow * front.length) value) array row
        (value, record.2) ∧
      ∀ index, index < row.size →
        Erow.setSize memory (array.p + sizeofErow * front.length) value (row.p + index) =
          memory (row.p + index) := by
  apply editing.storeRecord
  · exact fun other apart => Memory.store32_of_outside (by unfold sizeofErow; omega)
  · exact Memory.load32_store32_of_lt small
  · rw [← editing.chars]
    exact Memory.load32_store32_of_disjoint (.inr (by unfold sizeofErow; omega))

theorem setChars (editing : Editing area begun front back start memory array row record)
    (small : value < 4294967296) :
    Editing area begun front back start
        (Erow.setChars memory (array.p + sizeofErow * front.length) value) array row
        (record.1, value) ∧
      ∀ index, index < row.size →
        Erow.setChars memory (array.p + sizeofErow * front.length) value (row.p + index) =
          memory (row.p + index) := by
  apply editing.storeRecord
  · exact fun other apart => Memory.store32_of_outside (by unfold sizeofErow; omega)
  · rw [← editing.size]
    exact Memory.load32_store32_of_disjoint (.inl (by unfold sizeofErow; omega))
  · exact Memory.load32_store32_of_lt small

/-- A new block for the characters of the row at work. -/
theorem ofMalloc (owns : Owns area begun memory (array :: otherChunks front back))
    (space : 8 * (front.length + 1 + back.length) ≤ array.size)
    (records : Records memory array.p
      (front.map HeapRow.record ++ record :: back.map HeapRow.record))
    (untouched : Untouched area begun (otherChunks front back) start memory) {size : Nat}
    (small : size < 4294967296) (refused : Bool) :
    ∃ p taken, mallocUnless refused area memory size = some (p, taken) ∧ p < 4294967296 ∧
      (p ≠ nullPointer → ∃ room, size ≤ room ∧
        Editing area begun front back start taken array ⟨p, room⟩ record) := by
  cases refused with
  | true => exact ⟨nullPointer, memory, rfl, by decide, fun notNull => absurd rfl notNull⟩
  | false =>
      obtain ⟨p, taken, called, kept, result⟩ := owns.malloc small
      refine ⟨p, taken, called, ?_, fun notNull => ?_⟩
      · cases result with
        | inl failed =>
            rw [failed.1]
            decide
        | inr granted =>
            obtain ⟨_, room, _, own⟩ := granted
            exact own.pointer_lt List.mem_cons_self
      · obtain ⟨_, room, enough, own⟩ := result.resolve_left fun failed => notNull failed.1
        refine ⟨room, enough, own.perm (.swap _ _ _), space, ?_, ?_⟩
        · refine records.moved fun byte inside => kept.own array List.mem_cons_self byte ?_
          simp only [List.length_append, List.length_cons, List.length_map] at inside
          omega
        · exact untouched.trans (kept.mono fun chunk member => List.mem_cons_of_mem _ member)

/-- The block of the row at work, moved to a place with room for `size` bytes. -/
theorem realloc (editing : Editing area begun front back start memory array row record) {size : Nat}
    (positive : 0 < size) (small : size < 4294967296) (refused : Bool) :
    ∃ p grown, reallocUnless refused area memory row.p size = some (p, grown) ∧ p < 4294967296 ∧
      (p ≠ nullPointer → ∃ room, size ≤ room ∧ row.size ≤ room ∧
        Editing area begun front back start grown array ⟨p, room⟩ record ∧
        ∀ index, index < row.size → grown (p + index) = memory (row.p + index)) := by
  cases refused with
  | true => exact ⟨nullPointer, memory, rfl, by decide, fun notNull => absurd rfl notNull⟩
  | false =>
      obtain ⟨p, grown, called, kept, result⟩ :=
        (editing.owns.perm (.swap _ _ _)).realloc positive small
      refine ⟨p, grown, called, ?_, fun notNull => ?_⟩
      · cases result with
        | inl failed =>
            rw [failed.1]
            decide
        | inr granted =>
            obtain ⟨_, room, _, _, own, _⟩ := granted
            exact own.pointer_lt List.mem_cons_self
      · obtain ⟨_, room, enough, larger, own, copied⟩ :=
          result.resolve_left fun failed => notNull failed.1
        exact ⟨room, enough, larger, ⟨own.perm (.swap _ _ _), editing.space,
          editing.array_kept kept,
          editing.untouched.trans (kept.mono fun chunk member => List.mem_cons_of_mem _ member)⟩,
          copied⟩

/-- `memcpy` to `offset` in the row at work. -/
theorem copyIn {s len offset : Nat}
    (editing : Editing area begun front back start memory array row record)
    (roomy : offset + len ≤ row.size)
    (source : len = 0 ∨ Kept area begun (otherChunks front back) s len) :
    Editing area begun front back start (memcpy memory (row.p + offset) s len) array row record ∧
      Memory.bytesAt (memcpy memory (row.p + offset) s len) (row.p + offset) len =
        Memory.bytesAt start s len := by
  refine ⟨editing.storeRow fun other outside => memcpy_outside (by omega), ?_⟩
  apply List.map_congr_left
  intro index member
  have inside := List.mem_range.mp member
  have kept := source.resolve_left (by omega)
  have disjoint := (editing.owns.perm (.swap _ _ _)).apart
    (kept.mono fun chunk member => List.mem_cons_of_mem _ member)
  rw [memcpy_inside (by omega) inside]
  exact editing.untouched.kept kept inside

/-- When the row at work holds its text, the store keeps the rows again. -/
theorem holdsRows {text : List UInt8} {numrows : Nat} {dirty : Int} {allocations : List Nat}
    (counted : numrows = front.length + 1 + back.length)
    (editing : Editing area begun front back start memory array row (text.length, row.p))
    (holds : HeapRow.Holds ⟨row.p, row.size, text⟩ memory)
    (before : ∀ other ∈ front ++ back, other.Holds start) :
    HoldsRows area begun ⟨memory, array.p, numrows, dirty, allocations⟩
      (some array) (front ++ ⟨row.p, row.size, text⟩ :: back) where
  owns := by
    apply editing.owns.perm
    simp only [otherChunks, Option.toList_some, List.map_append, List.map_cons,
      List.singleton_append]
    exact .cons _ List.perm_middle.symm
  pointer := rfl
  numrows := by
    simp only [List.length_append, List.length_cons]
    exact counted.trans (by omega)
  space := by
    simp only [List.length_append, List.length_cons, Option.elim_some]
    have space := editing.space
    omega
  records := by simpa [HeapRow.record] using editing.records
  holds := by
    intro other member
    have kept : other ∈ front ++ back → other.Holds memory := fun old =>
      (before other old).congr (editing.untouched.own other.chunk (List.mem_map_of_mem old))
    rw [List.mem_append, List.mem_cons] at member
    rcases member with inFront | rfl | inBack
    · exact kept (List.mem_append_left _ inFront)
    · exact holds
    · exact kept (List.mem_append_right _ inBack)

end Editing

namespace HoldsRows

variable {area : Area} {begun : List Block} {store : RowStore} {array : Option Chunk}
  {chunk : Chunk} {rows front back : List HeapRow} {row : HeapRow}

/-- The store has at most as many rows as fit in the heap. -/
theorem numrows_le (held : HoldsRows area begun store array rows) : store.numrows ≤ 131072 := by
  have space := held.space
  rw [held.numrows]
  cases array with
  | none =>
      simp only [Option.elim_none] at space
      omega
  | some chunk =>
      have owns : Owns area begun store.memory (chunk :: rows.map HeapRow.chunk) := held.owns
      have inArea := owns.inside List.mem_cons_self
      simp only [Option.elim_some] at space
      omega

theorem array_some (held : HoldsRows area begun store array (front ++ row :: back)) :
    ∃ chunk, array = some chunk := by
  cases array with
  | none =>
      have space := held.space
      simp at space
  | some chunk => exact ⟨chunk, rfl⟩

theorem row_eq (held : HoldsRows area begun store (some chunk) rows) (index : Nat) :
    store.row index = chunk.p + sizeofErow * index := by
  rw [RowStore.row, held.pointer]
  rfl

/-- Any row may be worked on. -/
theorem editing (held : HoldsRows area begun store (some chunk) (front ++ row :: back)) :
    Editing area begun front back store.memory store.memory chunk row.chunk row.record where
  owns := by
    apply held.owns.perm
    simp only [otherChunks, Option.toList_some, List.map_append, List.map_cons,
      List.singleton_append]
    exact .cons _ List.perm_middle
  space := by
    have space := held.space
    simp only [List.length_append, List.length_cons, Option.elim_some] at space
    omega
  records := by simpa [held.pointer] using held.records
  untouched := .refl _

/-- A text is shorter than the heap. -/
theorem length_lt (held : HoldsRows area begun store (some chunk) (front ++ row :: back)) :
    row.text.length < 1048576 := by
  have fits := (held.holds row (by simp)).fits
  have inArea := held.editing.owns.inside (List.mem_cons_of_mem _ List.mem_cons_self)
  have bounded : row.chunk.size = row.room := rfl
  omega

end HoldsRows

end ShedKernel.Editor
