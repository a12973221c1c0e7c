import ShedKernel.Editor.RowBlocks

/-! The row operations of the editor on its blocks: each one returns with the rows edited
as a list, or stops at the null pointer of an allocation that failed. -/

set_option autoImplicit false

namespace ShedKernel.Editor

open Foundation Heap Strings

attribute [local irreducible] memFree

/-- The operation returns, or it meets a null pointer that the allocator returned. -/
def Completes (result : Except RowStop RowStore) (good : RowStore → Prop) : Prop :=
  (∃ next, result = .ok next ∧ good next) ∨
    ∃ stopped, result = .error (.nullPointer stopped) ∧ nullPointer ∈ stopped.allocations

/-- The operation returns if the allocator grants what it asks for, and meets a null pointer
otherwise. -/
def Settles (granted : Prop) (result : Except RowStop RowStore) (good : RowStore → Prop) : Prop :=
  (granted ∧ ∃ next, result = .ok next ∧ good next) ∨
    (¬granted ∧ ∃ stopped, result = .error (.nullPointer stopped) ∧
      nullPointer ∈ stopped.allocations)

theorem Settles.completes {granted : Prop} {result : Except RowStop RowStore}
    {good : RowStore → Prop} (settles : Settles granted result good) : Completes result good :=
  settles.imp And.right And.right

theorem Settles.imp {granted allowed : Prop} {result : Except RowStop RowStore}
    {good better : RowStore → Prop} (settles : Settles granted result good)
    (same : granted ↔ allowed) (implies : ∀ next, good next → better next) :
    Settles allowed result better := by
  cases settles with
  | inl returns =>
      obtain ⟨holds, next, ran, isGood⟩ := returns
      exact .inl ⟨same.mp holds, next, ran, implies next isGood⟩
  | inr stops => exact .inr ⟨mt same.mpr stops.1, stops.2⟩

namespace HoldsRows

variable {area : Area} {begun : List Block} {store : RowStore} {array : Option Chunk}
  {rows front back : List HeapRow} {row : HeapRow}

/-- The array, moved to a place with room for `size` bytes. -/
theorem reallocArray (held : HoldsRows area begun store array rows) {size : Nat}
    (positive : 0 < size) (small : size < 4294967296) (refused : Bool) :
    ∃ p changed, reallocUnless refused area store.memory store.rows size = some (p, changed) ∧
      (p ≠ nullPointer → ∃ room, size ≤ room ∧
        Owns area begun changed (⟨p, room⟩ :: rows.map HeapRow.chunk) ∧
        Records changed p (rows.map HeapRow.record) ∧
        Untouched area begun (rows.map HeapRow.chunk) store.memory changed) := by
  cases refused with
  | true => exact ⟨nullPointer, store.memory, rfl, fun notNull => absurd rfl notNull⟩
  | false =>
      cases array with
      | none =>
          have owns : Owns area begun store.memory (rows.map HeapRow.chunk) := held.owns
          have none : rows = [] := by
            have space := held.space
            simpa using space
          obtain ⟨p, changed, called, untouched, result⟩ := owns.malloc small
          have null : store.rows = nullPointer := held.pointer
          refine ⟨p, changed, by rw [null]; exact called, fun notNull => ?_⟩
          obtain ⟨_, room, enough, taken⟩ := result.resolve_left fun failed => notNull failed.1
          refine ⟨room, enough, taken, ?_, untouched⟩
          rw [none]
          exact .nil _ _
      | some chunk =>
          have owns : Owns area begun store.memory (chunk :: rows.map HeapRow.chunk) := held.owns
          have pointer : store.rows = chunk.p := held.pointer
          have space : 8 * rows.length ≤ chunk.size := held.space
          obtain ⟨p, changed, called, untouched, result⟩ := owns.realloc positive small
          refine ⟨p, changed, by rw [pointer]; exact called, fun notNull => ?_⟩
          obtain ⟨_, room, enough, _, taken, copied⟩ :=
            result.resolve_left fun failed => notNull failed.1
          refine ⟨room, enough, taken, ?_, untouched⟩
          have records := held.records
          rw [pointer] at records
          exact records.moved fun byte inside => copied byte (by
            rw [List.length_map] at inside
            omega)

/-- The descriptors behind `front` moved up, and a new size in the gap. -/
theorem makeRoom {memory : Memory} {p room len : Nat}
    (owns : Owns area begun memory (⟨p, room⟩ :: (front ++ back).map HeapRow.chunk))
    (records : Records memory p ((front ++ back).map HeapRow.record))
    (space : 8 * ((front ++ back).length + 1) ≤ room) (small : len < 4294967296) :
    ∃ changed junk, Erow.setSize (memmove memory (p + sizeofErow * (front.length + 1))
        (p + sizeofErow * front.length) (sizeofErow * ((front ++ back).length - front.length)))
        (p + sizeofErow * front.length) len = changed ∧
      Owns area begun changed (⟨p, room⟩ :: (front ++ back).map HeapRow.chunk) ∧
      Untouched area begun ((front ++ back).map HeapRow.chunk) memory changed ∧
      Records changed p (front.map HeapRow.record ++ (len, junk) :: back.map HeapRow.record) := by
  generalize edited : Erow.setSize (memmove memory (p + sizeofErow * (front.length + 1))
    (p + sizeofErow * front.length) (sizeofErow * ((front ++ back).length - front.length)))
    (p + sizeofErow * front.length) len = changed
  rw [List.length_append] at space
  have total : (front ++ back).length - front.length = back.length := by simp
  have moved : ∀ other,
      other < p + 8 * front.length ∨ p + 8 * (front.length + 1 + back.length) ≤ other →
      changed other = memory other := by
    intro other outside
    rw [← edited]
    refine (Memory.store32_of_outside (by unfold sizeofErow; omega)).trans ?_
    exact memmove_outside (by unfold sizeofErow; omega)
  have inArray : ∀ other, other < p ∨ p + room ≤ other → changed other = memory other :=
    fun other outside => moved other (by omega)
  obtain ⟨taken, untouched⟩ := owns.store inArray
  refine ⟨changed, Erow.chars changed (p + 8 * front.length), rfl, taken, untouched, ?_⟩
  have before : ∀ byte, byte < 8 * front.length → changed (p + byte) = memory (p + byte) :=
    fun byte inside => moved _ (by omega)
  have after : ∀ byte, 8 * front.length ≤ byte →
      byte < 8 * ((front ++ back).map HeapRow.record).length →
      changed (p + 8 + byte) = memory (p + byte) := by
    intro byte low high
    rw [List.length_map, List.length_append] at high
    rw [← edited]
    refine (Memory.store32_of_outside (by unfold sizeofErow; omega)).trans ?_
    have shifted := @memmove_inside memory (p + sizeofErow * (front.length + 1))
      (p + sizeofErow * front.length) (sizeofErow * ((front ++ back).length - front.length))
      (byte - 8 * front.length) (by unfold sizeofErow; omega)
    unfold sizeofErow at shifted ⊢
    rwa [show p + 8 * (front.length + 1) + (byte - 8 * front.length) = p + 8 + byte by omega,
      show p + 8 * front.length + (byte - 8 * front.length) = p + byte by omega] at shifted
  have first : changed.load32 (p + 8 * front.length) = len := by
    rw [← edited]
    exact Memory.load32_store32_of_lt small
  have inserted := records.insert before after
    (len, Erow.chars changed (p + 8 * front.length)) first rfl
  have atFront := insertIdx_append (front.map HeapRow.record) (back.map HeapRow.record)
    (len, Erow.chars changed (p + 8 * front.length))
  rw [List.length_map, ← List.map_append] at atFront
  rwa [atFront] at inserted

/-- The descriptors behind `front` moved down over the one that `editorFreeRow` cleared. -/
theorem closeGap {memory : Memory} {p : Nat} {record : Nat × Nat}
    (records : Records memory p (front.map HeapRow.record ++ record :: back.map HeapRow.record)) :
    let row := p + sizeofErow * front.length
    let changed := memmove (Erow.setSize (Erow.setChars memory row nullPointer) row 0) row
      (p + sizeofErow * (front.length + 1)) (sizeofErow * back.length)
    (∀ other, other < p + 8 * front.length ∨ p + 8 * (front.length + 1 + back.length) ≤ other →
      changed other = memory other) ∧
      Records changed p ((front ++ back).map HeapRow.record) := by
  intro row changed
  have cleared : ∀ other, other < row ∨ row + 8 ≤ other →
      Erow.setSize (Erow.setChars memory row nullPointer) row 0 other = memory other := by
    intro other outside
    unfold Erow.setSize Erow.setChars
    rw [Memory.store32_of_outside (by omega), Memory.store32_of_outside (by omega)]
  have place : row = p + 8 * front.length := rfl
  have moved : ∀ other,
      other < p + 8 * front.length ∨ p + 8 * (front.length + 1 + back.length) ≤ other →
      changed other = memory other := fun other outside =>
    (memmove_outside (by unfold sizeofErow; omega)).trans (cleared other (by omega))
  refine ⟨moved, ?_⟩
  have after : ∀ byte, 8 * front.length ≤ byte →
      byte + 8 < 8 * (front.map HeapRow.record ++ record :: back.map HeapRow.record).length →
      changed (p + byte) = memory (p + 8 + byte) := by
    intro byte low high
    simp only [List.length_append, List.length_cons, List.length_map] at high
    have shifted := @memmove_inside (Erow.setSize (Erow.setChars memory row nullPointer) row 0) row
      (p + sizeofErow * (front.length + 1)) (sizeofErow * back.length) (byte - 8 * front.length)
      (by unfold sizeofErow; omega)
    unfold sizeofErow at shifted
    rw [cleared _ (by omega), show row + (byte - 8 * front.length) = p + byte by omega,
      show p + 8 * (front.length + 1) + (byte - 8 * front.length) = p + 8 + byte by omega] at shifted
    exact shifted
  have erased := records.erase (fun byte inside => moved _ (by omega)) after
  rwa [← List.length_map HeapRow.record, eraseIdx_append, ← List.map_append] at erased

/-- Whether the allocator grants a block is the same before and after stores into the chunks. -/
theorem grants_iff {memory changed taken : Memory} {own : List Chunk} {size chars : Nat}
    (owns : Owns area begun memory own) (ownsChanged : Owns area begun changed own)
    (small : size < 4294967296) (refused : Bool)
    (called : mallocUnless refused area changed size = some (chars, taken)) :
    Grants (mallocUnless refused area memory size) ↔ chars ≠ nullPointer := by
  obtain ⟨p, after, calledBefore⟩ : ∃ p after,
      mallocUnless refused area memory size = some (p, after) := by
    cases refused with
    | true => exact ⟨_, _, rfl⟩
    | false =>
        obtain ⟨p, after, calledBefore, _⟩ := owns.malloc small
        exact ⟨p, after, calledBefore⟩
  have same : p = nullPointer ↔ chars = nullPointer := by
    cases refused with
    | true =>
        cases called
        cases calledBefore
        rfl
    | false => exact owns.malloc_null_iff ownsChanged small calledBefore called
  unfold Grants
  rw [calledBefore]
  constructor
  · rintro ⟨_, _, again, notNull⟩
    cases again
    exact mt same.mpr notNull
  · exact fun notNull => ⟨p, after, rfl, mt same.mp notNull⟩

theorem insertRow (held : HoldsRows area begun store array (front ++ back)) {s len : Nat}
    (small : len < 2147483648)
    (source : len = 0 ∨ Kept area begun (otherChunks front back) s len) (refusals : Refusals) :
    Settles (store.GrantsRow refusals area len)
      (store.editorInsertRowUnless refusals area front.length s len) fun next =>
        OutsideKept area store.memory next.memory ∧
          ∃ chunk p room, HoldsRows area begun next (some chunk)
            (front ++ ⟨p, room, Memory.bytesAt store.memory s len⟩ :: back) := by
  have inRange : ¬((front.length : Int) < 0 ∨ (store.numrows : Int) < front.length) := by
    rw [held.numrows, List.length_append]
    omega
  have few := held.numrows_le
  have positive : 0 < sizeofErow * (store.numrows + 1) := by unfold sizeofErow; omega
  have bounded : sizeofErow * (store.numrows + 1) < 4294967296 := by unfold sizeofErow; omega
  obtain ⟨p, grown, called, moved⟩ := held.reallocArray positive bounded refusals.first
  unfold RowStore.editorInsertRowUnless RowStore.GrantsRow
  rw [if_neg inRange]
  simp only [RowStore.allocate, called, bind, Except.bind, RowStore.dereference, Int.toNat_natCast]
  by_cases null : p = nullPointer
  · refine .inr ⟨?_, _, by rw [if_pos null], by simp [null]⟩
    rintro ⟨_, _, same, notNull, _⟩
    cases same
    exact notNull null
  rw [if_neg null]
  simp only [RowStore.row, held.numrows]
  -- the array, with a gap
  obtain ⟨room, enough, owns, records, toGrown⟩ := moved null
  rw [held.numrows] at enough
  have total : (front ++ back).length = front.length + back.length := List.length_append
  have smallLen : len < 4294967296 := by omega
  obtain ⟨gap, junk, gapEdited, ownsGap, toGap, recordsGap⟩ :=
    makeRoom owns records enough smallLen
  rw [gapEdited]
  have space : 8 * (front.length + 1 + back.length) ≤ room := by
    unfold sizeofErow at enough
    omega
  -- a block for the characters
  have smallSize : len + 1 < 4294967296 := by omega
  obtain ⟨chars, taken, calledMalloc, charsSmall, result⟩ :=
    Editing.ofMalloc ownsGap space recordsGap (toGrown.trans toGap) smallSize refusals.second
  have grants := grants_iff owns ownsGap smallSize refusals.second calledMalloc
  have readBack (memory : Memory) (row : Nat) :
      Erow.chars (Erow.setChars memory row chars) row = chars :=
    Memory.load32_store32_of_lt charsSmall
  simp only [calledMalloc, readBack]
  by_cases nullChars : chars = nullPointer
  · refine .inr ⟨?_, _, by rw [if_pos nullChars], by simp [nullChars]⟩
    rintro ⟨_, _, same, _, granted⟩
    cases same
    exact grants.mp granted nullChars
  rw [if_neg nullChars]
  obtain ⟨block, roomy, taking⟩ := result nullChars
  have linked := (taking.setChars charsSmall).1
  -- the characters themselves
  have roomyCopy : 0 + len ≤ block := by omega
  obtain ⟨copied, bytes⟩ := linked.copyIn roomyCopy source
  simp only [Nat.add_zero] at copied bytes
  have length : (Memory.bytesAt store.memory s len).length = len := Memory.length_bytesAt
  generalize Memory.bytesAt store.memory s len = text at bytes length ⊢
  subst length
  have current : Erow.chars (memcpy (Erow.setChars taken (p + sizeofErow * front.length) chars)
      chars s text.length) (p + sizeofErow * front.length) = chars :=
    copied.chars
  rw [current]
  have ended : HeapRow.Holds ⟨chars, block, text⟩ _ := .terminate bytes roomy
  have finished := copied.storeRow fun other outside =>
    @Memory.storeByte_of_ne _ (chars + text.length) other 0 (by simp only at outside; omega)
  refine .inl ⟨⟨p, grown, rfl, null, grants.mpr nullChars⟩, _, rfl, finished.untouched.outside,
    ⟨p, room⟩, chars, block, ?_⟩
  exact finished.holdsRows (by omega) ended held.holds

/-! Operations on the row between `front` and `back`. -/

section OneRow

variable {chunk : Chunk} {position c : Int}

theorem size_eq (held : HoldsRows area begun store (some chunk) (front ++ row :: back)) :
    Erow.size store.memory (store.row front.length) = row.text.length := by
  rw [held.row_eq]
  exact held.editing.size

theorem chars_eq (held : HoldsRows area begun store (some chunk) (front ++ row :: back)) :
    Erow.chars store.memory (store.row front.length) = row.chars := by
  rw [held.row_eq]
  exact held.editing.chars

/-- The end of an operation that changed one row. -/
theorem edited {memory : Memory} {dirty : Int} {allocations : List Nat} {block : Chunk}
    {text : List UInt8} (held : HoldsRows area begun store (some chunk) (front ++ row :: back))
    (editing : Editing area begun front back store.memory memory chunk block (text.length, block.p))
    (holds : HeapRow.Holds ⟨block.p, block.size, text⟩ memory) :
    HoldsRows area begun ⟨memory, store.rows, store.numrows, dirty, allocations⟩ (some chunk)
      (front ++ ⟨block.p, block.size, text⟩ :: back) := by
  have pointer : store.rows = chunk.p := held.pointer
  have counted : store.numrows = front.length + 1 + back.length := by
    rw [held.numrows]
    simp only [List.length_append, List.length_cons]
    omega
  rw [pointer]
  refine editing.holdsRows counted holds fun other member => held.holds other ?_
  rw [List.mem_append] at member
  cases member with
  | inl inFront => exact List.mem_append_left _ inFront
  | inr inBack => exact List.mem_append_right _ (List.mem_cons_of_mem _ inBack)

/-- `row->chars = realloc(row->chars, size)`. -/
theorem growRow (held : HoldsRows area begun store (some chunk) (front ++ row :: back)) {size : Nat}
    (positive : 0 < size) (small : size < 4294967296) (refused : Bool) :
    ∃ p grown, reallocUnless refused area store.memory row.chars size = some (p, grown) ∧
      p < 4294967296 ∧
      (p ≠ nullPointer → ∃ room, size ≤ room ∧
        Editing area begun front back store.memory
          (Erow.setChars grown (chunk.p + sizeofErow * front.length) p) chunk ⟨p, room⟩
          (row.text.length, p) ∧
        HeapRow.Holds ⟨p, room, row.text⟩
          (Erow.setChars grown (chunk.p + sizeofErow * front.length) p)) := by
  obtain ⟨p, grown, called, pSmall, result⟩ := held.editing.realloc positive small refused
  refine ⟨p, grown, called, pSmall, fun notNull => ?_⟩
  obtain ⟨room, roomy, larger, moved, bytes⟩ := result notNull
  obtain ⟨linked, kept⟩ := moved.setChars pSmall
  refine ⟨room, roomy, linked, ?_⟩
  exact (held.holds row (by simp)).moved larger fun index inRoom =>
    (kept index (Nat.lt_of_lt_of_le inRoom larger)).trans (bytes index inRoom)

private theorem not_grants_of_null {p : Nat} {memory : Memory} (null : p = nullPointer) :
    ¬Grants (some (p, memory)) := by
  rintro ⟨_, _, same, notNull⟩
  cases same
  exact notNull null

theorem rowInsertChar (held : HoldsRows area begun store (some chunk) (front ++ row :: back))
    (refusals : Refusals) :
    Settles (store.GrantsChars refusals area (store.row front.length) (row.text.length + 2))
      (store.editorRowInsertCharUnless refusals area (store.row front.length) position c) fun next =>
        OutsideKept area store.memory next.memory ∧
          ∃ p room, HoldsRows area begun next (some chunk) (front ++
            ⟨p, room, row.text.insertIdx (if position < 0 ∨ (row.text.length : Int) < position then
              row.text.length else position.toNat) (charOf c)⟩ :: back) := by
  unfold RowStore.editorRowInsertCharUnless RowStore.GrantsChars
  rw [held.size_eq, held.chars_eq, held.row_eq]
  simp only
  generalize choice : (if position < 0 ∨ (row.text.length : Int) < position then row.text.length
    else position.toNat) = place
  have inside : place ≤ row.text.length := by
    rw [← choice]
    split
    · exact le_rfl
    · omega
  have short := held.length_lt
  have positive : 0 < row.text.length + 2 := by omega
  have small : row.text.length + 2 < 4294967296 := by omega
  obtain ⟨p, grown, called, pSmall, result⟩ := held.growRow positive small refusals.first
  have readBack (memory : Memory) (row : Nat) : Erow.chars (Erow.setChars memory row p) row = p :=
    Memory.load32_store32_of_lt pSmall
  simp only [RowStore.allocate, called, bind, Except.bind, RowStore.dereference, readBack]
  by_cases null : p = nullPointer
  · exact .inr ⟨not_grants_of_null null, _, by rw [if_pos null], by simp [null]⟩
  rw [if_neg null]
  obtain ⟨room, roomy, linked, text⟩ := result null
  generalize Erow.setChars grown (chunk.p + sizeofErow * front.length) p = memory at linked text ⊢
  rw [linked.size]
  have shifted := linked.storeRow fun other outside =>
    @memmove_outside memory (p + (place + 1)) (p + place) (row.text.length - place + 1) other
      (by simp only at outside; omega)
  have stored := shifted.storeRow fun other outside =>
    @Memory.storeByte_of_ne _ (p + place) other (charOf c) (by simp only at outside; omega)
  have inserted : HeapRow.Holds ⟨p, room, row.text.insertIdx place (charOf c)⟩ _ :=
    text.insertChar roomy inside
  rw [shifted.chars, stored.size]
  have smallLength : row.text.length + 1 < 4294967296 := by omega
  obtain ⟨counted, unchanged⟩ := stored.setSize smallLength
  have longer : (row.text.insertIdx place (charOf c)).length = row.text.length + 1 :=
    List.length_insertIdx_of_le_length inside _
  rw [← longer] at counted unchanged ⊢
  exact .inl ⟨⟨p, grown, rfl, null⟩, _, rfl, counted.untouched.outside, p, room,
    held.edited counted (inserted.congr unchanged)⟩

theorem rowDelChar (held : HoldsRows area begun store (some chunk) (front ++ row :: back))
    (inside : ¬(position < 0 ∨ (row.text.length : Int) ≤ position)) :
    OutsideKept area store.memory (store.editorRowDelChar (store.row front.length) position).memory ∧
      HoldsRows area begun (store.editorRowDelChar (store.row front.length) position) (some chunk)
        (front ++ ⟨row.chars, row.room, row.text.eraseIdx position.toNat⟩ :: back) := by
  unfold RowStore.editorRowDelChar
  rw [held.size_eq, held.chars_eq, held.row_eq]
  simp only [if_neg inside]
  have fits := (held.holds row (by simp)).fits
  have short := held.length_lt
  have moved := held.editing.storeRow fun other outside =>
    @memmove_outside store.memory (row.chars + position.toNat) (row.chars + (position.toNat + 1))
      (row.text.length - position.toNat) other (by simp only [HeapRow.chunk] at outside; omega)
  have erased : HeapRow.Holds ⟨row.chars, row.room, row.text.eraseIdx position.toNat⟩ _ :=
    (held.holds row (by simp)).delChar (by omega)
  have length : row.record.1 = row.text.length := rfl
  rw [moved.size, length]
  have smallLength : row.text.length - 1 < 4294967296 := by omega
  obtain ⟨counted, unchanged⟩ := moved.setSize smallLength
  have shorter : (row.text.eraseIdx position.toNat).length = row.text.length - 1 :=
    List.length_eraseIdx_of_lt (by omega)
  rw [← shorter] at counted unchanged ⊢
  exact ⟨counted.untouched.outside, held.edited counted (erased.congr unchanged)⟩

theorem rowAppendString {s len : Nat}
    (held : HoldsRows area begun store (some chunk) (front ++ row :: back))
    (bounded : len < 2147483648)
    (source : len = 0 ∨ Kept area begun (otherChunks front back) s len) (refusals : Refusals) :
    Settles (store.GrantsChars refusals area (store.row front.length) (row.text.length + len + 1))
      (store.editorRowAppendStringUnless refusals area (store.row front.length) s len) fun next =>
        OutsideKept area store.memory next.memory ∧ ∃ p room, HoldsRows area begun next (some chunk)
          (front ++ ⟨p, room, row.text ++ Memory.bytesAt store.memory s len⟩ :: back) := by
  unfold RowStore.editorRowAppendStringUnless RowStore.GrantsChars
  rw [held.size_eq, held.chars_eq, held.row_eq]
  have short := held.length_lt
  have positive : 0 < row.text.length + len + 1 := by omega
  have small : row.text.length + len + 1 < 4294967296 := by omega
  obtain ⟨p, grown, called, pSmall, result⟩ := held.growRow positive small refusals.first
  have readBack (memory : Memory) (row : Nat) : Erow.chars (Erow.setChars memory row p) row = p :=
    Memory.load32_store32_of_lt pSmall
  simp only [RowStore.allocate, called, bind, Except.bind, RowStore.dereference, readBack]
  by_cases null : p = nullPointer
  · exact .inr ⟨not_grants_of_null null, _, by rw [if_pos null], by simp [null]⟩
  rw [if_neg null]
  obtain ⟨room, roomy, linked, text⟩ := result null
  generalize Erow.setChars grown (chunk.p + sizeofErow * front.length) p = memory at linked text ⊢
  rw [linked.size]
  have inRoom : row.text.length + len ≤ room := by omega
  obtain ⟨copied, bytes⟩ := linked.copyIn inRoom source
  have smallLength : row.text.length + len < 4294967296 := by omega
  obtain ⟨counted, unchanged⟩ := copied.setSize smallLength
  have front_kept : Memory.bytesAt (memcpy memory (p + row.text.length) s len) p row.text.length =
      row.text :=
    (Memory.bytesAt_congr fun _ _ => memcpy_outside (by omega)).trans text.bytes
  rw [copied.size]
  simp only at unchanged ⊢
  generalize memcpy memory (p + row.text.length) s len = filled at *
  generalize Erow.setSize filled (chunk.p + sizeofErow * front.length) (row.text.length + len) =
    memory at *
  rw [counted.chars, counted.size]
  have length : (Memory.bytesAt store.memory s len).length = len := Memory.length_bytesAt
  generalize Memory.bytesAt store.memory s len = more at bytes length ⊢
  subst length
  have whole : Memory.bytesAt memory p (row.text ++ more).length = row.text ++ more := by
    apply Memory.bytesAt_append_iff.mpr
    constructor
    · exact (Memory.bytesAt_congr fun index _ => unchanged index (by omega)).trans front_kept
    · refine (Memory.bytesAt_congr fun index _ => ?_).trans bytes
      rw [Nat.add_assoc]
      exact unchanged _ (by omega)
  have ended : HeapRow.Holds ⟨p, room, row.text ++ more⟩ _ :=
    .terminate whole (by rw [List.length_append]; omega)
  rw [← List.length_append] at counted ⊢
  have finished := counted.storeRow fun other outside =>
    @Memory.storeByte_of_ne _ (p + (row.text ++ more).length) other 0
      (by rw [List.length_append]; simp only at outside; omega)
  exact .inl ⟨⟨p, grown, rfl, null⟩, _, rfl, finished.untouched.outside, p, room,
    held.edited finished ended⟩

/-- A row cut off at `place`. -/
theorem truncate {place : Nat} (held : HoldsRows area begun store (some chunk) (front ++ row :: back))
    (inside : place ≤ row.text.length) :
    let sized := Erow.setSize store.memory (store.row front.length) place
    let memory := sized.storeByte (Erow.chars sized (store.row front.length) +
      Erow.size sized (store.row front.length)) 0
    OutsideKept area store.memory memory ∧ HoldsRows area begun { store with memory } (some chunk)
      (front ++ ⟨row.chars, row.room, row.text.take place⟩ :: back) := by
  have fits := (held.holds row (by simp)).fits
  have short := held.length_lt
  have small : place < 4294967296 := by omega
  obtain ⟨counted, unchanged⟩ := held.editing.setSize small
  have payload : row.chunk.p = row.chars ∧ row.chunk.size = row.room := ⟨rfl, rfl⟩
  rw [payload.1, payload.2] at unchanged
  simp only [held.row_eq, counted.size, counted.chars]
  have chars : row.record.2 = row.chars := rfl
  rw [chars] at counted ⊢
  have length : (row.text.take place).length = place := List.length_take_of_le inside
  have whole : Memory.bytesAt store.memory row.chars
      (row.text.take place ++ row.text.drop place).length =
        row.text.take place ++ row.text.drop place := by
    rw [List.take_append_drop]
    exact (held.holds row (by simp)).bytes
  have bytes := (Memory.bytesAt_append_iff.mp whole).1
  generalize Erow.setSize store.memory (chunk.p + sizeofErow * front.length) place = sized at *
  have kept : Memory.bytesAt sized row.chars (row.text.take place).length = row.text.take place :=
    (Memory.bytesAt_congr fun index _ => unchanged index (by omega)).trans bytes
  have ended : HeapRow.Holds ⟨row.chars, row.room, row.text.take place⟩
      (sized.storeByte (row.chars + place) 0) := by
    have terminated : HeapRow.Holds ⟨row.chars, row.room, row.text.take place⟩ _ :=
      .terminate kept (by omega)
    simpa only [length] using terminated
  have finished := counted.storeRow fun other outside =>
    @Memory.storeByte_of_ne sized (row.chars + place) other 0
      (by rw [payload.1, payload.2] at outside; omega)
  have cut : Editing area begun front back store.memory (sized.storeByte (row.chars + place) 0)
      chunk row.chunk ((row.text.take place).length, row.chunk.p) := by
    rw [length]
    exact finished
  exact ⟨cut.untouched.outside, held.edited cut ended⟩

theorem delRow (held : HoldsRows area begun store (some chunk) (front ++ row :: back)) :
    OutsideKept area store.memory (store.editorDelRow front.length).memory ∧
      HoldsRows area begun (store.editorDelRow front.length) (some chunk) (front ++ back) := by
  have counted : store.numrows = front.length + 1 + back.length := by
    rw [held.numrows]
    simp only [List.length_append, List.length_cons]
    omega
  have inRange : ¬((front.length : Int) < 0 ∨ (store.numrows : Int) ≤ front.length) := by omega
  have behind : store.numrows - front.length - 1 = back.length := by omega
  unfold RowStore.editorDelRow RowStore.editorFreeRow
  simp only [if_neg inRange, Int.toNat_natCast, behind]
  rw [held.chars_eq]
  simp only [held.row_eq]
  have editing := held.editing
  have space := editing.space
  obtain ⟨owns, toFreed⟩ := (editing.owns.perm (.swap _ _ _)).memFree
  have payload : row.chunk.p = row.chars := rfl
  rw [payload] at owns toFreed
  generalize memFree store.memory row.chars = freed at owns toFreed ⊢
  -- the array without the descriptor
  have records : Records freed chunk.p
      (front.map HeapRow.record ++ row.record :: back.map HeapRow.record) := by
    refine editing.records.moved fun byte inside => ?_
    simp only [List.length_append, List.length_cons, List.length_map] at inside
    exact toFreed.own chunk List.mem_cons_self byte (by omega)
  obtain ⟨moved, closed⟩ := closeGap records
  generalize memmove _ (chunk.p + sizeofErow * front.length)
    (chunk.p + sizeofErow * (front.length + 1)) (sizeofErow * back.length) = changed at moved closed ⊢
  have inArray : ∀ other, other < chunk.p ∨ chunk.p + chunk.size ≤ other →
      changed other = freed other :=
    fun other outside => moved other (by omega)
  obtain ⟨ownsChanged, toChanged⟩ := owns.store inArray
  have untouched := (toFreed.mono fun other member => List.mem_cons_of_mem _ member).trans toChanged
  have pointer : store.rows = chunk.p := held.pointer
  rw [pointer]
  refine ⟨untouched.outside, ownsChanged, rfl, ?_, ?_, closed, ?_⟩
  · simp only [counted, List.length_append]
    omega
  · rw [List.length_append, Option.elim_some]
    omega
  · intro other member
    have old : other ∈ front ++ row :: back := by
      rw [List.mem_append] at member ⊢
      exact member.imp_right (List.mem_cons_of_mem _)
    exact (held.holds other old).congr (untouched.own other.chunk (List.mem_map_of_mem member))

end OneRow

end HoldsRows

end ShedKernel.Editor
