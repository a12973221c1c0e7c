import ShedKernel.Editor.RowStoreProperties
import ShedKernel.Heap.SessionProperties

/-! The row store refines a list of strings: every row operation does to the rows what the
list operation does to the list. -/

set_option autoImplicit false

namespace ShedKernel.Editor

open Foundation Heap

/-- The store keeps the list, in blocks of its own. -/
def Keeps (area : Area) (begun : List Block) (store : RowStore) (text : TextLines) : Prop :=
  ∃ array rows, HoldsRows area begun store array rows ∧
    text = ⟨rows.map HeapRow.text, array.isSome⟩

variable {area : Area} {begun : List Block} {store : RowStore} {text : TextLines}

private theorem kept_of_elsewhere {own others : List Chunk} {blocks : List Nat} {memory : Memory}
    {start count : Nat} (owns : Owns area begun memory own)
    (elsewhere : Elsewhere area memory blocks start count)
    (rest : ∀ chunk ∈ own, chunk.p ∉ blocks → chunk ∈ others) :
    Kept area begun others start count := by
  rcases elsewhere with below | above | ⟨p, live, notIn, low, high⟩
  · exact .below below
  · exact .above above
  · cases owns.of_liveBlock live with
    | inl inBegun =>
        obtain ⟨place, rfl, member⟩ := inBegun
        exact .begun member low high
    | inr inOwn => exact .own (rest _ inOwn notIn) low high

namespace HoldsRows

variable {array : Option Chunk} {rows front back : List HeapRow} {row : HeapRow}

private theorem array_pointer (held : HoldsRows area begun store array rows) {chunk : Chunk}
    (member : chunk ∈ array.toList) : chunk.p = store.rows := by
  rw [Option.mem_toList] at member
  rw [held.pointer, member]
  rfl

private theorem kept_beside_array (held : HoldsRows area begun store array (front ++ back)) {s len : Nat}
    (readable : len = 0 ∨ Elsewhere area store.memory [store.rows] s len) :
    len = 0 ∨ Kept area begun (otherChunks front back) s len := by
  refine readable.imp_right fun elsewhere => kept_of_elsewhere held.owns elsewhere ?_
  intro chunk member different
  cases List.mem_append.mp member with
  | inl inArray => exact absurd (held.array_pointer inArray) (by simpa using different)
  | inr inRows => exact inRows

private theorem kept_beside_row (held : HoldsRows area begun store array (front ++ row :: back))
    {s len : Nat} (readable : len = 0 ∨
      Elsewhere area store.memory [store.rows, store.chars front.length] s len) :
    len = 0 ∨ Kept area begun (otherChunks front back) s len := by
  refine readable.imp_right fun elsewhere => kept_of_elsewhere held.owns elsewhere ?_
  intro chunk member different
  obtain ⟨block, rfl⟩ := held.array_some
  rw [RowStore.chars, held.chars_eq] at different
  simp only [List.mem_cons, List.not_mem_nil, or_false, not_or] at different
  cases List.mem_append.mp member with
  | inl inArray => exact absurd (held.array_pointer inArray) different.1
  | inr inRows =>
      obtain ⟨other, isRow, rfl⟩ := List.mem_map.mp inRows
      rw [List.mem_append, List.mem_cons] at isRow
      rcases isRow with inFront | rfl | inBack
      · exact List.mem_map_of_mem (List.mem_append_left _ inFront)
      · exact absurd rfl different.2
      · exact List.mem_map_of_mem (List.mem_append_right _ inBack)

/-- The same bytes in every block. -/
theorem congr {changed : Memory} (held : HoldsRows area begun store array rows)
    (owns : Owns area begun changed (array.toList ++ rows.map HeapRow.chunk))
    (same : ∀ chunk ∈ array.toList ++ rows.map HeapRow.chunk, ∀ index, index < chunk.size →
      changed (chunk.p + index) = store.memory (chunk.p + index)) :
    HoldsRows area begun { store with memory := changed } array rows := by
  refine ⟨owns, held.pointer, held.numrows, held.space, ?_, ?_⟩
  · have space := held.space
    cases array with
    | none =>
        have none : rows = [] := by simpa using space
        rw [none]
        exact .nil _ _
    | some chunk =>
        have pointer : store.rows = chunk.p := held.pointer
        refine held.records.moved fun byte inside => ?_
        rw [List.length_map] at inside
        rw [pointer]
        simp only [Option.elim_some] at space
        exact same chunk (by simp) byte (by omega)
  · intro row member
    refine (held.holds row member).congr (same row.chunk ?_)
    exact List.mem_append_right _ (List.mem_map_of_mem member)

/-- Stores of other code. -/
theorem otherStore (held : HoldsRows area begun store array rows) {address : Nat} {value : UInt8}
    (elsewhere : Elsewhere area store.memory
      (store.rows :: (List.range store.numrows).map store.chars) address 1) :
    HoldsRows area begun { store with memory := store.memory.storeByte address value } array rows := by
  have kept : Kept area begun [] address 1 := by
    refine kept_of_elsewhere held.owns elsewhere fun chunk member different => ?_
    simp only [List.mem_cons, not_or] at different
    cases List.mem_append.mp member with
    | inl inArray => exact absurd (held.array_pointer inArray) different.1
    | inr inRows =>
        obtain ⟨other, isRow, rfl⟩ := List.mem_map.mp inRows
        obtain ⟨front, back, rfl⟩ := List.append_of_mem isRow
        obtain ⟨block, rfl⟩ := held.array_some
        refine absurd (List.mem_map.mpr ⟨front.length, ?_, held.chars_eq⟩) different.2
        rw [List.mem_range, held.numrows]
        simp
  obtain ⟨owns, same⟩ := @Owns.elsewhere _ _ _ _ held.owns address value kept
  exact held.congr owns same

end HoldsRows

namespace Keeps

theorem insertRow (keeps : Keeps area begun store text) {position : Int} {s len : Nat}
    (allowed : (RowCall.insertRow position s len).Allowed area store) (refusals : Refusals) :
    Settles ((RowCall.insertRow position s len).Granted refusals area store)
      (store.editorInsertRowUnless refusals area position s len) fun next =>
        OutsideKept area store.memory next.memory ∧
          Keeps area begun next (text.edit store.memory (.insertRow position s len)) := by
  obtain ⟨array, rows, held, rfl⟩ := keeps
  simp only [TextLines.edit, List.length_map]
  rw [← held.numrows]
  by_cases outside : position < 0 ∨ (store.numrows : Int) < position
  · rw [if_pos outside, RowStore.editorInsertRowUnless, if_pos outside]
    exact .inl ⟨.inl outside, store, rfl, fun _ _ => rfl, array, rows, held, rfl⟩
  rw [if_neg outside]
  have inside := outside
  rw [held.numrows] at outside
  obtain ⟨front, back, rfl, length⟩ := @exists_cut _ rows position.toNat (by omega)
  obtain rfl : position = front.length := by omega
  refine (held.insertRow allowed.1 (held.kept_beside_array allowed.2) refusals).imp
    (or_iff_right inside).symm fun next after => ?_
  obtain ⟨kept, chunk, p, room, afterHeld⟩ := after
  refine ⟨kept, some chunk, _, afterHeld, ?_⟩
  have edited := insertIdx_append (front.map HeapRow.text) (back.map HeapRow.text)
    (Memory.bytesAt store.memory s len)
  rw [List.length_map] at edited
  simp only [Int.toNat_natCast, List.map_append, List.map_cons, edited, Option.isSome_some]

theorem delRow (keeps : Keeps area begun store text) (position : Int) :
    OutsideKept area store.memory (store.editorDelRow position).memory ∧
      Keeps area begun (store.editorDelRow position) (text.edit store.memory (.delRow position)) := by
  obtain ⟨array, rows, held, rfl⟩ := keeps
  simp only [TextLines.edit, List.length_map]
  rw [← held.numrows]
  by_cases outside : position < 0 ∨ (store.numrows : Int) ≤ position
  · rw [if_pos outside, RowStore.editorDelRow, if_pos outside]
    exact ⟨fun _ _ => rfl, array, rows, held, rfl⟩
  rw [if_neg outside]
  rw [held.numrows] at outside
  obtain ⟨front, row, back, rfl, length⟩ := @exists_middle _ rows position.toNat (by omega)
  obtain rfl : position = front.length := by omega
  obtain ⟨chunk, rfl⟩ := held.array_some
  refine ⟨held.delRow.1, some chunk, _, held.delRow.2, ?_⟩
  have edited := eraseIdx_append (front.map HeapRow.text) (back.map HeapRow.text) row.text
  rw [List.length_map] at edited
  simp only [Int.toNat_natCast, List.map_append, List.map_cons, edited]

/-- The list in front of, at and behind an existing row. -/
theorem at_row (keeps : Keeps area begun store text) {row : Nat} (existing : row < store.numrows) :
    ∃ chunk front here back,
      HoldsRows area begun store (some chunk) (front ++ here :: back) ∧ row = front.length ∧
        text.line row = here.text ∧ ∀ (line : List UInt8) (p room : Nat),
          text.setLine row line =
            ⟨(front ++ ⟨p, room, line⟩ :: back).map HeapRow.text, (some chunk).isSome⟩ := by
  obtain ⟨array, rows, held, rfl⟩ := keeps
  rw [held.numrows] at existing
  obtain ⟨front, here, back, rfl, rfl⟩ := exists_middle existing
  obtain ⟨chunk, rfl⟩ := held.array_some
  refine ⟨chunk, front, here, back, held, rfl, ?_, fun line p room => ?_⟩
  · simp [TextLines.line]
  · have edited := set_append (front.map HeapRow.text) (back.map HeapRow.text) here.text line
    rw [List.length_map] at edited
    simp only [TextLines.setLine, List.map_append, List.map_cons, edited]

theorem rowInsertChar (keeps : Keeps area begun store text) {row : Nat} {position c : Int}
    (existing : row < store.numrows) (refusals : Refusals) :
    Settles ((RowCall.rowInsertChar row position c).Granted refusals area store)
      (store.editorRowInsertCharUnless refusals area (store.row row) position c) fun next =>
        OutsideKept area store.memory next.memory ∧
          Keeps area begun next (text.edit store.memory (.rowInsertChar row position c)) := by
  obtain ⟨chunk, front, here, back, held, rfl, line, edited⟩ := keeps.at_row existing
  refine (held.rowInsertChar refusals).imp ?_ fun next after => ?_
  · rw [RowCall.Granted, held.size_eq]
  obtain ⟨kept, p, room, afterHeld⟩ := after
  simp only [TextLines.edit, line]
  exact ⟨kept, _, _, afterHeld, edited _ p room⟩

theorem rowDelChar (keeps : Keeps area begun store text) {row : Nat} {position : Int}
    (existing : row < store.numrows) :
    OutsideKept area store.memory (store.editorRowDelChar (store.row row) position).memory ∧
      Keeps area begun (store.editorRowDelChar (store.row row) position)
        (text.edit store.memory (.rowDelChar row position)) := by
  obtain ⟨chunk, front, here, back, held, rfl, line, edited⟩ := keeps.at_row existing
  simp only [TextLines.edit, line]
  by_cases outside : position < 0 ∨ (here.text.length : Int) ≤ position
  · rw [if_pos outside, RowStore.editorRowDelChar, held.size_eq]
    simp only [if_pos outside]
    exact ⟨fun _ _ => rfl, keeps⟩
  · rw [if_neg outside]
    obtain ⟨kept, afterHeld⟩ := held.rowDelChar outside
    exact ⟨kept, _, _, afterHeld, edited _ here.chars here.room⟩

theorem rowAppendString (keeps : Keeps area begun store text) {row s len : Nat}
    (allowed : (RowCall.rowAppendString row s len).Allowed area store) (refusals : Refusals) :
    Settles ((RowCall.rowAppendString row s len).Granted refusals area store)
      (store.editorRowAppendStringUnless refusals area (store.row row) s len) fun next =>
        OutsideKept area store.memory next.memory ∧
          Keeps area begun next (text.edit store.memory (.rowAppendString row s len)) := by
  obtain ⟨existing, small, readable⟩ := allowed
  obtain ⟨chunk, front, here, back, held, rfl, line, edited⟩ := keeps.at_row existing
  refine (held.rowAppendString small (held.kept_beside_row readable) refusals).imp ?_
    fun next after => ?_
  · rw [RowCall.Granted, held.size_eq]
  obtain ⟨kept, p, room, afterHeld⟩ := after
  simp only [TextLines.edit, line]
  exact ⟨kept, _, _, afterHeld, edited _ p room⟩

/-- An allowed call settles, and the store keeps the list with the call's effect. -/
theorem execUnless (keeps : Keeps area begun store text) {call : RowCall}
    (allowed : call.Allowed area store) (refusals : Refusals) :
    Settles (call.Granted refusals area store) (store.execUnless refusals area call) fun next =>
      Keeps area begun next (text.edit store.memory call) := by
  cases call with
  | insertRow position s len =>
      exact (keeps.insertRow allowed refusals).imp Iff.rfl fun _ after => after.2
  | delRow position => exact .inl ⟨trivial, _, rfl, (keeps.delRow position).2⟩
  | rowInsertChar row position c =>
      exact (keeps.rowInsertChar allowed refusals).imp Iff.rfl fun _ after => after.2
  | rowDelChar row position => exact .inl ⟨trivial, _, rfl, (keeps.rowDelChar allowed).2⟩
  | rowAppendString row s len =>
      exact (keeps.rowAppendString allowed refusals).imp Iff.rfl fun _ after => after.2
  | otherStore address value =>
      obtain ⟨array, rows, held, same⟩ := keeps
      exact .inl ⟨trivial, _, rfl, array, rows, held.otherStore allowed, same⟩

theorem exec (keeps : Keeps area begun store text) {call : RowCall} (allowed : call.Allowed area store) :
    Completes (store.exec area call) fun next =>
      Keeps area begun next (text.edit store.memory call) := by
  rw [RowStore.exec_eq]
  exact (keeps.execUnless allowed noRefusals).completes

end Keeps

namespace HoldsRows

variable {chunk : Chunk} {array : Option Chunk} {rows front back : List HeapRow} {row : HeapRow}

private theorem liveRow (held : HoldsRows area begun store (some chunk) (front ++ row :: back)) :
    LiveBlock area store.memory row.chars ∧ payloadSize store.memory row.chars = row.room :=
  held.editing.owns.liveBlock (List.mem_cons_of_mem _ List.mem_cons_self)

private theorem liveArray (held : HoldsRows area begun store (some chunk) rows) :
    LiveBlock area store.memory store.rows ∧ payloadSize store.memory store.rows = chunk.size := by
  have pointer : store.rows = chunk.p := held.pointer
  rw [pointer]
  exact held.owns.liveBlock (List.mem_append_left _ List.mem_cons_self)

private theorem array_apart (held : HoldsRows area begun store (some chunk) (front ++ row :: back)) :
    PayloadsDisjoint store.memory store.rows row.chars := by
  have separate := held.editing.owns.separate List.mem_cons_self
  have pointer : store.rows = chunk.p := held.pointer
  have payload : row.chunk.p = row.chars ∧ row.chunk.size = row.room := ⟨rfl, rfl⟩
  unfold PayloadsDisjoint
  rw [held.liveRow.2, held.liveArray.2, pointer]
  omega

private theorem rows_apart {other : HeapRow}
    (held : HoldsRows area begun store (some chunk) (front ++ row :: back)) (before : other ∈ front) :
    PayloadsDisjoint store.memory other.chars row.chars := by
  have member : other.chunk ∈ otherChunks front back :=
    List.mem_map_of_mem (List.mem_append_left _ before)
  have separate := (held.editing.owns.perm (.swap _ _ _)).separate (List.mem_cons_of_mem _ member)
  have live := held.editing.owns.liveBlock (List.mem_cons_of_mem _ (List.mem_cons_of_mem _ member))
  have payload : row.chunk.p = row.chars ∧ row.chunk.size = row.room := ⟨rfl, rfl⟩
  have otherPayload : other.chunk.p = other.chars ∧ other.chunk.size = other.room := ⟨rfl, rfl⟩
  rw [otherPayload.1] at live
  unfold PayloadsDisjoint
  rw [held.liveRow.2, live.2]
  omega

end HoldsRows

theorem Keeps.storesLines (keeps : Keeps area begun store text) : StoresLines area store text := by
  obtain ⟨array, rows, held, rfl⟩ := keeps
  refine ⟨?_, ?_, ?_, ?_⟩
  · rw [held.numrows, List.length_map]
  · intro row line found
    rw [List.getElem?_map] at found
    obtain ⟨here, isRow, rfl⟩ := Option.map_eq_some_iff.mp found
    obtain ⟨front, _, back, rfl, rfl⟩ := exists_middle (List.getElem?_eq_some_iff.mp isRow).1
    rw [getElem?_append] at isRow
    cases isRow
    obtain ⟨chunk, rfl⟩ := held.array_some
    have holds := held.holds here (by simp)
    rw [RowStore.chars, held.chars_eq, held.size_eq]
    refine ⟨rfl, holds.bytes, holds.ended, held.liveRow.1, ?_⟩
    rw [held.liveRow.2]
    exact holds.fits
  · cases array with
    | none => exact held.pointer
    | some chunk =>
        have space : 8 * rows.length ≤ chunk.size := held.space
        refine ⟨held.liveArray.1, ?_⟩
        rw [held.liveArray.2, held.numrows]
        unfold sizeofErow
        omega
  · intro row existing
    rw [held.numrows] at existing
    obtain ⟨front, here, back, rfl, rfl⟩ := exists_middle existing
    obtain ⟨chunk, rfl⟩ := held.array_some
    rw [RowStore.chars, held.chars_eq]
    refine ⟨held.array_apart, fun other before => ?_⟩
    obtain ⟨first, there, rest, rfl, rfl⟩ := exists_middle before
    have atOther : HoldsRows area begun store (some chunk)
        (first ++ there :: (rest ++ here :: back)) := by simpa using held
    rw [RowStore.chars, atOther.chars_eq]
    exact held.rows_apart (by simp)

namespace Keeps

theorem numrows (keeps : Keeps area begun store text) : store.numrows = text.lines.length :=
  keeps.storesLines.numrows

/-- Only the memory, `rows` and `numrows` count. -/
theorem congr {other : RowStore} (keeps : Keeps area begun store text)
    (memory : other.memory = store.memory) (rows : other.rows = store.rows)
    (numrows : other.numrows = store.numrows) : Keeps area begun other text := by
  obtain ⟨array, kept, held, same⟩ := keeps
  obtain ⟨owns, pointer, counted, space, records, holds⟩ := held
  refine ⟨array, kept, ⟨?_, rows.trans pointer, numrows.trans counted, space, ?_, ?_⟩, same⟩
  · rwa [memory]
  · rwa [memory, rows]
  · rwa [memory]

/-- Stores outside the area. -/
theorem outside {changed : Memory} (keeps : Keeps area begun store text)
    (same : ∀ other, area.base ≤ other → other < area.base + 1048576 →
      changed other = store.memory other) :
    Keeps area begun { store with memory := changed } text := by
  obtain ⟨array, rows, held, list⟩ := keeps
  refine ⟨array, rows, held.congr (held.owns.outside same) ?_, list⟩
  intro chunk member index inside
  have inArea := held.owns.inside member
  exact same _ (by omega) (by omega)

theorem truncate (keeps : Keeps area begun store text) {row place : Nat}
    (existing : row < store.numrows) (inside : place ≤ Erow.size store.memory (store.row row)) :
    let sized := Erow.setSize store.memory (store.row row) place
    let memory := sized.storeByte (Erow.chars sized (store.row row) +
      Erow.size sized (store.row row)) 0
    OutsideKept area store.memory memory ∧
      Keeps area begun { store with memory } (text.setLine row ((text.line row).take place)) := by
  obtain ⟨chunk, front, here, back, held, rfl, line, edited⟩ := keeps.at_row existing
  rw [held.size_eq] at inside
  rw [line]
  obtain ⟨kept, afterHeld⟩ := held.truncate inside
  exact ⟨kept, _, _, afterHeld, edited _ here.chars here.room⟩

/-- The characters of a row, as the source of an operation on others. -/
theorem row_elsewhere (keeps : Keeps area begun store text) {row : Nat}
    (existing : row < store.numrows) {start count : Nat} {blocks : List Nat}
    (low : store.chars row ≤ start)
    (high : start + count ≤ store.chars row + Erow.size store.memory (store.row row))
    (apart : store.chars row ∉ blocks) : Elsewhere area store.memory blocks start count := by
  have stores := keeps.storesLines
  have found := List.getElem?_eq_getElem (stores.numrows ▸ existing)
  obtain ⟨size, _, _, live, roomy⟩ := stores.contents row _ found
  exact .inr (.inr ⟨_, live, apart, low, by omega⟩)

theorem chars_ne_rows (keeps : Keeps area begun store text) {row : Nat}
    (existing : row < store.numrows) : store.chars row ≠ store.rows := by
  have stores := keeps.storesLines
  have found := List.getElem?_eq_getElem (stores.numrows ▸ existing)
  obtain ⟨_, _, _, _, roomy⟩ := stores.contents row _ found
  intro same
  have apart := (stores.apart row existing).1
  unfold PayloadsDisjoint at apart
  rw [same] at apart roomy
  omega

theorem chars_ne (keeps : Keeps area begun store text) {row other : Nat}
    (existing : row < store.numrows) (before : other < row) :
    store.chars row ≠ store.chars other := by
  have stores := keeps.storesLines
  have found := List.getElem?_eq_getElem (stores.numrows ▸ existing)
  obtain ⟨_, _, _, _, roomy⟩ := stores.contents row _ found
  intro same
  have apart := (stores.apart row existing).2 other before
  unfold PayloadsDisjoint at apart
  rw [same] at apart roomy
  omega

theorem size_lt (keeps : Keeps area begun store text) {row : Nat}
    (existing : row < store.numrows) : Erow.size store.memory (store.row row) < 1048576 := by
  obtain ⟨chunk, front, here, back, held, rfl, _, _⟩ := keeps.at_row existing
  rw [held.size_eq]
  exact held.length_lt

/-- The characters of a row lie in the area. -/
theorem chars_inside (keeps : Keeps area begun store text) {row : Nat} (existing : row < store.numrows) :
    area.base ≤ store.chars row ∧
      store.chars row + Erow.size store.memory (store.row row) ≤ area.base + 1048576 := by
  obtain ⟨chunk, front, here, back, held, rfl, _, _⟩ := keeps.at_row existing
  have fits := (held.holds here (by simp)).fits
  have inArea := held.editing.owns.inside (List.mem_cons_of_mem _ List.mem_cons_self)
  have payload : here.chunk.p = here.chars ∧ here.chunk.size = here.room := ⟨rfl, rfl⟩
  rw [RowStore.chars, held.chars_eq, held.size_eq]
  omega

end Keeps

theorem initRows_keeps {memory : Memory} (represents : Represents area memory begun) :
    Keeps area begun (initRows memory) ⟨[], false⟩ :=
  ⟨none, [], ⟨.begin represents, rfl, rfl, le_rfl, .nil _ _, by simp⟩, rfl⟩

theorem Keeps.exec_ok {after : RowStore} {call : RowCall} (keeps : Keeps area begun store text)
    (ran : store.exec area call = .ok after) (allowed : call.Allowed area store) :
    Keeps area begun after (text.edit store.memory call) := by
  cases keeps.exec allowed with
  | inl returns =>
      obtain ⟨result, ranAgain, kept⟩ := returns
      rw [ran] at ranAgain
      cases ranAgain
      exact kept
  | inr stops =>
      obtain ⟨stopped, ranAgain, _⟩ := stops
      rw [ran] at ranAgain
      cases ranAgain

theorem keeps_of_run {memory : Memory} {calls : List RowCall} (represents : Represents area memory begun)
    (ran : Run (RowStep area) (initRows memory, ⟨[], false⟩) calls (store, text)) :
    Keeps area begun store text := by
  have holds : ∀ (state : RowStore × TextLines) (call : RowCall) (next : RowStore × TextLines),
      Keeps area begun state.1 state.2 → RowStep area state call next →
      Keeps area begun next.1 next.2 := by
    intro state call next keeps step
    obtain ⟨allowed, executed, edited⟩ := step
    rw [edited]
    exact keeps.exec_ok executed allowed
  have keeps : (fun state : RowStore × TextLines => Keeps area begun state.1 state.2)
      (store, text) :=
    ran.invariant (initRows_keeps represents) holds
  exact keeps

/-- In every run of row operations from `initEditor` the store holds the list of strings that
the same operations make, and the next one returns unless an allocation fails. -/
theorem rowStore_refines_lines (area : Area) (memory : Memory) (heapCalls : List HeapCall)
    (heap : HeapState) (reached : Run (HeapStep area) (initialHeap area memory) heapCalls heap)
    (calls : List RowCall) (store : RowStore) (text : TextLines)
    (ran : Run (RowStep area) (initRows heap.memory, ⟨[], false⟩) calls (store, text)) :
    StoresLines area store text ∧ ∀ call, call.Allowed area store →
      (∃ next, store.exec area call = .ok next) ∨
        ∃ stopped, store.exec area call = .error (.nullPointer stopped) ∧
          nullPointer ∈ stopped.allocations := by
  obtain ⟨begun, invariant⟩ := heapInvariant_of_run reached
  have keeps := keeps_of_run invariant.represents ran
  refine ⟨keeps.storesLines, fun call allowed => ?_⟩
  exact (keeps.exec allowed).imp_left fun returns => returns.imp fun _ ran => ran.1

theorem ok_of_toOption {result : Except RowStop RowStore} {next : RowStore}
    (returned : result.toOption = some next) : result = .ok next := by
  cases result with
  | error => cases returned
  | ok value => exact congrArg Except.ok (Option.some.inj returned)

/-- A row of two bytes, and a character between them. -/
theorem rowStore_refines_lines_insert : ∃ store,
    Run (RowStep exampleArea) (initRows exampleHeap.memory, ⟨[], false⟩)
        [.insertRow 0 100 2, .rowInsertChar 0 1 65] (store, ⟨[[0, 65, 0]], true⟩) ∧
      StoresLines exampleArea store ⟨[[0, 65, 0]], true⟩ := by
  have evaluated :
      ((initRows exampleHeap.memory).exec exampleArea (.insertRow 0 100 2)).toOption.any
        (fun first => first.numrows == 1 &&
          (first.exec exampleArea (.rowInsertChar 0 1 65)).toOption.any fun _ => true) = true := by
    decide +kernel
  obtain ⟨first, inserted, rest⟩ := (Option.any_eq_true _ _).mp evaluated
  obtain ⟨one, more⟩ := Bool.and_eq_true_iff.mp rest
  obtain ⟨store, grown, _⟩ := (Option.any_eq_true _ _).mp more
  have begin : Run (RowStep exampleArea) (initRows exampleHeap.memory, ⟨[], false⟩) []
      (initRows exampleHeap.memory, ⟨[], false⟩) := .nil
  have text : (⟨[[0, 0]], true⟩ : TextLines) =
      TextLines.edit ⟨[], false⟩ exampleHeap.memory (.insertRow 0 100 2) := by
    decide +kernel
  have firstStep : RowStep exampleArea (initRows exampleHeap.memory, ⟨[], false⟩)
      (.insertRow 0 100 2) (first, ⟨[[0, 0]], true⟩) :=
    ⟨⟨by decide, .inr (.inl (by decide))⟩, ok_of_toOption inserted, text⟩
  have existing : 0 < first.numrows := by
    rw [beq_iff_eq.mp one]
    exact Nat.one_pos
  have secondStep : RowStep exampleArea (first, ⟨[[0, 0]], true⟩) (.rowInsertChar 0 1 65)
      (store, ⟨[[0, 65, 0]], true⟩) :=
    ⟨existing, ok_of_toOption grown, rfl⟩
  have ran := (begin.snoc firstStep).snoc secondStep
  exact ⟨store, ran,
    (rowStore_refines_lines exampleArea (fun _ => 0) [] exampleHeap .nil _ _ _ ran).1⟩

end ShedKernel.Editor
