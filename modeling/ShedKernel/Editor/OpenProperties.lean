import ShedKernel.Editor.OnHeapProperties
import ShedKernel.Foundation.Pieces

/-! What `editorOpen` makes of a file: the text cut at every newline and every NUL, each piece
in a block of its own. -/

set_option autoImplicit false

namespace ShedKernel.Editor

open Foundation FileSystem Heap

/-- `editorOpen` ends a row at this byte. -/
def endsRow (byte : UInt8) : Bool := byte = 10 ∨ byte = 0

/-- The bytes of the file that `editorOpen` reads. -/
def openedText (disk : Memory) (slot : Nat) : List UInt8 :=
  Memory.bytesAt (fsReadBlock disk (DirEntry.firstDataBlock disk slot)) 0
    (min (DirEntry.fileSize disk slot) (blockSize - 1))

/-- The function returns, or an allocation of a row failed. -/
def Returns (result : Except HeapStop HeapEditor) (good : HeapEditor → Prop) : Prop :=
  (∃ next, result = .ok next ∧ good next) ∨
    ∃ stopped, result = .error (.rows (.nullPointer stopped)) ∧ nullPointer ∈ stopped.allocations

variable {area : Area} {begun : List Block} {buffers : Buffers area} {h : HeapEditor}
  {text : TextLines} {result : Except HeapStop HeapEditor} {good better : HeapEditor → Prop}

theorem Returns.bind {next : HeapEditor → Except HeapStop HeapEditor} (returns : Returns result good)
    (continues : ∀ h, good h → Returns (next h) better) : Returns (result >>= next) better := by
  cases returns with
  | inl returned =>
      obtain ⟨h, rfl, holds⟩ := returned
      exact continues h holds
  | inr stops =>
      obtain ⟨stopped, rfl, failed⟩ := stops
      exact .inr ⟨stopped, rfl, failed⟩

theorem Returns.imp (returns : Returns result good) (implies : ∀ h, good h → better h) :
    Returns result better := by
  cases returns with
  | inl returned =>
      obtain ⟨h, ran, holds⟩ := returned
      exact .inl ⟨h, ran, implies h holds⟩
  | inr stops => exact .inr stops

theorem Completes.withStore {result : Except RowStop RowStore} {good : RowStore → Prop}
    (completes : Completes result good) :
    Returns (h.withStore result) fun next => good next.store ∧ next = { h with store := next.store } := by
  cases completes with
  | inl returned =>
      obtain ⟨store, rfl, holds⟩ := returned
      exact .inl ⟨{ h with store }, rfl, holds, rfl⟩
  | inr stops =>
      obtain ⟨stopped, rfl, failed⟩ := stops
      exact .inr ⟨stopped, rfl, failed⟩

/-- A piece of the buffer becomes the last row, and the buffer stays. -/
theorem appendRow (keeps : Keeps area begun h.store text) {start len : Nat}
    (small : start + len ≤ blockSize) :
    Returns (h.withStore (h.store.editorInsertRow area h.numrows (buffers.openBuf + start) len))
      fun next => OutsideKept area h.store.memory next.store.memory ∧
        Keeps area begun next.store
          ⟨text.lines ++ [Memory.bytesAt h.store.memory (buffers.openBuf + start) len], true⟩ := by
  have inserted := keeps.insertRow (openRow_allowed buffers h.store small h.numrows) noRefusals
  refine (inserted.completes.withStore (h := h)).imp fun next after => ?_
  obtain ⟨⟨outside, kept⟩, _⟩ := after
  have counted : h.numrows = (text.lines.length : Int) := congrArg Int.ofNat keeps.numrows
  have inRange : ¬((text.lines.length : Int) < 0 ∨ (text.lines.length : Int) < text.lines.length) := by
    omega
  rw [TextLines.edit, counted, if_neg inRange, Int.toNat_natCast, List.insertIdx_length_self] at kept
  exact ⟨outside, kept⟩

/-- The buffer of `editorOpen` keeps its bytes. -/
theorem openBuf_kept {memory changed : Memory} (buffers : Buffers area)
    (kept : OutsideKept area memory changed) {index : Nat} (inside : index < blockSize) :
    changed (buffers.openBuf + index) = memory (buffers.openBuf + index) := by
  have outside := buffers.open_outside
  unfold blockSize dynamicMemTotalSize at outside
  unfold blockSize at inside
  exact kept _ (by omega)

/-- At a byte that ends a row, the piece read so far is cut off. -/
theorem openRows_cut {piece : List UInt8} {remaining index start : Nat}
    (keeps : Keeps area begun h.store text) (small : index < blockSize)
    (read : start + piece.length = index)
    (held : Memory.bytesAt h.store.memory (buffers.openBuf + start) piece.length = piece)
    (cuts : endsRow (h.store.memory (buffers.openBuf + index)) = true)
    (continues : ∀ next : HeapEditor, OutsideKept area h.store.memory next.store.memory →
      Keeps area begun next.store ⟨text.lines ++ [piece], true⟩ →
      Returns (HeapEditor.openRows buffers remaining (index + 1) (index + 1) next) good) :
    Returns (HeapEditor.openRows buffers (remaining + 1) index start h) good := by
  have length : index - start = piece.length := by omega
  have appended := @appendRow _ _ buffers h text keeps start piece.length (by omega)
  rw [held] at appended
  unfold endsRow at cuts
  unfold HeapEditor.openRows
  rw [if_pos (of_decide_eq_true cuts), length]
  exact appended.bind fun next after => continues next after.1 after.2

/-- In front of `rest` the loop has cut off the rows of `text` and read `piece` of the next. -/
theorem openRows_splits {rest piece : List UInt8} {index start : Nat}
    (keeps : Keeps area begun h.store text) (small : index + rest.length < blockSize)
    (read : start + piece.length = index)
    (heldPiece : Memory.bytesAt h.store.memory (buffers.openBuf + start) piece.length = piece)
    (heldRest : Memory.bytesAt h.store.memory (buffers.openBuf + index) rest.length = rest)
    (ended : h.store.memory (buffers.openBuf + (index + rest.length)) = 0) :
    Returns (HeapEditor.openRows buffers (rest.length + 1) index start h) fun next =>
      Keeps area begun next.store
        ⟨text.lines ++ rest.splitOnPPrepend endsRow piece.reverse, true⟩ := by
  induction rest generalizing h text piece index start with
  | nil =>
      -- the terminator ends the last row
      have cuts : endsRow (h.store.memory (buffers.openBuf + index)) = true := by
        rw [List.length_nil, Nat.add_zero] at ended
        rw [ended]
        rfl
      refine openRows_cut keeps small read heldPiece cuts fun next _ kept => ?_
      rw [List.splitOnPPrepend_nil, List.reverse_reverse]
      exact .inl ⟨next, rfl, kept⟩
  | cons byte rest ih =>
      rw [List.length_cons, Memory.bytesAt_succ, List.cons.injEq] at heldRest
      obtain ⟨here, later⟩ := heldRest
      have place : index + (byte :: rest).length = index + 1 + rest.length := by
        rw [List.length_cons]
        omega
      rw [place] at small ended
      cases cuts : endsRow byte with
      | true =>
          rw [List.splitOnPPrepend_cons_pos cuts, List.reverse_reverse]
          refine openRows_cut keeps (by omega) read heldPiece (by rw [here]; exact cuts) ?_
          intro next outside kept
          have further := @ih next _ [] (index + 1) (index + 1) kept (by omega) rfl rfl ?_ ?_
          · simpa using further
          · refine Eq.trans (Memory.bytesAt_congr fun offset inside => ?_) later
            rw [Nat.add_assoc]
            exact openBuf_kept buffers outside (by omega)
          · exact (openBuf_kept buffers outside (by omega)).trans ended
      | false =>
          have goesOn : ¬(h.store.memory (buffers.openBuf + index) = 10 ∨
              h.store.memory (buffers.openBuf + index) = 0) := by
            rw [here]
            exact of_decide_eq_false cuts
          have longer : Memory.bytesAt h.store.memory (buffers.openBuf + start)
              (piece ++ [byte]).length = piece ++ [byte] := by
            refine Memory.bytesAt_append_iff.mpr ⟨heldPiece, ?_⟩
            rw [Nat.add_assoc, read, List.length_singleton, Memory.bytesAt_succ, here]
            rfl
          have further := @ih h text (piece ++ [byte]) (index + 1) start keeps (by omega)
            (by simp only [List.length_append, List.length_singleton]; omega) longer later ended
          unfold HeapEditor.openRows
          rw [List.length_cons, if_neg goesOn, List.splitOnPPrepend_cons_neg cuts]
          simpa using further

/-- How much of the file fits in front of the terminator of the buffer. -/
theorem opened_length {size : Nat} (small : size < 2147483648) :
    (if (blockSize : Int) - 1 < toInt size then (blockSize : Int) - 1 else toInt size) =
      (min size (blockSize - 1) : Nat) := by
  rw [toInt_of_lt small]
  unfold blockSize
  split
  · omega
  · omega

/-- The block of the file and the terminator, read into the buffer. -/
theorem loadedBuffer (buffers : Buffers area) (memory : Memory) {block : Nat → UInt8}
    {bytes : List UInt8} (held : Memory.bytesAt block 0 bytes.length = bytes)
    (bounded : bytes.length ≤ 4095) :
    let loaded := (memory.blit buffers.openBuf block blockSize).storeByte
      (buffers.openBuf + bytes.length) 0
    (∀ other, area.base ≤ other → other < area.base + 1048576 → loaded other = memory other) ∧
      Memory.bytesAt loaded buffers.openBuf bytes.length = bytes ∧
      loaded (buffers.openBuf + bytes.length) = 0 := by
  have outside := buffers.open_outside
  unfold blockSize dynamicMemTotalSize at outside
  refine ⟨fun other low high => ?_, ?_, Memory.storeByte_self _ _ _⟩
  · rw [Memory.storeByte_of_ne (by omega), Memory.blit_of_outside (by unfold blockSize; omega)]
  · refine Eq.trans (List.map_congr_left fun index member => ?_) held
    have inside : index < bytes.length := List.mem_range.mp member
    rw [Memory.storeByte_of_ne (by omega), Memory.blit_of_inside (by unfold blockSize; omega),
      Nat.zero_add]

private theorem editorOpen_splits {name : CString} {slot : Nat} (keeps : Keeps area begun h.store text)
    (found : fsFindFile h.fs.disk name = some slot) (nonempty : 0 < DirEntry.fileSize h.fs.disk slot)
    (small : DirEntry.fileSize h.fs.disk slot < 2147483648) :
    Returns (h.editorOpen buffers (some name)) fun next => Keeps area begun next.store
      ⟨text.lines ++ (openedText h.fs.disk slot).splitOnP endsRow, true⟩ := by
  have filled : ¬DirEntry.fileSize h.fs.disk slot = 0 := Nat.ne_of_gt nonempty
  have length : (openedText h.fs.disk slot).length =
      min (DirEntry.fileSize h.fs.disk slot) (blockSize - 1) := Memory.length_bytesAt
  have bounded : (openedText h.fs.disk slot).length ≤ 4095 := by
    rw [length]
    exact Nat.min_le_right _ _
  have renamed : (h.put { h.view with filename := truncatedName name }).fs.disk = h.fs.disk := rfl
  unfold HeapEditor.editorOpen
  simp only [renamed, found, if_neg filled, opened_length small, ← length, Int.toNat_natCast]
  have bytes : Memory.bytesAt (fsReadBlock h.fs.disk (DirEntry.firstDataBlock h.fs.disk slot)) 0
      (openedText h.fs.disk slot).length = openedText h.fs.disk slot := by
    rw [length]
    rfl
  generalize openedText h.fs.disk slot = rest at *
  have nonneg : ¬((rest.length : Int) < 0) := by omega
  have turns : ((rest.length : Int) + 1).toNat = rest.length + 1 := by omega
  rw [if_neg nonneg, turns]
  obtain ⟨outside, held, ended⟩ := loadedBuffer buffers h.store.memory bytes bounded
  have loaded : Keeps area begun _ text := (keeps.congr rfl rfl rfl).outside outside
  have inBlock : 0 + rest.length < blockSize := by
    unfold blockSize
    omega
  refine (@openRows_splits _ _ buffers _ text rest [] 0 0 loaded inBlock rfl rfl held ?_).bind
    fun next kept => .inl ⟨_, rfl, ?_⟩
  · rw [Nat.zero_add]
    exact ended
  exact kept.congr rfl rfl rfl

theorem Keeps.lines {store : RowStore} (keeps : Keeps area begun store text) :
    store.lines = text.lines := by
  have stores := keeps.storesLines
  apply List.ext_getElem
  · rw [← stores.numrows]
    simp [RowStore.lines]
  · intro index inStore inText
    obtain ⟨size, bytes, _⟩ := stores.contents index _ (List.getElem?_eq_getElem inText)
    simp only [RowStore.lines, List.getElem_map, List.getElem_range]
    rw [size]
    exact bytes

/-- The rows of a file of at least one byte are what its first 4095 bytes are cut into at
newlines and NULs: nothing is lost, and there is one row more than there are cuts. -/
theorem editorOpen_splits_file (area : Area) (buffers : Buffers area) (memory : Memory)
    (heapCalls : List HeapCall) (heap : HeapState)
    (reached : Run (HeapStep area) (initialHeap area memory) heapCalls heap)
    (E : EditorConfig) (yankLen : Fin blockSize) (fs : FsState) (name : CString) (slot : Nat)
    (found : fsFindFile fs.disk name = some slot) (nonempty : 0 < DirEntry.fileSize fs.disk slot)
    (small : DirEntry.fileSize fs.disk slot < 2147483648) :
    let bytes := openedText fs.disk slot
    let rows := bytes.splitOnP endsRow
    Returns (HeapEditor.editorOpen buffers ⟨initEditor E, initRows heap.memory, yankLen, fs⟩
        (some name))
      (fun next => StoresLines area next.store ⟨rows, true⟩ ∧ next.view.rows = rows) ∧
      [10].intercalate rows = bytes.map (fun byte => if byte = 0 then 10 else byte) ∧
      rows.length = bytes.countP endsRow + 1 := by
  obtain ⟨begun, invariant⟩ := heapInvariant_of_run reached
  have nothing : Keeps area begun (initRows heap.memory) ⟨[], false⟩ :=
    initRows_keeps invariant.represents
  refine ⟨?_, ?_, Pieces.length_splitOnP endsRow _⟩
  · exact (@editorOpen_splits _ _ buffers ⟨initEditor E, initRows heap.memory, yankLen, fs⟩ _ _ _
      nothing found nonempty small).imp fun next kept => ⟨kept.storesLines, kept.lines⟩
  · rw [Pieces.intercalate_splitOnP]
    refine List.map_congr_left fun byte _ => ?_
    unfold endsRow
    by_cases newline : byte = 10
    · simp [newline]
    · simp [newline]

/-- A file `a` of the bytes from 0 to 11. -/
def countingState : FsState :=
  fsRun (fsInit blankState) [.create nameA, .write nameA (fun place => UInt8.ofNat place) 4096 12]

/-- The newline 10 and the NUL 0 cut the file into three rows, the first of them empty. -/
theorem editorOpen_splits_file_counting : ∃ next, HeapEditor.editorOpen exampleBuffers
      ⟨initEditor blankEditor, initRows exampleHeap.memory, ⟨0, by decide⟩, countingState⟩
      (some nameA) = .ok next ∧
    StoresLines exampleArea next.store ⟨[[], [1, 2, 3, 4, 5, 6, 7, 8, 9], [11]], true⟩ ∧
    next.view.rows = [[], [1, 2, 3, 4, 5, 6, 7, 8, 9], [11]] := by
  have pieces : (openedText countingState.disk 0).splitOnP endsRow =
      [[], [1, 2, 3, 4, 5, 6, 7, 8, 9], [11]] := by
    decide +kernel
  have returned : (HeapEditor.editorOpen exampleBuffers
      ⟨initEditor blankEditor, initRows exampleHeap.memory, ⟨0, by decide⟩, countingState⟩
      (some nameA)).isOk = true := by
    decide +kernel
  obtain ⟨opened, _⟩ := editorOpen_splits_file exampleArea exampleBuffers (fun _ => 0) [] exampleHeap .nil
    blankEditor ⟨0, by decide⟩ countingState nameA 0 (by decide +kernel) (by decide +kernel)
    (by decide +kernel)
  rw [pieces] at opened
  cases opened with
  | inl granted => exact granted
  | inr refused =>
      obtain ⟨stopped, stops, _⟩ := refused
      rw [stops] at returned
      cases returned

end ShedKernel.Editor
