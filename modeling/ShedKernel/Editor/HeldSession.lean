import ShedKernel.Editor.OpenProperties
import ShedKernel.Foundation.Simulation

/-! The editing session that the heap holds, and the row operations of the heap editor next
to those of the list editor. -/

set_option autoImplicit false

namespace ShedKernel.Editor

open Foundation FileSystem Heap

/-- The heap holds the session, each row in a block of its own. -/
structure HoldsSession (area : Area) (begun : List Block) (buffers : Buffers area) (h : HeapEditor)
    (s : EditorSession) : Prop where
  keeps : ∃ text, Keeps area begun h.store text
  session : h.session buffers = s

/-- The editor met a null pointer that the allocator had returned. -/
def AllocationRefused (stop : HeapStop) : Prop :=
  ∃ stopped, stop = .rows (.nullPointer stopped) ∧ nullPointer ∈ stopped.allocations

def SameStop (stop : HeapStop) (other : EditorStop) : Prop := stop = .editor other

theorem same_stop {Value Image : Type} {related : Value → Image → Prop} (stop : EditorStop) :
    Simulates AllocationRefused SameStop related (.error (.editor stop)) (.error stop) :=
  .error rfl

/-- What is done to the rows on the heap is done to the list, with the yank buffer and the
disk as they are, unless an allocation is refused. -/
def Mirrors (area : Area) (begun : List Block) (buffers : Buffers area) (yank : List UInt8) (fs : FsState)
    (onHeap : Except HeapStop HeapEditor) (onList : Except EditorStop EditorConfig) : Prop :=
  Simulates AllocationRefused SameStop (fun h E => HoldsSession area begun buffers h ⟨E, yank, fs⟩) onHeap onList

/-- The `erow` of a row and its line. -/
structure RowAt (h : HeapEditor) (E : EditorConfig) (index : Int) (row : Nat) (line : List UInt8) : Prop where
  nonneg : 0 ≤ index
  inside : index.toNat < h.store.numrows
  pointer : row = h.store.row index.toNat
  is : line = E.rows.getD index.toNat []
  size : Erow.size h.store.memory row = line.length
  bytes : Memory.bytesAt h.store.memory (Erow.chars h.store.memory row) line.length = line

variable {area : Area} {begun : List Block} {buffers : Buffers area} {h : HeapEditor} {E : EditorConfig}
  {yank : List UInt8} {fs : FsState} {text : TextLines} {index position : Int} {row : Nat} {line : List UInt8}

theorem RowAt.put (atRow : RowAt h E index row line) {next : EditorConfig} (rows : next.rows = E.rows) :
    RowAt (h.put next) next index row line :=
  ⟨atRow.nonneg, atRow.inside, atRow.pointer, rows ▸ atRow.is, atRow.size, atRow.bytes⟩

namespace HoldsSession

theorem view (holds : HoldsSession area begun buffers h ⟨E, yank, fs⟩) : h.view = E :=
  congrArg EditorSession.E holds.session

theorem numrows (holds : HoldsSession area begun buffers h ⟨E, yank, fs⟩) : E.numrows = h.numrows := by
  rw [← holds.view, view_numrows]

theorem yanked (holds : HoldsSession area begun buffers h ⟨E, yank, fs⟩) :
    Memory.bytesAt h.store.memory buffers.yankBuf h.yankLen = yank :=
  congrArg EditorSession.yank holds.session

theorem disk (holds : HoldsSession area begun buffers h ⟨E, yank, fs⟩) : h.fs = fs :=
  congrArg EditorSession.fs holds.session

theorem dirty (holds : HoldsSession area begun buffers h ⟨E, yank, fs⟩) : h.store.dirty = E.dirty :=
  congrArg EditorConfig.dirty holds.view

theorem rows (holds : HoldsSession area begun buffers h ⟨E, yank, fs⟩)
    (keeps : Keeps area begun h.store text) : E.rows = text.lines := by
  rw [← holds.view]
  exact keeps.lines

/-- Setting fields beside the rows. -/
theorem put (holds : HoldsSession area begun buffers h ⟨E, yank, fs⟩) {next : EditorConfig}
    (rows : next.rows = E.rows) : HoldsSession area begun buffers (h.put next) ⟨next, yank, fs⟩ := by
  obtain ⟨text, keeps⟩ := holds.keeps
  refine ⟨⟨text, keeps.congr rfl rfl rfl⟩, ?_⟩
  have same : (h.put next).view = next := by
    have lines : next.rows = h.store.lines := by rw [rows, ← holds.view]; rfl
    unfold HeapEditor.view HeapEditor.put
    exact (congrArg (fun rows => { next with rows }) lines.symm).trans rfl
  unfold HeapEditor.session
  rw [same]
  exact congrArg₂ _ holds.yanked holds.disk

theorem set (holds : HoldsSession area begun buffers h ⟨E, yank, fs⟩) (f : EditorConfig → EditorConfig)
    (rows : ∀ E, (f E).rows = E.rows) :
    HoldsSession area begun buffers (h.put (f h.view)) ⟨f E, yank, fs⟩ := by
  obtain rfl := holds.view
  exact holds.put (rows _)

/-- Stores in the area that leave other rows and another flag. -/
theorem store {store : RowStore} (holds : HoldsSession area begun buffers h ⟨E, yank, fs⟩)
    (kept : OutsideKept area h.store.memory store.memory) (keeps : Keeps area begun store text)
    {next : EditorConfig} (same : next = { E with rows := text.lines, dirty := store.dirty }) :
    HoldsSession area begun buffers { h with store } ⟨next, yank, fs⟩ := by
  refine ⟨⟨text, keeps⟩, ?_⟩
  have view : ({ h with store } : HeapEditor).view = next := by
    rw [same, ← holds.view, ← keeps.lines]
    rfl
  have outside := buffers.yank_outside
  unfold blockSize dynamicMemTotalSize at outside
  have bytes : Memory.bytesAt store.memory buffers.yankBuf h.yankLen = yank := by
    refine Eq.trans (Memory.bytesAt_congr fun place inside => kept _ ?_) holds.yanked
    have short := h.yankLen.isLt
    unfold blockSize at short
    omega
  unfold HeapEditor.session
  rw [view]
  exact congrArg₂ _ bytes holds.disk

/-- Stores outside the area, into the yank buffer among others. -/
theorem elsewhere {memory : Memory} (holds : HoldsSession area begun buffers h ⟨E, yank, fs⟩)
    (same : ∀ other, area.base ≤ other → other < area.base + 1048576 → memory other = h.store.memory other)
    (yankLen : Fin blockSize) :
    HoldsSession area begun buffers { h with yankLen, store := { h.store with memory } }
      ⟨E, Memory.bytesAt memory buffers.yankBuf yankLen, fs⟩ := by
  obtain ⟨text, keeps⟩ := holds.keeps
  have after := keeps.outside same
  refine ⟨⟨text, after⟩, ?_⟩
  have view : ({ h with yankLen, store := { h.store with memory } } : HeapEditor).view = E := by
    rw [← holds.view]
    unfold HeapEditor.view
    rw [after.lines, keeps.lines]
  unfold HeapEditor.session
  rw [view]
  exact congrArg _ holds.disk

theorem rowAt (holds : HoldsSession area begun buffers h ⟨E, yank, fs⟩) (nonneg : 0 ≤ index)
    (inside : index < E.numrows) :
    RowAt h E index (h.store.row index.toNat) (E.rows.getD index.toNat []) := by
  obtain ⟨text, keeps⟩ := holds.keeps
  have counted := holds.numrows
  have lines := holds.rows keeps
  have total := keeps.numrows
  unfold HeapEditor.numrows at counted
  have inText : index.toNat < text.lines.length := by omega
  obtain ⟨size, bytes, _⟩ := keeps.storesLines.contents _ _ (List.getElem?_eq_getElem inText)
  have here : E.rows.getD index.toNat [] = text.lines[index.toNat] := by
    rw [lines, List.getD_eq_getElem _ _ inText]
  refine ⟨nonneg, by omega, rfl, rfl, ?_, ?_⟩
  · rw [here]
    exact size
  · rw [here]
    exact bytes

/-- `&E.rows[index]`. -/
theorem existing (holds : HoldsSession area begun buffers h ⟨E, yank, fs⟩) (index : Int) :
    Simulates AllocationRefused SameStop (RowAt h E index) (h.existing index) (E.row index) := by
  unfold HeapEditor.existing EditorConfig.row
  rw [← holds.numrows]
  split
  · next inside => exact .ok (holds.rowAt inside.1 inside.2)
  · exact .error rfl

/-- An operation that begins with a row on the heap and reads it somewhere in the list. -/
theorem withRow {Value Image : Type} {related : Value → Image → Prop} {onHeap : Nat → Except HeapStop Value}
    {onList : Except EditorStop Image} (holds : HoldsSession area begun buffers h ⟨E, yank, fs⟩)
    (missing : E.row index = .error (.rowOutOfRange index) → onList = .error (.rowOutOfRange index))
    (found : ∀ row line, RowAt h E index row line →
      Simulates AllocationRefused SameStop related (onHeap row) onList) :
    Simulates AllocationRefused SameStop related (h.existing index >>= onHeap) onList := by
  by_cases inside : 0 ≤ index ∧ index < E.numrows
  · have existing : h.existing index = .ok (h.store.row index.toNat) := if_pos (holds.numrows ▸ inside)
    rw [existing]
    exact found _ _ (holds.rowAt inside.1 inside.2)
  · have refused : h.existing index = .error (.editor (.rowOutOfRange index)) :=
      if_neg (holds.numrows ▸ inside)
    rw [refused, missing (if_neg inside)]
    exact .error rfl

end HoldsSession

/-! What the row operations do to the flag. -/

namespace RowStore

private theorem allocate_dirty {store next : RowStore} {result : Option (Nat × Memory)} {p : Nat}
    (ran : store.allocate result = .ok (p, next)) : next.dirty = store.dirty := by
  unfold allocate at ran
  split at ran
  · cases ran
  · cases ran
    rfl

theorem editorInsertRow_dirty {store next : RowStore} {s len : Nat}
    (ran : store.editorInsertRow area position s len = .ok next) : next.dirty = store.dirty := by
  unfold RowStore.editorInsertRow at ran
  split at ran
  · cases ran
    rfl
  · obtain ⟨⟨_, grown⟩, array, rest⟩ := ok_of_bind ran
    obtain ⟨_, _, rest⟩ := ok_of_bind rest
    obtain ⟨⟨_, taken⟩, chars, rest⟩ := ok_of_bind rest
    obtain ⟨_, _, done⟩ := ok_of_bind rest
    cases done
    have first := allocate_dirty array
    exact (allocate_dirty chars).trans first

private theorem editorRowInsertChar_dirty {store next : RowStore} {c : Int}
    (ran : store.editorRowInsertChar area row position c = .ok next) : next.dirty = 1 := by
  obtain ⟨⟨_, grown⟩, _, rest⟩ := ok_of_bind ran
  obtain ⟨_, _, done⟩ := ok_of_bind rest
  cases done
  rfl

private theorem editorRowAppendString_dirty {store next : RowStore} {s len : Nat}
    (ran : store.editorRowAppendString area row s len = .ok next) : next.dirty = 1 := by
  obtain ⟨⟨_, grown⟩, _, rest⟩ := ok_of_bind ran
  obtain ⟨_, _, done⟩ := ok_of_bind rest
  cases done
  rfl

end RowStore

/-! The row operations. -/

/-- A row operation that may meet a null pointer. -/
theorem simulates_withStore {Image : Type} {related : HeapEditor → Image → Prop} {image : Image}
    {result : Except RowStop RowStore} {good : RowStore → Prop} (completes : Completes result good)
    (holds : ∀ store, result = .ok store → good store → related { h with store } image) :
    Simulates AllocationRefused SameStop related (h.withStore result) (.ok image) := by
  cases completes with
  | inl returned =>
      obtain ⟨store, rfl, isGood⟩ := returned
      exact .ok (holds store rfl isGood)
  | inr stops =>
      obtain ⟨stopped, rfl, failed⟩ := stops
      exact .refused ⟨stopped, rfl, failed⟩

namespace HoldsSession

/-- A row is inserted, with stores in the area only. -/
theorem insertRow_kept (holds : HoldsSession area begun buffers h ⟨E, yank, fs⟩) {s len : Nat}
    (allowed : (RowCall.insertRow position s len).Allowed area h.store) :
    Simulates AllocationRefused SameStop
      (fun next E => HoldsSession area begun buffers next ⟨E, yank, fs⟩ ∧
        OutsideKept area h.store.memory next.store.memory)
      (h.withStore (h.store.editorInsertRow area position s len))
      (.ok (editorInsertRow E position (Memory.bytesAt h.store.memory s len))) := by
  obtain ⟨text, keeps⟩ := holds.keeps
  refine simulates_withStore (keeps.insertRow allowed noRefusals).completes fun store ran after => ?_
  obtain ⟨outside, kept⟩ := after
  refine ⟨holds.store outside kept ?_, outside⟩
  have lines := holds.rows keeps
  have flag : store.dirty = E.dirty := (RowStore.editorInsertRow_dirty ran).trans holds.dirty
  simp only [editorInsertRow, TextLines.edit, EditorConfig.numrows, lines, flag]
  split
  · rw [← lines]
  · rfl

theorem insertRow (holds : HoldsSession area begun buffers h ⟨E, yank, fs⟩) {s len : Nat}
    (allowed : (RowCall.insertRow position s len).Allowed area h.store) :
    Mirrors area begun buffers yank fs (h.withStore (h.store.editorInsertRow area position s len))
      (.ok (editorInsertRow E position (Memory.bytesAt h.store.memory s len))) :=
  (holds.insertRow_kept allowed).imp fun _ _ after => after.1

/-- The end of a row, from `place` on, becomes a row of its own. -/
theorem splitRow (holds : HoldsSession area begun buffers h ⟨E, yank, fs⟩) (atRow : RowAt h E index row line)
    {place : Nat} (inside : place ≤ line.length) :
    Mirrors area begun buffers yank fs
      (h.withStore (h.store.editorInsertRow area position (Erow.chars h.store.memory row + place)
        (line.length - place)))
      (.ok (editorInsertRow E position (line.drop place))) := by
  obtain ⟨text, keeps⟩ := holds.keeps
  have size := atRow.size
  have whole := atRow.bytes
  obtain rfl := atRow.pointer
  have allowed : (RowCall.insertRow position (h.store.chars index.toNat + place)
      (Erow.size h.store.memory (h.store.row index.toNat) - place)).Allowed area h.store :=
    keeps.splitRow_allowed atRow.inside (by omega)
  have tail : Memory.bytesAt h.store.memory (h.store.chars index.toNat + place) (line.length - place) =
      line.drop place := by
    have cut := @Memory.bytesAt_add h.store.memory (h.store.chars index.toNat) place (line.length - place)
    rw [Nat.add_sub_cancel' inside, RowStore.chars, whole] at cut
    have front := @Memory.length_bytesAt h.store.memory (h.store.chars index.toNat) place
    exact ((congrArg (List.drop place) cut).trans (List.drop_left' front)).symm
  rw [← tail]
  rw [size] at allowed
  exact holds.insertRow allowed

theorem delRow (holds : HoldsSession area begun buffers h ⟨E, yank, fs⟩) (position : Int) :
    HoldsSession area begun buffers { h with store := h.store.editorDelRow position }
      ⟨editorDelRow E position, yank, fs⟩ := by
  obtain ⟨text, keeps⟩ := holds.keeps
  obtain ⟨outside, kept⟩ := keeps.delRow position
  refine holds.store outside kept ?_
  have lines := holds.rows keeps
  have flag := holds.dirty
  simp only [editorDelRow, TextLines.edit, EditorConfig.numrows, lines, RowStore.editorDelRow, keeps.numrows]
  split
  · rw [flag, ← lines]
  · rfl

/-- The list editor reads the row, too. -/
theorem reads (holds : HoldsSession area begun buffers h ⟨E, yank, fs⟩) (atRow : RowAt h E index row line) :
    E.row index = .ok line := by
  have counted := holds.numrows
  have inside := atRow.inside
  unfold HeapEditor.numrows at counted
  rw [EditorConfig.row, if_pos ⟨atRow.nonneg, by omega⟩, ← atRow.is]

/-- The line of the row in the list that the store keeps. -/
theorem line_eq (holds : HoldsSession area begun buffers h ⟨E, yank, fs⟩) (atRow : RowAt h E index row line)
    (keeps : Keeps area begun h.store text) : text.line index.toNat = line := by
  rw [TextLines.line, ← holds.rows keeps, atRow.is]

theorem rowInsertChar (holds : HoldsSession area begun buffers h ⟨E, yank, fs⟩) (atRow : RowAt h E index row line)
    (position c : Int) :
    Mirrors area begun buffers yank fs (h.withStore (h.store.editorRowInsertChar area row position c))
      (editorRowInsertChar E index position c) := by
  obtain ⟨text, keeps⟩ := holds.keeps
  have lines := holds.rows keeps
  have here := holds.line_eq atRow keeps
  unfold editorRowInsertChar
  rw [holds.reads atRow, atRow.pointer]
  refine simulates_withStore (keeps.rowInsertChar atRow.inside noRefusals).completes fun store ran after => ?_
  obtain ⟨outside, kept⟩ := after
  refine holds.store outside kept ?_
  have flag := RowStore.editorRowInsertChar_dirty ran
  simp only [TextLines.edit, here, TextLines.setLine, EditorConfig.setRow, lines, flag]
  split
  · rfl
  · rfl

/-- The row at the given index loses a character. -/
theorem rowDelChar (holds : HoldsSession area begun buffers h ⟨E, yank, fs⟩) (atRow : RowAt h E index row line)
    (position : Int) :
    ∃ next, editorRowDelChar E index position = .ok next ∧
      HoldsSession area begun buffers { h with store := h.store.editorRowDelChar row position } ⟨next, yank, fs⟩ := by
  obtain ⟨text, keeps⟩ := holds.keeps
  have lines := holds.rows keeps
  have here := holds.line_eq atRow keeps
  have size := atRow.size
  obtain rfl := atRow.pointer
  obtain ⟨outside, kept⟩ := @Keeps.rowDelChar _ _ _ _ keeps _ position atRow.inside
  have flag := holds.dirty
  unfold editorRowDelChar
  rw [holds.reads atRow]
  refine ⟨if position < 0 ∨ (line.length : Int) ≤ position then E else
    { E.setRow index (line.eraseIdx position.toNat) with dirty := 1 }, ?_, holds.store outside kept ?_⟩
  · simp only [bind, Except.bind]
    split
    · rfl
    · rfl
  · simp only [TextLines.edit, here, TextLines.setLine, EditorConfig.setRow, lines, RowStore.editorRowDelChar, size]
    split
    · rw [flag, ← lines]
    · rfl

/-- The row at the given index is cut off. -/
theorem truncate (holds : HoldsSession area begun buffers h ⟨E, yank, fs⟩) (atRow : RowAt h E index row line)
    {place : Nat} (inside : place ≤ line.length) :
    let sized := Erow.setSize h.store.memory row place
    let memory := sized.storeByte (Erow.chars sized row + Erow.size sized row) 0
    HoldsSession area begun buffers { h with store := { h.store with memory } }
      ⟨E.setRow index (line.take place), yank, fs⟩ := by
  obtain ⟨text, keeps⟩ := holds.keeps
  have lines := holds.rows keeps
  have here := holds.line_eq atRow keeps
  have size := atRow.size
  obtain rfl := atRow.pointer
  obtain ⟨outside, kept⟩ := keeps.truncate atRow.inside (by omega : place ≤ Erow.size h.store.memory _)
  refine holds.store outside kept ?_
  have flag := holds.dirty
  simp only [EditorConfig.setRow, TextLines.setLine, here, lines, flag]

/-- The row is appended to the one in front of it. -/
theorem rowAppendRow (holds : HoldsSession area begun buffers h ⟨E, yank, fs⟩) {above : Nat} {front : List UInt8}
    (atAbove : RowAt h E (index - 1) above front) (atRow : RowAt h E index row line) :
    Mirrors area begun buffers yank fs
      (h.withStore (h.store.editorRowAppendString area above (Erow.chars h.store.memory row)
        (Erow.size h.store.memory row)))
      (editorRowAppendString E (index - 1) line) := by
  obtain ⟨text, keeps⟩ := holds.keeps
  have lines := holds.rows keeps
  have here := holds.line_eq atAbove keeps
  have size := atRow.size
  have bytes := atRow.bytes
  obtain rfl := atAbove.pointer
  obtain rfl := atRow.pointer
  have positive := atAbove.nonneg
  have allowed := keeps.appendRow_allowed (by omega : 0 < index) atRow.inside
  unfold editorRowAppendString
  rw [holds.reads atAbove]
  refine simulates_withStore (keeps.rowAppendString allowed noRefusals).completes fun store ran after => ?_
  obtain ⟨outside, kept⟩ := after
  refine holds.store outside kept ?_
  have flag := RowStore.editorRowAppendString_dirty ran
  simp only [TextLines.edit, here, TextLines.setLine, EditorConfig.setRow, lines, flag]
  rw [size, RowStore.chars, bytes]

end HoldsSession

end ShedKernel.Editor
