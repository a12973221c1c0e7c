import ShedKernel.Editor.HeldSession

/-! The editor on the heap does, turn by turn, what the editor on lists does, as long as its
allocations succeed. -/

set_option autoImplicit false

namespace ShedKernel.Editor

open Foundation FileSystem Heap Strings

variable {area : Area} {begun : List Block} {buffers : Buffers area} {h : HeapEditor} {E : EditorConfig}
  {yank : List UInt8} {fs : FsState}

private theorem RowStore.editorRowDelChar_array (store : RowStore) (row : Nat) (position : Int) :
    (store.editorRowDelChar row position).rows = store.rows ∧
      (store.editorRowDelChar row position).numrows = store.numrows := by
  unfold RowStore.editorRowDelChar
  dsimp only
  split
  · exact ⟨rfl, rfl⟩
  · exact ⟨rfl, rfl⟩

theorem view_cx (h : HeapEditor) : h.view.cx = h.E.cx := rfl

theorem view_cy (h : HeapEditor) : h.view.cy = h.E.cy := rfl

/-! A new row on the list. -/

private theorem editorInsertRow_cursor (E : EditorConfig) (position : Int) (s : List UInt8) :
    (editorInsertRow E position s).cx = E.cx ∧ (editorInsertRow E position s).cy = E.cy := by
  unfold editorInsertRow
  split
  · exact ⟨rfl, rfl⟩
  · exact ⟨rfl, rfl⟩

private theorem editorInsertRow_front (E : EditorConfig) (s : List UInt8) {index : Int} (nonneg : 0 ≤ index) :
    (editorInsertRow E (index + 1) s).rows.getD index.toNat [] = E.rows.getD index.toNat [] := by
  unfold editorInsertRow
  split
  · rfl
  · simp only [List.getD_eq_getElem?_getD]
    rw [List.getElem?_insertIdx_of_lt (by omega)]

namespace HoldsSession

/-! Editor operations. -/

/-- A row that is empty needs no string. -/
theorem insertEmpty (holds : HoldsSession area begun buffers h ⟨E, yank, fs⟩) (position : Int) :
    Mirrors area begun buffers yank fs
      (h.withStore (h.store.editorInsertRow area position buffers.emptyString 0))
      (.ok (editorInsertRow E position [])) :=
  holds.insertRow ⟨by decide, .inl rfl⟩

private theorem insertCharAt (holds : HoldsSession area begun buffers h ⟨E, yank, fs⟩) (c : Int) :
    Mirrors area begun buffers yank fs
      (h.existing h.E.cy >>= fun row => h.withStore (h.store.editorRowInsertChar area row h.E.cx c) >>=
        fun h => pure (h.put { h.view with cx := h.E.cx + 1, dirty := 1 }))
      (editorRowInsertChar E E.cy E.cx c >>= fun E => pure { E with cx := E.cx + 1, dirty := 1 }) := by
  obtain rfl := holds.view
  refine holds.withRow (fun missing => ?_) fun row line atRow => ?_
  · unfold editorRowInsertChar
    rw [view_cy, missing]
    rfl
  refine Simulates.bind (holds.rowInsertChar atRow h.E.cx c) fun next E typed => ?_
  obtain rfl := typed.view
  exact .ok (typed.put rfl)

theorem editorInsertChar (holds : HoldsSession area begun buffers h ⟨E, yank, fs⟩) (c : Int) :
    Mirrors area begun buffers yank fs (h.editorInsertChar buffers c) (Editor.editorInsertChar E c) := by
  have counted := holds.numrows
  unfold HeapEditor.editorInsertChar Editor.editorInsertChar
  obtain rfl := holds.view
  dsimp only
  rw [view_cy, counted]
  by_cases atEnd : h.E.cy = h.numrows
  · rw [if_pos atEnd, if_pos atEnd]
    exact Simulates.bind_ok (holds.insertEmpty h.numrows) fun placed after => after.insertCharAt c
  · rw [if_neg atEnd, if_neg atEnd]
    exact holds.insertCharAt c

theorem editorInsertNewline (holds : HoldsSession area begun buffers h ⟨E, yank, fs⟩) :
    Mirrors area begun buffers yank fs (h.editorInsertNewline buffers) (Editor.editorInsertNewline E) := by
  unfold HeapEditor.editorInsertNewline Editor.editorInsertNewline
  obtain rfl := holds.view
  rw [view_cx, view_cy]
  by_cases atStart : h.E.cx = 0
  · rw [if_pos atStart, if_pos atStart]
    refine Simulates.bind_ok (holds.insertEmpty h.E.cy) fun placed after => ?_
    exact .ok (after.set (fun E => { E with cy := E.cy + 1, cx := 0 }) fun _ => rfl)
  rw [if_neg atStart, if_neg atStart]
  refine holds.withRow (fun missing => ?_) fun row line atRow => ?_
  · rw [missing]
    rfl
  rw [holds.reads atRow]
  change Simulates _ _ _ _ (if h.E.cx < 0 ∨ (line.length : Int) < h.E.cx then _ else _)
  dsimp only
  rw [atRow.size]
  by_cases outside : h.E.cx < 0 ∨ (line.length : Int) < h.E.cx
  · rw [if_pos outside, if_pos outside]
    exact same_stop _
  rw [if_neg outside, if_neg outside]
  refine Simulates.bind_ok (holds.splitRow atRow (by omega : h.E.cx.toNat ≤ line.length)) fun placed after => ?_
  -- the row in front of the new one has not changed
  have front := editorInsertRow_front h.view (line.drop h.E.cx.toNat) atRow.nonneg
  obtain ⟨cx, cy⟩ := editorInsertRow_cursor h.view (h.E.cy + 1) (line.drop h.E.cx.toNat)
  rw [← atRow.is] at front
  generalize editorInsertRow h.view (h.E.cy + 1) (line.drop h.E.cx.toNat) = inserted at *
  obtain rfl := after.view
  rw [view_cx, view_cy]
  refine after.withRow (fun missing => ?_) fun row again atAgain => ?_
  · rw [missing]
    rfl
  have sameColumn : placed.E.cx = h.E.cx := cx
  have sameRow : placed.E.cy = h.E.cy := cy
  have same : again = line := by rw [atAgain.is, sameRow, front]
  rw [after.reads atAgain, ← sameColumn]
  have cut := after.truncate atAgain (show placed.E.cx.toNat ≤ again.length by rw [same]; omega)
  exact .ok (cut.set (fun E => { E with cy := E.cy + 1, cx := 0 }) fun _ => rfl)

theorem editorDelChar (holds : HoldsSession area begun buffers h ⟨E, yank, fs⟩) :
    Mirrors area begun buffers yank fs (h.editorDelChar area) (Editor.editorDelChar E) := by
  have counted := holds.numrows
  unfold HeapEditor.editorDelChar Editor.editorDelChar
  obtain rfl := holds.view
  rw [view_cx, view_cy]
  rw [counted]
  by_cases atEnd : h.E.cy = h.numrows
  · rw [if_pos atEnd, if_pos atEnd]
    exact .ok holds
  rw [if_neg atEnd, if_neg atEnd]
  by_cases atOrigin : h.E.cx = 0 ∧ h.E.cy = 0
  · rw [if_pos atOrigin, if_pos atOrigin]
    exact .ok holds
  rw [if_neg atOrigin, if_neg atOrigin]
  by_cases inRow : 0 < h.E.cx
  · rw [if_pos inRow, if_pos inRow]
    refine holds.withRow (fun missing => ?_) fun row line atRow => ?_
    · unfold editorRowDelChar
      rw [missing]
      rfl
    obtain ⟨next, deletes, after⟩ := holds.rowDelChar atRow (h.E.cx - 1)
    rw [deletes]
    exact .ok (after.set (fun E => { E with cx := E.cx - 1, dirty := 1 }) fun _ => rfl)
  rw [if_neg inRow, if_neg inRow]
  refine holds.withRow (fun missing => ?_) fun above front atAbove => ?_
  · rw [missing]
    rfl
  rw [holds.reads atAbove]
  dsimp only
  rw [atAbove.size]
  have moved := holds.set (fun E => { E with cx := (front.length : Int) }) fun _ => rfl
  have atAboveMoved : RowAt (h.put { h.view with cx := (front.length : Int) })
      { h.view with cx := (front.length : Int) } (h.E.cy - 1) above front := atAbove.put rfl
  change Mirrors area begun buffers yank fs _
    (EditorConfig.row { h.view with cx := (front.length : Int) } h.E.cy >>= _)
  refine moved.withRow (fun missing => ?_) fun row line atRow => ?_
  · change EditorConfig.row { h.view with cx := (front.length : Int) } h.E.cy = _ at missing
    rw [missing]
    rfl
  have reads := moved.reads atRow
  change EditorConfig.row { h.view with cx := (front.length : Int) } h.E.cy = _ at reads
  rw [reads]
  change Mirrors area begun buffers yank fs _
    (editorRowAppendString { h.view with cx := (front.length : Int) } (h.E.cy - 1) line >>= _)
  refine Simulates.bind (moved.rowAppendRow atAboveMoved atRow) fun joined E after => ?_
  obtain rfl := after.view
  exact .ok ((after.delRow joined.E.cy).set (fun E => { E with cy := E.cy - 1, dirty := 1 }) fun _ => rfl)

/-- What a yank leaves in the buffer. -/
private theorem yank_copies {memory : Memory} {dest src count : Nat} {line : List UInt8}
    (held : Memory.bytesAt memory src count = line) (apart : dest + blockSize ≤ src ∨ src + count ≤ dest) :
    let yankLen := HeapEditor.yankLength count
    Memory.bytesAt ((memcpy memory dest src yankLen).storeByte (dest + yankLen) 0) dest yankLen =
      line.take (blockSize - 1) := by
  intro yankLen
  have short := yankLen.isLt
  have fits : yankLen.val = min count (blockSize - 1) := by
    unfold yankLen HeapEditor.yankLength
    split
    · next small => exact (Nat.min_eq_left small.le).symm
    · next long => exact (Nat.min_eq_right (Nat.le_of_not_lt long)).symm
  have length : line.length = count := by
    rw [← held]
    exact Memory.length_bytesAt
  have copied : (line.take (blockSize - 1)).length = yankLen := by
    rw [List.length_take, length, fits, Nat.min_comm]
  rw [Memory.bytesAt_eq_iff copied]
  intro index inside
  rw [Memory.storeByte_of_ne (by omega), memcpy_inside (by omega) inside,
    (Memory.bytesAt_eq_iff length).mp held index (by omega)]
  simp only [List.getD_eq_getElem?_getD]
  rw [List.getElem?_take_of_lt (by omega)]

theorem editorYankLine (holds : HoldsSession area begun buffers h ⟨E, yank, fs⟩) :
    Simulates AllocationRefused SameStop (fun next yank => HoldsSession area begun buffers next ⟨E, yank, fs⟩)
      (h.editorYankLine buffers) (Editor.editorYankLine E yank) := by
  have counted := holds.numrows
  unfold HeapEditor.editorYankLine Editor.editorYankLine
  obtain rfl := holds.view
  rw [view_cy]
  rw [counted]
  by_cases beyond : h.numrows ≤ h.E.cy
  · rw [if_pos beyond, if_pos beyond]
    exact .ok holds
  rw [if_neg beyond, if_neg beyond]
  refine holds.withRow (fun missing => ?_) fun row line atRow => ?_
  · rw [missing]
    rfl
  rw [holds.reads atRow]
  obtain ⟨text, keeps⟩ := holds.keeps
  have inArea := keeps.chars_inside atRow.inside
  rw [RowStore.chars, ← atRow.pointer, atRow.size] at inArea
  have outside := buffers.yank_outside
  unfold dynamicMemTotalSize at outside
  have copies := yank_copies atRow.bytes (by omega : buffers.yankBuf + blockSize ≤ _ ∨ _ ≤ buffers.yankBuf)
  dsimp only
  change Simulates _ _ _ _ (.ok (line.take (blockSize - 1)))
  rw [atRow.size, ← copies]
  refine .ok (holds.elsewhere (fun other low high => ?_) _)
  have short := (HeapEditor.yankLength line.length).isLt
  rw [Memory.storeByte_of_ne (by omega), memcpy_outside (by omega)]

theorem editorPasteLine (holds : HoldsSession area begun buffers h ⟨E, yank, fs⟩) :
    Mirrors area begun buffers yank fs (h.editorPasteLine buffers) (.ok (Editor.editorPasteLine E yank)) := by
  have yanked := holds.yanked
  have length : yank.length = h.yankLen := by
    rw [← yanked]
    exact Memory.length_bytesAt
  unfold HeapEditor.editorPasteLine Editor.editorPasteLine
  obtain rfl := holds.view
  rw [length]
  by_cases empty : h.yankLen.val = 0
  · rw [if_pos empty, if_pos empty]
    exact .ok holds
  rw [if_neg empty, if_neg empty]
  have short := h.yankLen.isLt
  have outside := buffers.yank_outside
  have readable : Elsewhere area h.store.memory [h.store.rows] buffers.yankBuf h.yankLen := by
    cases outside with
    | inl below => exact .inl (by omega)
    | inr above => exact .inr (.inl above)
  unfold blockSize at short
  have allowed : (RowCall.insertRow (h.E.cy + 1) buffers.yankBuf h.yankLen).Allowed area h.store :=
    ⟨by omega, .inr readable⟩
  have placed := holds.insertRow allowed
  rw [yanked] at placed
  refine Simulates.bind_ok placed fun inserted after => ?_
  have cy : inserted.E.cy = h.E.cy :=
    (congrArg EditorConfig.cy after.view).trans (editorInsertRow_cursor h.view (h.E.cy + 1) yank).2
  dsimp only
  rw [cy]
  exact .ok (after.set (fun E => { E with cy := h.E.cy + 1, cx := 0 }) fun _ => rfl)

private theorem setWhen (holds : HoldsSession area begun buffers h ⟨E, yank, fs⟩) (condition : Prop)
    [Decidable condition] (f : EditorConfig → EditorConfig) (rows : ∀ E, (f E).rows = E.rows) :
    HoldsSession area begun buffers (if condition then h.put (f h.view) else h)
      ⟨if condition then f E else E, yank, fs⟩ := by
  split
  · exact holds.set f rows
  · exact holds

/-- The cursor after the row under it is gone. -/
private theorem leaveRow (holds : HoldsSession area begun buffers h ⟨E, yank, fs⟩) :
    let left := if h.numrows ≤ h.E.cy ∧ 0 < h.E.cy then h.put { h.view with cy := h.E.cy - 1 } else h
    let leftList := if E.numrows ≤ E.cy ∧ 0 < E.cy then { E with cy := E.cy - 1 } else E
    HoldsSession area begun buffers (left.put { left.view with cx := 0 }) ⟨{ leftList with cx := 0 }, yank, fs⟩ := by
  have counted := holds.numrows
  obtain rfl := holds.view
  rw [counted]
  have left := holds.setWhen (h.numrows ≤ h.E.cy ∧ 0 < h.E.cy) (fun E => { E with cy := E.cy - 1 }) fun _ => rfl
  exact left.set (fun E => { E with cx := 0 }) fun _ => rfl

theorem editorDeleteLine (holds : HoldsSession area begun buffers h ⟨E, yank, fs⟩) :
    Simulates AllocationRefused SameStop
      (fun next after => HoldsSession area begun buffers next ⟨after.1, after.2, fs⟩)
      (h.editorDeleteLine buffers) (Editor.editorDeleteLine E yank) := by
  have counted := holds.numrows
  unfold HeapEditor.editorDeleteLine Editor.editorDeleteLine
  rw [counted]
  by_cases none : h.numrows = 0
  · rw [if_pos none, if_pos none]
    exact .ok holds
  rw [if_neg none, if_neg none]
  refine Simulates.bind holds.editorYankLine fun yanked yank after => ?_
  obtain rfl := after.view
  exact .ok (after.delRow yanked.E.cy).leaveRow

/-! Keys. -/

theorem insertKeypress (holds : HoldsSession area begun buffers h ⟨E, yank, fs⟩) (c : Int) :
    Mirrors area begun buffers yank fs (h.insertKeypress buffers c) (Editor.insertKeypress E c) := by
  unfold HeapEditor.insertKeypress Editor.insertKeypress
  by_cases escape : c = escapeKey
  · rw [if_pos escape, if_pos escape]
    obtain rfl := holds.view
    have left := holds.set (fun E => { E with mode := .normal }) fun _ => rfl
    exact .ok (left.setWhen (0 < h.E.cx) (fun E => { E with cx := E.cx - 1 }) fun _ => rfl)
  rw [if_neg escape, if_neg escape]
  by_cases enter : c = enterKey
  · rw [if_pos enter, if_pos enter]
    refine Simulates.bind holds.editorInsertNewline fun next E after => ?_
    obtain rfl := after.view
    exact .ok (after.set (fun E => { E with dirty := 1 }) fun _ => rfl)
  rw [if_neg enter, if_neg enter]
  by_cases erases : c = backspaceKey ∨ c = deleteKey
  · rw [if_pos erases, if_pos erases]
    exact holds.editorDelChar
  rw [if_neg erases, if_neg erases]
  by_cases printable : 32 ≤ c ∧ c < 127
  · rw [if_pos printable, if_pos printable]
    exact holds.editorInsertChar c
  · rw [if_neg printable, if_neg printable]
    exact .ok holds

/-- The last steps of `o`. -/
private theorem openLine (holds : HoldsSession area begun buffers h ⟨E, yank, fs⟩) :
    Mirrors area begun buffers yank fs
      (h.editorInsertNewline buffers >>= fun h => pure (h.put { h.view with mode := .insert }))
      (Editor.editorInsertNewline E >>= fun E => pure { E with mode := .insert }) :=
  Simulates.bind holds.editorInsertNewline fun _ _ opened =>
    .ok (opened.set (fun E => { E with mode := .insert }) fun _ => rfl)

theorem openBelowKey (holds : HoldsSession area begun buffers h ⟨E, yank, fs⟩) :
    Mirrors area begun buffers yank fs (h.openBelowKey buffers) (Editor.openBelowKey E) := by
  have counted := holds.numrows
  unfold HeapEditor.openBelowKey Editor.openBelowKey
  obtain rfl := holds.view
  rw [view_cy]
  dsimp only
  rw [counted]
  by_cases onRow : h.E.cy < h.numrows
  · rw [if_pos onRow, if_pos onRow]
    have moved : Mirrors area begun buffers yank fs
        (h.existing h.E.cy >>= fun row => pure (h.put { h.view with cx := Erow.size h.store.memory row }))
        (h.view.row h.E.cy >>= fun row => pure { h.view with cx := (row.length : Int) }) := by
      refine holds.withRow (fun missing => ?_) fun row line atRow => ?_
      · rw [missing]
        rfl
      rw [holds.reads atRow, atRow.size]
      exact .ok (holds.set (fun E => { E with cx := (line.length : Int) }) fun _ => rfl)
    exact Simulates.bind moved fun _ _ after => after.openLine
  · rw [if_neg onRow, if_neg onRow]
    exact holds.openLine

theorem openAboveKey (holds : HoldsSession area begun buffers h ⟨E, yank, fs⟩) :
    Mirrors area begun buffers yank fs (h.openAboveKey buffers) (.ok (Editor.openAboveKey E)) := by
  unfold HeapEditor.openAboveKey Editor.openAboveKey
  obtain rfl := holds.view
  have first := holds.set (fun E => { E with cx := 0 }) fun _ => rfl
  refine Simulates.bind_ok (first.insertEmpty h.E.cy) fun placed after => ?_
  exact .ok (after.set (fun E => { E with mode := .insert }) fun _ => rfl)

/-- The array stays where it is. -/
private theorem rowDelChar_rowAt {position : Int} {row : Nat} {line : List UInt8} {index : Int} {next : EditorConfig}
    (atRow : RowAt h E index row line)
    (after : HoldsSession area begun buffers { h with store := h.store.editorRowDelChar row position }
      ⟨next, yank, fs⟩) :
    ∃ shorter, RowAt { h with store := h.store.editorRowDelChar row position } next index row shorter := by
  obtain ⟨rows, counted⟩ := RowStore.editorRowDelChar_array h.store row position
  have total := after.numrows
  change next.numrows = ((h.store.editorRowDelChar row position).numrows : Int) at total
  rw [counted] at total
  have inside := atRow.inside
  have here := after.rowAt atRow.nonneg (by omega)
  have pointer : (h.store.editorRowDelChar row position).row index.toNat = row := by
    rw [RowStore.row, rows, atRow.pointer]
    rfl
  exact ⟨_, pointer ▸ here⟩

theorem deleteCharKey (holds : HoldsSession area begun buffers h ⟨E, yank, fs⟩) :
    Mirrors area begun buffers yank fs h.deleteCharKey (Editor.deleteCharKey E) := by
  have counted := holds.numrows
  unfold HeapEditor.deleteCharKey Editor.deleteCharKey
  obtain rfl := holds.view
  rw [view_cx, view_cy]
  rw [counted]
  by_cases onRow : h.E.cy < h.numrows
  · rw [if_pos onRow, if_pos onRow]
    refine holds.withRow (fun missing => ?_) fun row line atRow => ?_
    · rw [missing]
      rfl
    rw [holds.reads atRow, atRow.size]
    change Mirrors area begun buffers yank fs _ (if h.E.cx < line.length then _ else _)
    by_cases onCharacter : h.E.cx < line.length
    · rw [if_pos onCharacter, if_pos onCharacter]
      obtain ⟨next, deletes, after⟩ := holds.rowDelChar atRow h.E.cx
      obtain ⟨shorter, atShorter⟩ := rowDelChar_rowAt atRow after
      rw [deletes]
      obtain rfl := after.view
      change Mirrors area begun buffers yank fs _ (EditorConfig.row _ h.E.cy >>= _)
      rw [after.reads atShorter]
      change Mirrors area begun buffers yank fs _
        (.ok (if (shorter.length : Int) ≤ h.E.cx ∧ 0 < h.E.cx then _ else _))
      rw [← atShorter.size]
      exact .ok (after.setWhen _ (fun E => { E with cx := E.cx - 1 }) fun _ => rfl)
    · rw [if_neg onCharacter, if_neg onCharacter]
      exact .ok holds
  · rw [if_neg onRow, if_neg onRow]
    exact .ok holds

end HoldsSession

/-- The other keys only read the rows, and nothing of the yank buffer. -/
theorem normalKeypress_reading (E : EditorConfig) (yank : List UInt8) {c : Int} (below : c ≠ keyOf 'o')
    (above : c ≠ keyOf 'O') (erase : c ≠ keyOf 'x') (paste : c ≠ keyOf 'p') :
    normalKeypress E yank c = normalKeypress E [] c ∧
      ∀ next, normalKeypress E [] c = .ok next → next.rows = E.rows := by
  simp only [normalKeypress, if_neg below, if_neg above, if_neg erase, if_neg paste]
  refine ⟨trivial, fun next ran => ?_⟩
  split at ran
  · exact (editorMoveCursor_unchanged ran).1
  split at ran
  · cases ran
    rfl
  split at ran
  · exact (appendKey_unchanged ran).1
  split at ran
  · cases ran
    rfl
  · cases ran
    rfl

private theorem editorExecCommand_yank {s entered : EditorSession} {stack : Memory} {quit : Bool}
    (ran : editorExecCommand s stack = .ok (quit, entered)) : entered.yank = s.yank := by
  unfold editorExecCommand at ran
  dsimp only at ran
  split at ran
  · split at ran
    · cases ran
      rfl
    · cases ran
      rfl
  split at ran
  · cases ran
    rfl
  split at ran
  · cases ran
    rfl
  split at ran
  · cases ran
    rfl
  split at ran
  · cases ran
  · cases ran
    rfl

/-- A command does not touch the rows or the yank buffer. -/
theorem commandKeypress_keeps {s next : EditorSession} {c : Int} {stack : Memory} (mode : s.E.mode = .command)
    (ran : commandKeypress s c stack = .ok next) : next.E.rows = s.E.rows ∧ next.yank = s.yank := by
  constructor
  · cases commandKeypress_effect mode [] ran with
    | kept _ unchanged => exact unchanged.1
    | saved _ rows _ => exact rows
    | left rows _ _ => exact rows
  unfold commandKeypress at ran
  split at ran
  · cases ran
    rfl
  split at ran
  · obtain ⟨⟨quit, entered⟩, executed, done⟩ := ok_of_bind ran
    have yank := editorExecCommand_yank executed
    cases quit with
    | false =>
        cases done
        exact yank
    | true =>
        cases done
        exact yank
  split at ran
  · split at ran
    · cases ran
      rfl
    · cases ran
      rfl
  split at ran
  · cases ran
    rfl
  · cases ran
    rfl

namespace HoldsSession

/-- A command has set other fields, and perhaps stored the file. -/
private theorem commanded {next : EditorSession} (holds : HoldsSession area begun buffers h ⟨E, yank, fs⟩)
    (rows : next.E.rows = E.rows) (same : next.yank = yank) :
    HoldsSession area begun buffers { h.put next.E with fs := next.fs } next := by
  obtain ⟨E, _, fs⟩ := next
  cases same
  have put := holds.put rows
  refine ⟨put.keeps, ?_⟩
  have session := put.session
  injection session with view bytes _
  exact congrArg₂ (EditorSession.mk · · fs) view bytes

theorem normalKeypress (holds : HoldsSession area begun buffers h ⟨E, yank, fs⟩) (c : Int) :
    Mirrors area begun buffers yank fs (h.normalKeypress buffers c) (Editor.normalKeypress E yank c) := by
  unfold HeapEditor.normalKeypress
  by_cases below : c = keyOf 'o'
  · subst below
    exact holds.openBelowKey
  rw [if_neg below]
  by_cases above : c = keyOf 'O'
  · subst above
    exact holds.openAboveKey
  rw [if_neg above]
  by_cases erase : c = keyOf 'x'
  · subst erase
    exact holds.deleteCharKey
  rw [if_neg erase]
  by_cases paste : c = keyOf 'p'
  · subst paste
    exact holds.editorPasteLine
  rw [if_neg paste]
  obtain ⟨same, rows⟩ := normalKeypress_reading E yank below above erase paste
  rw [same, holds.view]
  cases ran : Editor.normalKeypress E [] c with
  | error stop => exact same_stop stop
  | ok next => exact .ok (holds.put (rows next ran))

/-- The session is held, and the same keys are left. -/
def After (area : Area) (begun : List Block) (buffers : Buffers area) (next : HeapEditor × List Int)
    (after : EditorSession × List Int) : Prop :=
  HoldsSession area begun buffers next.1 after.1 ∧ next.2 = after.2

theorem editorProcessKeypress {s : EditorSession} (holds : HoldsSession area begun buffers h s) (keys : List Int)
    (stack : Memory) :
    Simulates AllocationRefused SameStop (After area begun buffers) (h.editorProcessKeypress buffers keys stack)
      (Editor.editorProcessKeypress s keys stack) := by
  obtain ⟨E, yank, fs⟩ := s
  have mode := congrArg EditorConfig.mode holds.view
  change h.E.mode = E.mode at mode
  cases keys with
  | nil => exact same_stop _
  | cons c keys =>
      cases is : E.mode with
      | insert =>
          simp only [HeapEditor.editorProcessKeypress, Editor.editorProcessKeypress, mode, is]
          exact Simulates.bind (holds.insertKeypress c) fun next E after => .ok ⟨after, rfl⟩
      | command =>
          simp only [HeapEditor.editorProcessKeypress, Editor.editorProcessKeypress, mode, is, holds.session]
          cases ran : commandKeypress ⟨E, yank, fs⟩ c stack with
          | error stop => exact same_stop stop
          | ok next =>
              obtain ⟨rows, same⟩ := commandKeypress_keeps is ran
              exact .ok ⟨holds.commanded rows same, rfl⟩
      | normal =>
          simp only [HeapEditor.editorProcessKeypress, Editor.editorProcessKeypress, mode, is]
          by_cases twoKeys : c = keyOf 'd' ∨ c = keyOf 'y'
          · rw [if_pos twoKeys, if_pos twoKeys]
            cases keys with
            | nil => exact same_stop _
            | cons second keys =>
                dsimp only
                by_cases deletes : c = keyOf 'd' ∧ second = keyOf 'd'
                · rw [if_pos deletes, if_pos deletes]
                  exact Simulates.bind holds.editorDeleteLine fun next left after => .ok ⟨after, rfl⟩
                rw [if_neg deletes, if_neg deletes]
                by_cases yanks : c = keyOf 'y' ∧ second = keyOf 'y'
                · rw [if_pos yanks, if_pos yanks]
                  exact Simulates.bind holds.editorYankLine fun next yank after => .ok ⟨after, rfl⟩
                · rw [if_neg yanks, if_neg yanks]
                  exact .ok ⟨holds, rfl⟩
          · rw [if_neg twoKeys, if_neg twoKeys]
            exact Simulates.bind (holds.normalKeypress c) fun next E after => .ok ⟨after, rfl⟩

theorem editorTurn {s : EditorSession} (holds : HoldsSession area begun buffers h s) (keys : List Int)
    (stack : Memory) :
    Simulates AllocationRefused SameStop (After area begun buffers) (h.editorTurn buffers keys stack)
      (Editor.editorTurn s keys stack) := by
  obtain ⟨E, yank, fs⟩ := s
  exact (holds.set editorScroll fun E => (editorScroll_same E).1).editorProcessKeypress keys stack

/-! Opening a file. -/

/-- The loop cuts the same rows out of the buffer. -/
private theorem openRows {buf : Nat → UInt8} {remaining start place : Nat}
    (holds : HoldsSession area begun buffers h ⟨E, yank, fs⟩)
    (loaded : ∀ offset, offset < blockSize → h.store.memory (buffers.openBuf + offset) = buf offset)
    (ahead : start ≤ place) (small : place + remaining ≤ blockSize) :
    Mirrors area begun buffers yank fs (HeapEditor.openRows buffers remaining place start h)
      (.ok (Editor.openRows buf remaining place start E)) := by
  induction remaining generalizing h E place start with
  | zero => exact .ok holds
  | succ remaining ih =>
      unfold HeapEditor.openRows Editor.openRows
      rw [loaded place (by omega)]
      by_cases cuts : buf place = 10 ∨ buf place = 0
      · rw [if_pos cuts, if_pos cuts]
        have allowed := openRow_allowed buffers h.store (by omega : start + (place - start) ≤ blockSize) h.numrows
        have piece : Memory.bytesAt h.store.memory (buffers.openBuf + start) (place - start) =
            slice buf start (place - start) := by
          refine List.map_congr_left fun offset member => ?_
          have inside := List.mem_range.mp member
          rw [Nat.add_assoc]
          exact loaded _ (by omega)
        have appended := holds.insertRow_kept allowed
        rw [piece, ← holds.numrows] at appended
        rw [← holds.numrows]
        refine Simulates.bind_ok appended fun next after => ?_
        obtain ⟨after, outside⟩ := after
        refine ih after (fun offset inside => ?_) le_rfl (by omega)
        exact (openBuf_kept buffers outside inside).trans (loaded offset inside)
      · rw [if_neg cuts, if_neg cuts]
        exact ih holds loaded (by omega) (by omega)

/-- The block in the buffer, with the terminator, and its rows. -/
private theorem loadRows {len : Int} (holds : HoldsSession area begun buffers h ⟨E, yank, fs⟩)
    (block : Nat → UInt8) (nonneg : ¬len < 0) (bounded : len ≤ 4095) :
    let memory := (h.store.memory.blit buffers.openBuf block blockSize).storeByte (buffers.openBuf + len.toNat) 0
    let buf := fun index : Nat => if index = len then 0 else block index
    Mirrors area begun buffers (Memory.bytesAt memory buffers.yankBuf h.yankLen) fs
      (HeapEditor.openRows buffers (len + 1).toNat 0 0 { h with store := { h.store with memory } } >>=
        fun h => pure (h.put { h.view with dirty := 0 }))
      (.ok { Editor.openRows buf (len + 1).toNat 0 0 E with dirty := 0 }) := by
  intro memory buf
  have outside := buffers.open_outside
  unfold dynamicMemTotalSize at outside
  have blockSize_eq : blockSize = 4096 := rfl
  have kept : ∀ other, area.base ≤ other → other < area.base + 1048576 → memory other = h.store.memory other := by
    intro other low high
    unfold memory
    rw [Memory.storeByte_of_ne (by omega), Memory.blit_of_outside (by omega)]
  have loaded : ∀ offset, offset < blockSize → memory (buffers.openBuf + offset) = buf offset := by
    intro offset inside
    unfold memory buf
    by_cases last : (offset : Int) = len
    · rw [if_pos last, show offset = len.toNat by omega]
      exact Memory.storeByte_self _ _ _
    · rw [if_neg last, Memory.storeByte_of_ne (by omega), Memory.blit_of_inside inside]
  have rows := (holds.elsewhere kept h.yankLen).openRows loaded le_rfl (by omega : 0 + (len + 1).toNat ≤ blockSize)
  exact Simulates.bind_ok rows fun next after => .ok (after.set (fun E => { E with dirty := 0 }) fun _ => rfl)

theorem editorOpen {filename : Option CString} {next : HeapEditor}
    (holds : HoldsSession area begun buffers h ⟨E, yank, fs⟩) (ran : h.editorOpen buffers filename = .ok next) :
    ∃ yank, HoldsSession area begun buffers next ⟨Editor.editorOpen E fs.disk filename, yank, fs⟩ := by
  unfold HeapEditor.editorOpen at ran
  unfold Editor.editorOpen
  cases filename with
  | none =>
      cases ran
      exact ⟨yank, holds⟩
  | some name =>
      have named := holds.set (fun E => { E with filename := truncatedName name }) fun _ => rfl
      have disk : (h.put { h.view with filename := truncatedName name }).fs.disk = fs.disk :=
        congrArg FsState.disk holds.disk
      dsimp only at ran ⊢
      generalize h.put { h.view with filename := truncatedName name } = opened at ran named disk
      rw [disk] at ran
      cases found : fsFindFile fs.disk name with
      | none =>
          rw [found] at ran
          cases ran
          exact ⟨yank, named⟩
      | some slot =>
          rw [found] at ran
          dsimp only at ran ⊢
          by_cases empty : DirEntry.fileSize fs.disk slot = 0
          · rw [if_pos empty] at ran ⊢
            cases ran
            exact ⟨yank, named⟩
          rw [if_neg empty] at ran ⊢
          generalize fsReadBlock fs.disk (DirEntry.firstDataBlock fs.disk slot) = block at ran ⊢
          generalize length : (if (blockSize : Int) - 1 < toInt _ then (blockSize : Int) - 1 else
            toInt _) = len at ran ⊢
          have bounded : len ≤ 4095 := by
            rw [← length]
            unfold blockSize
            split
            · exact le_rfl
            · omega
          split at ran
          · cases ran
          · next nonneg =>
              rw [if_neg nonneg]
              obtain ⟨E, returned, after⟩ := (named.loadRows block nonneg bounded).of_ok ran
              cases returned
              exact ⟨_, after⟩

theorem editorStart {memory : Memory} {yankLen : Fin blockSize} {filename : Option CString} {start : HeapEditor}
    (represents : Represents area memory begun)
    (started : HeapEditor.editorStart buffers memory E yankLen fs filename = .ok start) :
    ∃ yank, HoldsSession area begun buffers start (Editor.editorStart E yank fs filename) := by
  have nothing : HoldsSession area begun buffers ⟨initEditor E, initRows memory, yankLen, fs⟩
      ⟨initEditor E, Memory.bytesAt memory buffers.yankBuf yankLen, fs⟩ :=
    ⟨⟨_, initRows_keeps represents⟩, rfl⟩
  exact (nothing.set (fun E => { E with screenrows := 25 - 2, screencols := 80 }) fun _ => rfl).editorOpen started

end HoldsSession

/-! Whole sessions. -/

private theorem HeapTurn.mirrored {s : EditorSession} {typed : Typed} {next : HeapEditor}
    (turn : HeapTurn buffers h typed next) (holds : HoldsSession area begun buffers h s) :
    ∃ after, Turn s typed after ∧ HoldsSession area begun buffers next after := by
  obtain ⟨⟨after, rest⟩, ran, held, same⟩ := (holds.editorTurn typed.keys typed.stack).of_ok turn.2
  cases same
  exact ⟨after, ⟨holds.dirty ▸ turn.1, ran⟩, held⟩

/-- In every session on the heap the rows, the cursor, the yank buffer and the disk are those
of the session on lists, and the next turn will go the same way unless an allocation is
refused in it. -/
theorem editorRun_simulated (area : Area) (buffers : Buffers area) (memory : Memory)
    (heapCalls : List HeapCall) (heap : HeapState)
    (reached : Run (HeapStep area) (initialHeap area memory) heapCalls heap)
    (E : EditorConfig) (yankLen : Fin blockSize) (fs : FsState) (filename : Option CString)
    (start : HeapEditor)
    (started : HeapEditor.editorStart buffers heap.memory E yankLen fs filename = .ok start)
    (turns : List Typed) (final : HeapEditor) (run : Run (HeapTurn buffers) start turns final) :
    ∃ begun yank, Run Turn (editorStart E yank fs filename) turns (final.session buffers) ∧
      ∀ keys stack, Simulates AllocationRefused SameStop (HoldsSession.After area begun buffers)
        (final.editorTurn buffers keys stack) (editorTurn (final.session buffers) keys stack) := by
  obtain ⟨begun, invariant⟩ := heapInvariant_of_run reached
  obtain ⟨yank, opened⟩ := HoldsSession.editorStart invariant.represents started
  obtain ⟨s, mirrored, holds⟩ : ∃ s, Run Turn (editorStart E yank fs filename) turns s ∧
      HoldsSession area begun buffers final s :=
    run.simulated opened fun _ _ _ _ holds turn => turn.mirrored holds
  obtain rfl := holds.session
  exact ⟨begun, yank, mirrored, holds.editorTurn⟩

end ShedKernel.Editor
