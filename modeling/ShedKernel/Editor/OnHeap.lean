import ShedKernel.Editor.RowStore
import ShedKernel.Editor.CursorProperties

/-! The editor with its rows on the heap. What changes rows is written out on the row store;
what only reads them runs on the list model, with the rows read back. -/

set_option autoImplicit false

namespace ShedKernel.Editor

open Foundation FileSystem Heap Strings

/-- Where the linker puts `yank_buf` and the string `""`, and the stack the buffer of
`editorOpen`: like any C objects, they lie outside the area. -/
structure Buffers (area : Area) where
  yankBuf : Nat
  openBuf : Nat
  emptyString : Nat
  yank_outside : yankBuf + blockSize ≤ area.base ∨ area.base + dynamicMemTotalSize ≤ yankBuf
  open_outside : openBuf + blockSize ≤ area.base ∨ area.base + dynamicMemTotalSize ≤ openBuf

inductive HeapStop where
  | rows (stop : RowStop)
  | editor (stop : EditorStop)

/-- The contents of the rows. -/
def RowStore.lines (store : RowStore) : List (List UInt8) :=
  (List.range store.numrows).map fun index =>
    Memory.bytesAt store.memory (store.chars index) (Erow.size store.memory (store.row index))

/-- The store holds `E.rows`, `E.numrows` and `E.dirty`; `E` holds the other fields. -/
structure HeapEditor where
  E : EditorConfig
  store : RowStore
  yankLen : Fin blockSize
  fs : FsState

namespace HeapEditor

variable {area : Area}

/-- The editor with the rows read back. -/
def view (h : HeapEditor) : EditorConfig :=
  { h.E with rows := h.store.lines, dirty := h.store.dirty }

def session (buffers : Buffers area) (h : HeapEditor) : EditorSession :=
  ⟨h.view, Memory.bytesAt h.store.memory buffers.yankBuf h.yankLen, h.fs⟩

/-- Sets every field but the rows. -/
def put (h : HeapEditor) (E : EditorConfig) : HeapEditor :=
  { h with E, store := { h.store with dirty := E.dirty } }

/-- A function that only reads the rows. -/
def reading (h : HeapEditor) (result : Except EditorStop EditorConfig) :
    Except HeapStop HeapEditor :=
  match result with
  | .error stop => .error (.editor stop)
  | .ok E => .ok (h.put E)

def withStore (h : HeapEditor) (result : Except RowStop RowStore) : Except HeapStop HeapEditor :=
  match result with
  | .error stop => .error (.rows stop)
  | .ok store => .ok { h with store }

def numrows (h : HeapEditor) : Int := h.store.numrows

/-- `&E.rows[index]`, for a row that exists. -/
def existing (h : HeapEditor) (index : Int) : Except HeapStop Nat :=
  if 0 ≤ index ∧ index < h.numrows then .ok (h.store.row index.toNat)
  else .error (.editor (.rowOutOfRange index))

/-! Editor operations. -/

def editorInsertChar (buffers : Buffers area) (h : HeapEditor) (c : Int) :
    Except HeapStop HeapEditor := do
  let h ← if h.E.cy = h.numrows then
      h.withStore (h.store.editorInsertRow area h.numrows buffers.emptyString 0)
    else pure h
  let row ← h.existing h.E.cy
  let h ← h.withStore (h.store.editorRowInsertChar area row h.E.cx c)
  pure (h.put { h.view with cx := h.E.cx + 1, dirty := 1 })

def editorInsertNewline (buffers : Buffers area) (h : HeapEditor) : Except HeapStop HeapEditor := do
  if h.E.cx = 0 then
    let h ← h.withStore (h.store.editorInsertRow area h.E.cy buffers.emptyString 0)
    pure (h.put { h.view with cy := h.E.cy + 1, cx := 0 })
  else
    let row ← h.existing h.E.cy
    let size := Erow.size h.store.memory row
    if h.E.cx < 0 ∨ (size : Int) < h.E.cx then throw (.editor (.characterOutOfRange h.E.cx))
    let place := h.E.cx.toNat
    let h ← h.withStore (h.store.editorInsertRow area (h.E.cy + 1)
      (Erow.chars h.store.memory row + place) (size - place))
    let row ← h.existing h.E.cy
    let memory := Erow.setSize h.store.memory row place
    let memory := memory.storeByte (Erow.chars memory row + Erow.size memory row) 0
    let h := { h with store := { h.store with memory } }
    pure (h.put { h.view with cy := h.E.cy + 1, cx := 0 })

def editorDelChar (area : Area) (h : HeapEditor) : Except HeapStop HeapEditor := do
  if h.E.cy = h.numrows then pure h
  else if h.E.cx = 0 ∧ h.E.cy = 0 then pure h
  else if 0 < h.E.cx then
    let row ← h.existing h.E.cy
    let h := { h with store := h.store.editorRowDelChar row (h.E.cx - 1) }
    pure (h.put { h.view with cx := h.E.cx - 1, dirty := 1 })
  else
    let above ← h.existing (h.E.cy - 1)
    let h := h.put { h.view with cx := Erow.size h.store.memory above }
    let row ← h.existing h.E.cy
    let h ← h.withStore (h.store.editorRowAppendString area above
      (Erow.chars h.store.memory row) (Erow.size h.store.memory row))
    let h := { h with store := h.store.editorDelRow h.E.cy }
    pure (h.put { h.view with cy := h.E.cy - 1, dirty := 1 })

/-- How much of a row fits in `yank_buf`. -/
def yankLength (size : Nat) : Fin blockSize :=
  if small : size < blockSize - 1 then ⟨size, Nat.lt_of_lt_of_le small (Nat.sub_le _ _)⟩
  else ⟨blockSize - 1, by decide⟩

def editorYankLine (buffers : Buffers area) (h : HeapEditor) : Except HeapStop HeapEditor := do
  if h.numrows ≤ h.E.cy then pure h
  else
    let row ← h.existing h.E.cy
    let yankLen := yankLength (Erow.size h.store.memory row)
    let memory := memcpy h.store.memory buffers.yankBuf (Erow.chars h.store.memory row) yankLen
    let memory := memory.storeByte (buffers.yankBuf + yankLen) 0
    pure { h with yankLen, store := { h.store with memory } }

def editorPasteLine (buffers : Buffers area) (h : HeapEditor) : Except HeapStop HeapEditor := do
  if h.yankLen.val = 0 then pure h
  else
    let h ← h.withStore (h.store.editorInsertRow area (h.E.cy + 1) buffers.yankBuf h.yankLen)
    pure (h.put { h.view with cy := h.E.cy + 1, cx := 0 })

def editorDeleteLine (buffers : Buffers area) (h : HeapEditor) : Except HeapStop HeapEditor := do
  if h.numrows = 0 then pure h
  else
    let h ← h.editorYankLine buffers
    let h := { h with store := h.store.editorDelRow h.E.cy }
    let h := if h.numrows ≤ h.E.cy ∧ 0 < h.E.cy then h.put { h.view with cy := h.E.cy - 1 } else h
    pure (h.put { h.view with cx := 0 })

/-! Keys. -/

def insertKeypress (buffers : Buffers area) (h : HeapEditor) (c : Int) :
    Except HeapStop HeapEditor :=
  if c = escapeKey then
    let h := h.put { h.view with mode := .normal }
    pure (if 0 < h.E.cx then h.put { h.view with cx := h.E.cx - 1 } else h)
  else if c = enterKey then do
    let h ← h.editorInsertNewline buffers
    pure (h.put { h.view with dirty := 1 })
  else if c = backspaceKey ∨ c = deleteKey then h.editorDelChar area
  else if 32 ≤ c ∧ c < 127 then h.editorInsertChar buffers c
  else pure h

def openBelowKey (buffers : Buffers area) (h : HeapEditor) : Except HeapStop HeapEditor := do
  let h ← if h.E.cy < h.numrows then (do
      let row ← h.existing h.E.cy
      pure (h.put { h.view with cx := Erow.size h.store.memory row }))
    else pure h
  let h ← h.editorInsertNewline buffers
  pure (h.put { h.view with mode := .insert })

def openAboveKey (buffers : Buffers area) (h : HeapEditor) : Except HeapStop HeapEditor := do
  let h := h.put { h.view with cx := 0 }
  let h ← h.withStore (h.store.editorInsertRow area h.E.cy buffers.emptyString 0)
  pure (h.put { h.view with mode := .insert })

def deleteCharKey (h : HeapEditor) : Except HeapStop HeapEditor := do
  if h.E.cy < h.numrows then
    let row ← h.existing h.E.cy
    if h.E.cx < Erow.size h.store.memory row then
      let h := { h with store := h.store.editorRowDelChar row h.E.cx }
      pure (if (Erow.size h.store.memory row : Int) ≤ h.E.cx ∧ 0 < h.E.cx then
        h.put { h.view with cx := h.E.cx - 1 } else h)
    else pure h
  else pure h

def normalKeypress (buffers : Buffers area) (h : HeapEditor) (c : Int) :
    Except HeapStop HeapEditor :=
  if c = keyOf 'o' then h.openBelowKey buffers
  else if c = keyOf 'O' then h.openAboveKey buffers
  else if c = keyOf 'x' then h.deleteCharKey
  else if c = keyOf 'p' then h.editorPasteLine buffers
  else h.reading (Editor.normalKeypress h.view [] c)

/-- Returns the keys that were not read. -/
def editorProcessKeypress (buffers : Buffers area) (h : HeapEditor) (keys : List Int)
    (stack : Memory) : Except HeapStop (HeapEditor × List Int) := do
  match keys with
  | [] => throw (.editor .waitingForKey)
  | c :: keys =>
      match h.E.mode with
      | .insert =>
          let h ← h.insertKeypress buffers c
          pure (h, keys)
      | .command =>
          match commandKeypress (h.session buffers) c stack with
          | .error stop => throw (.editor stop)
          | .ok s => pure ({ h.put s.E with fs := s.fs }, keys)
      | .normal =>
          if c = keyOf 'd' ∨ c = keyOf 'y' then
            match keys with
            | [] => throw (.editor .waitingForKey)
            | next :: keys =>
                if c = keyOf 'd' ∧ next = keyOf 'd' then
                  let h ← h.editorDeleteLine buffers
                  pure (h, keys)
                else if c = keyOf 'y' ∧ next = keyOf 'y' then
                  let h ← h.editorYankLine buffers
                  pure (h, keys)
                else pure (h, keys)
          else
            let h ← h.normalKeypress buffers c
            pure (h, keys)

/-! Opening a file, and the main loop. -/

/-- The loop of `editorOpen`, from `index` on. -/
def openRows (buffers : Buffers area) : Nat → Nat → Nat → HeapEditor → Except HeapStop HeapEditor
  | 0, _, _, h => .ok h
  | remaining + 1, index, start, h =>
      if h.store.memory (buffers.openBuf + index) = 10 ∨
          h.store.memory (buffers.openBuf + index) = 0 then do
        let h ← h.withStore (h.store.editorInsertRow area h.numrows (buffers.openBuf + start)
          (index - start))
        openRows buffers remaining (index + 1) (index + 1) h
      else openRows buffers remaining (index + 1) start h

/-- A size past `INT_MAX` puts the terminator below the buffer, which stops the model. -/
def editorOpen (buffers : Buffers area) (h : HeapEditor) (filename : Option CString) :
    Except HeapStop HeapEditor := do
  match filename with
  | none => pure h
  | some name =>
      let h := h.put { h.view with filename := truncatedName name }
      match fsFindFile h.fs.disk name with
      | none => pure h
      | some slot =>
          if DirEntry.fileSize h.fs.disk slot = 0 then pure h
          else
            let block := fsReadBlock h.fs.disk (DirEntry.firstDataBlock h.fs.disk slot)
            let memory := h.store.memory.blit buffers.openBuf block blockSize
            let len := toInt (DirEntry.fileSize h.fs.disk slot)
            let len := if blockSize - 1 < len then (blockSize - 1 : Int) else len
            if len < 0 then throw (.editor .bufferOverrun)
            let memory := memory.storeByte (buffers.openBuf + len.toNat) 0
            let h ← openRows buffers (len + 1).toNat 0 0 { h with store := { h.store with memory } }
            pure (h.put { h.view with dirty := 0 })

/-- `editorRun` up to its loop; `memory`, `E`, `yankLen` and `fs` are what it finds. -/
def editorStart (buffers : Buffers area) (memory : Memory) (E : EditorConfig)
    (yankLen : Fin blockSize) (fs : FsState) (filename : Option CString) : Except HeapStop HeapEditor :=
  let h : HeapEditor := ⟨initEditor E, initRows memory, yankLen, fs⟩
  editorOpen buffers (h.put { h.view with screenrows := 25 - 2, screencols := 80 }) filename

/-- One turn of the loop of `editorRun`, up to its test of `E.dirty`. -/
def editorTurn (buffers : Buffers area) (h : HeapEditor) (keys : List Int) (stack : Memory) :
    Except HeapStop (HeapEditor × List Int) :=
  (h.put (editorScroll h.view)).editorProcessKeypress buffers keys stack

end HeapEditor

/-- A turn of the main loop. -/
def HeapTurn {area : Area} (buffers : Buffers area) (h : HeapEditor) (typed : Typed)
    (next : HeapEditor) : Prop :=
  h.store.dirty ≠ -9999 ∧ h.editorTurn buffers typed.keys typed.stack = .ok (next, [])

end ShedKernel.Editor
