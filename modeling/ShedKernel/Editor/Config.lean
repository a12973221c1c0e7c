import ShedKernel.FileSystem.Disk

/-! The state of the text editor of `ed.c`, its rows, and how it opens and saves a
file. Allocations succeed; a row is the list of its `size` characters. -/

set_option autoImplicit false

namespace ShedKernel.Editor

open Foundation FileSystem

inductive Mode where
  | normal
  | insert
  | command
  deriving DecidableEq, Repr

/-- `editorConfig`, with `numrows` the number of rows. -/
structure EditorConfig where
  cx : Int
  cy : Int
  rowoff : Int
  coloff : Int
  screenrows : Int
  screencols : Int
  dirty : Int
  mode : Mode
  rows : List (List UInt8)
  filename : CString
  cmdbuf : Memory
  cmdlen : Nat

def EditorConfig.numrows (E : EditorConfig) : Int := E.rows.length

def emptyName : CString := ⟨[], by decide⟩

/-- The fields set by `initEditor`; the others keep their values. -/
def initEditor (E : EditorConfig) : EditorConfig :=
  { E with
    cx := 0, cy := 0, rowoff := 0, coloff := 0, rows := [], dirty := 0, mode := .normal,
    filename := emptyName, cmdbuf := E.cmdbuf.storeByte 0 0, cmdlen := 0 }

/-! Row operations. -/

def editorInsertRow (E : EditorConfig) (position : Int) (s : List UInt8) : EditorConfig :=
  if position < 0 ∨ E.numrows < position then E
  else { E with rows := E.rows.insertIdx position.toNat s }

def editorDelRow (E : EditorConfig) (position : Int) : EditorConfig :=
  if position < 0 ∨ E.numrows ≤ position then E
  else { E with rows := E.rows.eraseIdx position.toNat, dirty := 1 }

/-! Files. -/

/-- `count` bytes of a local buffer. -/
def slice (buf : Nat → UInt8) (start count : Nat) : List UInt8 :=
  (List.range count).map fun index => buf (start + index)

/-- The loop of `editorOpen`, from `index` on. -/
def openRows (buf : Nat → UInt8) : Nat → Nat → Nat → EditorConfig → EditorConfig
  | 0, _, _, E => E
  | remaining + 1, index, start, E =>
      if buf index = 10 ∨ buf index = 0 then
        openRows buf remaining (index + 1) (index + 1)
          (editorInsertRow E E.numrows (slice buf start (index - start)))
      else openRows buf remaining (index + 1) start E

/-- `(int)` of a word. -/
def toInt (word : Nat) : Int := if isNegative word then word - 4294967296 else word

theorem toInt_of_lt {word : Nat} (small : word < 2147483648) : toInt word = word := by
  rw [toInt, isNegative_of_lt small]
  rfl

/-- `E.filename` keeps at most 63 bytes. -/
def truncatedName (filename : CString) : CString :=
  ⟨filename.bytes.take 63, fun member => filename.terminated (List.mem_of_mem_take member)⟩

def editorOpen (E : EditorConfig) (disk : Memory) (filename : Option CString) : EditorConfig :=
  match filename with
  | none => E
  | some name =>
      let E := { E with filename := truncatedName name }
      match fsFindFile disk name with
      | none => E
      | some slot =>
          if DirEntry.fileSize disk slot = 0 then E
          else
            let block := fsReadBlock disk (DirEntry.firstDataBlock disk slot)
            let len := toInt (DirEntry.fileSize disk slot)
            let len := if blockSize - 1 < len then (blockSize - 1 : Int) else len
            -- for a size past `INT_MAX` the terminator lands below the buffer
            let buf := if len < 0 then block else fun index => if index = len then 0 else block index
            { openRows buf (len + 1).toNat 0 0 E with dirty := 0 }

/-- The loop of `editorSave` over the remaining rows. -/
def saveRows : List (List UInt8) → Nat → Memory → Nat × Memory
  | [], pos, buf => (pos, buf)
  | row :: rest, pos, buf =>
      if pos < blockSize - 1 then
        let space := blockSize - 1 - pos
        let copy := if row.length < space then row.length else space
        let buf := buf.blit pos (fun index => row.getD index 0) copy
        let pos := pos + copy
        if pos < blockSize - 1 then saveRows rest (pos + 1) (buf.storeByte pos 10)
        else saveRows rest pos buf
      else (pos, buf)

/-- `stack` is what the uninitialised local buffer holds. -/
def editorSave (E : EditorConfig) (state : FsState) (stack : Memory) : EditorConfig × FsState :=
  if E.filename.bytes = [] then (E, state)
  else
    let saved := saveRows E.rows 0 stack
    let buf := saved.2.storeByte saved.1 0
    let state :=
      if fsFindFile state.disk E.filename = none then (fsCreateFile state E.filename).2 else state
    match fsFindFile state.disk E.filename with
    | none => (E, state)
    | some slot =>
        let written := fsWriteBlock state (DirEntry.firstDataBlock state.disk slot) (some buf)
        ({ E with dirty := 0 },
          { written with disk := DirEntry.setFileSize written.disk slot saved.1 })

end ShedKernel.Editor
