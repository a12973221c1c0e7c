import Mathlib.Data.List.TakeWhile
import ShedKernel.Editor.CommandBuffer

/-! How `editorRefreshScreen` of `ed.c` draws the rows, the status bar and the command line,
and where it leaves the cursor. Reading behind a row's string stops the drawing. -/

set_option autoImplicit false

namespace ShedKernel.Editor

open Foundation FileSystem Console

private theorem zero_notMem_takeWhile (bytes : List UInt8) : 0 ∉ bytes.takeWhile (· ≠ 0) := by
  intro member
  simpa using List.mem_takeWhile_imp member

/-- The string that begins with these bytes. -/
def stringOf (bytes : List UInt8) : CString := ⟨bytes.takeWhile (· ≠ 0), zero_notMem_takeWhile bytes⟩

/-- `&row->chars[start]`, which holds `size` characters and a terminator. -/
def charsFrom (row : List UInt8) (start : Int) : Except EditorStop CString :=
  if 0 ≤ start ∧ start ≤ row.length then .ok (stringOf (row.drop start.toNat))
  else .error (.characterOutOfRange start)

/-- `kprintf` of a format with the right arguments. -/
def kprintfFormat (console : TextScreen) (format : String) (args : List VarArg) : TextScreen :=
  (kprintf console (ascii format) args).getD console

/-- `int` as an argument. -/
def intArg (value : Int) : VarArg := .word (UInt32.ofNat (value % 4294967296).toNat)

/-- `kvga_write_char` for one column after the other. -/
def writeChars (console : TextScreen) (row col : Int) (attr : UInt8) : List UInt8 → TextScreen
  | [] => console
  | c :: rest => writeChars (kvgaWriteChar console row col c attr) row (col + 1) attr rest

/-! The rows. -/

def shedVersion : CString := stringOf (ascii "0.0.1")

/-- The line in the middle of an empty file. -/
def drawWelcome (E : EditorConfig) (console : TextScreen) (y : Int) : TextScreen :=
  let welcome := formatted "Shed v%s  --  i=insert  :w=save  :q=quit" [.string shedVersion]
  let wlen := (welcome.length : Int)
  let wlen := if E.screencols < wlen then E.screencols else wlen
  let pad := (E.screencols - wlen).tdiv 2
  let console := kvgaWriteChar console y 0 (byteOf '~') lightGrey
  let console := writeChars console y 1 lightGrey (List.replicate (pad - 1).toNat space)
  let console := kvgaSetCursor console y pad
  let console := kprintfFormat console "%.*s" [intArg wlen, .string (stringOf welcome)]
  kvgaClearToEol console y (pad + wlen)

/-- A turn of the loop of `editorDrawRows`. -/
def editorDrawRow (E : EditorConfig) (console : TextScreen) (y : Int) : Except EditorStop TextScreen :=
  let filerow := y + E.rowoff
  let console := kvgaSetCursor console y 0
  if E.numrows ≤ filerow then
    if E.numrows = 0 ∧ y = E.screenrows.tdiv 3 then .ok (drawWelcome E console y)
    else .ok (kvgaClearToEol (kvgaWriteChar console y 0 (byteOf '~') lightGrey) y 1)
  else do
    let row ← E.row filerow
    let start := E.coloff
    let len := row.length - start
    let len := if len < 0 then 0 else len
    let len := if E.screencols < len then E.screencols else len
    let text ← charsFrom row start
    let console := kprintfFormat console "%.*s" [intArg len, .string text]
    pure (kvgaClearToEol console y len)

/-- The first turns of the loop. -/
def drawRows (E : EditorConfig) (console : TextScreen) : Nat → Except EditorStop TextScreen
  | 0 => .ok console
  | y + 1 => do
      let console ← drawRows E console y
      editorDrawRow E console y

def editorDrawRows (E : EditorConfig) (console : TextScreen) : Except EditorStop TextScreen :=
  drawRows E console E.screenrows.toNat

/-! The status bar and the command line. -/

def Mode.text : Mode → CString
  | .normal => stringOf (ascii "NORMAL")
  | .insert => stringOf (ascii "INSERT")
  | .command => stringOf (ascii "COMMAND")

def editorDrawStatusBar (E : EditorConfig) (console : TextScreen) : TextScreen :=
  let filename := if E.filename.bytes = [] then stringOf (ascii "[No Name]") else E.filename
  let changed := if 0 < E.dirty then stringOf (ascii "[+]") else stringOf []
  let status := formatted " %s | %.20s %s" [.string E.mode.text, .string filename, .string changed]
  let len := (status.length : Int)
  let len := if E.screencols < len then E.screencols else len
  let console := writeChars console E.screenrows 0 0x70 (status.take len.toNat)
  let console := writeChars console E.screenrows len 0x70 (List.replicate (E.screencols - len).toNat space)
  let cmdrow := E.screenrows + 1
  let console := kvgaSetCursor console cmdrow 0
  if E.mode = .command then
    let console := kprintfFormat console ":%.*s" [intArg E.cmdlen, .string (commandString E)]
    kvgaClearToEol console cmdrow (E.cmdlen + 1)
  else kvgaClearToEol console cmdrow 0

/-! The whole screen. -/

def editorRefreshScreen (E : EditorConfig) (console : TextScreen) : Except EditorStop (EditorConfig × TextScreen) := do
  let E := editorScroll E
  let console ← editorDrawRows E console
  let console := editorDrawStatusBar E console
  if E.mode = .command then pure (E, kvgaSetCursor console (E.screenrows + 1) (E.cmdlen + 1))
  else pure (E, kvgaSetCursor console (E.cy - E.rowoff) (E.cx - E.coloff))

end ShedKernel.Editor
