import ShedKernel.Editor.Config

/-! Cursor, key bindings and main loop of the editor in `ed.c`. An access to a row or
a character that does not exist, or past the end of `tmp`, stops the model. -/

set_option autoImplicit false

namespace ShedKernel.Editor

open Foundation FileSystem

inductive EditorStop where
  | waitingForKey
  | rowOutOfRange (index : Int)
  | characterOutOfRange (index : Int)
  | bufferOverrun
  deriving DecidableEq

/-! Codes of `kbd_driver.h` and characters, as the `int` of `kbd_getchar`. -/

def arrowUp : Int := 1000

def arrowDown : Int := 1001

def arrowLeft : Int := 1002

def arrowRight : Int := 1003

def escapeKey : Int := 27

def enterKey : Int := 10

def backspaceKey : Int := 8

def deleteKey : Int := 127

def keyOf (character : Char) : Int := character.toNat

/-- `(char)c`. -/
def charOf (c : Int) : UInt8 := UInt8.ofNat (c % 256).toNat

/-- The bytes of a string literal. -/
def ascii (text : String) : List UInt8 := text.toList.map fun c => UInt8.ofNat c.toNat

/-- The editor, `yank_buf` up to `yank_len`, and the file system. -/
structure EditorSession where
  E : EditorConfig
  yank : List UInt8
  fs : FsState

namespace EditorConfig

/-- The access `E.rows[index]`. -/
def row (E : EditorConfig) (index : Int) : Except EditorStop (List UInt8) :=
  if 0 ≤ index ∧ index < E.numrows then .ok (E.rows.getD index.toNat [])
  else .error (.rowOutOfRange index)

def setRow (E : EditorConfig) (index : Int) (row : List UInt8) : EditorConfig :=
  { E with rows := E.rows.set index.toNat row }

end EditorConfig

/-! Characters of the row at `index`. -/

def editorRowInsertChar (E : EditorConfig) (index position c : Int) :
    Except EditorStop EditorConfig := do
  let row ← E.row index
  let position := if position < 0 ∨ row.length < position then (row.length : Int) else position
  pure { E.setRow index (row.insertIdx position.toNat (charOf c)) with dirty := 1 }

def editorRowDelChar (E : EditorConfig) (index position : Int) : Except EditorStop EditorConfig := do
  let row ← E.row index
  if position < 0 ∨ row.length ≤ position then pure E
  else pure { E.setRow index (row.eraseIdx position.toNat) with dirty := 1 }

def editorRowAppendString (E : EditorConfig) (index : Int) (s : List UInt8) :
    Except EditorStop EditorConfig := do
  let row ← E.row index
  pure { E.setRow index (row ++ s) with dirty := 1 }

/-! Editor operations. -/

def editorInsertChar (E : EditorConfig) (c : Int) : Except EditorStop EditorConfig := do
  let E := if E.cy = E.numrows then editorInsertRow E E.numrows [] else E
  let E ← editorRowInsertChar E E.cy E.cx c
  pure { E with cx := E.cx + 1, dirty := 1 }

def editorInsertNewline (E : EditorConfig) : Except EditorStop EditorConfig := do
  if E.cx = 0 then
    let E := editorInsertRow E E.cy []
    pure { E with cy := E.cy + 1, cx := 0 }
  else
    let row ← E.row E.cy
    if E.cx < 0 ∨ row.length < E.cx then throw (.characterOutOfRange E.cx)
    let E := editorInsertRow E (E.cy + 1) (row.drop E.cx.toNat)
    let row ← E.row E.cy
    let E := E.setRow E.cy (row.take E.cx.toNat)
    pure { E with cy := E.cy + 1, cx := 0 }

def editorDelChar (E : EditorConfig) : Except EditorStop EditorConfig := do
  if E.cy = E.numrows then pure E
  else if E.cx = 0 ∧ E.cy = 0 then pure E
  else if 0 < E.cx then
    let E ← editorRowDelChar E E.cy (E.cx - 1)
    pure { E with cx := E.cx - 1, dirty := 1 }
  else
    let above ← E.row (E.cy - 1)
    let E := { E with cx := above.length }
    let row ← E.row E.cy
    let E ← editorRowAppendString E (E.cy - 1) row
    let E := editorDelRow E E.cy
    pure { E with cy := E.cy - 1, dirty := 1 }

/-- The new contents of the yank buffer. -/
def editorYankLine (E : EditorConfig) (yank : List UInt8) : Except EditorStop (List UInt8) := do
  if E.numrows ≤ E.cy then pure yank
  else
    let row ← E.row E.cy
    pure (row.take (blockSize - 1))

def editorPasteLine (E : EditorConfig) (yank : List UInt8) : EditorConfig :=
  if yank.length = 0 then E
  else { editorInsertRow E (E.cy + 1) yank with cy := E.cy + 1, cx := 0 }

def editorDeleteLine (E : EditorConfig) (yank : List UInt8) :
    Except EditorStop (EditorConfig × List UInt8) := do
  if E.numrows = 0 then pure (E, yank)
  else
    let yank ← editorYankLine E yank
    let E := editorDelRow E E.cy
    let E := if E.numrows ≤ E.cy ∧ 0 < E.cy then { E with cy := E.cy - 1 } else E
    pure ({ E with cx := 0 }, yank)

def editorScroll (E : EditorConfig) : EditorConfig :=
  let E := if E.cy < E.rowoff then { E with rowoff := E.cy } else E
  let E := if E.rowoff + E.screenrows ≤ E.cy then { E with rowoff := E.cy - E.screenrows + 1 } else E
  let E := if E.cx < E.coloff then { E with coloff := E.cx } else E
  if E.coloff + E.screencols ≤ E.cx then { E with coloff := E.cx - E.screencols + 1 } else E

/-! Input. -/

/-- The last step of `editorMoveCursor`. -/
def clampColumn (E : EditorConfig) : Except EditorStop EditorConfig := do
  let rowlen ← if E.cy < E.numrows then (do let row ← E.row E.cy; pure (row.length : Int)) else pure 0
  pure (if rowlen < E.cx then { E with cx := rowlen } else E)

def editorMoveCursor (E : EditorConfig) (key : Int) : Except EditorStop EditorConfig := do
  if key = keyOf 'h' ∨ key = arrowLeft then
    if 0 < E.cx then clampColumn { E with cx := E.cx - 1 }
    else if 0 < E.cy then
      let row ← E.row (E.cy - 1)
      clampColumn { E with cy := E.cy - 1, cx := row.length }
    else clampColumn E
  else if key = keyOf 'l' ∨ key = arrowRight then
    if E.cy < E.numrows then
      let row ← E.row E.cy
      clampColumn (if E.cx < row.length then { E with cx := E.cx + 1 } else E)
    else clampColumn E
  else if key = keyOf 'k' ∨ key = arrowUp then
    clampColumn (if 0 < E.cy then { E with cy := E.cy - 1 } else E)
  else if key = keyOf 'j' ∨ key = arrowDown then
    clampColumn (if E.cy < E.numrows - 1 then { E with cy := E.cy + 1 } else E)
  else clampColumn E

/-- `E.cmdbuf` as a string. -/
def commandText (E : EditorConfig) : List UInt8 := E.cmdbuf.stringAt 0 4294967296

/-- The string that `ksprintf` leaves in a buffer. -/
def ksprintfString (buffer : Memory) (text : List UInt8) : Memory := buffer.storeBytes 0 (text ++ [0])

/-- Returns whether the result is `-1`. `stack` holds the uninitialised locals. -/
def editorExecCommand (s : EditorSession) (stack : Memory) :
    Except EditorStop (Bool × EditorSession) :=
  let saved := editorSave s.E s.fs stack
  let setCommand := fun (cmdbuf : Memory) =>
    let E := { s.E with cmdbuf }
    (false, { s with E := { E with cmdlen := (commandText E).length } })
  if s.E.cmdbuf.strcmpEqual 0 (ascii "q") then
    if 0 < s.E.dirty then
      .ok (setCommand (ksprintfString s.E.cmdbuf (ascii "No write since last change (use :q!)")))
    else .ok (true, s)
  else if s.E.cmdbuf.strcmpEqual 0 (ascii "q!") then .ok (true, s)
  else if s.E.cmdbuf.strcmpEqual 0 (ascii "w") then .ok (false, { s with E := saved.1, fs := saved.2 })
  else if s.E.cmdbuf.strcmpEqual 0 (ascii "wq") then .ok (true, { s with E := saved.1, fs := saved.2 })
  else
    let text := ascii "Not an editor command: " ++ commandText s.E
    -- `tmp` has 80 bytes, and `ksprintf` does not look at its size
    if 80 < text.length + 1 then .error .bufferOverrun
    else .ok (setCommand ((s.E.cmdbuf.blit 0 (ksprintfString stack text) 79).storeByte 79 0))

def insertKeypress (E : EditorConfig) (c : Int) : Except EditorStop EditorConfig :=
  if c = escapeKey then
    let E := { E with mode := .normal }
    pure (if 0 < E.cx then { E with cx := E.cx - 1 } else E)
  else if c = enterKey then do
    let E ← editorInsertNewline E
    pure { E with dirty := 1 }
  else if c = backspaceKey ∨ c = deleteKey then editorDelChar E
  else if 32 ≤ c ∧ c < 127 then editorInsertChar E c
  else pure E

def commandKeypress (s : EditorSession) (c : Int) (stack : Memory) :
    Except EditorStop EditorSession :=
  if c = escapeKey then
    .ok { s with E := { s.E with mode := .normal, cmdbuf := s.E.cmdbuf.storeByte 0 0, cmdlen := 0 } }
  else if c = enterKey then do
    let s := { s with E := { s.E with cmdbuf := s.E.cmdbuf.storeByte s.E.cmdlen 0 } }
    let (quit, s) ← editorExecCommand s stack
    if quit then pure { s with E := { s.E with dirty := -9999 } }
    else pure { s with E := { s.E with mode := .normal } }
  else if c = backspaceKey ∨ c = deleteKey then
    if 0 < s.E.cmdlen then
      .ok { s with E := { s.E with
          cmdlen := s.E.cmdlen - 1, cmdbuf := s.E.cmdbuf.storeByte (s.E.cmdlen - 1) 0 } }
    else .ok s
  else if 32 ≤ c ∧ c < 127 ∧ s.E.cmdlen < 78 then
    .ok { s with E := { s.E with
        cmdlen := s.E.cmdlen + 1,
        cmdbuf := (s.E.cmdbuf.storeByte s.E.cmdlen (charOf c)).storeByte (s.E.cmdlen + 1) 0 } }
  else .ok s

/-! The cases `a`, `o`, `O` and `x` of normal mode. -/

def appendKey (E : EditorConfig) : Except EditorStop EditorConfig := do
  let E := { E with mode := .insert }
  if E.cy < E.numrows then
    let row ← E.row E.cy
    pure (if E.cx < row.length then { E with cx := E.cx + 1 } else E)
  else pure E

def openBelowKey (E : EditorConfig) : Except EditorStop EditorConfig := do
  let E ← if E.cy < E.numrows then (do let row ← E.row E.cy; pure { E with cx := row.length })
    else pure E
  let E ← editorInsertNewline E
  pure { E with mode := .insert }

def openAboveKey (E : EditorConfig) : EditorConfig :=
  { editorInsertRow { E with cx := 0 } E.cy [] with mode := .insert }

def deleteCharKey (E : EditorConfig) : Except EditorStop EditorConfig := do
  if E.cy < E.numrows then
    let row ← E.row E.cy
    if E.cx < row.length then
      let E ← editorRowDelChar E E.cy E.cx
      let row ← E.row E.cy
      pure (if row.length ≤ E.cx ∧ 0 < E.cx then { E with cx := E.cx - 1 } else E)
    else pure E
  else pure E

/-- The key bindings of normal mode that read no further key. -/
def normalKeypress (E : EditorConfig) (yank : List UInt8) (c : Int) : Except EditorStop EditorConfig :=
  if c = keyOf 'h' ∨ c = keyOf 'j' ∨ c = keyOf 'k' ∨ c = keyOf 'l' ∨ c = arrowUp ∨ c = arrowDown ∨
      c = arrowLeft ∨ c = arrowRight then editorMoveCursor E c
  else if c = keyOf 'i' then .ok { E with mode := .insert }
  else if c = keyOf 'a' then appendKey E
  else if c = keyOf 'o' then openBelowKey E
  else if c = keyOf 'O' then .ok (openAboveKey E)
  else if c = keyOf 'x' then deleteCharKey E
  else if c = keyOf 'p' then .ok (editorPasteLine E yank)
  else if c = keyOf ':' then
    .ok { E with mode := .command, cmdbuf := E.cmdbuf.storeByte 0 0, cmdlen := 0 }
  else .ok E

/-- Returns the keys that were not read. -/
def editorProcessKeypress (s : EditorSession) (keys : List Int) (stack : Memory) :
    Except EditorStop (EditorSession × List Int) := do
  match keys with
  | [] => throw .waitingForKey
  | c :: keys =>
      match s.E.mode with
      | .insert =>
          let E ← insertKeypress s.E c
          pure ({ s with E }, keys)
      | .command =>
          let s ← commandKeypress s c stack
          pure (s, keys)
      | .normal =>
          if c = keyOf 'd' ∨ c = keyOf 'y' then
            match keys with
            | [] => throw .waitingForKey
            | next :: keys =>
                if c = keyOf 'd' ∧ next = keyOf 'd' then
                  let (E, yank) ← editorDeleteLine s.E s.yank
                  pure ({ s with E, yank }, keys)
                else if c = keyOf 'y' ∧ next = keyOf 'y' then
                  let yank ← editorYankLine s.E s.yank
                  pure ({ s with yank }, keys)
                else pure (s, keys)
          else
            let E ← normalKeypress s.E s.yank c
            pure ({ s with E }, keys)

/-! Main loop. -/

/-- `editorRun` up to its loop. -/
def editorStart (E : EditorConfig) (yank : List UInt8) (fs : FsState) (filename : Option CString) :
    EditorSession :=
  let E := initEditor E
  let E := { E with screenrows := 25 - 2, screencols := 80 }
  { E := editorOpen E fs.disk filename, yank, fs }

/-- One turn of the loop of `editorRun`, up to its test of `E.dirty`. -/
def editorTurn (s : EditorSession) (keys : List Int) (stack : Memory) :
    Except EditorStop (EditorSession × List Int) :=
  editorProcessKeypress { s with E := editorScroll s.E } keys stack

end ShedKernel.Editor
