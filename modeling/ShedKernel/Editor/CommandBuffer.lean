import ShedKernel.Console.Format
import ShedKernel.Editor.Keypress

/-! The command line of `ed.c`, one store at a time: the 80 bytes of `E.cmdbuf` and the
80 bytes of `tmp` in `editorExecCommand`, which nobody initialises. -/

set_option autoImplicit false

namespace ShedKernel.Editor

open Foundation FileSystem Console

def cmdbufSize : Nat := 80

inductive BufferFault where
  | outsideTmp (index : Nat)
  | outsideCmdbuf (index : Nat)
  | uninitialised (index : Nat)
  deriving DecidableEq

/-- The bytes of `tmp` that were stored. -/
abbrev TmpBuffer := Nat → Option UInt8

def storeTmp (tmp : TmpBuffer) (index : Nat) (byte : UInt8) : Except BufferFault TmpBuffer :=
  if index < cmdbufSize then .ok (Function.update tmp index (some byte))
  else .error (.outsideTmp index)

def storeCmdbuf (cmdbuf : Memory) (index : Nat) (byte : UInt8) : Except BufferFault Memory :=
  if index < cmdbufSize then .ok (cmdbuf.storeByte index byte) else .error (.outsideCmdbuf index)

/-- Bytes stored one after the other, by `ksprintf`. -/
def storeEach {Buffer : Type} (store : Buffer → Nat → UInt8 → Except BufferFault Buffer)
    (buffer : Buffer) (index : Nat) : List UInt8 → Except BufferFault Buffer
  | [] => .ok buffer
  | byte :: rest => do
      let buffer ← store buffer index byte
      storeEach store buffer (index + 1) rest

/-- The first `count` bytes of `memcpy(E.cmdbuf, tmp, 79)`. -/
def copyTmp (tmp : TmpBuffer) (cmdbuf : Memory) : Nat → Except BufferFault Memory
  | 0 => .ok cmdbuf
  | count + 1 => do
      let cmdbuf ← copyTmp tmp cmdbuf count
      match tmp count with
      | none => throw (.uninitialised count)
      | some byte => storeCmdbuf cmdbuf count byte

/-- `E.cmdbuf` as an argument of `%s`. -/
def commandString (E : EditorConfig) : CString :=
  ⟨commandText E, E.cmdbuf.stringAt_proper 0 4294967296⟩

/-- What `ksprintf` makes of the format and its arguments. -/
def formatted (format : String) (args : List VarArg) : List UInt8 :=
  (ksprintf (ascii format) args).getD []

/-- The new `E.cmdbuf` with `E.cmdlen = strlen(E.cmdbuf)`. -/
def setCommand (s : EditorSession) (cmdbuf : Memory) : EditorSession :=
  let E := { s.E with cmdbuf }
  { s with E := { E with cmdlen := (commandText E).length } }

/-- The end of `editorExecCommand`, where `tmp` is used. -/
def reportUnknown (E : EditorConfig) : Except BufferFault Memory := do
  let text := formatted "Not an editor command: %s" [.string (commandString E)]
  let tmp ← storeEach storeTmp (fun _ => none) 0 (text ++ [0])
  let cmdbuf ← copyTmp tmp E.cmdbuf 79
  storeCmdbuf cmdbuf 79 0

/-- `editorExecCommand` with its stores checked. `stack` is for `editorSave` only. -/
def checkedExecCommand (s : EditorSession) (stack : Memory) :
    Except BufferFault (Bool × EditorSession) := do
  let saved := editorSave s.E s.fs stack
  if s.E.cmdbuf.strcmpEqual 0 (ascii "q") then
    if 0 < s.E.dirty then
      let text := formatted "No write since last change (use :q!)" []
      let cmdbuf ← storeEach storeCmdbuf s.E.cmdbuf 0 (text ++ [0])
      pure (false, setCommand s cmdbuf)
    else pure (true, s)
  else if s.E.cmdbuf.strcmpEqual 0 (ascii "q!") then pure (true, s)
  else if s.E.cmdbuf.strcmpEqual 0 (ascii "w") then pure (false, { s with E := saved.1, fs := saved.2 })
  else if s.E.cmdbuf.strcmpEqual 0 (ascii "wq") then pure (true, { s with E := saved.1, fs := saved.2 })
  else
    let cmdbuf ← reportUnknown s.E
    pure (false, setCommand s cmdbuf)

/-- A key in command mode, with the stores checked. -/
def checkedKeypress (s : EditorSession) (c : Int) (stack : Memory) :
    Except BufferFault EditorSession := do
  if c = escapeKey then
    let cmdbuf ← storeCmdbuf s.E.cmdbuf 0 0
    pure { s with E := { s.E with mode := .normal, cmdbuf, cmdlen := 0 } }
  else if c = enterKey then
    let cmdbuf ← storeCmdbuf s.E.cmdbuf s.E.cmdlen 0
    let (quit, s) ← checkedExecCommand { s with E := { s.E with cmdbuf } } stack
    if quit then pure { s with E := { s.E with dirty := -9999 } }
    else pure { s with E := { s.E with mode := .normal } }
  else if c = backspaceKey ∨ c = deleteKey then
    if 0 < s.E.cmdlen then
      let cmdbuf ← storeCmdbuf s.E.cmdbuf (s.E.cmdlen - 1) 0
      pure { s with E := { s.E with cmdlen := s.E.cmdlen - 1, cmdbuf } }
    else pure s
  else if 32 ≤ c ∧ c < 127 ∧ s.E.cmdlen < 78 then
    let cmdbuf ← storeCmdbuf s.E.cmdbuf s.E.cmdlen (charOf c)
    let cmdbuf ← storeCmdbuf cmdbuf (s.E.cmdlen + 1) 0
    pure { s with E := { s.E with cmdlen := s.E.cmdlen + 1, cmdbuf } }
  else pure s

end ShedKernel.Editor
