import ShedKernel.Shell.Lines

/-! Reading and splitting a line in `user_shell.c`, on the memory of the program. `malloc` has
succeeded, and `strtok` is that of the C library. -/

set_option autoImplicit false

namespace ShedKernel.UserShell

open Foundation Heap Console Shell

def bufsize : Nat := 1024

def toksize : Nat := 64

/-! `read_line`. -/

def backspaceByte : UInt8 := 8

/-- The loop of `read_line` over the characters that `sys_getchar` returns. Gives those not
read; `none` while the loop waits for one. -/
def readKeys (buf : Nat) (memory : Memory) (pos : Nat) : List UInt8 → Option (Memory × List UInt8)
  | [] => none
  | c :: codes =>
      if c = newlineByte then some (memory.storeByte (buf + pos) 0, codes)
      else if c = backspaceByte then
        if 0 < pos then readKeys buf memory (pos - 1) codes else readKeys buf memory pos codes
      else
        let memory := memory.storeByte (buf + pos) c
        let pos := pos + 1
        if bufsize - 1 ≤ pos then some (memory.storeByte (buf + pos) 0, codes)
        else readKeys buf memory pos codes

def readLine (buf : Nat) (memory : Memory) (codes : List UInt8) : Option (Memory × List UInt8) :=
  readKeys buf memory 0 codes

/-! `strtok` as the C standard describes it. -/

/-- A byte of `DELIM`. -/
def isDelim (c : UInt8) : Bool := (literal " \t\r\n" ++ [7]).contains c

/-- Gives the token, where the next search starts (null if it finds nothing) and the memory;
`s` is null in every call but the first. -/
def strtok (memory : Memory) (saved s : Nat) : Nat × Nat × Memory :=
  let start := if s ≠ nullPointer then s else saved
  if start = nullPointer then (nullPointer, nullPointer, memory)
  else
    let text := memory.stringAt start addressSpace
    let rest := text.dropWhile isDelim
    let token := start + (text.takeWhile isDelim).length
    if rest = [] then (nullPointer, nullPointer, memory)
    else
      let stop := token + (rest.takeWhile fun c => !isDelim c).length
      if stop = start + text.length then (token, nullPointer, memory)
      else (token, stop + 1, memory.storeByte stop 0)

/-! `split_line`. -/

inductive UserStop where
  | tableOverrun
  deriving DecidableEq

/-- The loop of `split_line`, and the store behind it. The second argument counts the entries
of the array that are left; a store behind the last one is not followed further. -/
def splitTokens (tokens : Nat) : Nat → Memory → Nat → Nat → Nat → Except UserStop Memory
  | 0, _, _, _, _ => .error .tableOverrun
  | entries + 1, memory, pos, tok, saved =>
      if tok = nullPointer then .ok (memory.store32 (tokens + pos * pointerSize) nullPointer)
      else
        let memory := memory.store32 (tokens + pos * pointerSize) tok
        let (tok, saved, memory) := strtok memory saved nullPointer
        splitTokens tokens entries memory (pos + 1) tok saved

def splitLine (tokens : Nat) (memory : Memory) (line : Nat) : Except UserStop Memory :=
  let (tok, saved, memory) := strtok memory nullPointer line
  splitTokens tokens toksize memory 0 tok saved

end ShedKernel.UserShell
