import ShedKernel.Console.Format
import ShedKernel.Heap.Allocator

/-! Reading and splitting a line in `Shell.c`, with the `strtok` of `string.h`. Each
function works on the memory that holds the heap and, where it prints, on the screen.
`none` stands for a call that does not return. -/

set_option autoImplicit false

namespace ShedKernel.Shell

open Foundation Heap Console

def lshRlBufsize : Nat := 1024

def lshTokBufsize : Nat := 64

/-- `sizeof(char *)` -/
def pointerSize : Nat := 4

/-- The bytes of a string literal. -/
def literal (text : String) : List UInt8 := text.toList.map byteOf

/-- `kprintf` of a format without conversions. -/
def kprintfText (screen : TextScreen) (text : String) : TextScreen :=
  (kprintf screen (literal text) []).getD screen

/-! `lsh_read_line`. -/

/-- The local variables of `lsh_read_line`. -/
structure LineBuffer where
  buffer : Nat
  bufsize : Nat
  position : Nat

/-- `(char)c` -/
def charOf (c : Int) : UInt8 := UInt8.ofNat (c % 256).toNat

def backspaceCode : Int := 8

def newlineCode : Int := 10

def eofCode : Int := -1

/-- The loop of `lsh_read_line` over the codes that `kbd_getchar` returns. Gives the
returned pointer and the codes not read. -/
def readKeys (area : Area) (memory : Memory) (screen : TextScreen) (line : LineBuffer) :
    List Int → Option (Nat × Memory × TextScreen × List Int)
  | [] => none
  | c :: codes =>
      if c = backspaceCode then
        if 0 < line.position then
          -- the same lines as syscall 10
          readKeys area memory (syscallBackspace screen)
            { line with position := line.position - 1 } codes
        else readKeys area memory screen line codes
      else if c = eofCode ∨ c = newlineCode then
        some (line.buffer, memory.storeByte (line.buffer + line.position) 0, screen, codes)
      else
        let screen := put screen (charOf c)
        let memory := memory.storeByte (line.buffer + line.position) (charOf c)
        let line := { line with position := line.position + 1 }
        if line.bufsize ≤ line.position then
          let bufsize := line.bufsize + lshRlBufsize
          match realloc area memory line.buffer bufsize with
          | none => none
          | some (newbuf, memory) =>
              if newbuf = nullPointer then
                some (nullPointer, memFree memory line.buffer,
                  kprintfText screen "allocation error: realloc failed\n", codes)
              else readKeys area memory screen { line with buffer := newbuf, bufsize } codes
        else readKeys area memory screen line codes

def lshReadLine (area : Area) (memory : Memory) (screen : TextScreen) (codes : List Int) :
    Option (Nat × Memory × TextScreen × List Int) :=
  match malloc area memory lshRlBufsize with
  | none => none
  | some (buffer, memory) =>
      if buffer = nullPointer then
        some (nullPointer, memory, kprintfText screen "allocation error: no buffer\n", codes)
      else readKeys area memory screen ⟨buffer, lshRlBufsize, 0⟩ codes

/-! `strtok`. -/

/-- `strchr(LSH_TOK_DELIM, c) != NULL` -/
def isDelim (c : UInt8) : Bool := (literal " \t\r\n" ++ [7]).contains c

/-- The loop that moves a pointer on while the byte there is not NUL and `skips` holds of
it; `none` when the turns run out. -/
def skipWhile (skips : UInt8 → Bool) (memory : Memory) : Nat → Nat → Option Nat
  | 0, _ => none
  | turns + 1, p =>
      if memory p ≠ 0 ∧ skips (memory p) then skipWhile skips memory turns (add32 p 1)
      else some p

/-- As many turns as there are addresses. -/
def addressSpace : Nat := 4294967296

/-- Gives the token, `___strtok` and the memory; `s` is null in every call but the first. -/
def strtok (memory : Memory) (saved s : Nat) : Option (Nat × Nat × Memory) :=
  let saved := if s ≠ nullPointer then s else saved
  if saved = nullPointer then some (nullPointer, saved, memory)
  else do
    let token ← skipWhile isDelim memory addressSpace saved
    if memory token = 0 then pure (nullPointer, nullPointer, memory)
    else
      let stop ← skipWhile (fun c => !isDelim c) memory addressSpace token
      if memory stop ≠ 0 then pure (token, add32 stop 1, memory.storeByte stop 0)
      else pure (token, nullPointer, memory)

/-! `lsh_split_line`. -/

/-- The local variables of `lsh_split_line`, and `___strtok`. -/
structure TokenTable where
  tokens : Nat
  bufsize : Nat
  position : Nat
  saved : Nat

/-- The loop of `lsh_split_line`; the argument is the token found last. -/
def splitTokens (area : Area) : Nat → Memory → TextScreen → TokenTable → Nat →
    Option (Nat × Memory × TextScreen)
  | 0, _, _, _, _ => none
  | turns + 1, memory, screen, table, token =>
      if token = nullPointer then
        some (table.tokens,
          memory.store32 (table.tokens + table.position * pointerSize) nullPointer, screen)
      else
        let memory := memory.store32 (table.tokens + table.position * pointerSize) token
        let table := { table with position := table.position + 1 }
        let nextToken := fun (memory : Memory) (table : TokenTable) =>
          match strtok memory table.saved nullPointer with
          | none => none
          | some (token, saved, memory) =>
              splitTokens area turns memory screen { table with saved } token
        if table.bufsize ≤ table.position then
          let bufsize := table.bufsize + lshTokBufsize
          match realloc area memory table.tokens (bufsize * pointerSize) with
          | none => none
          | some (newtokens, memory) =>
              if newtokens = nullPointer then
                some (nullPointer, memFree memory table.tokens,
                  kprintfText screen "allocation error\n")
              else nextToken memory { table with tokens := newtokens, bufsize }
        else nextToken memory table

def lshSplitLine (area : Area) (memory : Memory) (screen : TextScreen) (line : Nat) :
    Option (Nat × Memory × TextScreen) :=
  match malloc area memory (lshTokBufsize * pointerSize) with
  | none => none
  | some (tokens, memory) =>
      if tokens = nullPointer then
        some (nullPointer, memory, kprintfText screen "allocation error\n")
      else
        match strtok memory nullPointer line with
        | none => none
        | some (token, saved, memory) =>
            splitTokens area addressSpace memory screen ⟨tokens, lshTokBufsize, 0, saved⟩ token

end ShedKernel.Shell
