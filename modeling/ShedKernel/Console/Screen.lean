import ShedKernel.Foundation.CString
import ShedKernel.Foundation.Word32

/-! The text screen of `kprintf.c`: the bytes behind `vidptr`, the running offset
`current_loc` and every store through `vidptr`, in order. -/

set_option autoImplicit false

namespace ShedKernel.Console

open Foundation

def lines : Nat := 25

def columnsInLine : Nat := 80

def bytesForEachElement : Nat := 2

def screenSize : Nat := bytesForEachElement * columnsInLine * lines

/-- A store through `vidptr`, of a character or of its attribute, or a call of
`kprint_newline`. -/
inductive Output where
  | character (offset : Nat) (value : UInt8)
  | attribute (offset : Nat) (value : UInt8)
  | newline
  deriving DecidableEq

/-- `output` is not kept by the kernel: it records what was written. -/
structure TextScreen where
  video : Memory
  currentLoc : Nat
  output : List Output

def space : UInt8 := 32

def lightGrey : UInt8 := 0x07

namespace TextScreen

def storeCharacter (console : TextScreen) (offset : Nat) (value : UInt8) : TextScreen :=
  { console with
    video := console.video.storeByte offset value
    output := console.output ++ [.character offset value] }

def storeAttribute (console : TextScreen) (offset : Nat) (value : UInt8) : TextScreen :=
  { console with
    video := console.video.storeByte offset value
    output := console.output ++ [.attribute offset value] }

end TextScreen

/-- `vidptr[current_loc++] = c; vidptr[current_loc++] = 0x07;` -/
def put (console : TextScreen) (c : UInt8) : TextScreen :=
  let console := console.storeCharacter console.currentLoc c
  let console := { console with currentLoc := add32 console.currentLoc 1 }
  let console := console.storeAttribute console.currentLoc lightGrey
  { console with currentLoc := add32 console.currentLoc 1 }

def kprint (console : TextScreen) (str : CString) : TextScreen := str.bytes.foldl put console

def lineSize : Nat := bytesForEachElement * columnsInLine

def kprintNewline (console : TextScreen) : TextScreen :=
  { console with
    currentLoc := add32 console.currentLoc (lineSize - console.currentLoc % lineSize)
    output := console.output ++ [.newline] }

/-- `turns` turns of a loop that blanks the cell at `loc` and goes on to the next one. -/
def blankCells (console : TextScreen) (loc : Nat) : Nat → TextScreen
  | 0 => console
  | turns + 1 =>
      let console := console.storeCharacter loc space
      let console := console.storeAttribute (loc + 1) lightGrey
      blankCells console (loc + 2) turns

def clearScreen (console : TextScreen) : TextScreen :=
  { blankCells console 0 (screenSize / 2) with currentLoc := 0 }

/-! Cells of the editor. A row and a column are `int`s. -/

/-- `(row * COLUMNS_IN_LINE + col) * BYTES_FOR_EACH_ELEMENT` as an unsigned word. -/
def cellOffset (row col : Int) : Nat :=
  ((row * columnsInLine + col) * bytesForEachElement % 4294967296).toNat

def kvgaSetCursor (console : TextScreen) (row col : Int) : TextScreen :=
  { console with currentLoc := cellOffset row col }

/-- Both ends are even, so the loop ends at `end` itself. -/
def kvgaClearToEol (console : TextScreen) (row col : Int) : TextScreen :=
  let loc := cellOffset row col
  let stop := cellOffset row columnsInLine
  blankCells console loc ((stop - loc) / 2)

def kvgaWriteChar (console : TextScreen) (row col : Int) (c attr : UInt8) : TextScreen :=
  let loc := cellOffset row col
  (console.storeCharacter loc c).storeAttribute (add32 loc 1) attr

/-- Case 10 of `syscall_dispatch`. -/
def syscallBackspace (console : TextScreen) : TextScreen :=
  if 2 ≤ console.currentLoc then
    let console := { console with currentLoc := console.currentLoc - 2 }
    let console := console.storeCharacter console.currentLoc space
    console.storeAttribute (add32 console.currentLoc 1) lightGrey
  else console

end ShedKernel.Console
