import ShedKernel.Editor.Keypress
import ShedKernel.Foundation.Bytes
import ShedKernel.Heap.Session
import ShedKernel.Strings.Copy

/-! The rows of the editor in memory: the row operations of `ed.c` on an array of `erow`
from `realloc` and one block of characters a row. An access through a null pointer stops
the model; sizes are not negative. -/

set_option autoImplicit false

namespace ShedKernel.Editor

open Foundation Heap Strings

def sizeofErow : Nat := 8

namespace Erow

def size (memory : Memory) (row : Nat) : Nat := memory.load32 row

def chars (memory : Memory) (row : Nat) : Nat := memory.load32 (row + 4)

def setSize (memory : Memory) (row value : Nat) : Memory := memory.store32 row value

def setChars (memory : Memory) (row value : Nat) : Memory := memory.store32 (row + 4) value

end Erow

/-- The memory and the fields `rows`, `numrows` and `dirty` of `E`. `allocations` is not
kept by the kernel: it lists what `malloc` and `realloc` returned. -/
structure RowStore where
  memory : Memory
  rows : Nat
  numrows : Nat
  dirty : Int
  allocations : List Nat

inductive RowStop where
  | hangs
  | nullPointer (store : RowStore)

namespace RowStore

/-- `&E.rows[index]`. -/
def row (store : RowStore) (index : Nat) : Nat := store.rows + sizeofErow * index

/-- The result of a call of the allocator, and the store after it. -/
def allocate (store : RowStore) (result : Option (Nat × Memory)) :
    Except RowStop (Nat × RowStore) :=
  match result with
  | none => .error .hangs
  | some (p, memory) => .ok (p, { store with memory, allocations := p :: store.allocations })

def dereference (store : RowStore) (p : Nat) : Except RowStop Unit :=
  if p = nullPointer then .error (.nullPointer store) else .ok ()

end RowStore

/-- `initEditor`, which forgets the rows there were. -/
def initRows (memory : Memory) : RowStore := ⟨memory, nullPointer, 0, 0, []⟩

namespace RowStore

def editorInsertRow (area : Area) (store : RowStore) (position : Int) (s len : Nat) :
    Except RowStop RowStore := do
  if position < 0 ∨ (store.numrows : Int) < position then pure store
  else
    let place := position.toNat
    let (rows, store) ← store.allocate
      (realloc area store.memory store.rows (sizeofErow * (store.numrows + 1)))
    let store := { store with rows }
    store.dereference store.rows
    let memory := memmove store.memory (store.row (place + 1)) (store.row place)
      (sizeofErow * (store.numrows - place))
    let store := { store with memory := Erow.setSize memory (store.row place) len }
    let (chars, store) ← store.allocate (malloc area store.memory (len + 1))
    let store := { store with memory := Erow.setChars store.memory (store.row place) chars }
    store.dereference (Erow.chars store.memory (store.row place))
    let memory := memcpy store.memory (Erow.chars store.memory (store.row place)) s len
    let memory := memory.storeByte (Erow.chars memory (store.row place) + len) 0
    pure { store with memory, numrows := store.numrows + 1 }

def editorFreeRow (memory : Memory) (row : Nat) : Memory :=
  let memory := memFree memory (Erow.chars memory row)
  let memory := Erow.setChars memory row nullPointer
  Erow.setSize memory row 0

def editorDelRow (store : RowStore) (position : Int) : RowStore :=
  if position < 0 ∨ (store.numrows : Int) ≤ position then store
  else
    let place := position.toNat
    let memory := editorFreeRow store.memory (store.row place)
    let memory := memmove memory (store.row place) (store.row (place + 1))
      (sizeofErow * (store.numrows - place - 1))
    { store with memory, numrows := store.numrows - 1, dirty := 1 }

/-- `row` is the address of an `erow`. -/
def editorRowInsertChar (area : Area) (store : RowStore) (row : Nat) (position c : Int) :
    Except RowStop RowStore := do
  let size := Erow.size store.memory row
  let place := if position < 0 ∨ (size : Int) < position then size else position.toNat
  let (chars, store) ← store.allocate
    (realloc area store.memory (Erow.chars store.memory row) (size + 2))
  let store := { store with memory := Erow.setChars store.memory row chars }
  store.dereference (Erow.chars store.memory row)
  let memory := memmove store.memory (Erow.chars store.memory row + (place + 1))
    (Erow.chars store.memory row + place) (Erow.size store.memory row - place + 1)
  let memory := memory.storeByte (Erow.chars memory row + place) (charOf c)
  let memory := Erow.setSize memory row (Erow.size memory row + 1)
  pure { store with memory, dirty := 1 }

def editorRowDelChar (store : RowStore) (row : Nat) (position : Int) : RowStore :=
  let size := Erow.size store.memory row
  if position < 0 ∨ (size : Int) ≤ position then store
  else
    let place := position.toNat
    let chars := Erow.chars store.memory row
    let memory := memmove store.memory (chars + place) (chars + (place + 1)) (size - place)
    let memory := Erow.setSize memory row (Erow.size memory row - 1)
    { store with memory, dirty := 1 }

def editorRowAppendString (area : Area) (store : RowStore) (row s len : Nat) :
    Except RowStop RowStore := do
  let (chars, store) ← store.allocate
    (realloc area store.memory (Erow.chars store.memory row) (Erow.size store.memory row + len + 1))
  let store := { store with memory := Erow.setChars store.memory row chars }
  store.dereference (Erow.chars store.memory row)
  let memory := memcpy store.memory
    (Erow.chars store.memory row + Erow.size store.memory row) s len
  let memory := Erow.setSize memory row (Erow.size memory row + len)
  let memory := memory.storeByte (Erow.chars memory row + Erow.size memory row) 0
  pure { store with memory, dirty := 1 }

end RowStore

/-! Sequences of row operations. -/

inductive RowCall where
  | insertRow (position : Int) (s len : Nat)
  | delRow (position : Int)
  | rowInsertChar (row : Nat) (position c : Int)
  | rowDelChar (row : Nat) (position : Int)
  | rowAppendString (row s len : Nat)
  | otherStore (address : Nat) (value : UInt8)

namespace RowStore

def exec (area : Area) (store : RowStore) : RowCall → Except RowStop RowStore
  | .insertRow position s len => store.editorInsertRow area position s len
  | .delRow position => .ok (store.editorDelRow position)
  | .rowInsertChar row position c => store.editorRowInsertChar area (store.row row) position c
  | .rowDelChar row position => .ok (store.editorRowDelChar (store.row row) position)
  | .rowAppendString row s len => store.editorRowAppendString area (store.row row) s len
  | .otherStore address value => .ok { store with memory := store.memory.storeByte address value }

/-- `E.rows[index].chars`. -/
def chars (store : RowStore) (index : Nat) : Nat := Erow.chars store.memory (store.row index)

end RowStore

/-- Bytes outside the area, or in a live block that is none of `blocks`. -/
def Elsewhere (area : Area) (memory : Memory) (blocks : List Nat) (start count : Nat) : Prop :=
  start + count ≤ area.base ∨ area.base + dynamicMemTotalSize ≤ start ∨
    ∃ p, LiveBlock area memory p ∧ p ∉ blocks ∧
      p ≤ start ∧ start + count ≤ p + payloadSize memory p

/-- What callers may do: name existing rows, and strings that lie neither in the array nor
in the row that grows. Other code leaves the array and the rows alone. -/
def RowCall.Allowed (area : Area) (store : RowStore) : RowCall → Prop
  | .insertRow _ s len =>
      len < 2147483648 ∧ (len = 0 ∨ Elsewhere area store.memory [store.rows] s len)
  | .delRow _ => True
  | .rowInsertChar row _ _ => row < store.numrows
  | .rowDelChar row _ => row < store.numrows
  | .rowAppendString row s len => row < store.numrows ∧ len < 2147483648 ∧
      (len = 0 ∨ Elsewhere area store.memory [store.rows, store.chars row] s len)
  | .otherStore address _ =>
      Elsewhere area store.memory (store.rows :: (List.range store.numrows).map store.chars) address 1

/-- The rows as a list of strings, and whether there ever was one. -/
structure TextLines where
  lines : List (List UInt8)
  inserted : Bool
  deriving DecidableEq

namespace TextLines

def line (text : TextLines) (row : Nat) : List UInt8 := text.lines.getD row []

def setLine (text : TextLines) (row : Nat) (line : List UInt8) : TextLines :=
  { text with lines := text.lines.set row line }

/-- What a call does to the list; `memory` holds its string. -/
def edit (text : TextLines) (memory : Memory) : RowCall → TextLines
  | .insertRow position s len =>
      if position < 0 ∨ text.lines.length < position then text
      else ⟨text.lines.insertIdx position.toNat (Memory.bytesAt memory s len), true⟩
  | .delRow position =>
      if position < 0 ∨ text.lines.length ≤ position then text
      else { text with lines := text.lines.eraseIdx position.toNat }
  | .rowInsertChar row position c =>
      let line := text.line row
      let place := if position < 0 ∨ line.length < position then line.length else position.toNat
      text.setLine row (line.insertIdx place (charOf c))
  | .rowDelChar row position =>
      let line := text.line row
      if position < 0 ∨ line.length ≤ position then text
      else text.setLine row (line.eraseIdx position.toNat)
  | .rowAppendString row s len => text.setLine row (text.line row ++ Memory.bytesAt memory s len)
  | .otherStore _ _ => text

end TextLines

/-- A row operation next to its effect on the list. -/
def RowStep (area : Area) (state : RowStore × TextLines) (call : RowCall)
    (next : RowStore × TextLines) : Prop :=
  call.Allowed area state.1 ∧ state.1.exec area call = .ok next.1 ∧
    next.2 = state.2.edit state.1.memory call

def PayloadsDisjoint (memory : Memory) (p q : Nat) : Prop :=
  p + payloadSize memory p ≤ q ∨ q + payloadSize memory q ≤ p

/-- The store holds the list: each row in a block of its own that has room for the
terminator, and the array in a block of its own once there was a row. -/
structure StoresLines (area : Area) (store : RowStore) (text : TextLines) : Prop where
  numrows : store.numrows = text.lines.length
  contents : ∀ row line, text.lines[row]? = some line →
    Erow.size store.memory (store.row row) = line.length ∧
    Memory.bytesAt store.memory (store.chars row) line.length = line ∧
    store.memory (store.chars row + line.length) = 0 ∧
    LiveBlock area store.memory (store.chars row) ∧
    line.length + 1 ≤ payloadSize store.memory (store.chars row)
  array : if text.inserted then
      LiveBlock area store.memory store.rows ∧
        store.numrows * sizeofErow ≤ payloadSize store.memory store.rows
    else store.rows = nullPointer
  apart : ∀ row < store.numrows, PayloadsDisjoint store.memory store.rows (store.chars row) ∧
    ∀ other < row, PayloadsDisjoint store.memory (store.chars other) (store.chars row)

end ShedKernel.Editor
