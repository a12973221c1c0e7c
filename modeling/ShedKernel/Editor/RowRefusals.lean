import ShedKernel.Editor.RowStore

/-! The row operations that allocate, with an allocator that may refuse any of their calls,
whatever the heap holds: it returns a null pointer and changes nothing. -/

set_option autoImplicit false

namespace ShedKernel.Editor

open Foundation Heap Strings

/-- Which of the calls of an operation are refused, in their order. -/
structure Refusals where
  first : Bool
  second : Bool

def noRefusals : Refusals := ⟨false, false⟩

def mallocUnless (refused : Bool) (area : Area) (memory : Memory) (size : Nat) :
    Option (Nat × Memory) :=
  match refused with
  | true => some (nullPointer, memory)
  | false => malloc area memory size

def reallocUnless (refused : Bool) (area : Area) (memory : Memory) (p size : Nat) :
    Option (Nat × Memory) :=
  match refused with
  | true => some (nullPointer, memory)
  | false => realloc area memory p size

/-- The call of the allocator returns a block. -/
def Grants (result : Option (Nat × Memory)) : Prop :=
  ∃ p memory, result = some (p, memory) ∧ p ≠ nullPointer

namespace RowStore

def editorInsertRowUnless (refusals : Refusals) (area : Area) (store : RowStore) (position : Int)
    (s len : Nat) : Except RowStop RowStore := do
  if position < 0 ∨ (store.numrows : Int) < position then pure store
  else
    let place := position.toNat
    let (rows, store) ← store.allocate
      (reallocUnless refusals.first area store.memory store.rows (sizeofErow * (store.numrows + 1)))
    let store := { store with rows }
    store.dereference store.rows
    let memory := memmove store.memory (store.row (place + 1)) (store.row place)
      (sizeofErow * (store.numrows - place))
    let store := { store with memory := Erow.setSize memory (store.row place) len }
    let (chars, store) ← store.allocate
      (mallocUnless refusals.second area store.memory (len + 1))
    let store := { store with memory := Erow.setChars store.memory (store.row place) chars }
    store.dereference (Erow.chars store.memory (store.row place))
    let memory := memcpy store.memory (Erow.chars store.memory (store.row place)) s len
    let memory := memory.storeByte (Erow.chars memory (store.row place) + len) 0
    pure { store with memory, numrows := store.numrows + 1 }

def editorRowInsertCharUnless (refusals : Refusals) (area : Area) (store : RowStore) (row : Nat)
    (position c : Int) : Except RowStop RowStore := do
  let size := Erow.size store.memory row
  let place := if position < 0 ∨ (size : Int) < position then size else position.toNat
  let (chars, store) ← store.allocate
    (reallocUnless refusals.first area store.memory (Erow.chars store.memory row) (size + 2))
  let store := { store with memory := Erow.setChars store.memory row chars }
  store.dereference (Erow.chars store.memory row)
  let memory := memmove store.memory (Erow.chars store.memory row + (place + 1))
    (Erow.chars store.memory row + place) (Erow.size store.memory row - place + 1)
  let memory := memory.storeByte (Erow.chars memory row + place) (charOf c)
  let memory := Erow.setSize memory row (Erow.size memory row + 1)
  pure { store with memory, dirty := 1 }

def editorRowAppendStringUnless (refusals : Refusals) (area : Area) (store : RowStore)
    (row s len : Nat) : Except RowStop RowStore := do
  let (chars, store) ← store.allocate
    (reallocUnless refusals.first area store.memory (Erow.chars store.memory row)
      (Erow.size store.memory row + len + 1))
  let store := { store with memory := Erow.setChars store.memory row chars }
  store.dereference (Erow.chars store.memory row)
  let memory := memcpy store.memory
    (Erow.chars store.memory row + Erow.size store.memory row) s len
  let memory := Erow.setSize memory row (Erow.size memory row + len)
  let memory := memory.storeByte (Erow.chars memory row + Erow.size memory row) 0
  pure { store with memory, dirty := 1 }

variable (area : Area) (store : RowStore)

/-- The allocator grants what `editorInsertRow` asks for: the array with one more row, and in
the heap that this leaves a block for the characters. -/
def GrantsRow (refusals : Refusals) (area : Area) (store : RowStore) (len : Nat) : Prop :=
  ∃ rows grown,
    reallocUnless refusals.first area store.memory store.rows (sizeofErow * (store.numrows + 1)) =
        some (rows, grown) ∧
      rows ≠ nullPointer ∧ Grants (mallocUnless refusals.second area grown (len + 1))

/-- The allocator grants the characters of `row` room for `size` bytes. -/
def GrantsChars (refusals : Refusals) (area : Area) (store : RowStore) (row size : Nat) : Prop :=
  Grants (reallocUnless refusals.first area store.memory (Erow.chars store.memory row) size)

/-- `exec` with an allocator that may refuse. -/
def execUnless (refusals : Refusals) (area : Area) (store : RowStore) :
    RowCall → Except RowStop RowStore
  | .insertRow position s len => store.editorInsertRowUnless refusals area position s len
  | .rowInsertChar row position c =>
      store.editorRowInsertCharUnless refusals area (store.row row) position c
  | .rowAppendString row s len =>
      store.editorRowAppendStringUnless refusals area (store.row row) s len
  | call => store.exec area call

theorem exec_eq (call : RowCall) : store.exec area call = store.execUnless noRefusals area call := by
  cases call <;> rfl

end RowStore

/-- The allocator grants whatever the operation asks for. -/
def RowCall.Granted (refusals : Refusals) (area : Area) (store : RowStore) : RowCall → Prop
  | .insertRow position _ len =>
      (position < 0 ∨ (store.numrows : Int) < position) ∨ store.GrantsRow refusals area len
  | .rowInsertChar row _ _ =>
      store.GrantsChars refusals area (store.row row) (Erow.size store.memory (store.row row) + 2)
  | .rowAppendString row _ len =>
      store.GrantsChars refusals area (store.row row)
        (Erow.size store.memory (store.row row) + len + 1)
  | _ => True

end ShedKernel.Editor
