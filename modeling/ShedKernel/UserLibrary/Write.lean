import ShedKernel.Console.FormatProperties
import ShedKernel.Foundation.Bytes

/-! `_write` of the user library, which prints through one system call for each byte, next
to a single `kprintf("%s")` of the whole buffer. -/

set_option autoImplicit false

namespace ShedKernel.UserLibrary

open Foundation Console

/-- `"%s"` -/
def stringFormat : List UInt8 := [byteOf '%', byteOf 's']

/-- Case 1 of `syscall_dispatch`. -/
def printSyscall (console : TextScreen) (arg1 : CString) : Option TextScreen :=
  kprintf console stringFormat [.string arg1]

/-- The string in `char tmp[2] = { c, '\0' }`. -/
def tmpString (c : UInt8) : CString :=
  ⟨Memory.stringAt (fun index => if index = 0 then c else 0) 0 2, Memory.stringAt_proper _ 0 2⟩

/-- The loop of `_write` from `i` on. -/
def writeLoop (console : TextScreen) (buf : Nat → UInt8) (i : Nat) : Nat → Option TextScreen
  | 0 => some console
  | turns + 1 => do
      let console ← printSyscall console (tmpString (buf i))
      writeLoop console buf (i + 1) turns

def write (console : TextScreen) (_fd : Int) (buf : Nat → UInt8) (len : Int) : Option (Int × TextScreen) := do
  let console ← writeLoop console buf 0 len.toNat
  pure (len, console)

/-! Printing a string. -/

section

variable {console : TextScreen} {buf : Nat → UInt8}

/-- What `kprintf` does for the characters of a string. -/
def characters (bytes : List UInt8) : List Emit := bytes.map fun c => if c = newlineByte then .newline else .put c

private theorem printSyscall_eq (console : TextScreen) (s : CString) :
    printSyscall console s = some ((characters s.bytes).foldl emit console) := by
  have emitted := kprintfEmits_pieces [.string .absent s]
  rw [List.flatMap_cons, List.flatMap_nil, List.append_nil] at emitted
  exact congrArg (Option.map fun emits => emits.foldl emit console) emitted

private theorem tmpString_bytes (c : UInt8) : (tmpString c).bytes = [c].filter (· ≠ 0) := by
  by_cases nul : c = 0
  · simp [tmpString, Memory.stringAt, nul]
  · simp [tmpString, Memory.stringAt, nul]

private theorem characters_append (first second : List UInt8) :
    characters (first ++ second) = characters first ++ characters second := List.map_append ..

/-- The turns that are left print the rest of the buffer. -/
theorem writeLoop_eq (i turns : Nat) : writeLoop console buf i turns =
    some ((characters ((Memory.bytesAt buf i turns).filter (· ≠ 0))).foldl emit console) := by
  induction turns generalizing console i with
  | zero => rfl
  | succ turns ih =>
      have split : (Memory.bytesAt buf i (turns + 1)).filter (· ≠ 0) =
          [buf i].filter (· ≠ 0) ++ (Memory.bytesAt buf (i + 1) turns).filter (· ≠ 0) := by
        rw [Memory.bytesAt_succ]
        exact List.filter_append [buf i] _
      rw [writeLoop, printSyscall_eq, tmpString_bytes, split, characters_append, List.foldl_append]
      exact ih (i + 1)

end

/-- The buffer without its NUL bytes. -/
def withoutNuls (buf : Nat → UInt8) (len : Int) : CString :=
  ⟨(Memory.bytesAt buf 0 len.toNat).filter (· ≠ 0), fun member => by simp at member⟩

def append (first second : CString) : CString :=
  ⟨first.bytes ++ second.bytes, fun member => (List.mem_append.mp member).elim first.terminated second.terminated⟩

/-- Printing composes: byte by byte, or in two parts. -/
theorem write_prints_string (console : TextScreen) :
    (∀ fd buf len, write console fd buf len =
      (kprintf console stringFormat [.string (withoutNuls buf len)]).map fun shown => (len, shown)) ∧
    ∀ first second, kprintf console stringFormat [.string (append first second)] =
      (kprintf console stringFormat [.string first]).bind fun shown => kprintf shown stringFormat [.string second] := by
  constructor
  · intro fd buf len
    have once := printSyscall_eq console (withoutNuls buf len)
    rw [printSyscall] at once
    rw [once, write, writeLoop_eq]
    rfl
  · intro first second
    have whole := printSyscall_eq console (append first second)
    have front := printSyscall_eq console first
    rw [printSyscall] at whole front
    rw [whole, front, append, characters_append, List.foldl_append]
    exact (printSyscall_eq _ second).symm

end ShedKernel.UserLibrary
