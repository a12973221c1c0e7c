import Mathlib.Data.List.TakeWhile
import ShedKernel.FileSystem.Disk
import ShedKernel.Shell.Lines

/-! Built-in commands of the kernel shell in `Shell.c` and its dispatch. -/

set_option autoImplicit false

namespace ShedKernel.Shell

open Foundation FileSystem Console

/-- The string that `%s` prints from a pointer; the turns cover the address space. -/
def readString (memory : Memory) (pointer : Nat) : Nat → List UInt8
  | 0 => []
  | turns + 1 =>
      if memory pointer = 0 then []
      else memory pointer :: readString memory (add32 pointer 1) turns

/-- The call of `kprintf` in `lsh_cat`. Its local buffer lies at `buf` on the stack. -/
def lshCatPrints (disk : Memory) (argument : Option CString) (stack : Memory) (buf : Nat) :
    KprintfCall :=
  match argument with
  | none => ⟨"cat: no filename given\n", []⟩
  | some name =>
      match fsFindFile disk name with
      | none => ⟨"cat: file '%s' not found\n", [.text name.bytes]⟩
      | some slot =>
          let stack := stack.blit32 buf
            (fsReadBlock disk (DirEntry.firstDataBlock disk slot)) blockSize
          ⟨"%s\n", [.text (readString stack buf 4294967296)]⟩

def lshCat (state : FsState) (argument : Option CString) (stack : Memory) (buf : Nat) : FsState :=
  let call := lshCatPrints state.disk argument stack buf
  state.kprintf call.format call.args

/-! The dispatch. What `kprintf` is asked to print in the file system and in the commands
appears on the screen in the same order. -/

inductive Builtin where
  | help
  | ls
  | touch
  | del
  | edit
  | clear
  | cat
  | ring3
  | ring3Shell
  | shutdown
  deriving DecidableEq

def builtins : List (String × Builtin) :=
  [("help", .help), ("ls", .ls), ("touch", .touch), ("del", .del), ("edit", .edit),
    ("clear", .clear), ("cat", .cat), ("ring3", .ring3), ("ring3_shell", .ring3Shell),
    ("shutdown", .shutdown)]

/-- `kernelStack` and `buf` are the stack and the place of the local buffer of `lsh_cat`. -/
structure ShellState where
  memory : Memory
  disk : Memory
  screen : TextScreen
  kernelStack : Memory
  buf : Nat

/-- The string behind a pointer as an argument of `%s`. -/
def cString (bytes : List UInt8) : CString :=
  ⟨bytes.takeWhile (· ≠ 0), fun member => by simpa using List.mem_takeWhile_imp member⟩

def varArg : KprintfArg → VarArg
  | .text bytes => .string (cString bytes)
  | .number value => .word (UInt32.ofNat value)

def showCall (screen : TextScreen) (call : KprintfCall) : TextScreen :=
  (kprintf screen (literal call.format) (call.args.map varArg)).getD screen

namespace ShellState

def print (state : ShellState) (format : String) (args : List KprintfArg) : ShellState :=
  { state with screen := showCall state.screen ⟨format, args⟩ }

/-- A call into the file system. -/
def onDisk (state : ShellState) (call : FsState → FsState) : ShellState :=
  let called := call ⟨state.disk, []⟩
  { state with disk := called.disk, screen := called.console.foldl showCall state.screen }

/-- `args[index]` -/
def arg (state : ShellState) (args index : Nat) : Nat :=
  state.memory.load32 (args + index * pointerSize)

def text (state : ShellState) (pointer : Nat) : CString :=
  cString (readString state.memory pointer 4294967296)

/-- `args[1]` as the name of a file, `none` for `NULL`. -/
def filename (state : ShellState) (args : Nat) : Option CString :=
  if state.arg args 1 = Heap.nullPointer then none else some (state.text (state.arg args 1))

end ShellState

def lshHelp (state : ShellState) : ShellState :=
  let state := state.print "Custom Kernel Shell\n" []
  let state := state.print "Available commands:\n" []
  builtins.foldl (fun state builtin => state.print "  %s\n" [.text (literal builtin.1)]) state

def lshLs (state : ShellState) : ShellState := state.onDisk fsListFiles

def lshTouch (state : ShellState) (args : Nat) : ShellState :=
  match state.filename args with
  | none => state.print "touch: no filename given\n" []
  | some name => state.onDisk fun fs => (fsCreateFile fs name).2

def lshDel (state : ShellState) (args : Nat) : ShellState :=
  match state.filename args with
  | none => state.print "del: no filename given\n" []
  | some name => state.onDisk fun fs => (fsDeleteFile fs name).2

def lshClear (state : ShellState) : ShellState := { state with screen := clearScreen state.screen }

def lshLaunch (state : ShellState) (args : Nat) : ShellState :=
  state.print "Unknown command: %s\n" [.text (state.text (state.arg args 0)).bytes]

/-- A command that enters other code than the shell's and the file system's gives `none`. -/
def runBuiltin (state : ShellState) (args : Nat) : Builtin → Option (Nat × ShellState)
  | .help => some (1, lshHelp state)
  | .ls => some (1, lshLs state)
  | .touch => some (1, lshTouch state args)
  | .del => some (1, lshDel state args)
  | .edit =>
      match state.filename args with
      | none => some (1, state.print "edit: no filename given\n" [])
      | some _ => none
  | .clear => some (1, lshClear state)
  | .cat => some (1, state.onDisk fun fs => lshCat fs (state.filename args) state.kernelStack state.buf)
  | .ring3 => none
  | .ring3Shell => none
  | .shutdown => none

def lshExecute (state : ShellState) (args : Nat) : Option (Nat × ShellState) :=
  if state.arg args 0 = Heap.nullPointer then some (1, state)
  else
    match builtins.find? fun builtin =>
        state.memory.strcmpEqual (state.arg args 0) (literal builtin.1) with
    | some builtin => runBuiltin state args builtin.2
    | none => some (1, lshLaunch state args)

/-! The main loop. -/

/-- What one turn of `lsh_loop` ends with, with the key codes not read yet. -/
inductive Turn where
  | again (state : ShellState) (codes : List Int)
  | finished (state : ShellState) (codes : List Int)
  | halted (state : ShellState)
  | entered (state : ShellState)

def lshLoopTurn (area : Heap.Area) (state : ShellState) (codes : List Int) : Option Turn := do
  let state := state.print "> " []
  let (line, memory, screen, codes) ← lshReadLine area state.memory state.screen codes
  let state := { state with memory, screen }
  if line = Heap.nullPointer then
    pure (.halted (state.print "readline failed, halting\n" []))
  else
    let state := state.print "\n" []
    let (args, memory, screen) ← lshSplitLine area state.memory state.screen line
    let state := { state with memory, screen }
    if args = Heap.nullPointer then
      pure (.again { state with memory := Heap.memFree state.memory line } codes)
    else
      match lshExecute state args with
      | none => pure (.entered state)
      | some (status, state) =>
          let state := { state with memory := Heap.memFree state.memory args }
          let state := { state with memory := Heap.memFree state.memory line }
          pure (if status = 0 then .finished state codes else .again state codes)

end ShedKernel.Shell
