import ShedKernel.FileSystem.Directory
import ShedKernel.Foundation.MaximalRuns
import ShedKernel.Shell.Commands
import ShedKernel.Shell.TypingProperties

/-! What the kernel's shell is for: an interpreter of lines of words, on a disk and a screen and
without a heap. The second part is the loop that it stands for. -/

set_option autoImplicit false

namespace ShedKernel.Shell

open Foundation FileSystem Console

/-- The shell's state but for the heap. -/
structure Desk where
  disk : Memory
  screen : TextScreen
  kernelStack : Memory
  buf : Nat

def ShellState.desk (state : ShellState) : Desk := ⟨state.disk, state.screen, state.kernelStack, state.buf⟩

namespace Desk

/-- The state of a shell with this heap. -/
def on (desk : Desk) (memory : Memory) : ShellState :=
  ⟨memory, desk.disk, desk.screen, desk.kernelStack, desk.buf⟩

def print (desk : Desk) (format : String) (args : List KprintfArg) : Desk :=
  { desk with screen := showCall desk.screen ⟨format, args⟩ }

def onDisk (desk : Desk) (call : FsState → FsState) : Desk :=
  let called := call ⟨desk.disk, []⟩
  { desk with disk := called.disk, screen := called.console.foldl showCall desk.screen }

def help (desk : Desk) : Desk :=
  let desk := desk.print "Custom Kernel Shell\n" []
  let desk := desk.print "Available commands:\n" []
  builtins.foldl (fun desk builtin => desk.print "  %s\n" [.text (literal builtin.1)]) desk

/-- A command with its first argument; `none` if it enters other code. -/
def command (desk : Desk) (argument : Option CString) : Builtin → Option Desk
  | .help => some desk.help
  | .ls => some (desk.onDisk fsListFiles)
  | .touch =>
      match argument with
      | none => some (desk.print "touch: no filename given\n" [])
      | some name => some (desk.onDisk fun fs => (fsCreateFile fs name).2)
  | .del =>
      match argument with
      | none => some (desk.print "del: no filename given\n" [])
      | some name => some (desk.onDisk fun fs => (fsDeleteFile fs name).2)
  | .edit =>
      match argument with
      | none => some (desk.print "edit: no filename given\n" [])
      | some _ => none
  | .clear => some { desk with screen := clearScreen desk.screen }
  | .cat => some (desk.onDisk fun fs => lshCat fs argument desk.kernelStack desk.buf)
  | .ring3 => none
  | .ring3Shell => none
  | .shutdown => none

def perform (desk : Desk) : List (List UInt8) → Option Desk
  | [] => some desk
  | name :: arguments =>
      match builtins.find? fun builtin => name = literal builtin.1 with
      | some builtin => desk.command (arguments.head?.map cString) builtin.2
      | none => some (desk.print "Unknown command: %s\n" [.text name])

end Desk

/-! Lines. -/

/-- The screen after one more code, and how many characters can still be taken back. -/
def echo (shown : TextScreen × Nat) (c : Int) : TextScreen × Nat :=
  if c = backspaceCode then if 0 < shown.2 then (syscallBackspace shown.1, shown.2 - 1) else shown
  else (put shown.1 (charOf c), shown.2 + 1)

def wordsOf (text : List UInt8) : List (List UInt8) :=
  (maximalRuns (fun c => !isDelim c) text).map fun run => (text.drop run.1).take run.2

namespace Desk

/-- The prompt, the codes in front of a newline, and the command. -/
def line (desk : Desk) (typed : List Int) : Option Desk :=
  let desk := desk.print "> " []
  let desk := { desk with screen := (typed.foldl echo (desk.screen, 0)).1 }
  let desk := desk.print "\n" []
  desk.perform (wordsOf (typedBy typed).text)

def session (desk : Desk) (lines : List (List Int)) : Option Desk := lines.foldlM line desk

end Desk

/-- A line that fits into the first buffer and the first table. -/
structure ShortLine (typed : List Int) : Prop where
  keys : ∀ c ∈ typed, IsKey c
  short : (typedBy typed).longest < lshRlBufsize
  few : (wordsOf (typedBy typed).text).length < lshTokBufsize

/-! Names. -/

/-- What a command line does to the table of the files. -/
def obey (dir : Directory) : List (List UInt8) → Directory
  | command :: name :: _ =>
      if command = literal "touch" then dir.create name
      else if command = literal "del" then dir.delete name
      else dir
  | _ => dir

/-! The loop. -/

/-- So many turns of `lsh_loop`, if each goes on. -/
def lshLoopTurns (area : Heap.Area) : Nat → ShellState → List Int → Option (ShellState × List Int)
  | 0, state, codes => some (state, codes)
  | turns + 1, state, codes =>
      match lshLoopTurn area state codes with
      | some (.again next rest) => lshLoopTurns area turns next rest
      | _ => none

/-- The codes of the lines, each with its newline. -/
def keysOf (lines : List (List Int)) : List Int := lines.flatMap fun typed => typed ++ [newlineCode]

end ShedKernel.Shell
