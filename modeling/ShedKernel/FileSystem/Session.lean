import ShedKernel.FileSystem.OperationProperties

/-! The file system under its callers. Every run of calls refines a run of the
directory, whose entries alone decide which blocks are written. -/

set_option autoImplicit false

namespace ShedKernel.FileSystem

open Foundation Editor

/-- A call of the file system whose buffers are objects apart from the disk: `memory` holds
the caller's buffer and `stack` the uninitialised buffer of `editorSave`. -/
inductive FsCall where
  | create (name : CString)
  | delete (name : CString)
  | write (name : CString) (memory : Memory) (buf size : UInt32)
  | read (name : CString) (memory : Memory) (buf size : UInt32)
  | save (E : EditorConfig) (stack : Memory)

def FsCall.exec (state : FsState) : FsCall → FsState
  | .create name => (fsCreateFile state name).2
  | .delete name => (fsDeleteFile state name).2
  | .write name memory buf size => (fsWriteFile state name memory buf.toNat size.toNat).2
  -- what a read copies goes to the caller; a copy that reaches the disk is followed in `FsImage`
  | .read _ _ _ _ => state
  | .save E stack => (editorSave E state stack).2

def fsRun (state : FsState) (calls : List FsCall) : FsState := calls.foldl FsCall.exec state

namespace Directory

def after (dir : Directory) : FsCall → Directory
  | .create name => dir.create name.bytes
  | .delete name => dir.delete name.bytes
  | .write name _ _ size => dir.resize name.bytes size.toNat
  | .read _ _ _ _ => dir
  | .save E stack => directoryAfterSave dir E stack

def writes (dir : Directory) : FsCall → List BlockWrite
  | .write name memory buf size => dir.writesOfFile name.bytes memory buf.toNat size.toNat
  | .save E stack => writesOfSave dir E stack
  | _ => []

def afterAll (dir : Directory) (calls : List FsCall) : Directory := calls.foldl after dir

/-- The block writes of a run, in order. -/
def writesAll : Directory → List FsCall → List BlockWrite
  | _, [] => []
  | dir, call :: rest => dir.writes call ++ (dir.after call).writesAll rest

end Directory

theorem FsCall.exec_performed {state : FsState} {dir : Directory}
    (represents : Represents state.disk dir) (call : FsCall) :
    Performed state.disk (call.exec state).disk (dir.after call) (dir.writes call) := by
  cases call with
  | create name => exact (represents.fsCreateFile_performed name).1
  | delete name => exact (represents.fsDeleteFile_performed name).1
  | write name memory buf size =>
      exact (represents.fsWriteFile_performed name memory buf.toNat size.toNat_lt).1
  | read name memory buf size => exact represents.performed
  | save E stack => exact editorSave_performed represents E stack

/-- A run of calls performs the run of the directory. -/
theorem fsRun_performed {state : FsState} {dir : Directory}
    (represents : Represents state.disk dir) (calls : List FsCall) :
    Performed state.disk (fsRun state calls).disk (dir.afterAll calls) (dir.writesAll calls) := by
  induction calls generalizing state dir with
  | nil => exact represents.performed
  | cons call rest ih =>
      have first := call.exec_performed represents
      exact first.trans (ih first.represents)

theorem reachable_represents (state : FsState) (calls : List FsCall) :
    Represents (fsRun (fsInit state) calls).disk (Directory.empty.afterAll calls) :=
  (fsRun_performed (fsInit_represents state) calls).represents

/-! A blank machine, two file names and buffers of one repeated byte. -/

def blankState : FsState := ⟨fun _ => 0, []⟩

def nameA : CString := ⟨[97], by decide⟩

def nameB : CString := ⟨[98], by decide⟩

def constantMemory (value : UInt8) : Memory := fun _ => value

/-! ## The views of the disk agree -/

/-- Superblock, directory, bitmap and free counter tell the same story. -/
structure Consistent (disk : Memory) : Prop where
  superblock : SuperblockFixed disk
  named : ∀ slot, slot < maxDirEntries → DirEntry.isUsed disk slot = true →
    ∃ name, name.length < maxFilenameLen ∧ disk.HoldsString (DirEntry.address slot) name
  placed : ∀ slot, slot < maxDirEntries → DirEntry.isUsed disk slot = true →
    firstDataBlock ≤ DirEntry.firstDataBlock disk slot ∧
      DirEntry.firstDataBlock disk slot < totalBlocks
  distinct : ∀ left right, left < maxDirEntries → right < maxDirEntries →
    DirEntry.isUsed disk left = true → DirEntry.isUsed disk right = true →
    DirEntry.firstDataBlock disk left = DirEntry.firstDataBlock disk right → left = right
  bits : ∀ index, index < numDataBlocks →
    (disk.bit (bitmapBlock * blockSize) index = true ↔ ∃ slot, slot < maxDirEntries ∧
      DirEntry.isUsed disk slot = true ∧
      DirEntry.firstDataBlock disk slot = firstDataBlock + index)
  count : Superblock.freeBlockCount disk =
    disk.clearBits (bitmapBlock * blockSize) numDataBlocks

/-- A slot marked used holds an entry of the directory. -/
theorem Represents.entry_of_used {disk : Memory} {dir : Directory} (represents : Represents disk dir)
    {slot : Nat} (inside : slot < 64) (used : DirEntry.isUsed disk slot = true) :
    ∃ entry, dir slot = some entry := by
  rcases stored : dir slot with _ | entry
  · rw [represents.vacant slot inside stored] at used
    cases used
  · exact ⟨entry, rfl⟩

theorem Represents.consistent {disk : Memory} {dir : Directory} (represents : Represents disk dir) :
    Consistent disk where
  superblock := represents.superblock
  named slot inside used := by
    obtain ⟨entry, stored⟩ := represents.entry_of_used inside used
    have short := represents.valid.named slot entry stored
    exact ⟨entry.name, by unfold maxFilenameLen; omega, (represents.entries slot entry stored).name⟩
  placed slot inside used := by
    obtain ⟨entry, stored⟩ := represents.entry_of_used inside used
    rw [(represents.entries slot entry stored).block]
    exact represents.valid.placed slot entry stored
  distinct left right leftInside rightInside leftUsed rightUsed same := by
    obtain ⟨leftEntry, leftStored⟩ := represents.entry_of_used leftInside leftUsed
    obtain ⟨rightEntry, rightStored⟩ := represents.entry_of_used rightInside rightUsed
    rw [(represents.entries left leftEntry leftStored).block,
      (represents.entries right rightEntry rightStored).block] at same
    exact represents.valid.distinct _ _ _ _ leftStored rightStored same
  bits index inside := by
    refine (Bool.eq_iff_iff.mp (represents.bits index inside)).trans ?_
    rw [Directory.owns_iff represents.valid]
    constructor
    · rintro ⟨slot, entry, stored, same⟩
      have holds := represents.entries slot entry stored
      exact ⟨slot, represents.valid.bounded slot entry stored, holds.used, holds.block.trans same⟩
    · rintro ⟨slot, slotInside, used, same⟩
      obtain ⟨entry, stored⟩ := represents.entry_of_used slotInside used
      exact ⟨slot, entry, stored, (represents.entries slot entry stored).block.symm.trans same⟩
  count := represents.count

end ShedKernel.FileSystem
