import ShedKernel.Editor.Config

/-! The file system in the memory it shares with its callers: `fs_disk`, the pointers
into it and the callers' buffers are ranges of one address space, so that a copy which
runs past a buffer can reach the disk. -/

set_option autoImplicit false

namespace ShedKernel.FileSystem

open Foundation Editor

/-- Where the linker put `fs_disk` and the three pointers of `easyfs.c`. -/
structure FsImage where
  fsDisk : Nat
  fsSb : Nat
  fsBitmap : Nat
  fsRootdir : Nat
  fits : fsDisk + 4194304 ≤ 4294967296
  apart : ∀ pointer ∈ [fsSb, fsBitmap, fsRootdir],
    pointer + 4 ≤ fsDisk ∨ fsDisk + 4194304 ≤ pointer ∧ pointer + 4 ≤ 4294967296
  distinct : [fsSb, fsBitmap, fsRootdir].Pairwise fun left right =>
    left + 4 ≤ right ∨ right + 4 ≤ left

structure ImageState where
  memory : Memory
  console : List KprintfCall

namespace FsImage

variable (image : FsImage)

/-- The address belongs to another object than `fs_disk` and the pointers into it. -/
def Outside (address : Nat) : Prop :=
  (address < image.fsDisk ∨ image.fsDisk + 4194304 ≤ address) ∧
    ∀ pointer ∈ [image.fsSb, image.fsBitmap, image.fsRootdir],
      address < pointer ∨ pointer + 4 ≤ address

/-- The memory by its distance from the start of `fs_disk`. -/
def disk (memory : Memory) : Memory := memory.behind image.fsDisk

/-- The memory whose disk is the given one. -/
def withDisk (memory disk : Memory) : Memory := fun address =>
  if address < 4294967296 then disk (sub32 address image.fsDisk) else memory address

def PointersHold (memory : Memory) : Prop :=
  memory.load32 image.fsSb = image.fsDisk + superblockBlock * blockSize ∧
    memory.load32 image.fsBitmap = image.fsDisk + bitmapBlock * blockSize ∧
      memory.load32 image.fsRootdir = image.fsDisk + rootDirBlock * blockSize

instance (memory : Memory) : Decidable (image.PointersHold memory) := instDecidableAnd

/-- A function of `easyfs.c` that touches no buffer. -/
def onDisk (state : ImageState) (perform : FsState → Nat × FsState) : Nat × ImageState :=
  let done := perform ⟨image.disk state.memory, state.console⟩
  (done.1, ⟨image.withDisk state.memory done.2.disk, done.2.console⟩)

def fsInit (state : ImageState) : ImageState :=
  let filled := FileSystem.fsInit ⟨image.disk state.memory, state.console⟩
  let memory := image.withDisk state.memory filled.disk
  let memory := memory.store32 image.fsSb (image.fsDisk + superblockBlock * blockSize)
  let memory := memory.store32 image.fsBitmap (image.fsDisk + bitmapBlock * blockSize)
  let memory := memory.store32 image.fsRootdir (image.fsDisk + rootDirBlock * blockSize)
  ⟨memory, filled.console⟩

def fsCreateFile (state : ImageState) (name : CString) : Nat × ImageState :=
  image.onDisk state fun state => FileSystem.fsCreateFile state name

def fsDeleteFile (state : ImageState) (name : CString) : Nat × ImageState :=
  image.onDisk state fun state => FileSystem.fsDeleteFile state name

def fsReadBlock (memory : Memory) (block buf : Nat) : Memory :=
  memory.copyForward32 buf (add32 image.fsDisk (block * blockSize % 4294967296)) blockSize

def fsWriteBlock (state : ImageState) (block buf : Nat) : ImageState :=
  if totalBlocks ≤ block ∨ buf = 0 then
    { state with
      console := state.console ++ [⟨"easyfs: failed to write block. Invalid block or buffer\n", []⟩] }
  else
    { state with
      memory := state.memory.copyForward32 (add32 image.fsDisk (block * blockSize)) buf blockSize }

def setFileSize (state : ImageState) (slot size : Nat) : ImageState :=
  { state with
    memory := image.withDisk state.memory
      (DirEntry.setFileSize (image.disk state.memory) slot size) }

def readBlocks (slot buf : Nat) : Nat → Nat → Memory → Memory
  | 0, _, memory => memory
  | remaining + 1, index, memory =>
      readBlocks slot buf remaining (index + 1)
        (image.fsReadBlock memory (add32 (DirEntry.firstDataBlock (image.disk memory) slot) index)
          (add32 buf (index * blockSize)))

/-- How many blocks `fs_read_file` copies. -/
def blocksToRead (disk : Memory) (slot size : Nat) : Nat :=
  let blocksToRead := size / blockSize + 1
  let fileBlocks := DirEntry.fileSize disk slot / blockSize + 1
  if fileBlocks < blocksToRead then fileBlocks else blocksToRead

def fsReadFile (memory : Memory) (name : CString) (buf size : Nat) : Nat × Memory :=
  match fsFindFile (image.disk memory) name with
  | none => (minusOne, memory)
  | some slot =>
      let read := image.readBlocks slot buf (blocksToRead (image.disk memory) slot size) 0 memory
      (DirEntry.fileSize (image.disk read) slot, read)

def writeBlocks (slot buf : Nat) : Nat → Nat → ImageState → ImageState
  | 0, _, state => state
  | remaining + 1, index, state =>
      writeBlocks slot buf remaining (index + 1)
        (image.fsWriteBlock state
          (add32 (DirEntry.firstDataBlock (image.disk state.memory) slot) index)
          (add32 buf (index * blockSize)))

def fsWriteFile (state : ImageState) (name : CString) (buf size : Nat) : Nat × ImageState :=
  match fsFindFile (image.disk state.memory) name with
  | none => (minusOne, state)
  | some slot =>
      (size, image.setFileSize (image.writeBlocks slot buf (size / blockSize + 1) 0 state) slot size)

/-- `editorSave` with its local array at `buf`. -/
def editorSave (E : EditorConfig) (state : ImageState) (buf : Nat) : EditorConfig × ImageState :=
  if E.filename.bytes = [] then (E, state)
  else
    let saved := saveRows E.rows 0 (state.memory.behind buf)
    let state : ImageState :=
      { state with memory := state.memory.blit32 buf (saved.2.storeByte saved.1 0) blockSize }
    let state :=
      if fsFindFile (image.disk state.memory) E.filename = none then
        (image.fsCreateFile state E.filename).2
      else state
    match fsFindFile (image.disk state.memory) E.filename with
    | none => (E, state)
    | some slot =>
        let written := image.fsWriteBlock state
          (DirEntry.firstDataBlock (image.disk state.memory) slot) buf
        ({ E with dirty := 0 }, image.setFileSize written slot saved.1)

end FsImage

/-- A call of the file system, or a store of its callers between two calls. -/
inductive ImageCall where
  | create (name : CString)
  | delete (name : CString)
  | write (name : CString) (buf size : UInt32)
  | read (name : CString) (buf size : UInt32)
  | save (E : EditorConfig) (buf : UInt32)
  | store (address : UInt32) (value : UInt8)

namespace FsImage

variable (image : FsImage)

def perform (state : ImageState) : ImageCall → ImageState
  | .create name => (image.fsCreateFile state name).2
  | .delete name => (image.fsDeleteFile state name).2
  | .write name buf size => (image.fsWriteFile state name buf.toNat size.toNat).2
  | .read name buf size =>
      { state with memory := (image.fsReadFile state.memory name buf.toNat size.toNat).2 }
  | .save E buf => (image.editorSave E state buf.toNat).2
  | .store address value =>
      { state with memory := state.memory.storeByte address.toNat value }

/-- `none` once a pointer into `fs_disk` has been overwritten: what the functions reach
through it then is not modelled. -/
def exec (state : ImageState) (call : ImageCall) : Option ImageState :=
  if image.PointersHold state.memory then some (image.perform state call) else none

/-- The caller hands over memory of its own: the bytes of its buffer belong to no part
of the file system. -/
def OwnMemory : ImageCall → Prop
  | .write _ buf size | .read _ buf size =>
      ∀ index, index < size.toNat → image.Outside (add32 buf.toNat index)
  | .save _ buf => ∀ index, index < blockSize → image.Outside (add32 buf.toNat index)
  | .store address _ => image.Outside address.toNat
  | _ => True

/-- Every block that a read copies lies outside, not only the bytes asked for. -/
def CopiesOutside (state : ImageState) : ImageCall → Prop
  | .read name buf size =>
      ∀ slot, fsFindFile (image.disk state.memory) name = some slot →
        ∀ index, index < blocksToRead (image.disk state.memory) slot size.toNat * blockSize →
          image.Outside (add32 buf.toNat index)
  | _ => True

end FsImage

end ShedKernel.FileSystem
