import ShedKernel.Foundation.Bitmap
import ShedKernel.Foundation.CString
import ShedKernel.Foundation.Word32

/-! The file system of `easyfs.c`. The whole disk is the array `fs_disk`, addressed
here by offset; offsets past its end are the memory behind it. Callers' buffers
are other objects. -/

set_option autoImplicit false

namespace ShedKernel.FileSystem

open Foundation

def blockSize : Nat := 4096

def totalBlocks : Nat := 1024

def maxFilenameLen : Nat := 16

def maxDirEntries : Nat := 64

def numDataBlocks : Nat := totalBlocks - 3

def superblockMagic : Nat := 0xDEADBEEF

def superblockBlock : Nat := 0

def bitmapBlock : Nat := 1

def rootDirBlock : Nat := 2

def firstDataBlock : Nat := 3

/-- The word that the C functions return for failure. -/
def minusOne : Nat := 4294967295

/-- `int` reading of a returned word. -/
def isNegative (word : Nat) : Bool := 2147483648 ≤ word

theorem isNegative_of_lt {word : Nat} (small : word < 2147483648) : isNegative word = false :=
  decide_eq_false (Nat.not_le.mpr small)

/-! Fields of the superblock and of a directory entry, as laid out in `fs_disk`. -/

namespace Superblock

def magic (disk : Memory) : Nat := disk.load32 (superblockBlock * blockSize)

def totalBlocks (disk : Memory) : Nat := disk.load32 (superblockBlock * blockSize + 4)

def blockSize (disk : Memory) : Nat := disk.load32 (superblockBlock * FileSystem.blockSize + 8)

def numDataBlocks (disk : Memory) : Nat :=
  disk.load32 (superblockBlock * FileSystem.blockSize + 12)

def freeBlockCount (disk : Memory) : Nat :=
  disk.load32 (superblockBlock * FileSystem.blockSize + 16)

def bitmapBlock (disk : Memory) : Nat := disk.load32 (superblockBlock * FileSystem.blockSize + 20)

def rootDirBlock (disk : Memory) : Nat := disk.load32 (superblockBlock * FileSystem.blockSize + 24)

def firstDataBlock (disk : Memory) : Nat :=
  disk.load32 (superblockBlock * FileSystem.blockSize + 28)

/-- A 64-bit field. -/
def timestamp (disk : Memory) : Nat :=
  disk.load32 (superblockBlock * FileSystem.blockSize + 32) +
    4294967296 * disk.load32 (superblockBlock * FileSystem.blockSize + 36)

def setFreeBlockCount (disk : Memory) (value : Nat) : Memory :=
  disk.store32 (superblockBlock * FileSystem.blockSize + 16) value

end Superblock

namespace DirEntry

/-- The offset of `fs_rootdir->entries[slot]`, whose size is 28 bytes. -/
def address (slot : Nat) : Nat := rootDirBlock * blockSize + slot * 28

def fileSize (disk : Memory) (slot : Nat) : Nat := disk.load32 (address slot + 16)

def firstDataBlock (disk : Memory) (slot : Nat) : Nat := disk.load32 (address slot + 20)

def isUsed (disk : Memory) (slot : Nat) : Bool := disk (address slot + 24) != 0

def setName (disk : Memory) (slot : Nat) (name : List UInt8) : Memory :=
  disk.storeBytes (address slot) (name.take (maxFilenameLen - 1) ++ [0])

def setFileSize (disk : Memory) (slot value : Nat) : Memory :=
  disk.store32 (address slot + 16) value

def setFirstDataBlock (disk : Memory) (slot value : Nat) : Memory :=
  disk.store32 (address slot + 20) value

def setIsUsed (disk : Memory) (slot : Nat) (value : UInt8) : Memory :=
  disk.storeByte (address slot + 24) value

end DirEntry

inductive KprintfArg where
  | text (bytes : List UInt8)
  | number (value : Nat)
  deriving DecidableEq

structure KprintfCall where
  format : String
  args : List KprintfArg
  deriving DecidableEq

/-- The disk and the calls of `kprintf` so far. -/
structure FsState where
  disk : Memory
  console : List KprintfCall

namespace FsState

def kprintf (state : FsState) (format : String) (args : List KprintfArg) : FsState :=
  { state with console := state.console ++ [⟨format, args⟩] }

end FsState

def fsInit (state : FsState) : FsState :=
  let disk := state.disk.blit 0 (fun _ => 0) (totalBlocks * blockSize)
  let disk := disk.store32 (superblockBlock * blockSize) superblockMagic
  let disk := disk.store32 (superblockBlock * blockSize + 4) totalBlocks
  let disk := disk.store32 (superblockBlock * blockSize + 8) blockSize
  let disk := disk.store32 (superblockBlock * blockSize + 12) numDataBlocks
  let disk := disk.store32 (superblockBlock * blockSize + 16) numDataBlocks
  let disk := disk.store32 (superblockBlock * blockSize + 20) bitmapBlock
  let disk := disk.store32 (superblockBlock * blockSize + 24) rootDirBlock
  let disk := disk.store32 (superblockBlock * blockSize + 28) firstDataBlock
  let disk := disk.store32 (superblockBlock * blockSize + 32) 0
  let disk := disk.store32 (superblockBlock * blockSize + 36) 0
  { state with disk }.kprintf "easyfs: initialised. %d blocks, %d data blocks\n"
    [.number totalBlocks, .number numDataBlocks]

/-! Blocks. A buffer is given by the bytes behind its pointer, `none` for `NULL`. -/

def bufferAt (memory : Memory) (pointer : Nat) : Option (Nat → UInt8) :=
  if pointer = 0 then none else some (memory.behind pointer)

def fsWriteBlock (state : FsState) (block : Nat) (buf : Option (Nat → UInt8)) : FsState :=
  match buf with
  | none => state.kprintf "easyfs: failed to write block. Invalid block or buffer\n" []
  | some source =>
      if totalBlocks ≤ block then
        state.kprintf "easyfs: failed to write block. Invalid block or buffer\n" []
      else { state with disk := state.disk.blit (block * blockSize) source blockSize }

/-- The bytes that `fs_read_block` copies to its buffer. -/
def fsReadBlock (disk : Memory) (block : Nat) : Nat → UInt8 :=
  fun index => disk (block * blockSize % 4294967296 + index)

/-! The bitmap. -/

def fsBlockIsFree (disk : Memory) (block : Nat) : Bool :=
  if Superblock.numDataBlocks disk ≤ block then false
  else !disk.bit (bitmapBlock * blockSize) block

def fsMarkBlockUsed (disk : Memory) (block : Nat) : Bool × Memory :=
  if Superblock.numDataBlocks disk ≤ block then (false, disk)
  else
    let disk := disk.setBit (bitmapBlock * blockSize) block
    (true, Superblock.setFreeBlockCount disk (sub32 (Superblock.freeBlockCount disk) 1))

def fsMarkBlockFree (disk : Memory) (block : Nat) : Bool × Memory :=
  if Superblock.numDataBlocks disk ≤ block then (false, disk)
  else
    let disk := disk.clearBit (bitmapBlock * blockSize) block
    (true, Superblock.setFreeBlockCount disk (add32 (Superblock.freeBlockCount disk) 1))

def fsAllocBlock (disk : Memory) : Nat × Memory :=
  match (List.range (Superblock.numDataBlocks disk)).find? (fsBlockIsFree disk) with
  | some block => (add32 (Superblock.firstDataBlock disk) block, (fsMarkBlockUsed disk block).2)
  | none => (minusOne, disk)

/-! The directory. An entry is given by its slot, `none` for `NULL`. -/

def findSlot (found : Nat → Bool) : Option Nat := (List.range maxDirEntries).find? found

def entryNamed (disk : Memory) (name : CString) (slot : Nat) : Bool :=
  DirEntry.isUsed disk slot && disk.strcmpEqual (DirEntry.address slot) name.bytes

def fsFindFile (disk : Memory) (name : CString) : Option Nat := findSlot (entryNamed disk name)

def fsCreateFile (state : FsState) (name : CString) : Nat × FsState :=
  match fsFindFile state.disk name with
  | some _ =>
      (minusOne, state.kprintf "easyfs: file '%s' already exists\n" [.text name.bytes])
  | none =>
      match findSlot fun slot => !DirEntry.isUsed state.disk slot with
      | none => (minusOne, state.kprintf "easyfs: root directory full\n" [])
      | some slot =>
          let alloc := fsAllocBlock state.disk
          if isNegative alloc.1 then
            (minusOne, { state with disk := alloc.2 }.kprintf "easyfs: no free blocks\n" [])
          else
            let disk := DirEntry.setName alloc.2 slot name.bytes
            let disk := DirEntry.setFileSize disk slot 0
            let disk := DirEntry.setFirstDataBlock disk slot alloc.1
            (0, { state with disk := DirEntry.setIsUsed disk slot 1 })

def fsDeleteFile (state : FsState) (name : CString) : Nat × FsState :=
  match findSlot (entryNamed state.disk name) with
  | some slot =>
      let freed := fsMarkBlockFree state.disk
        (sub32 (DirEntry.firstDataBlock state.disk slot) (Superblock.firstDataBlock state.disk))
      (0, { state with disk := DirEntry.setIsUsed freed.2 slot 0 })
  | none => (minusOne, state.kprintf "easyfs: file '%s' not found\n" [.text name.bytes])

/-! File contents. The entry's fields are read again for every block. -/

def readBlocks (disk : Memory) (slot buf : Nat) : Nat → Nat → Memory → Memory
  | 0, _, memory => memory
  | remaining + 1, index, memory =>
      readBlocks disk slot buf remaining (index + 1)
        (memory.blit32 (add32 buf (index * blockSize))
          (fsReadBlock disk (add32 (DirEntry.firstDataBlock disk slot) index)) blockSize)

def fsReadFile (disk : Memory) (name : CString) (memory : Memory) (buf size : Nat) :
    Nat × Memory :=
  match fsFindFile disk name with
  | none => (minusOne, memory)
  | some slot =>
      let blocksToRead := size / blockSize + 1
      let fileBlocks := DirEntry.fileSize disk slot / blockSize + 1
      let blocksToRead := if fileBlocks < blocksToRead then fileBlocks else blocksToRead
      (DirEntry.fileSize disk slot, readBlocks disk slot buf blocksToRead 0 memory)

def writeBlocks (memory : Memory) (slot buf : Nat) : Nat → Nat → FsState → FsState
  | 0, _, state => state
  | remaining + 1, index, state =>
      writeBlocks memory slot buf remaining (index + 1)
        (fsWriteBlock state (add32 (DirEntry.firstDataBlock state.disk slot) index)
          (bufferAt memory (add32 buf (index * blockSize))))

def fsWriteFile (state : FsState) (name : CString) (memory : Memory) (buf size : Nat) :
    Nat × FsState :=
  match fsFindFile state.disk name with
  | none => (minusOne, state)
  | some slot =>
      let written := writeBlocks memory slot buf (size / blockSize + 1) 0 state
      (size, { written with disk := DirEntry.setFileSize written.disk slot size })

/-- The turns of `stringAt` cover the address space. -/
def fsListFiles (state : FsState) : FsState :=
  let used := (List.range maxDirEntries).filter (DirEntry.isUsed state.disk)
  let listed := used.foldl (fun listed slot =>
    listed.kprintf "  %s (%d bytes)\n"
      [.text (state.disk.stringAt (DirEntry.address slot) 4294967296),
        .number (DirEntry.fileSize state.disk slot)]) state
  if used = [] then listed.kprintf "  (empty)\n" [] else listed

end ShedKernel.FileSystem
