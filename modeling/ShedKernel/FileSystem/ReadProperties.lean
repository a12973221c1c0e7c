import ShedKernel.FileSystem.Isolation

/-! Reading a file, and reading back what was written. `fs_read_file` copies whole blocks,
as many as hold the requested bytes, and does not look where the disk ends. -/

set_option autoImplicit false

namespace ShedKernel.FileSystem

open Foundation

/-- The byte of the file of `slot` at `index`. -/
def fileByte (disk : Memory) (slot index : Nat) : UInt8 :=
  fsReadBlock disk (add32 (DirEntry.firstDataBlock disk slot) (index / blockSize)) (index % blockSize)

/-- The disk has room for `size` bytes from the first block of the file on. -/
def FileFits (disk : Memory) (slot size : Nat) : Prop :=
  DirEntry.firstDataBlock disk slot * blockSize + size ≤ totalBlocks * blockSize

/-- What is read of the file does not depend on the memory behind `fs_disk`. -/
def ReadsInside (disk : Memory) (name : CString) (size : Nat) : Prop :=
  ∀ other : Memory, (∀ place, place < totalBlocks * blockSize → other place = disk place) →
    ∀ memory (buf : UInt32),
      fsReadFile other name memory buf.toNat size = fsReadFile disk name memory buf.toNat size

/-- A write that returns `size` can be read back from the disk, and one that does not fit is
refused. -/
def WriteReadsBack (state : FsState) (name : CString) (slot buf size : Nat) : Prop :=
  ∀ memory,
    let written := fsWriteFile state name memory buf size
    (written.1 = size → ReadsInside written.2.disk name size ∧
      ∀ target (out : UInt32),
        let read := fsReadFile written.2.disk name target out.toNat size
        read.1 = size ∧
          ∀ index, index < size → read.2 (add32 out.toNat index) = memory (add32 buf index)) ∧
    (¬FileFits state.disk slot size → written.1 = minusOne ∧ written.2.disk = state.disk)

/-- The buffer gets the first `size` bytes of the file, or as many as there are, and keeps
its other bytes. -/
def BoundedRead (disk : Memory) (name : CString) (slot : Nat) (memory : Memory) (buf size : Nat) :
    Prop :=
  ∀ index, index < 4294967296 →
    (fsReadFile disk name memory buf size).2 (add32 buf index) =
      if index < min size (DirEntry.fileSize disk slot) then fileByte disk slot index
      else memory (add32 buf index)

/-! Reading. -/

private theorem readBlocks_behind {disk memory : Memory} {slot buf remaining index place : Nat}
    (small : index + remaining ≤ 1048576) (behind : index + remaining ≤ place / 4096)
    (bounded : place < 4294967296) :
    readBlocks disk slot buf remaining index memory (add32 buf place) = memory (add32 buf place) := by
  induction remaining generalizing index memory with
  | zero => rfl
  | succ remaining ih =>
      have fits : index * 4096 + 4096 ≤ 4294967296 := by omega
      have above : index * 4096 + 4096 ≤ place := by omega
      rw [readBlocks, ih (by omega) (by omega)]
      exact Memory.blit32_of_outside fits bounded (.inr above)

section Read

variable {disk memory : Memory} {name : CString} {slot : Nat}

theorem fsReadFile_eq (found : fsFindFile disk name = some slot) (buf size : Nat) :
    fsReadFile disk name memory buf size = (DirEntry.fileSize disk slot,
      readBlocks disk slot buf (min size (DirEntry.fileSize disk slot) / 4096 + 1) 0 memory) := by
  have count : (if DirEntry.fileSize disk slot / blockSize + 1 < size / blockSize + 1 then
      DirEntry.fileSize disk slot / blockSize + 1 else size / blockSize + 1) =
        min size (DirEntry.fileSize disk slot) / 4096 + 1 := by
    unfold blockSize
    split
    · omega
    · omega
  unfold fsReadFile
  rw [found]
  simp only [count]

/-- The bytes of the blocks that are read come from the file, the others stay. -/
theorem fsReadFile_byte (found : fsFindFile disk name = some slot) {buf size index : Nat}
    (small : size < 4294967296) (inside : index < 4294967296) :
    (fsReadFile disk name memory buf size).2 (add32 buf index) =
      if index / 4096 ≤ min size (DirEntry.fileSize disk slot) / 4096 then fileByte disk slot index
      else memory (add32 buf index) := by
  rw [fsReadFile_eq found]
  split
  · exact readBlocks_inside (by omega) (Nat.zero_le _) (by omega)
  · exact readBlocks_behind (by omega) (by omega) inside

end Read

/-- A bounded read is bounded exactly if the buffer held, behind the bytes asked for, what the
rest of the last block holds. -/
theorem boundedRead_iff {disk memory : Memory} {name : CString} {slot : Nat} (buf size : UInt32)
    (found : fsFindFile disk name = some slot) :
    BoundedRead disk name slot memory buf.toNat size.toNat ↔
      ∀ index, min size.toNat (DirEntry.fileSize disk slot) ≤ index →
        index / blockSize = min size.toNat (DirEntry.fileSize disk slot) / blockSize →
        memory (add32 buf.toNat index) = fileByte disk slot index := by
  have small := size.toNat_lt
  constructor
  · intro bounded index behind sameBlock
    unfold blockSize at sameBlock
    have inside : index < 4294967296 := by omega
    have read := bounded index inside
    rw [fsReadFile_byte found small inside, if_pos (Nat.le_of_eq sameBlock),
      if_neg (Nat.not_lt.mpr behind)] at read
    exact read.symm
  · intro same index inside
    rw [fsReadFile_byte found small inside]
    split
    · next inBlocks =>
        split
        · rfl
        · next behind => exact (same index (by omega) (by unfold blockSize; omega)).symm
    · next outside => rw [if_neg (by omega)]

/-- In every reachable state and for every size, some buffer loses bytes that were not asked
for: a read is bounded for just those that hold the rest of the last block already. -/
theorem read_bounded_iff (state : FsState) (calls : List FsCall) (name : CString) (slot : Nat)
    (found : fsFindFile (fsRun (fsInit state) calls).disk name = some slot) (buf size : UInt32) :
    let disk := (fsRun (fsInit state) calls).disk
    let length := min size.toNat (DirEntry.fileSize disk slot)
    (∀ memory, BoundedRead disk name slot memory buf.toNat size.toNat ↔
      ∀ index, length ≤ index → index / blockSize = length / blockSize →
        memory (add32 buf.toNat index) = fileByte disk slot index) ∧
      ¬∀ memory, BoundedRead disk name slot memory buf.toNat size.toNat := by
  refine ⟨fun memory => boundedRead_iff buf size found, fun bounded => ?_⟩
  generalize (fsRun (fsInit state) calls).disk = disk at *
  generalize least : min size.toNat (DirEntry.fileSize disk slot) = length
  have same := (boundedRead_iff buf size found).mp
    (bounded (constantMemory (fileByte disk slot length + 1))) length (by omega) (by rw [least])
  exact absurd same (by simp [constantMemory])

/-- One byte is asked for and one the file has; the buffer of 512 gets a whole block. -/
theorem read_overruns_buffer : ∃ (disk : Memory) (buf size : UInt32),
    disk = (fsRun (fsInit blankState) [.create nameA, .write nameA (constantMemory 98) 4096 1]).disk ∧
      fsFindFile disk nameA = some 0 ∧
      ¬BoundedRead disk nameA 0 (constantMemory 0) buf.toNat size.toNat := by
  refine ⟨_, 8192, 512, rfl, by decide +kernel, fun bounded => ?_⟩
  have read := bounded 512 (by decide)
  revert read
  decide +kernel

/-- Of a file of 700 bytes 600 are asked for; the bytes behind them are the file's too. -/
theorem read_bounded_iff_unaligned :
    let disk := (fsRun (fsInit blankState) [.create nameA, .write nameA (constantMemory 98) 4096 700]).disk
    DirEntry.fileSize disk 0 = 700 ∧
      (∀ memory, BoundedRead disk nameA 0 memory (8192 : UInt32).toNat (600 : UInt32).toNat ↔
        ∀ index, min (600 : UInt32).toNat (DirEntry.fileSize disk 0) ≤ index →
          index / blockSize = min (600 : UInt32).toNat (DirEntry.fileSize disk 0) / blockSize →
          memory (add32 (8192 : UInt32).toNat index) = fileByte disk 0 index) ∧
      (¬∀ memory, BoundedRead disk nameA 0 memory (8192 : UInt32).toNat (600 : UInt32).toNat) ∧
      ¬BoundedRead disk nameA 0 (constantMemory 0) (8192 : UInt32).toNat (600 : UInt32).toNat := by
  have size : DirEntry.fileSize (fsRun (fsInit blankState)
      [.create nameA, .write nameA (constantMemory 98) 4096 700]).disk 0 = 700 := by
    decide +kernel
  obtain ⟨bounded, loses⟩ := read_bounded_iff blankState
    [.create nameA, .write nameA (constantMemory 98) 4096 700] nameA 0 (by decide +kernel) 8192 600
  refine ⟨size, bounded, loses, fun empty => ?_⟩
  -- The first byte behind those asked for.
  have same := (bounded (constantMemory 0)).mp empty 600 (by rw [size]; decide) (by rw [size]; rfl)
  revert same
  decide +kernel

/-! Reading back. -/

section ReadBack

variable {state : FsState} {dir : Directory} {name : CString} {slot : Nat} {entry : Entry}

/-- What `fs_read_file` finds after a write, also when the memory behind the metadata changes. -/
structure WrittenFile (disk changed : Memory) (name : CString) (slot block size : Nat)
    (writes : List BlockWrite) : Prop where
  entry : ∀ other : Memory, (∀ place, place < 12288 → other place = changed place) →
    fsFindFile other name = some slot ∧ DirEntry.fileSize other slot = size ∧
      DirEntry.firstDataBlock other slot = block
  data : DataAfter disk changed writes

private theorem Represents.writtenFile (represents : Represents state.disk dir)
    (found : dir.find name.bytes = some slot) (stored : dir slot = some entry) (memory : Memory)
    (buf : Nat) {size : Nat} (small : size < 4294967296) :
    WrittenFile state.disk (fsWriteFile state name memory buf size).2.disk name slot entry.block size
      (fileWrites memory entry.block buf (size / 4096 + 1) 0) := by
  obtain ⟨performed, _, _⟩ := represents.fsWriteFile_performed name memory buf small
  obtain ⟨_, storedAgain, _, looked⟩ := Directory.lookup_of_find found
  rw [stored] at storedAgain
  cases storedAgain
  have data := performed.data
  rw [Directory.writesOfFile, looked] at data
  have search : (dir.resize name.bytes size).find name.bytes = some slot :=
    (Directory.find_resize dir name.bytes name.bytes size).trans found
  have resized : (dir.resize name.bytes size) slot = some { entry with size } := by
    rw [Directory.resize_eq found stored, Directory.set_self]
  refine ⟨fun other same => ?_, data⟩
  have represented := performed.represents.congr same
  have holds := represented.entries slot _ resized
  exact ⟨(represented.fsFindFile_eq name).trans search, holds.size, holds.block⟩

namespace WrittenFile

variable {disk changed memory : Memory} {block size buf : Nat} {writes : List BlockWrite}

/-- Where the bytes of the file lie, for blocks that `fs_disk` has. -/
theorem fileByte_eq (written : WrittenFile disk changed name slot block size writes)
    (data : 3 ≤ block) {index : Nat} (inside : block + index / 4096 < 1024) :
    fileByte changed slot index =
      disk.applyWrites 4096 writes ((block + index / 4096) * 4096 + index % 4096) := by
  have first := (written.entry changed fun _ _ => rfl).2.2
  have place : add32 block (index / 4096) = block + index / 4096 := add32_of_lt (by omega)
  have offset : (block + index / 4096) * 4096 % 4294967296 = (block + index / 4096) * 4096 :=
    Nat.mod_eq_of_lt (by omega)
  unfold fileByte fsReadBlock blockSize
  rw [first, place, offset]
  exact written.data _ (by omega)

/-- A file whose last block the disk has is read from the disk. -/
theorem readsInside (written : WrittenFile disk changed name slot block size writes)
    (inside : block + size / 4096 < 1024) : ReadsInside changed name size := by
  intro other same memory buf
  obtain ⟨found, length, first⟩ := written.entry changed fun _ _ => rfl
  obtain ⟨otherFound, otherLength, otherFirst⟩ := written.entry other fun place low =>
    same place (by unfold totalBlocks blockSize; omega)
  rw [fsReadFile_eq found, fsReadFile_eq otherFound, length, otherLength]
  refine congrArg (Prod.mk size) (readBlocks_congr (otherFirst.trans first.symm) ?_)
  intro place _ high byte byteInside
  have reached : add32 (DirEntry.firstDataBlock other slot) place = block + place := by
    rw [otherFirst]
    exact add32_of_lt (by omega)
  have offset : (block + place) * 4096 % 4294967296 = (block + place) * 4096 :=
    Nat.mod_eq_of_lt (by omega)
  unfold fsReadBlock blockSize
  rw [reached, offset]
  exact same _ (by unfold totalBlocks blockSize; omega)

/-- A file that reaches past the last block is not. -/
theorem not_readsInside (written : WrittenFile disk changed name slot block size writes)
    (small : size < 2147483648) (data : block < 1024) (outside : 1024 ≤ block + size / 4096) :
    ¬ReadsInside changed name size := by
  intro readsInside
  let last := (block + size / 4096) * 4096
  have above : 4194304 ≤ last := by
    simp only [last]
    omega
  obtain ⟨found, length, first⟩ := written.entry changed fun _ _ => rfl
  obtain ⟨otherFound, otherLength, otherFirst⟩ :=
    written.entry (changed.storeByte last (changed last + 1)) fun place low =>
      Memory.storeByte_of_ne (by omega)
  have same := readsInside (changed.storeByte last (changed last + 1))
    (fun place inside => Memory.storeByte_of_ne (by
      unfold totalBlocks blockSize at inside
      omega)) (constantMemory 0) 0
  have byte := congrFun (congrArg Prod.snd same) (add32 (0 : UInt32).toNat (size / 4096 * 4096))
  have blockOf : size / 4096 * 4096 / 4096 = size / 4096 := by omega
  have atLast : ∀ other : Memory, DirEntry.firstDataBlock other slot = block →
      fileByte other slot (size / 4096 * 4096) = other last := by
    intro other otherBlock
    have reached : add32 block (size / 4096) = block + size / 4096 := add32_of_lt (by omega)
    have offset : (block + size / 4096) * 4096 % 4294967296 = last := Nat.mod_eq_of_lt (by omega)
    unfold fileByte fsReadBlock blockSize
    rw [otherBlock, blockOf, reached, offset, Nat.mul_mod_left, Nat.add_zero]
  rw [fsReadFile_byte otherFound (by omega) (by omega), fsReadFile_byte found (by omega) (by omega),
    length, otherLength, if_pos (by omega), if_pos (by omega), atLast _ otherFirst, atLast _ first,
    Memory.storeByte_self] at byte
  exact absurd byte (by simp)

end WrittenFile

/-- A pointer to a byte in its block of the buffer. -/
private theorem add32_block (buf index : Nat) :
    add32 (add32 buf (index / 4096 * 4096)) (index % 4096) = add32 buf index := by
  unfold add32
  omega

/-- Within the disk, and with a pointer to every piece of the data, what was written is read. -/
theorem Represents.writeReadsBack (represents : Represents state.disk dir)
    (found : dir.find name.bytes = some slot) (stored : dir slot = some entry) {buf size : Nat}
    (small : size < 2147483648) (inside : entry.block + size / 4096 < 1024)
    (pointers : ∀ index, index * 4096 < size → add32 buf (index * 4096) ≠ 0) :
    WriteReadsBack state name slot buf size := by
  have holds := represents.entries slot entry stored
  have placed := represents.valid.placed slot entry stored
  intro memory
  have written := represents.writtenFile found stored memory buf (by omega : size < 4294967296)
  obtain ⟨foundAfter, length, first⟩ := written.entry _ fun _ _ => rfl
  refine ⟨fun _ => ⟨written.readsInside inside, fun target out => ?_⟩, fun overflow => ?_⟩
  · refine ⟨?_, fun index within => ?_⟩
    · simp only [fsReadFile_eq foundAfter, length]
    · have place := Nat.div_add_mod' index 4096
      have part := Nat.mod_lt index (by decide : 4096 > 0)
      have pointer := pointers (index / 4096) (by omega)
      rw [fsReadFile_byte foundAfter (by omega) (by omega), length, if_pos (by omega),
        written.fileByte_eq placed.1 (by omega)]
      have covered := @Memory.applyWrites_covered 4096 state.disk
        (fileWrites memory entry.block buf (size / 4096 + 1) 0) (entry.block + index / 4096)
        (index % 4096) (memory (add32 buf index)) part
        ⟨_, mem_fileWrites_iff.mpr ⟨index / 4096, Nat.zero_le _, by omega, pointer, by omega, rfl⟩,
          rfl⟩
      refine covered fun write member same => ?_
      obtain ⟨other, _, _, _, _, rfl⟩ := mem_fileWrites_iff.mp member
      simp only at same
      have here : other = index / 4096 := by omega
      subst here
      exact congrArg memory (add32_block buf index)
  · refine absurd ?_ overflow
    unfold FileFits blockSize totalBlocks
    rw [holds.block]
    omega

/-- A piece of the data without a pointer keeps what the disk held. -/
theorem Represents.pointers_of_readsBack (represents : Represents state.disk dir)
    (found : dir.find name.bytes = some slot) (stored : dir slot = some entry) {buf size : Nat}
    (small : size < 2147483648) (inside : entry.block + size / 4096 < 1024)
    (readsBack : WriteReadsBack state name slot buf size) {index : Nat}
    (within : index * 4096 < size) : add32 buf (index * 4096) ≠ 0 := by
  intro null
  have placed := represents.valid.placed slot entry stored
  have blockInside : entry.block + index < 1024 := by omega
  let value := state.disk ((entry.block + index) * 4096)
  have written := represents.writtenFile found stored (constantMemory (value + 1)) buf
    (by omega : size < 4294967296)
  obtain ⟨_, result, _⟩ := represents.fsWriteFile_performed name (constantMemory (value + 1)) buf
    (by omega : size < 4294967296)
  obtain ⟨foundAfter, length, _⟩ := written.entry _ fun _ _ => rfl
  rw [found] at result
  have read := (((readsBack _).1 result).2 (constantMemory 0) 0).2 (index * 4096) within
  have blockOf : index * 4096 / 4096 = index := by omega
  have untouched := @Memory.applyWrites_other 4096 state.disk
    (fileWrites (constantMemory (value + 1)) entry.block buf (size / 4096 + 1) 0)
    (entry.block + index) fun write member same => by
      obtain ⟨other, _, _, pointer, _, rfl⟩ := mem_fileWrites_iff.mp member
      have here : other = index := by
        simp only at same
        omega
      exact pointer (here ▸ null)
  rw [fsReadFile_byte foundAfter (by omega) (by omega), length, if_pos (by omega),
    written.fileByte_eq placed.1 (by omega), blockOf, Nat.mul_mod_left,
    untouched 0 (by decide)] at read
  exact absurd read (by simp [constantMemory, value])

end ReadBack

/-- In every reachable state, what is written to a file reads back, and what does not fit is
refused, exactly if the disk has one block more than the full ones of the data, and no piece of
the data is behind a null pointer. -/
theorem write_reads_back_iff (state : FsState) (calls : List FsCall) (name : CString) (slot : Nat)
    (found : fsFindFile (fsRun (fsInit state) calls).disk name = some slot) (buf size : UInt32)
    (small : size.toNat < 2147483648) :
    WriteReadsBack (fsRun (fsInit state) calls) name slot buf.toNat size.toNat ↔
      DirEntry.firstDataBlock (fsRun (fsInit state) calls).disk slot + size.toNat / blockSize <
          totalBlocks ∧
        ∀ index, index * blockSize < size.toNat → add32 buf.toNat (index * blockSize) ≠ 0 := by
  have represents := reachable_represents state calls
  generalize fsRun (fsInit state) calls = reached at *
  generalize Directory.empty.afterAll calls = dir at *
  rw [represents.fsFindFile_eq] at found
  obtain ⟨entry, stored, _⟩ := Directory.lookup_of_find found
  have placed := represents.valid.placed slot entry stored
  rw [(represents.entries slot entry stored).block]
  constructor
  · intro readsBack
    have inside : entry.block + size.toNat / 4096 < 1024 := by
      by_contra outside
      have written := represents.writtenFile found stored (constantMemory 0) buf.toNat size.toNat_lt
      obtain ⟨_, result, _⟩ :=
        represents.fsWriteFile_performed name (constantMemory 0) buf.toNat size.toNat_lt
      rw [found] at result
      exact written.not_readsInside small placed.2 (Nat.not_lt.mp outside)
        ((readsBack _).1 result).1
    exact ⟨inside, fun index within =>
      represents.pointers_of_readsBack found stored small inside readsBack within⟩
  · intro ⟨inside, pointers⟩
    exact represents.writeReadsBack found stored small inside pointers

/-- One byte. -/
theorem write_reads_back_iff_blank :
    WriteReadsBack (fsRun (fsInit blankState) [.create nameA]) nameA 0 (4096 : UInt32).toNat
        (1 : UInt32).toNat ↔
      DirEntry.firstDataBlock (fsRun (fsInit blankState) [.create nameA]).disk 0 +
          (1 : UInt32).toNat / blockSize < totalBlocks ∧
        ∀ index, index * blockSize < (1 : UInt32).toNat →
          add32 (4096 : UInt32).toNat (index * blockSize) ≠ 0 :=
  write_reads_back_iff blankState [.create nameA] nameA 0 (by decide +kernel) 4096 1 (by decide)

/-- 1023 blocks do not fit behind the three of the metadata; their size is returned all the
same. -/
theorem write_past_disk_returns_size :
    fsFindFile (fsRun (fsInit blankState) [.create nameA]).disk nameA = some 0 ∧
      ¬WriteReadsBack (fsRun (fsInit blankState) [.create nameA]) nameA 0 4096 4190208 := by
  refine ⟨by decide +kernel, fun readsBack => ?_⟩
  have returned : (fsWriteFile (fsRun (fsInit blankState) [.create nameA]) nameA (constantMemory 1)
      4096 4190208).1 = 4190208 := by
    decide +kernel
  have overflow : ¬FileFits (fsRun (fsInit blankState) [.create nameA]).disk 0 4190208 := by
    unfold FileFits
    decide +kernel
  have refused := ((readsBack (constantMemory 1)).2 overflow).1
  rw [returned] at refused
  cases refused

end ShedKernel.FileSystem
