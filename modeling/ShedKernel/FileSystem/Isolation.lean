import ShedKernel.FileSystem.Session

/-! When a write to one file leaves another file alone. A file is given one block,
and a write stores whole blocks from there on. -/

set_option autoImplicit false

namespace ShedKernel.FileSystem

open Foundation

/-- The directory entry of a slot and the bytes of its file are the same on both disks. -/
structure FileKept (disk changed : Memory) (slot : Nat) : Prop where
  entry : ∀ offset, offset < 28 →
    changed (DirEntry.address slot + offset) = disk (DirEntry.address slot + offset)
  data : ∀ index, index < DirEntry.fileSize disk slot →
    changed (DirEntry.firstDataBlock disk slot * blockSize + index) =
      disk (DirEntry.firstDataBlock disk slot * blockSize + index)

/-- A write of `size` bytes to the file of slot `written` stays clear of the file of
slot `other`: the blocks it stores lie in front of that file's block or behind
its bytes, and it does not resize that file. -/
def StaysClear (disk : Memory) (written other size : Nat) : Prop :=
  (DirEntry.fileSize disk other = 0 ∨
    DirEntry.firstDataBlock disk written + size / blockSize < DirEntry.firstDataBlock disk other ∨
    DirEntry.firstDataBlock disk other * blockSize + DirEntry.fileSize disk other ≤
      DirEntry.firstDataBlock disk written * blockSize) ∧
  (written = other → size = DirEntry.fileSize disk other)

instance (disk : Memory) (written other size : Nat) :
    Decidable (StaysClear disk written other size) :=
  inferInstanceAs (Decidable (_ ∧ _))

section Write

variable {state : FsState} {dir : Directory} {name : CString} {slot other : Nat}
  {entry otherEntry : Entry}

/-- A write that stays clear keeps the other file, whatever the buffer. -/
theorem Represents.fileKept (represents : Represents state.disk dir)
    (found : dir.find name.bytes = some slot) (stored : dir slot = some entry)
    (otherStored : dir other = some otherEntry) {size : Nat} (small : size < 4294967296)
    (clear : StaysClear state.disk slot other size) (memory : Memory) (buf : Nat) :
    FileKept state.disk (fsWriteFile state name memory buf size).2.disk other := by
  have placed := represents.valid.placed slot entry stored
  have holds := represents.entries slot entry stored
  have otherHolds := represents.entries other otherEntry otherStored
  have otherPlaced := represents.valid.placed other otherEntry otherStored
  have address := DirEntry.address_eq slot
  have otherAddress := DirEntry.address_eq other
  have inside := represents.valid.bounded slot entry stored
  have otherInside := represents.valid.bounded other otherEntry otherStored
  obtain ⟨apart, sameSize⟩ := clear
  rw [holds.block, otherHolds.size, otherHolds.block] at apart
  rw [otherHolds.size] at sameSize
  have metadata : ∀ place, place < 12288 →
      state.disk.applyWrites 4096 (fileWrites memory entry.block buf (size / 4096 + 1) 0) place =
        state.disk place := by
    intro place low
    refine Memory.applyWrites_of_outside fun write member => ?_
    have := fileWrites_blocks member
    omega
  rw [represents.fsWriteFile_disk found stored memory buf small]
  constructor
  · intro offset offsetInside
    by_cases same : slot = other
    · subst same
      rw [stored] at otherStored
      cases otherStored
      have unchanged : DirEntry.setFileSize state.disk slot size = state.disk := by
        rw [sameSize rfl, ← holds.size]
        exact Memory.store32_load32 _ _
      rw [← congrFun unchanged (DirEntry.address slot + offset)]
      unfold DirEntry.setFileSize Memory.store32
      rw [metadata _ (by omega)]
    · exact (Memory.store32_of_outside (by omega)).trans (metadata _ (by omega))
  · intro index indexInside
    rw [otherHolds.size] at indexInside
    rw [otherHolds.block]
    refine (Memory.store32_of_outside (by unfold blockSize; omega)).trans ?_
    refine Memory.applyWrites_of_outside fun write member => ?_
    have := fileWrites_blocks member
    unfold blockSize at *
    omega

/-- A write that does not stay clear changes the other file for some buffer. -/
theorem Represents.staysClear (represents : Represents state.disk dir)
    (found : dir.find name.bytes = some slot) (stored : dir slot = some entry)
    (otherStored : dir other = some otherEntry) {size : Nat} (small : size < 4294967296)
    (kept : ∀ memory, FileKept state.disk (fsWriteFile state name memory 4096 size).2.disk other) :
    StaysClear state.disk slot other size := by
  have placed := represents.valid.placed slot entry stored
  have holds := represents.entries slot entry stored
  have otherHolds := represents.entries other otherEntry otherStored
  have otherPlaced := represents.valid.placed other otherEntry otherStored
  have address := DirEntry.address_eq slot
  have inside := represents.valid.bounded slot entry stored
  simp only [represents.fsWriteFile_disk found stored _ _ small] at kept
  refine ⟨?_, ?_⟩
  · rw [holds.block, otherHolds.size, otherHolds.block]
    by_contra overlap
    -- the first byte of the other file in a block that the write stores
    obtain ⟨block, index, blockInside, indexInside, here, inData⟩ :
        ∃ block index, block < 1024 ∧ index < 4096 ∧
          (entry.block ≤ block ∧ block ≤ entry.block + size / 4096) ∧
          otherEntry.block * 4096 ≤ block * 4096 + index ∧
          block * 4096 + index < otherEntry.block * 4096 + otherEntry.size := by
      unfold blockSize at overlap
      by_cases order : entry.block ≤ otherEntry.block
      · exact ⟨otherEntry.block, 0, by omega, by omega, by omega, by omega, by omega⟩
      · exact ⟨entry.block, 0, by omega, by omega, by omega, by omega, by omega⟩
    let value := state.disk (block * 4096 + index) + 1
    have nonNull : add32 4096 ((block - entry.block) * 4096) ≠ 0 := by
      rw [add32_of_lt (by omega)]
      omega
    have covered := @Memory.applyWrites_covered 4096 state.disk
      (fileWrites (constantMemory value) entry.block 4096 (size / 4096 + 1) 0) block index value
      indexInside
      ⟨_, mem_fileWrites_iff.mpr ⟨block - entry.block, by omega, by omega, nonNull, by omega, rfl⟩,
        by simp only; omega⟩
      fun write member _ => by
        obtain ⟨_, _, _, _, _, rfl⟩ := mem_fileWrites_iff.mp member
        rfl
    have same := (kept (constantMemory value)).data (block * 4096 + index - otherEntry.block * 4096)
      (by rw [otherHolds.size]; omega)
    rw [otherHolds.block, show otherEntry.block * blockSize +
      (block * 4096 + index - otherEntry.block * 4096) = block * 4096 + index by
        unfold blockSize; omega] at same
    have untouched : DirEntry.setFileSize (state.disk.applyWrites 4096
        (fileWrites (constantMemory value) entry.block 4096 (size / 4096 + 1) 0)) slot size
          (block * 4096 + index) = _ := Memory.store32_of_outside (by omega)
    rw [untouched, covered] at same
    exact absurd same (by simp [value])
  · rintro rfl
    have sizeField : ∀ changed : Memory, (∀ offset, offset < 28 →
        changed (DirEntry.address slot + offset) = state.disk (DirEntry.address slot + offset)) →
        DirEntry.fileSize changed slot = DirEntry.fileSize state.disk slot := by
      intro changed entryKept
      refine Memory.load32_congr fun place low high => ?_
      have byte := entryKept (place - DirEntry.address slot) (by omega)
      rwa [show DirEntry.address slot + (place - DirEntry.address slot) = place by omega] at byte
    exact (Memory.load32_store32_of_lt small).symm.trans
      (sizeField _ (kept (constantMemory 0)).entry)

end Write

/-- In every reachable state, a write to the file of one used slot keeps the file of
another one for every buffer exactly when it stays clear of it. -/
theorem write_keeps_other_iff (state : FsState) (calls : List FsCall) (name : CString)
    {slot other : Nat} (inside : slot < maxDirEntries) (otherInside : other < maxDirEntries)
    (used : DirEntry.isUsed (fsRun (fsInit state) calls).disk slot = true)
    (otherUsed : DirEntry.isUsed (fsRun (fsInit state) calls).disk other = true)
    (named : (fsRun (fsInit state) calls).disk.HoldsString (DirEntry.address slot) name.bytes)
    (size : UInt32) :
    (∀ memory (buf : UInt32), FileKept (fsRun (fsInit state) calls).disk
        (fsWriteFile (fsRun (fsInit state) calls) name memory buf.toNat size.toNat).2.disk other) ↔
      ∃ written, fsFindFile (fsRun (fsInit state) calls).disk name = some written ∧
        StaysClear (fsRun (fsInit state) calls).disk written other size.toNat := by
  have represents := reachable_represents state calls
  generalize fsRun (fsInit state) calls = reached at *
  generalize Directory.empty.afterAll calls = dir at *
  obtain ⟨ownEntry, ownStored⟩ := represents.entry_of_used inside used
  obtain ⟨otherEntry, otherStored⟩ := represents.entry_of_used otherInside otherUsed
  have ownName := (represents.entries slot ownEntry ownStored).name.unique named
  rw [represents.fsFindFile_eq]
  rcases found : dir.find name.bytes with _ | written
  · exact absurd ownName ((Directory.find_eq_none_iff represents.valid).mp found _ _ ownStored)
  obtain ⟨entry, stored, _⟩ := Directory.lookup_of_find found
  constructor
  · intro kept
    exact ⟨written, rfl, represents.staysClear found stored otherStored size.toNat_lt
      fun memory => kept memory 4096⟩
  · rintro ⟨_, same, clear⟩ memory buf
    cases same
    exact represents.fileKept found stored otherStored size.toNat_lt clear memory buf.toNat

/-- Two files in neighbouring blocks, the second one of one byte. -/
def neighbours : List FsCall :=
  [.create nameA, .create nameB, .write nameB (constantMemory 98) 4096 1]

theorem write_keeps_other_iff_neighbours :
    FileKept (fsRun (fsInit blankState) neighbours).disk
      (fsWriteFile (fsRun (fsInit blankState) neighbours) nameA (constantMemory 97)
        (8192 : UInt32).toNat (4095 : UInt32).toNat).2.disk 1 :=
  (@write_keeps_other_iff blankState neighbours nameA 0 1 (by decide) (by decide)
    (by decide +kernel) (by decide +kernel) (by decide +kernel) 4095).mpr
    ⟨0, by decide +kernel, by decide +kernel⟩ (constantMemory 97) 8192

/-- A write of exactly one block to the first file replaces the byte of the second. -/
theorem write_reaches_neighbour : ¬∀ (calls : List FsCall) (name : CString) (slot other : Nat)
    (memory : Memory) (buf size : UInt32), slot < maxDirEntries → other < maxDirEntries →
    slot ≠ other → DirEntry.isUsed (fsRun (fsInit blankState) calls).disk slot = true →
    DirEntry.isUsed (fsRun (fsInit blankState) calls).disk other = true →
    (fsRun (fsInit blankState) calls).disk.HoldsString (DirEntry.address slot) name.bytes →
    FileKept (fsRun (fsInit blankState) calls).disk
      (fsWriteFile (fsRun (fsInit blankState) calls) name memory buf.toNat size.toNat).2.disk
      other := by
  intro isolated
  have kept := isolated neighbours nameA 0 1 (constantMemory 97) 4096 4096 (by decide) (by decide)
    (by decide) (by decide +kernel) (by decide +kernel) (by decide +kernel)
  have byte := kept.data 0 (by decide +kernel)
  revert byte
  decide +kernel

end ShedKernel.FileSystem
