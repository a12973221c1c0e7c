import ShedKernel.FileSystem.Disk

/-! First fit in the bitmap of `easyfs.c`, on any disk: which block `fs_alloc_block` takes,
what it changes, and how `fs_mark_block_free` takes it back. -/

set_option autoImplicit false

namespace ShedKernel.FileSystem

open Foundation

/-- Bit `index % 8` of byte `index / 8` of `fs_bitmap`. -/
def bitmapBit (disk : Memory) (index : Nat) : Bool :=
  (disk (bitmapBlock * blockSize + index / 8)).toNat.testBit (index % 8)

/-- The first data block whose bit is clear. -/
structure FirstClear (disk : Memory) (index : Nat) : Prop where
  inside : index < Superblock.numDataBlocks disk
  clear : bitmapBit disk index = false
  least : ∀ earlier, earlier < index → bitmapBit disk earlier = true

/-- One bit has been set and counted, and nothing else has changed. -/
structure SetsBit (before after : Memory) (index : Nat) : Prop where
  set : bitmapBit after index = true
  others : ∀ other, other ≠ index → bitmapBit after other = bitmapBit before other
  count : Superblock.freeBlockCount after = sub32 (Superblock.freeBlockCount before) 1
  elsewhere : ∀ place, place ≠ bitmapBlock * blockSize + index / 8 → place < 16 ∨ 20 ≤ place →
    after place = before place

variable {disk : Memory} {block index : Nat}

private theorem bit_eq_bitmapBit (disk : Memory) (index : Nat) :
    disk.bit (bitmapBlock * blockSize) index = bitmapBit disk index :=
  Memory.bit_eq_testBit disk _ index

/-- The counter is in front of the bitmap. -/
theorem bitmapBit_setFreeBlockCount (disk : Memory) (value index : Nat) :
    bitmapBit (Superblock.setFreeBlockCount disk value) index = bitmapBit disk index := by
  have apart : superblockBlock * blockSize + 16 + 4 ≤ bitmapBlock * blockSize + index / 8 := by
    simp only [superblockBlock, bitmapBlock, blockSize]
    omega
  unfold bitmapBit Superblock.setFreeBlockCount
  rw [Memory.store32_of_outside (.inr apart)]

private theorem fsBlockIsFree_eq_true_iff : fsBlockIsFree disk block = true ↔
    block < Superblock.numDataBlocks disk ∧ bitmapBit disk block = false := by
  unfold fsBlockIsFree
  rw [bit_eq_bitmapBit]
  split
  · next beyond => simp [Nat.not_lt.mpr beyond]
  · next inside => simp [Nat.not_le.mp inside]

/-- The loop takes the least of the blocks that are free. -/
theorem firstClear_of_find (found : (List.range (Superblock.numDataBlocks disk)).find? (fsBlockIsFree disk) = some block) :
    FirstClear disk block := by
  obtain ⟨free, member, before⟩ := List.find?_range_eq_some.mp found
  obtain ⟨inside, clear⟩ := fsBlockIsFree_eq_true_iff.mp free
  refine ⟨inside, clear, fun earlier lower => ?_⟩
  by_contra notSet
  have alsoFree := fsBlockIsFree_eq_true_iff.mpr ⟨Nat.lt_trans lower inside, Bool.eq_false_of_not_eq_true notSet⟩
  have passed := before earlier lower
  rw [alsoFree] at passed
  cases passed

private theorem set_of_find_none
    (none : (List.range (Superblock.numDataBlocks disk)).find? (fsBlockIsFree disk) = none) :
    ∀ index, index < Superblock.numDataBlocks disk → bitmapBit disk index = true := by
  intro index inside
  have passed := List.find?_range_eq_none.mp none index inside
  by_contra notSet
  rw [fsBlockIsFree_eq_true_iff.mpr ⟨inside, Bool.eq_false_of_not_eq_true notSet⟩] at passed
  cases passed

/-- A field of the superblock is in front of the bitmap. -/
theorem load32_of_front {changed : Memory} {place : Nat} (front : place + 4 ≤ 4096)
    (same : ∀ other, other < 4096 → changed other = disk other) : changed.load32 place = disk.load32 place :=
  Memory.load32_congr fun other _ high => same other (by omega)

private theorem setBit_front (disk : Memory) (block : Nat) {place : Nat} (front : place < 4096) :
    disk.setBit (bitmapBlock * blockSize) block place = disk place := by
  have base : bitmapBlock * blockSize = 4096 := rfl
  exact Memory.storeByte_of_ne (by omega)

/-- The disk once a block is marked used. -/
def markedUsed (disk : Memory) (block : Nat) : Memory :=
  Superblock.setFreeBlockCount (disk.setBit (bitmapBlock * blockSize) block)
    (sub32 (Superblock.freeBlockCount disk) 1)

private theorem fsMarkBlockUsed_eq (inside : block < Superblock.numDataBlocks disk) :
    fsMarkBlockUsed disk block = (true, markedUsed disk block) := by
  have count : Superblock.freeBlockCount (disk.setBit (bitmapBlock * blockSize) block) =
      Superblock.freeBlockCount disk :=
    load32_of_front (by decide) fun _ front => setBit_front disk block front
  rw [fsMarkBlockUsed, if_neg (Nat.not_le.mpr inside)]
  simp only [count]
  rfl

private theorem setsBit_markedUsed (disk : Memory) (block : Nat) : SetsBit disk (markedUsed disk block) block := by
  have bits (other : Nat) : bitmapBit (markedUsed disk block) other =
      (decide (other = block) || bitmapBit disk other) := by
    rw [markedUsed, bitmapBit_setFreeBlockCount, ← bit_eq_bitmapBit, ← bit_eq_bitmapBit]
    exact Memory.bit_setBit ..
  refine ⟨?_, fun other different => ?_, Memory.load32_store32_of_lt (sub32_lt _ _), fun place elsewhere apart => ?_⟩
  · rw [bits, decide_eq_true rfl, Bool.true_or]
  · rw [bits, decide_eq_false different, Bool.false_or]
  · have counter : superblockBlock * blockSize + 16 = 16 := rfl
    have outside : place < superblockBlock * blockSize + 16 ∨ superblockBlock * blockSize + 16 + 4 ≤ place := by omega
    exact (Memory.store32_of_outside outside).trans (Memory.storeByte_of_ne elsewhere)

/-- Marking the block free again undoes both stores. -/
theorem fsMarkBlockFree_markedUsed (inside : block < Superblock.numDataBlocks disk)
    (clear : bitmapBit disk block = false) : fsMarkBlockFree (markedUsed disk block) block = (true, disk) := by
  have marks := setsBit_markedUsed disk block
  have size : Superblock.numDataBlocks (markedUsed disk block) = Superblock.numDataBlocks disk :=
    Memory.load32_congr fun other low high => marks.elsewhere other (by
      simp only [superblockBlock, bitmapBlock, blockSize] at *
      omega) (by
      simp only [superblockBlock, blockSize] at *
      omega)
  rw [← bit_eq_bitmapBit] at clear
  have apart : superblockBlock * blockSize + 16 + 4 ≤ bitmapBlock * blockSize + block / 8 := by
    simp only [superblockBlock, bitmapBlock, blockSize]
    omega
  have cleared : (markedUsed disk block).clearBit (bitmapBlock * blockSize) block =
      Superblock.setFreeBlockCount disk (sub32 (Superblock.freeBlockCount disk) 1) := by
    rw [markedUsed, Superblock.setFreeBlockCount, Memory.clearBit, Memory.store32_of_outside (.inr apart),
      Memory.store32_storeByte_of_outside (.inr apart)]
    exact congrArg (Memory.store32 · _ _) (Memory.clearBit_setBit clear)
  have counted : Superblock.freeBlockCount (Superblock.setFreeBlockCount disk
      (sub32 (Superblock.freeBlockCount disk) 1)) = sub32 (Superblock.freeBlockCount disk) 1 :=
    Memory.load32_store32_of_lt (sub32_lt _ _)
  have back : add32 (sub32 (Superblock.freeBlockCount disk) 1) 1 = Superblock.freeBlockCount disk := by
    have small : Superblock.freeBlockCount disk < 4294967296 := Memory.load32_lt _ _
    unfold add32 sub32
    omega
  rw [fsMarkBlockFree, if_neg (by rw [size]; exact Nat.not_le.mpr inside)]
  simp only [cleared, counted, back]
  rw [Superblock.setFreeBlockCount, Superblock.setFreeBlockCount, Memory.store32_store32]
  exact congrArg _ (Memory.store32_load32 disk _)

/-- The least clear bit is set and counted, and it can be given back; with no clear bit
nothing changes. -/
theorem alloc_block_first_fit (disk : Memory) :
    (∃ index after, FirstClear disk index ∧
      fsAllocBlock disk = (add32 (Superblock.firstDataBlock disk) index, after) ∧ SetsBit disk after index ∧
      fsMarkBlockFree after index = (true, disk)) ∨
    (∀ index, index < Superblock.numDataBlocks disk → bitmapBit disk index = true) ∧
      fsAllocBlock disk = (minusOne, disk) := by
  cases found : (List.range (Superblock.numDataBlocks disk)).find? (fsBlockIsFree disk) with
  | none => exact .inr ⟨set_of_find_none found, by rw [fsAllocBlock, found]⟩
  | some block =>
      have first := firstClear_of_find found
      refine .inl ⟨block, markedUsed disk block, first, ?_, setsBit_markedUsed disk block,
        fsMarkBlockFree_markedUsed first.inside first.clear⟩
      rw [fsAllocBlock, found]
      simp only [fsMarkBlockUsed_eq first.inside]

end ShedKernel.FileSystem
