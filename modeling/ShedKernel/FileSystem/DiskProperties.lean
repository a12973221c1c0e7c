import ShedKernel.FileSystem.Directory
import ShedKernel.Foundation.BlockDevice

/-! Disks that hold a directory, and what each function of `easyfs.c` does to them. -/

set_option autoImplicit false

namespace ShedKernel.FileSystem

open Foundation

/-- The fields of the superblock that `fs_init` fills in for good. -/
structure SuperblockFixed (disk : Memory) : Prop where
  magic : Superblock.magic disk = superblockMagic
  totalBlocks : Superblock.totalBlocks disk = FileSystem.totalBlocks
  blockSize : Superblock.blockSize disk = FileSystem.blockSize
  numDataBlocks : Superblock.numDataBlocks disk = FileSystem.numDataBlocks
  bitmapBlock : Superblock.bitmapBlock disk = FileSystem.bitmapBlock
  rootDirBlock : Superblock.rootDirBlock disk = FileSystem.rootDirBlock
  firstDataBlock : Superblock.firstDataBlock disk = FileSystem.firstDataBlock
  timestamp : Superblock.timestamp disk = 0

/-- What `fs_rootdir->entries[slot]` holds. -/
structure HoldsEntry (disk : Memory) (slot : Nat) (entry : Entry) : Prop where
  used : DirEntry.isUsed disk slot = true
  name : disk.HoldsString (DirEntry.address slot) entry.name
  size : DirEntry.fileSize disk slot = entry.size
  block : DirEntry.firstDataBlock disk slot = entry.block

/-- The superblock, the bitmap and the root directory of the disk describe `dir`. -/
structure Represents (disk : Memory) (dir : Directory) : Prop where
  valid : dir.Valid
  superblock : SuperblockFixed disk
  vacant : ∀ slot, slot < 64 → dir slot = none → DirEntry.isUsed disk slot = false
  entries : ∀ slot entry, dir slot = some entry → HoldsEntry disk slot entry
  bits : ∀ index, index < 1021 → disk.bit 4096 index = dir.owns (3 + index)
  count : Superblock.freeBlockCount disk = disk.clearBits 4096 1021

theorem DirEntry.address_eq (slot : Nat) : DirEntry.address slot = 8192 + slot * 28 := rfl

/-! ## What the parts depend on -/

theorem SuperblockFixed.congr {disk changed : Memory} (fixed : SuperblockFixed disk)
    (same : ∀ other, other < 16 ∨ 20 ≤ other ∧ other < 40 → changed other = disk other) :
    SuperblockFixed changed := by
  have word : ∀ place, place + 4 ≤ 16 ∨ 20 ≤ place ∧ place + 4 ≤ 40 →
      changed.load32 place = disk.load32 place :=
    fun place _ => Memory.load32_congr fun other _ _ => same other (by omega)
  constructor
  · exact (word 0 (by omega)).trans fixed.magic
  · exact (word 4 (by omega)).trans fixed.totalBlocks
  · exact (word 8 (by omega)).trans fixed.blockSize
  · exact (word 12 (by omega)).trans fixed.numDataBlocks
  · exact (word 20 (by omega)).trans fixed.bitmapBlock
  · exact (word 24 (by omega)).trans fixed.rootDirBlock
  · exact (word 28 (by omega)).trans fixed.firstDataBlock
  · refine Eq.trans ?_ fixed.timestamp
    exact congrArg₂ (· + 4294967296 * ·) (word 32 (by omega)) (word 36 (by omega))

theorem HoldsEntry.congr {disk changed : Memory} {slot : Nat} {entry : Entry}
    (holds : HoldsEntry disk slot entry) (named : entry.name.length ≤ 15)
    (same : ∀ other, 8192 + slot * 28 ≤ other → other < 8192 + slot * 28 + 28 →
      changed other = disk other) : HoldsEntry changed slot entry := by
  have word : ∀ place, 8192 + slot * 28 ≤ place → place + 4 ≤ 8192 + slot * 28 + 28 →
      changed.load32 place = disk.load32 place :=
    fun place _ _ => Memory.load32_congr fun other _ _ => same other (by omega) (by omega)
  have address := DirEntry.address_eq slot
  constructor
  · refine Eq.trans ?_ holds.used
    exact congrArg (· != 0) (same _ (by omega) (by omega))
  · exact holds.name.congr fun other _ _ => same other (by omega) (by omega)
  · exact (word _ (by omega) (by omega)).trans holds.size
  · exact (word _ (by omega) (by omega)).trans holds.block

theorem bits_congr {disk changed : Memory}
    (same : ∀ other, 4096 ≤ other → other < 8192 → changed other = disk other) {index : Nat}
    (inside : index < 1021) : changed.bit 4096 index = disk.bit 4096 index :=
  Memory.bit_congr (same _ (by omega) (by omega))

/-- Only the three metadata blocks matter. -/
theorem Represents.congr {disk changed : Memory} {dir : Directory} (represents : Represents disk dir)
    (same : ∀ other, other < 12288 → changed other = disk other) : Represents changed dir where
  valid := represents.valid
  superblock := represents.superblock.congr fun other _ => same other (by omega)
  vacant slot inside none := by
    refine Eq.trans ?_ (represents.vacant slot inside none)
    have address := DirEntry.address_eq slot
    exact congrArg (· != 0) (same _ (by omega))
  entries slot entry stored := by
    have inside := represents.valid.bounded slot entry stored
    exact (represents.entries slot entry stored).congr (represents.valid.named slot entry stored)
      fun other _ _ => same other (by omega)
  bits index inside :=
    (bits_congr (fun other _ _ => same other (by omega)) inside).trans (represents.bits index inside)
  count := by
    have counter : Superblock.freeBlockCount changed = Superblock.freeBlockCount disk :=
      Memory.load32_congr fun other _ high => same other (by
        simp only [superblockBlock] at high
        omega)
    rw [counter, represents.count]
    exact (Memory.clearBits_congr fun index inside =>
      bits_congr (fun other _ _ => same other (by omega)) inside).symm

/-! ## Lookup -/

private theorem Represents.entryNamed_eq {disk : Memory} {dir : Directory} (represents : Represents disk dir)
    (name : CString) {slot : Nat} (inside : slot < 64) :
    entryNamed disk name slot = (dir slot).any fun entry => entry.name = name.bytes := by
  unfold entryNamed
  rcases stored : dir slot with _ | entry
  · rw [represents.vacant slot inside stored]
    rfl
  · have holds := represents.entries slot entry stored
    rw [holds.used, Bool.true_and, Option.any_some, Bool.eq_iff_iff,
      Memory.strcmpEqual_iff name.terminated, decide_eq_true_iff]
    constructor
    · exact holds.name.unique
    · intro same
      exact same ▸ holds.name

theorem Represents.fsFindFile_eq {disk : Memory} {dir : Directory} (represents : Represents disk dir)
    (name : CString) : fsFindFile disk name = dir.find name.bytes :=
  find?_range_congr fun _ inside => represents.entryNamed_eq name inside

theorem Represents.freeSlot_eq {disk : Memory} {dir : Directory} (represents : Represents disk dir) :
    findSlot (fun slot => !DirEntry.isUsed disk slot) = dir.freeSlot := by
  have same : ∀ slot, slot < 64 → (!DirEntry.isUsed disk slot) = (dir slot).isNone := by
    intro slot inside
    rcases stored : dir slot with _ | entry
    · rw [represents.vacant slot inside stored]
      rfl
    · rw [(represents.entries slot entry stored).used]
      rfl
  exact find?_range_congr same

/-! ## `fs_init` -/

/-- The disk is zero behind the fields of the superblock. -/
theorem fsInit_zero (state : FsState) {other : Nat} (low : 40 ≤ other) (high : other < 4194304) :
    (fsInit state).disk other = 0 := by
  simp only [fsInit, FsState.kprintf, superblockBlock, Nat.zero_mul, Nat.zero_add]
  iterate 9 rw [Memory.store32_of_outside (by omega)]
  rw [Memory.store32_of_outside (by omega)]
  exact if_pos ⟨by omega, by unfold totalBlocks blockSize; omega⟩

theorem fsInit_represents (state : FsState) : Represents (fsInit state).disk Directory.empty := by
  have clear : ∀ index, index < 1021 → (fsInit state).disk.bit 4096 index = false := by
    intro index inside
    unfold Memory.bit
    rw [fsInit_zero state (by omega) (by omega)]
    simp
  have word : ∀ place, place ≤ 36 → (fsInit state).disk.load32 place =
      (fsInit ⟨fun _ => 0, []⟩).disk.load32 place := by
    intro place low
    refine Memory.load32_congr fun other _ _ => ?_
    simp only [fsInit, FsState.kprintf, superblockBlock, Nat.zero_mul, Nat.zero_add]
    have base : state.disk.blit 0 (fun _ => 0) (totalBlocks * blockSize) other =
        Memory.blit (fun _ => 0) 0 (fun _ => 0) (totalBlocks * blockSize) other := by
      simp [Memory.blit, show other < totalBlocks * blockSize by
        unfold totalBlocks blockSize; omega]
    unfold Memory.store32
    rw [base]
  refine ⟨Directory.empty_valid, ?_, ?_, ?_, ?_, ?_⟩
  · have timestamp : Superblock.timestamp (fsInit state).disk =
        Superblock.timestamp (fsInit ⟨fun _ => 0, []⟩).disk :=
      congrArg₂ (· + 4294967296 * ·) (word 32 (by omega)) (word 36 (by omega))
    constructor
    · exact (word 0 (by omega)).trans (by decide +kernel)
    · exact (word 4 (by omega)).trans (by decide +kernel)
    · exact (word 8 (by omega)).trans (by decide +kernel)
    · exact (word 12 (by omega)).trans (by decide +kernel)
    · exact (word 20 (by omega)).trans (by decide +kernel)
    · exact (word 24 (by omega)).trans (by decide +kernel)
    · exact (word 28 (by omega)).trans (by decide +kernel)
    · exact timestamp.trans (by decide +kernel)
  · intro slot inside _
    unfold DirEntry.isUsed
    rw [DirEntry.address_eq, fsInit_zero state (by omega) (by omega)]
    rfl
  · intro slot entry stored
    cases stored
  · intro index inside
    rw [clear index inside]
    refine (Bool.eq_false_iff.mpr fun owned => ?_).symm
    obtain ⟨_, _, stored, _⟩ := (Directory.owns_iff Directory.empty_valid).mp owned
    cases stored
  · rw [Memory.clearBits_of_clear clear]
    exact (word 16 (by omega)).trans (by decide +kernel)

/-! ## The bitmap -/

theorem superblock_numDataBlocks {disk : Memory} (fixed : SuperblockFixed disk) :
    Superblock.numDataBlocks disk = 1021 := fixed.numDataBlocks

theorem superblock_firstDataBlock {disk : Memory} (fixed : SuperblockFixed disk) :
    Superblock.firstDataBlock disk = 3 := fixed.firstDataBlock

/-- One data bit of the disk changes, and the counter with it. -/
structure BitChanged (disk changed : Memory) (index : Nat) (value : Bool) : Prop where
  bits : ∀ other, other < 1021 →
    changed.bit 4096 other = if other = index then value else disk.bit 4096 other
  count : Superblock.freeBlockCount changed = changed.clearBits 4096 1021
  same : ∀ other, other < 16 ∨ 20 ≤ other ∧ other < 4096 ∨ 8192 ≤ other →
    changed other = disk other

private theorem counted {disk : Memory} {value index : Nat} {flipped : Memory}
    (flips : ∀ other, other ≠ 4096 + index / 8 → flipped other = disk other)
    (inside : index < 1021) (small : value < 4294967296)
    (enough : value = flipped.clearBits 4096 1021) :
    (∀ other, other < 1021 → (Superblock.setFreeBlockCount flipped value).bit 4096 other =
        flipped.bit 4096 other) ∧
      Superblock.freeBlockCount (Superblock.setFreeBlockCount flipped value) =
        (Superblock.setFreeBlockCount flipped value).clearBits 4096 1021 ∧
      ∀ other, other < 16 ∨ 20 ≤ other ∧ other < 4096 ∨ 8192 ≤ other →
        Superblock.setFreeBlockCount flipped value other = disk other := by
  have bits : ∀ other, other < 1021 →
      (Superblock.setFreeBlockCount flipped value).bit 4096 other = flipped.bit 4096 other := by
    intro other _
    refine bits_congr (fun place _ _ => Memory.store32_of_outside ?_) ‹_›
    simp only [superblockBlock]
    omega
  refine ⟨bits, ?_, fun other outside => ?_⟩
  · rw [Memory.clearBits_congr bits, ← enough]
    exact Memory.load32_store32_of_lt small
  · refine (Memory.store32_of_outside ?_).trans (flips other (by omega))
    simp only [superblockBlock]
    omega

theorem fsMarkBlockUsed_changed {disk : Memory} {dir : Directory} (represents : Represents disk dir)
    {index : Nat} (inside : index < 1021) (clear : disk.bit 4096 index = false) :
    BitChanged disk (fsMarkBlockUsed disk index).2 index true := by
  have flips : ∀ other, other ≠ 4096 + index / 8 →
      disk.setBit 4096 index other = disk other :=
    fun other different => Memory.storeByte_of_ne different
  have oneLess := Memory.clearBits_setBit inside clear
  have bounded := Memory.clearBits_le disk 4096 1021
  have counter : Superblock.freeBlockCount (disk.setBit 4096 index) = disk.clearBits 4096 1021 := by
    refine Eq.trans (Memory.load32_congr fun other _ high => flips other ?_) represents.count
    simp only [superblockBlock] at high
    omega
  have value : sub32 (Superblock.freeBlockCount (disk.setBit 4096 index)) 1 =
      (disk.setBit 4096 index).clearBits 4096 1021 := by
    rw [counter, sub32_of_le (by omega) (by omega)]
    omega
  obtain ⟨bits, count, same⟩ := counted flips inside (sub32_lt _ _) value
  unfold fsMarkBlockUsed
  rw [superblock_numDataBlocks represents.superblock, if_neg (by omega)]
  refine ⟨fun other otherInside => ?_, count, same⟩
  refine (bits other otherInside).trans ?_
  rw [Memory.bit_setBit]
  split <;> simp_all

theorem fsMarkBlockFree_changed {disk : Memory} {dir : Directory} (represents : Represents disk dir)
    {index : Nat} (inside : index < 1021) (set : disk.bit 4096 index = true) :
    BitChanged disk (fsMarkBlockFree disk index).2 index false := by
  have flips : ∀ other, other ≠ 4096 + index / 8 →
      disk.clearBit 4096 index other = disk other :=
    fun other different => Memory.storeByte_of_ne different
  have oneMore := Memory.clearBits_clearBit inside set
  have bounded := Memory.clearBits_le disk 4096 1021
  have counter : Superblock.freeBlockCount (disk.clearBit 4096 index) = disk.clearBits 4096 1021 := by
    refine Eq.trans (Memory.load32_congr fun other _ high => flips other ?_) represents.count
    simp only [superblockBlock] at high
    omega
  have value : add32 (Superblock.freeBlockCount (disk.clearBit 4096 index)) 1 =
      (disk.clearBit 4096 index).clearBits 4096 1021 := by
    rw [counter, add32_of_lt (by omega)]
    omega
  obtain ⟨bits, count, same⟩ := counted flips inside (add32_lt _ _) value
  unfold fsMarkBlockFree
  rw [superblock_numDataBlocks represents.superblock, if_neg (by omega)]
  refine ⟨fun other otherInside => ?_, count, same⟩
  refine (bits other otherInside).trans ?_
  rw [Memory.bit_clearBit]
  split <;> simp_all

theorem Represents.freeBlock_eq {disk : Memory} {dir : Directory} (represents : Represents disk dir) :
    (List.range 1021).find? (fsBlockIsFree disk) = dir.freeBlock := by
  refine find?_range_congr fun index inside => ?_
  unfold fsBlockIsFree
  rw [superblock_numDataBlocks represents.superblock, if_neg (by omega)]
  exact congrArg (! ·) (represents.bits index inside)

theorem Represents.fsAllocBlock_eq {disk : Memory} {dir : Directory}
    (represents : Represents disk dir) :
    fsAllocBlock disk = match dir.freeBlock with
      | some index => (3 + index, (fsMarkBlockUsed disk index).2)
      | none => (minusOne, disk) := by
  unfold fsAllocBlock
  rw [superblock_numDataBlocks represents.superblock, represents.freeBlock_eq]
  rcases free : dir.freeBlock with _ | index
  · rfl
  · have inside := (Directory.freeBlock_eq_some free).1
    simp only [superblock_firstDataBlock represents.superblock]
    rw [add32_of_lt (by omega)]

/-! ## Directory entries -/

/-- One slot changes, with the bitmap and the counter kept in step. -/
theorem Represents.update {disk changed : Memory} {dir : Directory}
    (represents : Represents disk dir) {slot : Nat} {entry : Option Entry}
    (after : (dir.set slot entry).Valid)
    (vacant : entry = none → DirEntry.isUsed changed slot = false)
    (stored : ∀ new, entry = some new → HoldsEntry changed slot new)
    (fixed : ∀ other, other < 16 ∨ 20 ≤ other ∧ other < 40 → changed other = disk other)
    (others : ∀ other, 8192 ≤ other → other < 12288 →
      other < 8192 + slot * 28 ∨ 8192 + slot * 28 + 28 ≤ other → changed other = disk other)
    (bits : ∀ index, index < 1021 → changed.bit 4096 index = (dir.set slot entry).owns (3 + index))
    (count : Superblock.freeBlockCount changed = changed.clearBits 4096 1021) :
    Represents changed (dir.set slot entry) := by
  refine ⟨after, represents.superblock.congr fixed, ?_, ?_, bits, count⟩
  · intro other inside none
    by_cases here : other = slot
    · subst here
      rw [Directory.set_self] at none
      exact vacant none
    · rw [Directory.set_of_ne here] at none
      refine Eq.trans ?_ (represents.vacant other inside none)
      have address := DirEntry.address_eq other
      exact congrArg (· != 0) (others _ (by omega) (by omega) (by omega))
  · intro other old found
    by_cases here : other = slot
    · subst here
      rw [Directory.set_self] at found
      exact stored old found
    · rw [Directory.set_of_ne here] at found
      have inside := represents.valid.bounded other old found
      exact (represents.entries other old found).congr (represents.valid.named other old found)
        fun place _ _ => others place (by omega) (by omega) (by omega)

/-- One slot changes together with one bit of the bitmap. -/
theorem Represents.updateBit {disk marked changed : Memory} {dir : Directory}
    (represents : Represents disk dir) {slot index : Nat} {entry : Option Entry} {value : Bool}
    (after : (dir.set slot entry).Valid) (bit : BitChanged disk marked index value)
    (inside : slot < 64)
    (outside : ∀ other, other < 8192 + slot * 28 ∨ 8192 + slot * 28 + 28 ≤ other →
      changed other = marked other)
    (vacant : entry = none → DirEntry.isUsed changed slot = false)
    (stored : ∀ new, entry = some new → HoldsEntry changed slot new)
    (owned : ∀ other, other < 1021 → (dir.set slot entry).owns (3 + other) =
      if other = index then value else dir.owns (3 + other)) :
    Represents changed (dir.set slot entry) ∧
      ∀ other, 12288 ≤ other → changed other = disk other := by
  have bits : ∀ other, other < 1021 → changed.bit 4096 other = marked.bit 4096 other :=
    fun other otherInside => bits_congr (fun place _ _ => outside place (by omega)) otherInside
  refine ⟨represents.update after vacant stored ?_ ?_ ?_ ?_, ?_⟩
  · exact fun other _ => (outside other (by omega)).trans (bit.same other (by omega))
  · exact fun other _ _ apart => (outside other apart).trans (bit.same other (by omega))
  · intro other otherInside
    rw [bits other otherInside, bit.bits other otherInside, owned other otherInside,
      represents.bits other otherInside]
  · have counter : Superblock.freeBlockCount changed = Superblock.freeBlockCount marked :=
      Memory.load32_congr fun other _ high => outside other (by
        simp only [superblockBlock] at high
        omega)
    rw [counter, bit.count]
    exact (Memory.clearBits_congr bits).symm
  · exact fun other _ => (outside other (by omega)).trans (bit.same other (by omega))

/-- The four stores that fill in a new entry. -/
def fillEntry (disk : Memory) (slot : Nat) (name : List UInt8) (block : Nat) : Memory :=
  DirEntry.setIsUsed (DirEntry.setFirstDataBlock
    (DirEntry.setFileSize (DirEntry.setName disk slot name) slot 0) slot block) slot 1

theorem fillEntry_of_outside {disk : Memory} {slot block other : Nat} {name : List UInt8}
    (outside : other < 8192 + slot * 28 ∨ 8192 + slot * 28 + 28 ≤ other) :
    fillEntry disk slot name block other = disk other := by
  have address := DirEntry.address_eq slot
  have short : (name.take (maxFilenameLen - 1) ++ [(0 : UInt8)]).length ≤ 16 := by
    rw [List.length_append, List.length_take]
    simp only [List.length_singleton, maxFilenameLen]
    omega
  refine (Memory.storeByte_of_ne (by omega)).trans ?_
  refine (Memory.store32_of_outside (by omega)).trans ?_
  refine (Memory.store32_of_outside (by omega)).trans ?_
  exact Memory.storeBytes_of_outside (by omega)

theorem fillEntry_holds (disk : Memory) {slot block : Nat} {name : List UInt8} (proper : 0 ∉ name)
    (small : block < 4294967296) :
    HoldsEntry (fillEntry disk slot name block) slot ⟨name.take 15, 0, block⟩ := by
  have address := DirEntry.address_eq slot
  have short : (name.take 15).length ≤ 15 := List.length_take_le _ _
  let named := DirEntry.setName disk slot name
  let sized := DirEntry.setFileSize named slot 0
  let placed := DirEntry.setFirstDataBlock sized slot block
  refine ⟨?_, ?_, ?_, ?_⟩
  · simp [fillEntry, DirEntry.isUsed, DirEntry.setIsUsed]
  · refine Memory.HoldsString.congr (Memory.storeBytes_holdsString disk (DirEntry.address slot)
      fun member => proper (List.mem_of_mem_take member)) fun place _ high => ?_
    simp only at high
    refine (Memory.storeByte_of_ne (by omega)).trans ?_
    refine (Memory.store32_of_outside (by omega)).trans ?_
    exact Memory.store32_of_outside (by omega)
  · have kept : DirEntry.fileSize (fillEntry disk slot name block) slot =
        DirEntry.fileSize sized slot :=
      Memory.load32_congr fun place _ _ => (Memory.storeByte_of_ne (by omega)).trans
        (Memory.store32_of_outside (by omega))
    exact kept.trans (Memory.load32_store32_of_lt (by decide))
  · have kept : DirEntry.firstDataBlock (fillEntry disk slot name block) slot =
        DirEntry.firstDataBlock placed slot :=
      Memory.load32_congr fun place _ _ => Memory.storeByte_of_ne (by omega)
    exact kept.trans (Memory.load32_store32_of_lt small)

end ShedKernel.FileSystem
