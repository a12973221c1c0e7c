import ShedKernel.FileSystem.OneMemory
import ShedKernel.FileSystem.Session
import ShedKernel.Foundation.Run

/-! Runs of calls in the memory that the file system shares with its callers. What a call
leaves alone is stated for the bytes the directory depends on: the three metadata blocks
and the pointers to them. -/

set_option autoImplicit false

namespace ShedKernel.FileSystem

open Foundation Editor

namespace FsImage

variable {image : FsImage}

/-- A byte of the superblock, the bitmap, the root directory or a pointer to one of them. -/
def Metadata (image : FsImage) (address : Nat) : Prop :=
  (∃ offset, offset < 12288 ∧ address = add32 image.fsDisk offset) ∨
    ∃ pointer ∈ [image.fsSb, image.fsBitmap, image.fsRootdir],
      pointer ≤ address ∧ address < pointer + 4

/-- The pointers are in place and the disk holds the directory. -/
structure Holds (image : FsImage) (memory : Memory) (dir : Directory) : Prop where
  pointers : image.PointersHold memory
  represents : Represents (image.disk memory) dir

theorem not_outside_of_inside {offset : Nat} (inside : offset < 4194304) :
    ¬image.Outside (add32 image.fsDisk offset) := by
  intro outside
  have fits := image.fits
  have away := outside.1
  rw [add32_of_lt (by omega)] at away
  omega

theorem Metadata.not_outside {address : Nat} (metadata : image.Metadata address) :
    ¬image.Outside address := by
  rcases metadata with ⟨offset, inside, rfl⟩ | ⟨pointer, member, low, high⟩
  · exact not_outside_of_inside (by omega)
  · intro outside
    have away := outside.2 pointer member
    omega

theorem Outside.ne {address other : Nat} (outside : image.Outside address)
    (within : ¬image.Outside other) : other ≠ address :=
  fun same => within (same ▸ outside)

/-- A pointer lies behind the disk, counted from its start. -/
theorem pointer_offset {pointer address : Nat}
    (member : pointer ∈ [image.fsSb, image.fsBitmap, image.fsRootdir]) (low : pointer ≤ address)
    (high : address < pointer + 4) :
    address < 4294967296 ∧ 4194304 ≤ sub32 address image.fsDisk := by
  have fits := image.fits
  have away := image.apart pointer member
  unfold sub32
  omega

theorem disk_withDisk (image : FsImage) (memory disk : Memory) {offset : Nat}
    (small : offset < 4294967296) : image.disk (image.withDisk memory disk) offset = disk offset := by
  have back : sub32 (add32 image.fsDisk offset) image.fsDisk = offset := by
    have fits := image.fits
    unfold sub32 add32
    omega
  unfold FsImage.disk Memory.behind withDisk
  rw [if_pos (add32_lt _ _), back]

theorem withDisk_disk (image : FsImage) (memory : Memory) :
    image.withDisk memory (image.disk memory) = memory := by
  funext address
  unfold withDisk
  split
  · next small =>
      have there : add32 image.fsDisk (sub32 address image.fsDisk) = address := by
        have fits := image.fits
        unfold sub32 add32
        omega
      exact congrArg memory there
  · rfl

/-! ## What keeps the directory -/

theorem PointersHold.congr {memory changed : Memory} (pointers : image.PointersHold memory)
    (same : ∀ address, image.Metadata address → changed address = memory address) :
    image.PointersHold changed := by
  have word : ∀ pointer ∈ [image.fsSb, image.fsBitmap, image.fsRootdir],
      changed.load32 pointer = memory.load32 pointer :=
    fun pointer member => Memory.load32_congr fun other low high =>
      same other (.inr ⟨pointer, member, low, high⟩)
  unfold PointersHold
  rw [word image.fsSb (by simp), word image.fsBitmap (by simp), word image.fsRootdir (by simp)]
  exact pointers

theorem Holds.congr {memory changed : Memory} {dir : Directory} (holds : image.Holds memory dir)
    (same : ∀ address, image.Metadata address → changed address = memory address) :
    image.Holds changed dir :=
  ⟨holds.pointers.congr same,
    holds.represents.congr fun offset inside => same _ (.inl ⟨offset, inside, rfl⟩)⟩

/-- A function that keeps to the metadata of the disk keeps the pointers. -/
theorem Holds.withDisk {memory disk : Memory} {dir after : Directory}
    (holds : image.Holds memory dir) (performed : Performed (image.disk memory) disk after []) :
    image.Holds (image.withDisk memory disk) after := by
  refine ⟨?_, performed.represents.congr fun offset inside => image.disk_withDisk memory disk (by omega)⟩
  have kept : ∀ pointer ∈ [image.fsSb, image.fsBitmap, image.fsRootdir], ∀ address,
      pointer ≤ address → address < pointer + 4 →
      image.withDisk memory disk address = memory address := by
    intro pointer member address low high
    have far := pointer_offset member low high
    have same := performed.data (sub32 address image.fsDisk) (by omega)
    rw [← congrFun (image.withDisk_disk memory) address]
    unfold FsImage.withDisk
    rw [if_pos far.1, if_pos far.1]
    exact same
  have word : ∀ pointer ∈ [image.fsSb, image.fsBitmap, image.fsRootdir],
      (image.withDisk memory disk).load32 pointer = memory.load32 pointer :=
    fun pointer member => Memory.load32_congr fun other low high =>
      kept pointer member other low high
  unfold PointersHold
  rw [word image.fsSb (by simp), word image.fsBitmap (by simp), word image.fsRootdir (by simp)]
  exact holds.pointers

theorem disk_fsInit (image : FsImage) (state : ImageState) {offset : Nat}
    (inside : offset < 4194304) :
    image.disk (image.fsInit state).memory offset =
      (FileSystem.fsInit ⟨image.disk state.memory, state.console⟩).disk offset := by
  have fits := image.fits
  have sb := image.apart image.fsSb (by simp)
  have bitmap := image.apart image.fsBitmap (by simp)
  have rootdir := image.apart image.fsRootdir (by simp)
  have address : add32 image.fsDisk offset = image.fsDisk + offset := add32_of_lt (by omega)
  refine Eq.trans ?_ (image.disk_withDisk state.memory _ (show offset < 4294967296 by omega))
  simp only [FsImage.disk, Memory.behind, fsInit, address]
  iterate 3 rw [Memory.store32_of_outside (by omega)]

theorem fsInit_holds (image : FsImage) (state : ImageState) :
    image.Holds (image.fsInit state).memory Directory.empty := by
  refine ⟨?_, (fsInit_represents _).congr fun offset inside => image.disk_fsInit state (by omega)⟩
  have fits := image.fits
  have distinct := image.distinct
  simp only [List.pairwise_cons, List.mem_cons, List.not_mem_nil, or_false, forall_eq_or_imp,
    forall_eq, IsEmpty.forall_iff, implies_true, List.Pairwise.nil, and_true] at distinct
  obtain ⟨⟨sbBitmap, sbRootdir⟩, bitmapRootdir⟩ := distinct
  refine ⟨?_, ?_, ?_⟩
  · rw [fsInit, Memory.load32_store32_of_disjoint (by omega),
      Memory.load32_store32_of_disjoint (by omega)]
    exact Memory.load32_store32_of_lt (by simp only [superblockBlock]; omega)
  · rw [fsInit, Memory.load32_store32_of_disjoint (by omega)]
    exact Memory.load32_store32_of_lt (by simp only [bitmapBlock, blockSize]; omega)
  · exact Memory.load32_store32_of_lt (by simp only [rootDirBlock, blockSize]; omega)

/-! ## Copies -/

private theorem setFileSize_holds {state : ImageState} {dir : Directory}
    (holds : image.Holds state.memory dir) {slot : Nat} {entry : Entry}
    (stored : dir slot = some entry) {size : Nat} (small : size < 4294967296) :
    image.Holds (image.setFileSize state slot size).memory
      (dir.set slot (some { entry with size })) :=
  holds.withDisk (holds.represents.setFileSize_performed stored small)

/-- A block written to the data area touches no metadata. -/
theorem fsWriteBlock_holds {state : ImageState} {dir : Directory}
    (holds : image.Holds state.memory dir) {block : Nat} (isData : 3 ≤ block) (buf : Nat) :
    image.Holds (image.fsWriteBlock state block buf).memory dir := by
  unfold fsWriteBlock
  split
  · exact holds
  next accepted =>
    have fits := image.fits
    rw [totalBlocks] at accepted
    refine holds.congr fun address metadata => Memory.copyForward32_of_outside fun index inside => ?_
    rw [blockSize] at inside ⊢
    rw [add32_of_lt (show image.fsDisk + block * 4096 < 4294967296 by omega),
      add32_of_lt (show image.fsDisk + block * 4096 + index < 4294967296 by omega)]
    rcases metadata with ⟨offset, low, rfl⟩ | ⟨pointer, member, low, high⟩
    · rw [add32_of_lt (by omega)]
      omega
    · have away := image.apart pointer member
      omega

private theorem writeBlocks_holds {state : ImageState} {dir : Directory} {slot : Nat} {entry : Entry}
    (stored : dir slot = some entry) (buf : Nat) {remaining index : Nat}
    (small : index + remaining ≤ 1048576) (holds : image.Holds state.memory dir) :
    image.Holds (image.writeBlocks slot buf remaining index state).memory dir := by
  induction remaining generalizing index state with
  | zero => exact holds
  | succ remaining ih =>
      have placed := holds.represents.valid.placed slot entry stored
      have block : add32 (DirEntry.firstDataBlock (image.disk state.memory) slot) index =
          entry.block + index := by
        rw [(holds.represents.entries slot entry stored).block, add32_of_lt (by omega)]
      rw [writeBlocks, block]
      exact ih (by omega) (fsWriteBlock_holds holds (by omega) _)

private theorem fsWriteFile_holds {state : ImageState} {dir : Directory}
    (holds : image.Holds state.memory dir) (name : CString) (buf : Nat) {size : Nat}
    (small : size < 4294967296) :
    ∃ after, image.Holds (image.fsWriteFile state name buf size).2.memory after := by
  unfold fsWriteFile
  rw [holds.represents.fsFindFile_eq]
  rcases found : dir.find name.bytes with _ | slot
  · exact ⟨dir, holds⟩
  obtain ⟨_, ⟨entry, stored, _⟩, _⟩ := Directory.find_eq_some found
  exact ⟨_, setFileSize_holds (writeBlocks_holds stored buf
    (show 0 + (size / blockSize + 1) ≤ 1048576 by unfold blockSize; omega) holds) stored small⟩

/-- Blocks copied to memory outside leave the file system's own memory alone. -/
theorem readBlocks_of_not_outside {memory : Memory} (slot : Nat) {buf remaining index : Nat}
    (outside : ∀ place, index ≤ place / 4096 → place / 4096 < index + remaining →
      image.Outside (add32 buf place)) {address : Nat} (within : ¬image.Outside address) :
    image.readBlocks slot buf remaining index memory address = memory address := by
  induction remaining generalizing index memory with
  | zero => rfl
  | succ remaining ih =>
      rw [readBlocks, ih fun place low high => outside place (by omega) (by omega)]
      refine Memory.copyForward32_of_outside fun place inside => ?_
      rw [blockSize] at inside ⊢
      have away := outside (index * 4096 + place) (by omega) (by omega)
      have same : add32 (add32 buf (index * 4096)) place = add32 buf (index * 4096 + place) := by
        unfold add32
        omega
      rw [same]
      exact away.ne within

/-- A read changes memory outside only. -/
theorem fsReadFile_of_not_outside {state : ImageState} {name : CString} {buf size : UInt32}
    (outside : image.CopiesOutside state (.read name buf size)) {address : Nat}
    (within : ¬image.Outside address) :
    (image.fsReadFile state.memory name buf.toNat size.toNat).2 address = state.memory address := by
  unfold fsReadFile
  rcases found : fsFindFile (image.disk state.memory) name with _ | slot
  · rfl
  refine readBlocks_of_not_outside slot (fun place _ high => ?_) within
  rw [Nat.zero_add] at high
  exact outside slot found place ((Nat.div_lt_iff_lt_mul (by decide)).mp high)

theorem fsReadFile_holds {state : ImageState} {dir : Directory}
    (holds : image.Holds state.memory dir) {name : CString} {buf size : UInt32}
    (outside : image.CopiesOutside state (.read name buf size)) :
    image.Holds (image.fsReadFile state.memory name buf.toNat size.toNat).2 dir :=
  holds.congr fun _ metadata => fsReadFile_of_not_outside outside metadata.not_outside

private theorem fsCreateFile_holds {state : ImageState} {dir : Directory}
    (holds : image.Holds state.memory dir) (name : CString) :
    image.Holds (image.fsCreateFile state name).2.memory (dir.create name.bytes) :=
  holds.withDisk (@Represents.fsCreateFile_performed
    ⟨image.disk state.memory, state.console⟩ _ holds.represents name).1

private theorem fsDeleteFile_holds {state : ImageState} {dir : Directory}
    (holds : image.Holds state.memory dir) (name : CString) :
    image.Holds (image.fsDeleteFile state name).2.memory (dir.delete name.bytes) :=
  holds.withDisk (@Represents.fsDeleteFile_performed
    ⟨image.disk state.memory, state.console⟩ _ holds.represents name).1

/-- The file that `editorSave` writes is there, or created if there is room for it. -/
theorem prepare_holds {state : ImageState} {dir : Directory}
    (holds : image.Holds state.memory dir) (name : CString) :
    ∃ after, image.Holds
      (if fsFindFile (image.disk state.memory) name = none then (image.fsCreateFile state name).2
        else state).memory after := by
  split
  · exact ⟨_, fsCreateFile_holds holds name⟩
  · exact ⟨dir, holds⟩

private theorem editorSave_holds {state : ImageState} {dir : Directory}
    (holds : image.Holds state.memory dir) (E : EditorConfig) {buf : Nat} (pointer : buf < 4294967296)
    (outside : ∀ index, index < blockSize → image.Outside (add32 buf index)) :
    ∃ after, image.Holds (image.editorSave E state buf).2.memory after := by
  unfold editorSave
  split
  · exact ⟨dir, holds⟩
  have small := saveRows_le E.rows (state.memory.behind buf) (Nat.zero_le 4095)
  generalize saveRows E.rows 0 (state.memory.behind buf) = saved at small
  have filled : image.Holds (state.memory.blit32 buf (saved.2.storeByte saved.1 0) blockSize) dir := by
    refine holds.congr fun address metadata => if_neg fun inside => ?_
    have away := outside _ inside.2
    have there : add32 buf (sub32 address buf) = address := by
      unfold add32 sub32
      omega
    rw [there] at away
    exact metadata.not_outside away
  dsimp only
  generalize state.memory.blit32 buf (saved.2.storeByte saved.1 0) blockSize = memory at filled
  have prepared := @prepare_holds image ⟨memory, state.console⟩ dir filled E.filename
  dsimp only at prepared
  generalize (if fsFindFile (image.disk memory) E.filename = none then
      (image.fsCreateFile ⟨memory, state.console⟩ E.filename).2
    else ⟨memory, state.console⟩) = ready at prepared ⊢
  obtain ⟨after, prepared⟩ := prepared
  rw [prepared.represents.fsFindFile_eq]
  rcases found : after.find E.filename.bytes with _ | slot
  · exact ⟨after, prepared⟩
  obtain ⟨_, ⟨entry, stored, _⟩, _⟩ := Directory.find_eq_some found
  have placed := prepared.represents.valid.placed slot entry stored
  dsimp only
  rw [(prepared.represents.entries slot entry stored).block]
  exact ⟨_, setFileSize_holds (fsWriteBlock_holds prepared placed.1 buf) stored (by omega)⟩

/-! ## Runs -/

/-- Between two calls, and after each of them, the disk holds a directory. -/
theorem perform_holds {state : ImageState} {dir : Directory} (holds : image.Holds state.memory dir)
    {call : ImageCall} (own : image.OwnMemory call) (outside : image.CopiesOutside state call) :
    ∃ after, image.Holds (image.perform state call).memory after := by
  cases call with
  | create name => exact ⟨_, fsCreateFile_holds holds name⟩
  | delete name => exact ⟨_, fsDeleteFile_holds holds name⟩
  | write name buf size => exact fsWriteFile_holds holds name buf.toNat size.toNat_lt
  | read name buf size => exact ⟨dir, fsReadFile_holds holds outside⟩
  | save E buf => exact editorSave_holds holds E buf.toNat_lt own
  | store address value =>
      refine ⟨dir, holds.congr fun other metadata => Memory.storeByte_of_ne ?_⟩
      exact Outside.ne own metadata.not_outside

/-- What the callers do, whatever their reads reach. -/
def Step (image : FsImage) (before : ImageState) (call : ImageCall) (after : ImageState) : Prop :=
  image.OwnMemory call ∧ image.exec before call = some after

theorem exec_eq {state : ImageState} {dir : Directory} (holds : image.Holds state.memory dir)
    (call : ImageCall) : image.exec state call = some (image.perform state call) :=
  if_pos holds.pointers

variable {state : ImageState} {dir : Directory}

end FsImage

end ShedKernel.FileSystem
