import ShedKernel.FileSystem.OneMemoryProperties
import ShedKernel.Foundation.Agreement

/-! When no block that is copied overlaps the disk, the functions in one memory do to
`fs_disk` what they do with the disk and the buffers as objects of their own. -/

set_option autoImplicit false

namespace ShedKernel.FileSystem

open Foundation Editor

/-- The call with its buffers taken out of the memory, `none` for a caller's store. -/
def ImageCall.apart (state : ImageState) : ImageCall → Option FsCall
  | .create name => some (.create name)
  | .delete name => some (.delete name)
  | .write name buf size => some (.write name state.memory buf size)
  | .read name buf size => some (.read name state.memory buf size)
  | .save E buf => some (.save E (state.memory.behind buf.toNat))
  | .store _ _ => none

/-! ## Disks that agree

The functions below look at `fs_disk` only, so what lies behind it in the memory does not
matter to them. -/

section

variable {left right : FsState} {dir : Directory}

theorem Represents.agree {disk changed : Memory} (represents : Represents disk dir)
    (agree : AgreeBelow 4194304 disk changed) : Represents changed dir :=
  represents.congr fun other low => (agree other (Nat.lt_trans low (by decide))).symm

private theorem fsMarkBlockUsed_agree {disk changed : Memory} (represents : Represents disk dir)
    (agree : AgreeBelow 4194304 disk changed) {index : Nat} (inside : index < 1021) :
    AgreeBelow 4194304 (fsMarkBlockUsed disk index).2 (fsMarkBlockUsed changed index).2 := by
  have marked := @AgreeBelow.setBit _ _ _ agree (bitmapBlock * blockSize) index
    (show 4096 + index / 8 < 4194304 by omega)
  unfold fsMarkBlockUsed
  rw [superblock_numDataBlocks represents.superblock,
    superblock_numDataBlocks (represents.agree agree).superblock,
    if_neg (Nat.not_le.mpr inside), if_neg (Nat.not_le.mpr inside)]
  dsimp only
  rw [show Superblock.freeBlockCount (disk.setBit (bitmapBlock * blockSize) index) =
    Superblock.freeBlockCount (changed.setBit (bitmapBlock * blockSize) index) from
      marked.load32 (by decide)]
  exact marked.store32 _ _

private theorem fsMarkBlockFree_agree {disk changed : Memory} (represents : Represents disk dir)
    (agree : AgreeBelow 4194304 disk changed) {index : Nat} (inside : index < 1021) :
    AgreeBelow 4194304 (fsMarkBlockFree disk index).2 (fsMarkBlockFree changed index).2 := by
  have marked := @AgreeBelow.clearBit _ _ _ agree (bitmapBlock * blockSize) index
    (show 4096 + index / 8 < 4194304 by omega)
  unfold fsMarkBlockFree
  rw [superblock_numDataBlocks represents.superblock,
    superblock_numDataBlocks (represents.agree agree).superblock,
    if_neg (Nat.not_le.mpr inside), if_neg (Nat.not_le.mpr inside)]
  dsimp only
  rw [show Superblock.freeBlockCount (disk.clearBit (bitmapBlock * blockSize) index) =
    Superblock.freeBlockCount (changed.clearBit (bitmapBlock * blockSize) index) from
      marked.load32 (by decide)]
  exact marked.store32 _ _

private theorem fsCreateFile_agree (represents : Represents left.disk dir)
    (agree : AgreeBelow 4194304 left.disk right.disk) (name : CString) :
    AgreeBelow 4194304 (fsCreateFile left name).2.disk (fsCreateFile right name).2.disk := by
  have other := represents.agree agree
  unfold fsCreateFile
  simp only [represents.fsFindFile_eq, other.fsFindFile_eq, represents.freeSlot_eq,
    other.freeSlot_eq, represents.fsAllocBlock_eq, other.fsAllocBlock_eq]
  rcases dir.find name.bytes with _ | found
  case some => exact agree
  rcases dir.freeSlot with _ | slot
  case none => exact agree
  rcases free : dir.freeBlock with _ | index
  case none => exact agree
  have inside := (Directory.freeBlock_eq_some free).1
  have positive : isNegative (3 + index) = false := isNegative_of_lt (by omega)
  simp only [positive]
  exact ((((fsMarkBlockUsed_agree represents agree inside).storeBytes _ _).store32 _ _).store32
    _ _).storeByte _ _

private theorem fsDeleteFile_agree (represents : Represents left.disk dir)
    (agree : AgreeBelow 4194304 left.disk right.disk) (name : CString) :
    AgreeBelow 4194304 (fsDeleteFile left name).2.disk (fsDeleteFile right name).2.disk := by
  have other := represents.agree agree
  have search : ∀ {disk : Memory}, Represents disk dir →
      findSlot (entryNamed disk name) = dir.find name.bytes :=
    fun holds => holds.fsFindFile_eq name
  unfold fsDeleteFile
  rw [search represents, search other]
  rcases found : dir.find name.bytes with _ | slot
  · exact agree
  obtain ⟨_, ⟨entry, stored, _⟩, _⟩ := Directory.find_eq_some found
  have placed := represents.valid.placed slot entry stored
  dsimp only
  rw [(represents.entries slot entry stored).block, (other.entries slot entry stored).block,
    superblock_firstDataBlock represents.superblock, superblock_firstDataBlock other.superblock,
    sub32_of_le placed.1 (by omega)]
  exact (fsMarkBlockFree_agree represents agree (by omega)).storeByte _ _

end

namespace FsImage

variable {image : FsImage}

/-- `fs_disk` in the memory is the disk. -/
def HasDisk (image : FsImage) (memory disk : Memory) : Prop :=
  AgreeBelow 4194304 (image.disk memory) disk

/-- Every block that the call copies lies outside. -/
def BlocksOutside (image : FsImage) (state : ImageState) : ImageCall → Prop
  | .write _ buf size =>
      ∀ place, place / 4096 < size.toNat / 4096 + 1 → image.Outside (add32 buf.toNat place)
  | .save _ buf => buf.toNat ≠ 0
  | call => image.CopiesOutside state call

theorem HasDisk.withDisk (image : FsImage) (memory disk : Memory) :
    image.HasDisk (image.withDisk memory disk) disk :=
  fun _ inside => image.disk_withDisk memory disk (Nat.lt_trans inside (by decide))

theorem HasDisk.congr {memory changed disk : Memory} (same : image.HasDisk memory disk)
    (kept : ∀ address, ¬image.Outside address → changed address = memory address) :
    image.HasDisk changed disk :=
  @AgreeBelow.trans _ (image.disk changed) _ _
    (fun _ inside => kept _ (not_outside_of_inside inside)) same

/-- One block written from a buffer outside. -/
theorem fsWriteBlock_hasDisk {state : ImageState} {fs : FsState} {block buf : Nat}
    {source : Nat → UInt8} (same : image.HasDisk state.memory fs.disk) (pointer : buf ≠ 0)
    (outside : ∀ place, place < 4096 → image.Outside (add32 buf place))
    (holds : ∀ place, place < 4096 → state.memory (add32 buf place) = source place) :
    image.HasDisk (image.fsWriteBlock state block buf).memory
      (FileSystem.fsWriteBlock fs block (some source)).disk := by
  unfold fsWriteBlock FileSystem.fsWriteBlock
  by_cases refused : totalBlocks ≤ block
  · rw [if_pos (.inl refused)]
    dsimp only
    rw [if_pos refused]
    exact same
  rw [if_neg (by simp [refused, pointer])]
  dsimp only
  rw [if_neg refused]
  have fits := image.fits
  have inDisk : block < 1024 := Nat.lt_of_not_le refused
  have start : add32 image.fsDisk (block * 4096) = image.fsDisk + block * 4096 :=
    add32_of_lt (by omega)
  intro offset inside
  have address : add32 image.fsDisk offset = image.fsDisk + offset := add32_of_lt (by omega)
  by_cases within : block * 4096 ≤ offset ∧ offset < block * 4096 + 4096
  · have place : add32 image.fsDisk offset =
        add32 (add32 image.fsDisk (block * 4096)) (offset - block * 4096) := by
      rw [start, address, add32_of_lt (by omega)]
      omega
    have copied := @Memory.copyForward32_of_disjoint state.memory
      (add32 image.fsDisk (block * 4096)) buf 4096 (offset - block * 4096) (by decide)
      (fun left leftInside right rightInside equal => by
        have away := (outside left leftInside).1
        rw [equal, start, add32_of_lt (by omega)] at away
        omega) (by omega)
    refine Eq.trans ?_ (if_pos within).symm
    rw [FsImage.disk, Memory.behind, place, blockSize, copied]
    exact holds _ (by omega)
  · have kept : ∀ index, index < 4096 →
        add32 image.fsDisk offset ≠ add32 (add32 image.fsDisk (block * 4096)) index := by
      intro index small
      rw [start, address, add32_of_lt (by omega)]
      omega
    exact (Memory.copyForward32_of_outside kept).trans
      ((same offset inside).trans (if_neg within).symm)

/-- The entry's block is read from either. -/
theorem firstDataBlock_eq {memory disk : Memory} (same : image.HasDisk memory disk) {slot : Nat}
    (inside : slot < 64) :
    DirEntry.firstDataBlock (image.disk memory) slot = DirEntry.firstDataBlock disk slot := by
  have address := DirEntry.address_eq slot
  exact same.load32 (by omega)

private theorem setFileSize_hasDisk {state : ImageState} {disk : Memory}
    (same : image.HasDisk state.memory disk) (slot size : Nat) :
    image.HasDisk (image.setFileSize state slot size).memory (DirEntry.setFileSize disk slot size) :=
  (HasDisk.withDisk image state.memory _).trans (same.store32 _ _)

/-- A written block changes nothing outside. -/
theorem fsWriteBlock_of_outside {state : ImageState} {block buf address : Nat}
    (outside : image.Outside address) :
    (image.fsWriteBlock state block buf).memory address = state.memory address := by
  unfold fsWriteBlock
  split
  · rfl
  next accepted =>
    have fits := image.fits
    rw [totalBlocks] at accepted
    refine Memory.copyForward32_of_outside fun index inside same => ?_
    rw [blockSize] at inside same
    have within : add32 (add32 image.fsDisk (block * 4096)) index =
        add32 image.fsDisk (block * 4096 + index) := by
      unfold add32
      omega
    rw [same, within] at outside
    exact not_outside_of_inside (by omega) outside

private theorem writeBlocks_hasDisk {state : ImageState} {fs : FsState} {memory : Memory} {slot buf : Nat}
    {remaining index : Nat} (same : image.HasDisk state.memory fs.disk) (inside : slot < 64)
    (kept : ∀ address, image.Outside address → state.memory address = memory address)
    (outside : ∀ place, index ≤ place / 4096 → place / 4096 < index + remaining →
      image.Outside (add32 buf place)) :
    image.HasDisk (image.writeBlocks slot buf remaining index state).memory
      (FileSystem.writeBlocks memory slot buf remaining index fs).disk := by
  induction remaining generalizing index state fs with
  | zero => exact same
  | succ remaining ih =>
      rw [writeBlocks, FileSystem.writeBlocks, firstDataBlock_eq same inside]
      have blockOutside : ∀ place, place < 4096 →
          image.Outside (add32 (add32 buf (index * 4096)) place) := by
        intro place small
        have whole : add32 (add32 buf (index * 4096)) place = add32 buf (index * 4096 + place) := by
          unfold add32
          omega
        rw [whole]
        exact outside _ (by omega) (by omega)
      refine ih ?_ (fun address away => (fsWriteBlock_of_outside away).trans (kept address away))
        fun place low high => outside place (by omega) (by omega)
      unfold bufferAt
      by_cases null : add32 buf (index * blockSize) = 0
      · rw [if_pos null]
        unfold fsWriteBlock
        rw [if_pos (.inr null)]
        exact same
      · rw [if_neg null]
        exact fsWriteBlock_hasDisk same null blockOutside fun place small =>
          kept _ (blockOutside place small)

private theorem fsWriteFile_hasDisk {state : ImageState} {fs : FsState} {dir : Directory}
    (holds : image.Holds state.memory dir) (same : image.HasDisk state.memory fs.disk)
    {name : CString} {buf size : UInt32} (outside : image.BlocksOutside state (.write name buf size)) :
    image.HasDisk (image.fsWriteFile state name buf.toNat size.toNat).2.memory
      (FileSystem.fsWriteFile fs name state.memory buf.toNat size.toNat).2.disk := by
  unfold fsWriteFile FileSystem.fsWriteFile
  rw [holds.represents.fsFindFile_eq, (holds.represents.agree same).fsFindFile_eq]
  rcases found : dir.find name.bytes with _ | slot
  · exact same
  have inside := (Directory.find_eq_some found).1
  refine setFileSize_hasDisk (writeBlocks_hasDisk same inside (fun _ _ => rfl) ?_) slot _
  intro place _ high
  rw [Nat.zero_add] at high
  exact outside place high

private theorem fsReadFile_hasDisk {state : ImageState} {disk : Memory}
    (same : image.HasDisk state.memory disk) {name : CString} {buf size : UInt32}
    (outside : image.CopiesOutside state (.read name buf size)) :
    image.HasDisk (image.fsReadFile state.memory name buf.toNat size.toNat).2 disk :=
  same.congr fun _ within => fsReadFile_of_not_outside outside within

/-- A read of blocks inside the disk gives what it gives from a disk of its own. -/
theorem readBlocks_eq {memory disk : Memory} {slot buf remaining index : Nat}
    (same : image.HasDisk memory disk) (inside : slot < 64)
    (inDisk : DirEntry.firstDataBlock disk slot + (index + remaining) ≤ 1024)
    (outside : ∀ place, index ≤ place / 4096 → place / 4096 < index + remaining →
      image.Outside (add32 buf place)) :
    image.readBlocks slot buf remaining index memory =
      FileSystem.readBlocks disk slot buf remaining index memory := by
  induction remaining generalizing index memory with
  | zero => rfl
  | succ remaining ih =>
      have fits := image.fits
      have block : add32 (DirEntry.firstDataBlock disk slot) index =
          DirEntry.firstDataBlock disk slot + index := add32_of_lt (by omega)
      rw [readBlocks, FileSystem.readBlocks, firstDataBlock_eq same inside, block]
      have below : DirEntry.firstDataBlock disk slot + index < 1024 := by omega
      generalize DirEntry.firstDataBlock disk slot + index = number at below ⊢
      have source : ∀ place, place < 4096 →
          add32 (add32 image.fsDisk (number * 4096 % 4294967296)) place =
            add32 image.fsDisk (number * 4096 % 4294967296 + place) := by
        intro place _
        unfold add32
        omega
      have target : ∀ place, place < 4096 →
          add32 (add32 buf (index * 4096)) place = add32 buf (index * 4096 + place) := by
        intro place _
        unfold add32
        omega
      have away : ∀ place, place < 4096 → image.Outside (add32 buf (index * 4096 + place)) :=
        fun place small => outside _ (by omega) (by omega)
      have copied : image.fsReadBlock memory number (add32 buf (index * blockSize)) =
          memory.blit32 (add32 buf (index * blockSize)) (FileSystem.fsReadBlock disk number)
            blockSize := by
        refine (Memory.copyForward32_eq_blit32 (add32_lt _ _) (by decide) ?_).trans
          (Memory.blit32_congr fun place small => ?_)
        · intro place placeInside other otherInside equal
          have met := away other otherInside
          rw [blockSize] at placeInside
          rw [blockSize, source place placeInside, target other otherInside] at equal
          rw [← equal] at met
          exact not_outside_of_inside (by omega) met
        · rw [blockSize] at small
          exact (congrArg memory (source place small)).trans (same _ (by omega))
      rw [copied]
      refine ih ?_ (by omega) fun place low high => outside place (by omega) (by omega)
      rw [← copied]
      refine same.congr fun address within => Memory.copyForward32_of_outside fun place small => ?_
      rw [blockSize] at small ⊢
      rw [target place small]
      exact (away place small).ne within

theorem fsReadFile_eq {state : ImageState} {disk : Memory} {dir : Directory}
    (holds : image.Holds state.memory dir) (same : image.HasDisk state.memory disk)
    {name : CString} {buf size : UInt32} {slot : Nat} {entry : Entry}
    (found : dir.find name.bytes = some slot) (stored : dir slot = some entry)
    (inDisk : entry.block + blocksToRead (image.disk state.memory) slot size.toNat ≤ 1024)
    (outside : image.CopiesOutside state (.read name buf size)) :
    image.fsReadFile state.memory name buf.toNat size.toNat =
      FileSystem.fsReadFile disk name state.memory buf.toNat size.toNat := by
  have other := holds.represents.agree same
  have inside := (Directory.find_eq_some found).1
  have blocks : blocksToRead (image.disk state.memory) slot size.toNat =
      blocksToRead disk slot size.toNat := by
    unfold blocksToRead
    rw [(holds.represents.entries slot entry stored).size, (other.entries slot entry stored).size]
  have after := fsReadFile_holds holds outside
  have first := (other.entries slot entry stored).block
  have search : fsFindFile (image.disk state.memory) name = some slot :=
    (holds.represents.fsFindFile_eq name).trans found
  have away : ∀ place, 0 ≤ place / 4096 →
      place / 4096 < 0 + blocksToRead (image.disk state.memory) slot size.toNat →
      image.Outside (add32 buf.toNat place) := by
    intro place _ high
    rw [Nat.zero_add] at high
    exact outside slot search place ((Nat.div_lt_iff_lt_mul (by decide)).mp high)
  unfold fsReadFile at after ⊢
  unfold FileSystem.fsReadFile
  rw [search] at after ⊢
  rw [other.fsFindFile_eq, found]
  dsimp only at after ⊢
  rw [(after.represents.entries slot entry stored).size, (other.entries slot entry stored).size,
    readBlocks_eq same inside (by rw [first]; omega) away, blocks, blocksToRead,
    (other.entries slot entry stored).size]

private theorem fsCreateFile_hasDisk {state : ImageState} {fs : FsState} {dir : Directory}
    (holds : image.Holds state.memory dir) (same : image.HasDisk state.memory fs.disk)
    (name : CString) :
    image.HasDisk (image.fsCreateFile state name).2.memory (FileSystem.fsCreateFile fs name).2.disk :=
  (HasDisk.withDisk image state.memory _).trans
    (@fsCreateFile_agree ⟨image.disk state.memory, state.console⟩ fs dir holds.represents same name)

private theorem fsDeleteFile_hasDisk {state : ImageState} {fs : FsState} {dir : Directory}
    (holds : image.Holds state.memory dir) (same : image.HasDisk state.memory fs.disk)
    (name : CString) :
    image.HasDisk (image.fsDeleteFile state name).2.memory (FileSystem.fsDeleteFile fs name).2.disk :=
  (HasDisk.withDisk image state.memory _).trans
    (@fsDeleteFile_agree ⟨image.disk state.memory, state.console⟩ fs dir holds.represents same name)

/-- A new file changes nothing outside. -/
theorem fsCreateFile_of_outside {state : ImageState} {dir : Directory}
    (holds : image.Holds state.memory dir) (name : CString) {address : Nat}
    (outside : image.Outside address) :
    (image.fsCreateFile state name).2.memory address = state.memory address := by
  have performed := (@Represents.fsCreateFile_performed
    ⟨image.disk state.memory, state.console⟩ _ holds.represents name).1
  have fits := image.fits
  have away := outside.1
  rw [← congrFun (image.withDisk_disk state.memory) address]
  unfold fsCreateFile onDisk withDisk
  dsimp only
  split
  · exact performed.data _ (by unfold sub32; omega)
  · rfl

private theorem editorSave_hasDisk {state : ImageState} {fs : FsState} {dir : Directory}
    (holds : image.Holds state.memory dir) (same : image.HasDisk state.memory fs.disk)
    (E : EditorConfig) {buf : UInt32} (pointer : buf.toNat ≠ 0)
    (own : image.OwnMemory (.save E buf)) :
    image.HasDisk (image.editorSave E state buf.toNat).2.memory
      (Editor.editorSave E fs (state.memory.behind buf.toNat)).2.disk := by
  unfold editorSave Editor.editorSave
  by_cases unnamed : E.filename.bytes = []
  · rw [if_pos unnamed, if_pos unnamed]
    exact same
  rw [if_neg unnamed, if_neg unnamed]
  generalize saveRows E.rows 0 (state.memory.behind buf.toNat) = saved
  have below := buf.toNat_lt
  -- the local array lies outside
  have kept : ∀ address, ¬image.Outside address →
      state.memory.blit32 buf.toNat (saved.2.storeByte saved.1 0) blockSize address =
        state.memory address := by
    refine fun address within => if_neg fun inside => within ?_
    have there : add32 buf.toNat (sub32 address buf.toNat) = address := by
      unfold add32 sub32
      omega
    exact there ▸ own _ inside.2
  have stored : ∀ place, place < 4096 →
      state.memory.blit32 buf.toNat (saved.2.storeByte saved.1 0) blockSize (add32 buf.toNat place) =
        saved.2.storeByte saved.1 0 place := by
    intro place inside
    have offset : sub32 (add32 buf.toNat place) buf.toNat = place := by
      unfold add32 sub32
      omega
    unfold Memory.blit32
    rw [offset, if_pos ⟨add32_lt _ _, inside⟩]
  have filled := holds.congr fun address metadata => kept address metadata.not_outside
  have sameFilled := same.congr kept
  dsimp only
  generalize state.memory.blit32 buf.toNat (saved.2.storeByte saved.1 0) blockSize = memory
    at filled sameFilled stored
  -- the file is there, or both sides create it
  have created := @prepare_holds _ ⟨memory, state.console⟩ _ filled E.filename
  have sameCreated : image.HasDisk
      (if fsFindFile (image.disk memory) E.filename = none then
        (image.fsCreateFile ⟨memory, state.console⟩ E.filename).2 else ⟨memory, state.console⟩).memory
      (if fsFindFile fs.disk E.filename = none then (FileSystem.fsCreateFile fs E.filename).2
        else fs).disk := by
    rw [filled.represents.fsFindFile_eq, (filled.represents.agree sameFilled).fsFindFile_eq]
    split
    · exact @fsCreateFile_hasDisk _ ⟨memory, state.console⟩ _ _ filled sameFilled E.filename
    · exact sameFilled
  have storedCreated : ∀ place, place < 4096 →
      (if fsFindFile (image.disk memory) E.filename = none then
        (image.fsCreateFile ⟨memory, state.console⟩ E.filename).2
          else ⟨memory, state.console⟩).memory (add32 buf.toNat place) =
        saved.2.storeByte saved.1 0 place := by
    intro place inside
    split
    · exact (@fsCreateFile_of_outside _ ⟨memory, state.console⟩ _ filled E.filename _
        (own place inside)).trans (stored place inside)
    · exact stored place inside
  dsimp only at created
  generalize (if fsFindFile (image.disk memory) E.filename = none then
    (image.fsCreateFile ⟨memory, state.console⟩ E.filename).2 else ⟨memory, state.console⟩) = ready
    at created sameCreated storedCreated ⊢
  generalize (if fsFindFile fs.disk E.filename = none then
    (FileSystem.fsCreateFile fs E.filename).2 else fs) = readyFs at sameCreated ⊢
  obtain ⟨after, created⟩ := created
  rw [created.represents.fsFindFile_eq, (created.represents.agree sameCreated).fsFindFile_eq]
  rcases found : after.find E.filename.bytes with _ | slot
  · exact sameCreated
  dsimp only
  rw [firstDataBlock_eq sameCreated (Directory.find_eq_some found).1]
  exact setFileSize_hasDisk (fsWriteBlock_hasDisk sameCreated pointer own storedCreated) slot _

/-! ## The two models side by side -/

/-- A store outside changes neither. -/
theorem perform_hasDisk {state : ImageState} {fs : FsState} {dir : Directory}
    (holds : image.Holds state.memory dir) (same : image.HasDisk state.memory fs.disk)
    {call : ImageCall} (own : image.OwnMemory call) (outside : image.BlocksOutside state call) :
    image.HasDisk (image.perform state call).memory
      (((call.apart state).map fun apart => apart.exec fs).getD fs).disk := by
  cases call with
  | create name => exact fsCreateFile_hasDisk holds same name
  | delete name => exact fsDeleteFile_hasDisk holds same name
  | write name buf size => exact fsWriteFile_hasDisk holds same outside
  | read name buf size => exact fsReadFile_hasDisk same outside
  | save E buf => exact editorSave_hasDisk holds same E outside own
  | store address value =>
      exact same.congr fun other within => Memory.storeByte_of_ne (Outside.ne own within)

private theorem BlocksOutside.copiesOutside {state : ImageState} {call : ImageCall}
    (outside : image.BlocksOutside state call) : image.CopiesOutside state call := by
  cases call with
  | read => exact outside
  | _ => trivial

/-- Both models take the call. -/
def ApartStep (image : FsImage) (before : ImageState × FsState) (call : ImageCall)
    (after : ImageState × FsState) : Prop :=
  image.BlocksOutside before.1 call ∧ image.Step before.1 call after.1 ∧
    after.2 = ((call.apart before.1).map fun apart => apart.exec before.2).getD before.2

private theorem fsInit_hasDisk (image : FsImage) (state : ImageState) (fs : FsState) :
    image.HasDisk (image.fsInit state).memory (FileSystem.fsInit fs).disk := by
  refine AgreeBelow.trans (fun _ inside => image.disk_fsInit state inside) ?_
  have zeroed : AgreeBelow 4194304
      ((image.disk state.memory).blit 0 (fun _ => 0) (totalBlocks * blockSize))
      (fs.disk.blit 0 (fun _ => 0) (totalBlocks * blockSize)) := by
    intro offset inside
    have whole : 0 ≤ offset ∧ offset < 0 + totalBlocks * blockSize := by
      unfold totalBlocks blockSize
      omega
    exact (if_pos whole).trans (if_pos whole).symm
  unfold FileSystem.fsInit FsState.kprintf
  exact (((((((((zeroed.store32 _ _).store32 _ _).store32 _ _).store32 _ _).store32 _ _).store32
    _ _).store32 _ _).store32 _ _).store32 _ _).store32 _ _

/-- Run side by side, the models keep the same disk. -/
theorem apart_run_hasDisk {start : ImageState} {fs : FsState} {calls : List ImageCall}
    {final : ImageState × FsState}
    (run : Run image.ApartStep (image.fsInit start, FileSystem.fsInit fs) calls final) :
    image.HasDisk final.1.memory final.2.disk := by
  have both : (∃ dir, image.Holds final.1.memory dir) ∧ image.HasDisk final.1.memory final.2.disk := by
    refine @Run.invariant _ _ _ _ _ _ (fun state => (∃ dir, image.Holds state.1.memory dir) ∧
      image.HasDisk state.1.memory state.2.disk) run
      ⟨⟨_, image.fsInit_holds start⟩, image.fsInit_hasDisk start fs⟩ ?_
    rintro ⟨state, fs⟩ call ⟨next, nextFs⟩ ⟨⟨dir, holds⟩, same⟩ ⟨outside, ⟨own, executed⟩, rfl⟩
    rw [exec_eq holds call] at executed
    cases executed
    exact ⟨perform_holds holds own outside.copiesOutside, perform_hasDisk holds same own outside⟩
  exact both.2

end FsImage

end ShedKernel.FileSystem
