import ShedKernel.Editor.Config
import ShedKernel.FileSystem.DiskProperties

/-! The functions of `easyfs.c` and `editorSave` as operations on a directory and
on whole data blocks. -/

set_option autoImplicit false

namespace ShedKernel.FileSystem

open Foundation

/-- The data blocks hold what they held, after the listed writes. -/
def DataAfter (disk changed : Memory) (writes : List BlockWrite) : Prop :=
  ∀ other, 12288 ≤ other → changed other = disk.applyWrites 4096 writes other

/-- What an operation did: the directory that the disk now holds, and the blocks written. -/
structure Performed (disk changed : Memory) (after : Directory) (writes : List BlockWrite) :
    Prop where
  represents : Represents changed after
  data : DataAfter disk changed writes

theorem Represents.performed {disk : Memory} {dir : Directory} (represents : Represents disk dir) :
    Performed disk disk dir [] :=
  ⟨represents, fun _ _ => rfl⟩

/-- One operation after another. -/
theorem Performed.trans {disk middle changed : Memory} {dir after : Directory}
    {writes later : List BlockWrite} (first : Performed disk middle dir writes)
    (second : Performed middle changed after later) :
    Performed disk changed after (writes ++ later) := by
  refine ⟨second.represents, fun other low => ?_⟩
  rw [second.data other low, Memory.applyWrites_append]
  exact Memory.applyWrites_congr (first.data other low)

theorem DataAfter.agree {disk changed : Memory} {writes : List BlockWrite}
    (data : DataAfter disk changed writes) {block : Nat} (isData : 3 ≤ block) :
    Memory.BlockAgree 4096 changed (disk.applyWrites 4096 writes) block :=
  fun index _ => data (block * 4096 + index) (by omega)

/-! ## Creating and deleting -/

private theorem Represents.fillEntry_performed {disk : Memory} {dir : Directory} (represents : Represents disk dir)
    {name : CString} {slot index : Nat} (room : dir.room name.bytes = some (slot, 3 + index)) :
    Performed disk (fillEntry (fsMarkBlockUsed disk index).2 slot name.bytes (3 + index))
      (dir.set slot (some ⟨name.bytes.take 15, 0, 3 + index⟩)) [] := by
  obtain ⟨_, slotFree, found, blockFree, same⟩ := Directory.room_eq_some room
  obtain rfl : index = found := by omega
  obtain ⟨indexInside, unowned⟩ := Directory.freeBlock_eq_some blockFree
  obtain ⟨slotInside, slotVacant⟩ := Directory.freeSlot_eq_some slotFree
  have marked := fsMarkBlockUsed_changed represents indexInside
    ((represents.bits index indexInside).trans unowned)
  have after := represents.valid.created room
  refine (represents.updateBit after marked slotInside (fun other apart => fillEntry_of_outside apart)
    (fun none => by cases none) ?_ ?_).elim Performed.mk
  · intro new same
    cases same
    exact fillEntry_holds _ name.terminated (by omega)
  · intro other otherInside
    rw [Bool.eq_iff_iff, Directory.owns_set after]
    by_cases here : other = index
    · subst here
      simp
    · rw [if_neg here, Directory.owns_iff represents.valid]
      constructor
      · rintro (⟨new, equal, owned⟩ | ⟨place, old, _, stored, owned⟩)
        · cases equal
          simp only at owned
          omega
        · exact ⟨place, old, stored, owned⟩
      · rintro ⟨place, old, stored, owned⟩
        refine .inr ⟨place, old, fun equal => ?_, stored, owned⟩
        rw [equal, slotVacant] at stored
        cases stored

theorem Represents.fsCreateFile_performed {state : FsState} {dir : Directory}
    (represents : Represents state.disk dir) (name : CString) :
    Performed state.disk (fsCreateFile state name).2.disk (dir.create name.bytes) [] ∧
      (fsCreateFile state name).1 =
        (if (dir.room name.bytes).isSome then 0 else minusOne) ∧
      (dir.room name.bytes = none → (fsCreateFile state name).2.disk = state.disk) := by
  unfold fsCreateFile Directory.create
  rw [represents.fsFindFile_eq]
  rcases found : dir.find name.bytes with _ | slot
  case some =>
    have room : dir.room name.bytes = none := by simp [Directory.room, found]
    simp only [room]
    exact ⟨represents.performed, rfl, fun _ => rfl⟩
  simp only [represents.freeSlot_eq]
  rcases slotFree : dir.freeSlot with _ | slot
  case none =>
    have room : dir.room name.bytes = none := by simp [Directory.room, found, slotFree]
    simp only [room]
    exact ⟨represents.performed, rfl, fun _ => rfl⟩
  simp only [represents.fsAllocBlock_eq]
  rcases blockFree : dir.freeBlock with _ | index
  case none =>
    have room : dir.room name.bytes = none := by simp [Directory.room, found, slotFree, blockFree]
    simp only [room]
    exact ⟨represents.performed, rfl, fun _ => rfl⟩
  have room : dir.room name.bytes = some (slot, 3 + index) := by
    simp [Directory.room, found, slotFree, blockFree]
  have inside := (Directory.freeBlock_eq_some blockFree).1
  have positive : isNegative (3 + index) = false := isNegative_of_lt (by omega)
  simp only [room, positive]
  exact ⟨represents.fillEntry_performed room, rfl, fun none => by cases none⟩

theorem Represents.fsDeleteFile_performed {state : FsState} {dir : Directory}
    (represents : Represents state.disk dir) (name : CString) :
    Performed state.disk (fsDeleteFile state name).2.disk (dir.delete name.bytes) [] ∧
      (fsDeleteFile state name).1 =
        (if (dir.find name.bytes).isSome then 0 else minusOne) ∧
      (dir.find name.bytes = none →
        (fsDeleteFile state name).2.disk = state.disk) := by
  unfold fsDeleteFile Directory.delete
  have search : findSlot (entryNamed state.disk name) = dir.find name.bytes :=
    represents.fsFindFile_eq name
  rw [search]
  rcases found : dir.find name.bytes with _ | slot
  · exact ⟨represents.performed, rfl, fun _ => rfl⟩
  refine ⟨?_, rfl, fun none => by cases none⟩
  obtain ⟨slotInside, ⟨entry, stored, _⟩, _⟩ := Directory.find_eq_some found
  have placed := represents.valid.placed slot entry stored
  have after := represents.valid.erase slot
  have block : sub32 (DirEntry.firstDataBlock state.disk slot)
      (Superblock.firstDataBlock state.disk) = entry.block - 3 := by
    rw [(represents.entries slot entry stored).block, superblock_firstDataBlock represents.superblock,
      sub32_of_le placed.1 (by omega)]
  have indexInside : entry.block - 3 < 1021 := by omega
  have owned : dir.owns (3 + (entry.block - 3)) = true :=
    (Directory.owns_iff represents.valid).mpr ⟨slot, entry, stored, by omega⟩
  have marked := fsMarkBlockFree_changed represents indexInside
    ((represents.bits _ indexInside).trans owned)
  have address := DirEntry.address_eq slot
  simp only [block]
  refine (represents.updateBit after marked slotInside
    (fun other _ => Memory.storeByte_of_ne (by omega)) (fun _ => ?_)
    (fun new same => by cases same) ?_).elim Performed.mk
  · simp [DirEntry.isUsed]
  · intro other otherInside
    rw [Bool.eq_iff_iff, Directory.owns_set after]
    by_cases here : other = entry.block - 3
    · subst here
      simp only [↓reduceIte, Bool.false_eq_true, iff_false]
      rintro (⟨new, equal, _⟩ | ⟨place, old, different, oldStored, same⟩)
      · cases equal
      · exact different (represents.valid.distinct _ _ _ _ oldStored stored (by omega))
    · rw [if_neg here, Directory.owns_iff represents.valid]
      constructor
      · rintro (⟨new, equal, _⟩ | ⟨place, old, _, oldStored, same⟩)
        · cases equal
        · exact ⟨place, old, oldStored, same⟩
      · rintro ⟨place, old, oldStored, same⟩
        refine .inr ⟨place, old, fun equal => here ?_, oldStored, same⟩
        rw [equal, stored] at oldStored
        cases oldStored
        omega

/-! ## Writing blocks -/

/-- The write that `fs_write_block` performs, if any. -/
def blockWrite (block : Nat) (buf : Option (Nat → UInt8)) : List BlockWrite :=
  match buf with
  | none => []
  | some source => if 1024 ≤ block then [] else [(block, source)]

/-- The block writes of `fs_write_file` for a file that starts at `first`. -/
def fileWrites (memory : Memory) (first buf : Nat) : Nat → Nat → List BlockWrite
  | 0, _ => []
  | remaining + 1, index =>
      blockWrite (first + index) (bufferAt memory (add32 buf (index * 4096))) ++
        fileWrites memory first buf remaining (index + 1)

theorem fsWriteBlock_disk (state : FsState) (block : Nat) (buf : Option (Nat → UInt8)) :
    (fsWriteBlock state block buf).disk = state.disk.applyWrites 4096 (blockWrite block buf) := by
  unfold fsWriteBlock blockWrite
  cases buf with
  | none => rfl
  | some source =>
      unfold totalBlocks
      simp only
      split <;> rfl

private theorem mem_blockWrite_iff {memory : Memory} {block pointer : Nat} {write : BlockWrite} :
    write ∈ blockWrite block (bufferAt memory pointer) ↔
      pointer ≠ 0 ∧ block < 1024 ∧ write = (block, memory.behind pointer) := by
  by_cases null : pointer = 0
  · simp [blockWrite, bufferAt, null]
  · by_cases outside : 1024 ≤ block
    · simp [blockWrite, bufferAt, null, outside]
    · simp [blockWrite, bufferAt, null, outside, Nat.lt_of_not_le outside]

/-- The blocks from the first one on, below the end of the disk and unless the
pointer to their bytes is null. -/
theorem mem_fileWrites_iff {memory : Memory} {first buf remaining index : Nat} {write : BlockWrite} :
    write ∈ fileWrites memory first buf remaining index ↔
      ∃ place, index ≤ place ∧ place < index + remaining ∧ add32 buf (place * 4096) ≠ 0 ∧
        first + place < 1024 ∧
        write = (first + place, memory.behind (add32 buf (place * 4096))) := by
  induction remaining generalizing index with
  | zero =>
      simp only [fileWrites, List.not_mem_nil, false_iff]
      rintro ⟨place, low, high, _⟩
      omega
  | succ remaining ih =>
      rw [fileWrites, List.mem_append, mem_blockWrite_iff, ih]
      constructor
      · rintro (⟨nonNull, inside, same⟩ | ⟨place, low, high, rest⟩)
        · exact ⟨index, Nat.le_refl _, by omega, nonNull, inside, same⟩
        · exact ⟨place, by omega, by omega, rest⟩
      · rintro ⟨place, low, high, rest⟩
        by_cases here : place = index
        · subst here
          exact .inl rest
        · exact .inr ⟨place, by omega, by omega, rest⟩

theorem fileWrites_blocks {memory : Memory} {first buf remaining index : Nat} {write : BlockWrite}
    (member : write ∈ fileWrites memory first buf remaining index) :
    first + index ≤ write.1 ∧ write.1 < first + index + remaining ∧ write.1 < 1024 := by
  obtain ⟨place, low, high, _, inside, rfl⟩ := mem_fileWrites_iff.mp member
  simp only
  omega

/-- Writes to data blocks leave the directory as it is. -/
theorem Represents.applyWrites_performed {disk : Memory} {dir : Directory} (represents : Represents disk dir)
    {writes : List BlockWrite} (data : ∀ write ∈ writes, 3 ≤ write.1) :
    Performed disk (disk.applyWrites 4096 writes) dir writes := by
  refine ⟨represents.congr fun other low => ?_, fun _ _ => rfl⟩
  exact Memory.applyWrites_of_outside fun write member => by
    have := data write member
    omega

private theorem Represents.writeBlocks_disk {state : FsState} {dir : Directory} (memory : Memory)
    (represents : Represents state.disk dir) {slot : Nat} {entry : Entry}
    (stored : dir slot = some entry) (buf : Nat) {remaining index : Nat}
    (small : index + remaining ≤ 1048576) :
    (writeBlocks memory slot buf remaining index state).disk =
      state.disk.applyWrites 4096 (fileWrites memory entry.block buf remaining index) := by
  have placed := represents.valid.placed slot entry stored
  induction remaining generalizing index state with
  | zero => rfl
  | succ remaining ih =>
      have block : add32 (DirEntry.firstDataBlock state.disk slot) index = entry.block + index := by
        rw [(represents.entries slot entry stored).block, add32_of_lt (by omega)]
      have step := fsWriteBlock_disk state (entry.block + index)
        (bufferAt memory (add32 buf (index * 4096)))
      have next := represents.applyWrites_performed fun write member => by
        obtain ⟨_, _, rfl⟩ := (@mem_blockWrite_iff memory (entry.block + index)
          (add32 buf (index * 4096)) write).mp member
        simp only
        omega
      rw [writeBlocks, block, fileWrites, Memory.applyWrites_append, ← step]
      refine ih ?_ (by omega)
      rw [fsWriteBlock_disk]
      exact next.represents

theorem Represents.setFileSize_performed {disk : Memory} {dir : Directory} (represents : Represents disk dir)
    {slot : Nat} {entry : Entry} (stored : dir slot = some entry) {size : Nat}
    (small : size < 4294967296) :
    Performed disk (DirEntry.setFileSize disk slot size) (dir.set slot (some { entry with size }))
      [] := by
  have inside := represents.valid.bounded slot entry stored
  have named := represents.valid.named slot entry stored
  have holds := represents.entries slot entry stored
  have after := represents.valid.resized stored size
  have address := DirEntry.address_eq slot
  have outside : ∀ other, other < 8192 + slot * 28 + 16 ∨ 8192 + slot * 28 + 20 ≤ other →
      DirEntry.setFileSize disk slot size other = disk other :=
    fun other _ => Memory.store32_of_outside (by omega)
  have bits : ∀ index, index < 1021 →
      (DirEntry.setFileSize disk slot size).bit 4096 index = disk.bit 4096 index :=
    fun index indexInside => bits_congr (fun other _ _ => outside other (by omega)) indexInside
  refine ⟨represents.update after (fun none => by cases none) ?_ ?_ ?_ ?_ ?_, ?_⟩
  · intro new same
    cases same
    refine ⟨?_, ?_, Memory.load32_store32_of_lt small, ?_⟩
    · exact (congrArg (· != 0) (outside _ (by omega))).trans holds.used
    · exact holds.name.congr fun other _ high => outside other (by omega)
    · exact (Memory.load32_store32_of_disjoint (by omega)).trans holds.block
  · exact fun other _ => outside other (by omega)
  · exact fun other _ _ _ => outside other (by omega)
  · intro index indexInside
    rw [bits index indexInside, represents.bits index indexInside, Bool.eq_iff_iff,
      Directory.owns_iff represents.valid, Directory.owns_set after]
    constructor
    · rintro ⟨other, old, found, same⟩
      by_cases here : other = slot
      · rw [here, stored] at found
        cases found
        exact .inl ⟨_, rfl, same⟩
      · exact .inr ⟨other, old, here, found, same⟩
    · rintro (⟨new, equal, same⟩ | ⟨other, old, _, found, same⟩)
      · cases equal
        exact ⟨slot, entry, stored, same⟩
      · exact ⟨other, old, found, same⟩
  · have counter : Superblock.freeBlockCount (DirEntry.setFileSize disk slot size) =
        Superblock.freeBlockCount disk :=
      Memory.load32_congr fun other _ high => outside other (by
        simp only [superblockBlock] at high
        omega)
    rw [counter, represents.count]
    exact (Memory.clearBits_congr bits).symm
  · exact fun other _ => outside other (by omega)

/-- The blocks that `fs_write_file` writes. -/
def Directory.writesOfFile (dir : Directory) (name : List UInt8) (memory : Memory) (buf size : Nat) :
    List BlockWrite :=
  match dir.lookup name with
  | some entry => fileWrites memory entry.block buf (size / 4096 + 1) 0
  | none => []

theorem Represents.fsWriteFile_disk {state : FsState} {dir : Directory}
    (represents : Represents state.disk dir) {name : CString} {slot : Nat} {entry : Entry}
    (found : dir.find name.bytes = some slot) (stored : dir slot = some entry) (memory : Memory)
    (buf : Nat) {size : Nat} (small : size < 4294967296) :
    (fsWriteFile state name memory buf size).2.disk =
      DirEntry.setFileSize
        (state.disk.applyWrites 4096 (fileWrites memory entry.block buf (size / 4096 + 1) 0)) slot
        size := by
  unfold fsWriteFile
  rw [represents.fsFindFile_eq, found]
  exact congrArg (DirEntry.setFileSize · slot size)
    (represents.writeBlocks_disk memory stored buf (show 0 + (size / 4096 + 1) ≤ 1048576 by omega))

theorem Represents.fsWriteFile_performed {state : FsState} {dir : Directory}
    (represents : Represents state.disk dir) (name : CString) (memory : Memory) (buf : Nat)
    {size : Nat} (small : size < 4294967296) :
    Performed state.disk (fsWriteFile state name memory buf size).2.disk
        (dir.resize name.bytes size) (dir.writesOfFile name.bytes memory buf size) ∧
      (fsWriteFile state name memory buf size).1 =
        (if (dir.find name.bytes).isSome then size else minusOne) ∧
      (dir.find name.bytes = none →
        (fsWriteFile state name memory buf size).2.disk = state.disk) := by
  unfold Directory.writesOfFile
  rcases found : dir.find name.bytes with _ | slot
  · rw [Directory.lookup_eq_none found, Directory.resize_eq_self found]
    unfold fsWriteFile
    rw [represents.fsFindFile_eq, found]
    exact ⟨represents.performed, rfl, fun _ => rfl⟩
  obtain ⟨entry, stored, _, looked⟩ := Directory.lookup_of_find found
  have placed := represents.valid.placed slot entry stored
  rw [looked, Directory.resize_eq found stored]
  refine ⟨?_, ?_, fun none => by cases none⟩
  · have written := represents.applyWrites_performed fun write member => by
      have := @fileWrites_blocks memory entry.block buf (size / 4096 + 1) 0 write member
      omega
    have sized := written.trans (written.represents.setFileSize_performed stored small)
    rw [List.append_nil, ← represents.fsWriteFile_disk found stored memory buf small] at sized
    exact sized
  · unfold fsWriteFile
    rw [represents.fsFindFile_eq, found]
    rfl

/-! ## Reading blocks -/

private theorem readBlocks_before {disk memory : Memory} {slot buf remaining index place : Nat}
    (small : index + remaining ≤ 1048576) (before : place / 4096 < index) :
    readBlocks disk slot buf remaining index memory (add32 buf place) = memory (add32 buf place) := by
  induction remaining generalizing index memory with
  | zero => rfl
  | succ remaining ih =>
      have fits : index * 4096 + 4096 ≤ 4294967296 := by omega
      have below : place < index * 4096 := by omega
      rw [readBlocks, ih (by omega) (by omega)]
      exact Memory.blit32_of_outside fits (by omega) (.inl below)

private theorem within_block (place : Nat) :
    place / 4096 * 4096 ≤ place ∧ place < place / 4096 * 4096 + 4096 := by
  omega

/-- Each byte that is read comes from its place in the file's blocks. -/
theorem readBlocks_inside {disk memory : Memory} {slot buf remaining index place : Nat}
    (small : index + remaining ≤ 1048576) (low : index ≤ place / 4096)
    (high : place / 4096 < index + remaining) :
    readBlocks disk slot buf remaining index memory (add32 buf place) =
      fsReadBlock disk (add32 (DirEntry.firstDataBlock disk slot) (place / 4096)) (place % 4096) := by
  induction remaining generalizing index memory with
  | zero => omega
  | succ remaining ih =>
      rw [readBlocks]
      by_cases later : index < place / 4096
      · exact ih (by omega) later (by omega)
      · have fits : index * 4096 + 4096 ≤ 4294967296 := by omega
        have here : place / 4096 = index := by omega
        obtain ⟨above, inside⟩ := within_block place
        rw [here] at above inside
        rw [readBlocks_before (by omega) (by omega), here,
          show place % 4096 = place - index * 4096 from here ▸ Nat.mod_eq_sub_div_mul]
        exact Memory.blit32_of_inside fits above inside

theorem readBlocks_congr {left right memory : Memory} {slot buf remaining index : Nat}
    (sameFirst : DirEntry.firstDataBlock left slot = DirEntry.firstDataBlock right slot)
    (same : ∀ place, index ≤ place → place < index + remaining → ∀ byte, byte < 4096 →
      fsReadBlock left (add32 (DirEntry.firstDataBlock left slot) place) byte =
        fsReadBlock right (add32 (DirEntry.firstDataBlock left slot) place) byte) :
    readBlocks left slot buf remaining index memory =
      readBlocks right slot buf remaining index memory := by
  induction remaining generalizing index memory with
  | zero => rfl
  | succ remaining ih =>
      have here := @Memory.blit32_congr memory (add32 buf (index * blockSize)) blockSize _ _
        (same index (Nat.le_refl _) (by omega))
      rw [readBlocks, readBlocks, here, sameFirst]
      exact ih fun place low high => same place (by omega) (by omega)

end ShedKernel.FileSystem

namespace ShedKernel.Editor

open Foundation FileSystem

theorem saveRows_le (rows : List (List UInt8)) {pos : Nat} (buf : Memory) (low : pos ≤ 4095) :
    (saveRows rows pos buf).1 ≤ 4095 := by
  induction rows generalizing pos buf with
  | nil => exact low
  | cons row rest ih =>
      rw [saveRows]
      split
      · dsimp only
        generalize copied : (if row.length < blockSize - 1 - pos then row.length
          else blockSize - 1 - pos) = copy
        have bounded : pos + copy ≤ 4095 := by
          unfold blockSize at copied
          split at copied <;> omega
        split
        · next room => exact ih _ (Nat.succ_le_of_lt room)
        · exact ih _ bounded
      · exact low

/-- The local buffer of `editorSave` when it is written to the disk. -/
def savedBlock (E : EditorConfig) (stack : Memory) : Memory :=
  (saveRows E.rows 0 stack).2.storeByte (saveRows E.rows 0 stack).1 0

/-- The directory once a missing file has been created. -/
def directoryToSave (dir : Directory) (name : List UInt8) : Directory :=
  if dir.find name = none then dir.create name else dir

def directoryAfterSave (dir : Directory) (E : EditorConfig) (stack : Memory) : Directory :=
  if E.filename.bytes = [] then dir
  else (directoryToSave dir E.filename.bytes).resize E.filename.bytes (saveRows E.rows 0 stack).1

def writesOfSave (dir : Directory) (E : EditorConfig) (stack : Memory) : List BlockWrite :=
  if E.filename.bytes = [] then []
  else
    match (directoryToSave dir E.filename.bytes).lookup E.filename.bytes with
    | some entry => [(entry.block, savedBlock E stack)]
    | none => []

/-- The part of `editorSave` after the file has been created or found. -/
theorem storeSaved_performed {state : FsState} {dir : Directory}
    (represents : Represents state.disk dir) {slot : Nat} {entry : Entry}
    (stored : dir slot = some entry) (buf : Nat → UInt8) {size : Nat} (small : size < 4294967296) :
    Performed state.disk
      (DirEntry.setFileSize
        (fsWriteBlock state (DirEntry.firstDataBlock state.disk slot) (some buf)).disk slot size)
      (dir.set slot (some { entry with size })) [(entry.block, buf)] := by
  have placed := represents.valid.placed slot entry stored
  have single : blockWrite entry.block (some buf) = [(entry.block, buf)] := if_neg (by omega)
  have written := represents.applyWrites_performed fun write (member : write ∈ [(entry.block, buf)]) => by
    rw [List.mem_singleton.mp member]
    exact placed.1
  rw [← single, ← fsWriteBlock_disk] at written
  rw [(represents.entries slot entry stored).block, ← single]
  simpa only [List.append_nil] using written.trans (written.represents.setFileSize_performed stored small)

/-- The file is there, or created if there is room for it. -/
theorem prepared_performed {state : FsState} {dir : Directory}
    (represents : Represents state.disk dir) (name : CString) :
    Performed state.disk
      (if fsFindFile state.disk name = none then (fsCreateFile state name).2 else state).disk
      (directoryToSave dir name.bytes) [] := by
  unfold directoryToSave
  rw [represents.fsFindFile_eq]
  split
  · exact (represents.fsCreateFile_performed name).1
  · exact represents.performed

theorem editorSave_performed {state : FsState} {dir : Directory}
    (represents : Represents state.disk dir) (E : EditorConfig) (stack : Memory) :
    Performed state.disk (editorSave E state stack).2.disk (directoryAfterSave dir E stack)
      (writesOfSave dir E stack) := by
  unfold editorSave directoryAfterSave writesOfSave
  by_cases unnamed : E.filename.bytes = []
  · rw [if_pos unnamed, if_pos unnamed, if_pos unnamed]
    exact represents.performed
  rw [if_neg unnamed, if_neg unnamed, if_neg unnamed]
  have prepared := prepared_performed represents E.filename
  dsimp only
  generalize (if fsFindFile state.disk E.filename = none then
    (fsCreateFile state E.filename).2 else state) = ready at prepared ⊢
  simp only [prepared.represents.fsFindFile_eq]
  generalize directoryToSave dir E.filename.bytes = dir at prepared
  rcases found : dir.find E.filename.bytes with _ | slot
  · rw [Directory.lookup_eq_none found, Directory.resize_eq_self found]
    exact prepared
  obtain ⟨entry, stored, _, looked⟩ := Directory.lookup_of_find found
  have size := saveRows_le E.rows stack (Nat.zero_le 4095)
  rw [looked, Directory.resize_eq found stored]
  exact prepared.trans (storeSaved_performed prepared.represents stored _ (by omega))

end ShedKernel.Editor
