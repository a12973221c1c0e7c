import ShedKernel.FileSystem.FileTable
import ShedKernel.FileSystem.ReadProperties

/-! The file system answers like a table of files, for as long as names fit a directory entry
and files fit a block. -/

set_option autoImplicit false

namespace ShedKernel.FileSystem

open Foundation Editor Memory

/-- The bytes of the file of an entry. -/
def contentOf (disk : Memory) (entry : Entry) : List UInt8 := bytesAt disk (entry.block * 4096) entry.size

/-- The disk holds the files of the table, each in a block of its own. -/
structure Holds (disk : Memory) (dir : Directory) (files : FileTable) : Prop where
  represents : Represents disk dir
  short : ∀ slot entry, dir slot = some entry → entry.size < 4096
  unique : ∀ left right leftEntry rightEntry, dir left = some leftEntry → dir right = some rightEntry →
    leftEntry.name = rightEntry.name → left = right
  files : ∀ name content, files.values.lookup name = some content ↔
    ∃ slot entry, dir slot = some entry ∧ entry.name = name ∧ contentOf disk entry = content

/-- The files of a directory, in the order of their slots. -/
def Directory.contents (dir : Directory) (disk : Memory) : List (Σ _ : List UInt8, List UInt8) :=
  (List.range 64).filterMap fun slot => (dir slot).map fun entry => ⟨entry.name, contentOf disk entry⟩

variable {disk changed : Memory} {dir after : Directory} {files : FileTable} {name : List UInt8}
  {slot : Nat} {entry new : Entry}

/-! ## Contents -/

theorem Performed.content {writes : List BlockWrite} (performed : Performed disk changed after writes)
    (isData : 3 ≤ entry.block) (short : entry.size < 4096)
    (apart : ∀ write ∈ writes, write.1 ≠ entry.block) : contentOf changed entry = contentOf disk entry := by
  refine bytesAt_congr fun index inside => ?_
  have within : index < 4096 := Nat.lt_trans inside short
  exact (performed.data.agree isData index within).trans (Memory.applyWrites_other apart index within)

theorem Performed.written {source : Nat → UInt8}
    (performed : Performed disk changed after [(entry.block, source)]) (isData : 3 ≤ entry.block)
    (short : entry.size < 4096) : contentOf changed entry = bytesAt source 0 entry.size := by
  refine List.map_congr_left fun index member => ?_
  have inside : index < 4096 := Nat.lt_trans (List.mem_range.mp member) short
  rw [performed.data.agree isData index inside, Nat.zero_add]
  refine Memory.applyWrites_covered inside ⟨_, List.mem_singleton_self _, rfl⟩ fun write member _ => ?_
  rw [List.mem_singleton.mp member]

/-! ## Reading the table off the directory -/

namespace Holds

theorem mem_iff (holds : Holds disk dir files) : name ∈ files.values ↔ dir.find name ≠ none := by
  rw [Finmap.mem_iff, ne_eq, Directory.find_eq_none_iff holds.represents.valid]
  push Not
  constructor
  · rintro ⟨content, looked⟩
    obtain ⟨slot, entry, stored, same, _⟩ := (holds.files name content).mp looked
    exact ⟨slot, entry, stored, same⟩
  · rintro ⟨slot, entry, stored, same⟩
    exact ⟨_, (holds.files name _).mpr ⟨slot, entry, stored, same, rfl⟩⟩

private theorem notMem (holds : Holds disk dir files) (missing : dir.find name = none) : name ∉ files.values :=
  fun there => holds.mem_iff.mp there missing

private theorem mem (holds : Holds disk dir files) (found : dir.find name = some slot) : name ∈ files.values :=
  holds.mem_iff.mpr (by rw [found]; exact Option.some_ne_none slot)

theorem lookup (holds : Holds disk dir files) (stored : dir slot = some entry) :
    files.values.lookup entry.name = some (contentOf disk entry) :=
  (holds.files _ _).mpr ⟨slot, entry, stored, rfl, rfl⟩

theorem entries_eq (holds : Holds disk dir files) : files.values.entries = dir.contents disk := by
  have nodup : (dir.contents disk).Nodup := by
    refine List.Nodup.filterMap (fun left right file inLeft inRight => ?_) List.nodup_range
    obtain ⟨leftEntry, leftStored, leftFile⟩ := Option.map_eq_some_iff.mp inLeft
    obtain ⟨rightEntry, rightStored, rightFile⟩ := Option.map_eq_some_iff.mp inRight
    refine holds.unique left right leftEntry rightEntry leftStored rightStored ?_
    exact congrArg Sigma.fst (leftFile.trans rightFile.symm)
  refine (Multiset.Nodup.ext files.values.nodup_entries (Multiset.coe_nodup.mpr nodup)).mpr fun file => ?_
  rw [← Finmap.lookup_eq_some_iff, holds.files, Multiset.mem_coe, Directory.contents, List.mem_filterMap]
  constructor
  · rintro ⟨slot, entry, stored, named, held⟩
    refine ⟨slot, List.mem_range.mpr (holds.represents.valid.bounded slot entry stored), ?_⟩
    rw [stored, Option.map_some, named, held]
  · rintro ⟨slot, _, listed⟩
    obtain ⟨entry, stored, rfl⟩ := Option.map_eq_some_iff.mp listed
    exact ⟨slot, entry, stored, rfl, rfl⟩

theorem full_iff (holds : Holds disk dir files) :
    dir.freeSlot = none ↔ files.values.keys.card = maxDirEntries := by
  rw [NamedTable.card_keys, holds.entries_eq, Multiset.coe_card, Directory.contents,
    List.length_filterMap_eq_countP, Directory.freeSlot, findSlot, List.find?_range_eq_none]
  have counted := @List.countP_eq_length _ (List.range 64) fun slot =>
    ((dir slot).map fun entry : Entry => (⟨entry.name, contentOf disk entry⟩ : Σ _ : List UInt8, List UInt8)).isSome
  rw [List.length_range] at counted
  refine Iff.trans ?_ counted.symm
  constructor
  · intro used slot member
    have here := used slot (List.mem_range.mp member)
    cases stored : dir slot with
    | none => simp [stored] at here
    | some entry => rfl
  · intro used slot inside
    have here := used slot (List.mem_range.mpr inside)
    cases stored : dir slot with
    | none => simp [stored] at here
    | some entry => rfl

end Holds

/-- The slots are fewer than the blocks. -/
theorem Directory.Valid.exists_freeBlock (valid : dir.Valid) : ∃ index, dir.freeBlock = some index := by
  cases free : dir.freeBlock with
  | some index => exact ⟨index, rfl⟩
  | none =>
      have owned := List.find?_range_eq_none.mp free
      have covered : Finset.range 1021 ⊆ (Finset.range 64).image fun slot =>
          ((dir slot).map fun entry => entry.block - 3).getD 0 := by
        intro index member
        have isOwned := owned index (Finset.mem_range.mp member)
        obtain ⟨slot, entry, stored, same⟩ := (Directory.owns_iff valid).mp (by simpa using isOwned)
        refine Finset.mem_image.mpr ⟨slot, Finset.mem_range.mpr (valid.bounded slot entry stored), ?_⟩
        rw [stored, Option.map_some, Option.getD_some, same, Nat.add_sub_cancel_left]
      have fewer := (Finset.card_le_card covered).trans Finset.card_image_le
      rw [Finset.card_range, Finset.card_range] at fewer
      exact absurd fewer (by decide)

/-- A new name has room in the directory if it has room in the table. -/
theorem Holds.exists_room (holds : Holds disk dir files) (missing : dir.find name = none)
    (room : files.Room name) : ∃ slot index, dir.room name = some (slot, 3 + index) := by
  cases slotFree : dir.freeSlot with
  | none =>
      have full := holds.full_iff.mp slotFree
      cases room with
      | inl there => exact absurd there (holds.notMem missing)
      | inr below => exact absurd full (Nat.ne_of_lt below)
  | some slot =>
      obtain ⟨index, blockFree⟩ := holds.represents.valid.exists_freeBlock
      exact ⟨slot, index, by rw [Directory.room, missing, slotFree, blockFree]⟩

theorem Holds.full (holds : Holds disk dir files) (noRoom : ¬files.Room name) : dir.freeSlot = none :=
  holds.full_iff.mpr (NamedTable.not_room_iff.mp noRoom).2

/-! ## Changing the table with the directory -/

/-- One file is new or has new contents. -/
theorem Holds.put (holds : Holds disk dir files) (stored : Represents changed (dir.set slot (some new)))
    (short : new.size < 4096)
    (alone : ∀ other entry, dir other = some entry → (entry.name = new.name ↔ other = slot))
    (others : ∀ other entry, other ≠ slot → dir other = some entry →
      contentOf changed entry = contentOf disk entry) (room : files.Room new.name) :
    Holds changed (dir.set slot (some new)) (files.put new.name (contentOf changed new) room) := by
  have split {other : Nat} {entry : Entry} (found : dir.set slot (some new) other = some entry) :
      other = slot ∧ entry = new ∨ other ≠ slot ∧ dir other = some entry := by
    by_cases here : other = slot
    · subst here
      rw [Directory.set_self] at found
      exact .inl ⟨rfl, (Option.some.inj found).symm⟩
    · rw [Directory.set_of_ne here] at found
      exact .inr ⟨here, found⟩
  refine ⟨stored, fun other entry found => ?_, fun left right leftEntry rightEntry leftFound rightFound same => ?_,
    fun name content => ?_⟩
  · rcases split found with ⟨_, rfl⟩ | ⟨_, old⟩
    · exact short
    · exact holds.short other entry old
  · rcases split leftFound with ⟨rfl, rfl⟩ | ⟨leftOther, leftOld⟩
    · rcases split rightFound with ⟨rfl, _⟩ | ⟨_, rightOld⟩
      · rfl
      · exact ((alone right rightEntry rightOld).mp same.symm).symm
    · rcases split rightFound with ⟨rfl, rfl⟩ | ⟨_, rightOld⟩
      · exact (alone left leftEntry leftOld).mp same
      · exact holds.unique left right leftEntry rightEntry leftOld rightOld same
  · by_cases here : name = new.name
    · subst here
      rw [NamedTable.put, Finmap.lookup_insert]
      constructor
      · rintro ⟨⟩
        exact ⟨slot, new, Directory.set_self _ _ _, rfl, rfl⟩
      · rintro ⟨other, entry, found, same, rfl⟩
        rcases split found with ⟨_, rfl⟩ | ⟨different, old⟩
        · rfl
        · exact absurd ((alone other entry old).mp same) different
    · rw [NamedTable.put, Finmap.lookup_insert_of_ne _ here, holds.files]
      constructor
      · rintro ⟨other, entry, old, rfl, rfl⟩
        have different : other ≠ slot := fun same => here ((alone other entry old).mpr same)
        exact ⟨other, entry, by rw [Directory.set_of_ne different, old], rfl, others other entry different old⟩
      · rintro ⟨other, entry, found, rfl, rfl⟩
        rcases split found with ⟨_, rfl⟩ | ⟨different, old⟩
        · exact absurd rfl here
        · exact ⟨other, entry, old, rfl, (others other entry different old).symm⟩

/-- One file is gone. -/
theorem Holds.erase (holds : Holds disk dir files) (stored : dir slot = some entry)
    (erased : Represents changed (dir.set slot none))
    (others : ∀ other entry, dir other = some entry → contentOf changed entry = contentOf disk entry) :
    Holds changed (dir.set slot none) (files.erase entry.name) := by
  refine ⟨erased, fun other old found => holds.short other old (Directory.of_erased found),
    fun left right leftEntry rightEntry leftFound rightFound =>
      holds.unique left right leftEntry rightEntry (Directory.of_erased leftFound) (Directory.of_erased rightFound),
    fun name content => ?_⟩
  by_cases here : name = entry.name
  · subst here
    rw [NamedTable.erase, Finmap.lookup_erase]
    refine iff_of_false nofun ?_
    rintro ⟨other, old, found, same, _⟩
    have sameSlot := holds.unique other slot old entry (Directory.of_erased found) stored same
    rw [sameSlot, Directory.set_self] at found
    cases found
  · rw [NamedTable.erase, Finmap.lookup_erase_ne here, holds.files]
    constructor
    · rintro ⟨other, old, found, rfl, rfl⟩
      have different : other ≠ slot := by
        rintro rfl
        rw [stored] at found
        cases found
        exact here rfl
      exact ⟨other, old, by rw [Directory.set_of_ne different, found], rfl, others other old found⟩
    · rintro ⟨other, old, found, rfl, rfl⟩
      have before := Directory.of_erased found
      exact ⟨other, old, before, rfl, (others other old before).symm⟩

/-! ## One request -/

section Requests

variable {state : FsState} {file : CString}

/-- The disk and the table agree again, and both have given the same answer. -/
def Answered (served : Memory × FsReply) (expected : FileTable × FsReply) : Prop :=
  ServedAlike (fun disk files => ∃ dir, Holds disk dir files) served expected

private theorem fsCreateFile_of_taken
    (represents : Represents state.disk dir) (found : dir.find file.bytes = some slot) :
    fsCreateFile state file =
      (minusOne, state.kprintf "easyfs: file '%s' already exists\n" [.text file.bytes]) := by
  unfold fsCreateFile
  rw [represents.fsFindFile_eq, found]

private theorem fsCreateFile_of_full (represents : Represents state.disk dir) (missing : dir.find file.bytes = none)
    (full : dir.freeSlot = none) :
    fsCreateFile state file = (minusOne, state.kprintf "easyfs: root directory full\n" []) := by
  unfold fsCreateFile
  rw [represents.fsFindFile_eq, missing]
  simp only [represents.freeSlot_eq, full]

private theorem fsCreateFile_console (represents : Represents state.disk dir) {index : Nat}
    (room : dir.room file.bytes = some (slot, 3 + index)) : (fsCreateFile state file).2.console = state.console := by
  obtain ⟨missing, slotFree, other, blockFree, _⟩ := Directory.room_eq_some room
  have inside := (Directory.freeBlock_eq_some blockFree).1
  have positive : isNegative (3 + other) = false := isNegative_of_lt (by omega)
  unfold fsCreateFile
  rw [represents.fsFindFile_eq, missing]
  simp only [represents.freeSlot_eq, slotFree, represents.fsAllocBlock_eq, blockFree, positive]
  rfl

/-- A new file is empty. -/
theorem Holds.create (holds : Holds state.disk dir files) {index : Nat}
    (room : dir.room file.bytes = some (slot, 3 + index)) (short : file.bytes.length < maxFilenameLen)
    (roomy : files.Room file.bytes) :
    Holds (fsCreateFile state file).2.disk (dir.set slot (some ⟨file.bytes, 0, 3 + index⟩))
      (files.put file.bytes [] roomy) := by
  obtain ⟨missing, slotFree, _⟩ := Directory.room_eq_some room
  have vacant := (Directory.freeSlot_eq_some slotFree).2
  have performed := (holds.represents.fsCreateFile_performed file).1
  have whole : file.bytes.take 15 = file.bytes := List.take_of_length_le (Nat.le_of_lt_succ short)
  rw [Directory.create, room] at performed
  simp only [whole] at performed
  refine holds.put performed.represents (Nat.zero_lt_succ 4095) (fun other entry stored => ?_) (fun other entry _ stored => ?_) roomy
  · refine iff_of_false ?_ ?_
    · exact (Directory.find_eq_none_iff holds.represents.valid).mp missing other entry stored
    · rintro rfl
      rw [vacant] at stored
      cases stored
  · exact performed.content (holds.represents.valid.placed other entry stored).1
      (holds.short other entry stored) nofun

private theorem create_answered (holds : Holds disk dir files) (short : file.bytes.length < maxFilenameLen) :
    Answered (FsRequest.perform disk (.call (.create file))) (files.serve (.call (.create file))) := by
  have state : Holds (FsState.mk disk []).disk dir files := holds
  rw [FileTable.serve]
  cases found : dir.find file.bytes with
  | some slot =>
      rw [if_pos (holds.mem found)]
      refine ⟨⟨dir, ?_⟩, ?_⟩
      · simp only [FsRequest.perform, fsCreateFile_of_taken state.represents found]
        exact holds
      · simp only [FsRequest.perform, fsCreateFile_of_taken state.represents found]
        rfl
  | none =>
      rw [if_neg (holds.notMem found)]
      by_cases roomy : files.Room file.bytes
      · rw [dif_pos roomy]
        obtain ⟨slot, index, room⟩ := holds.exists_room found roomy
        refine ⟨⟨_, state.create room short roomy⟩, ?_⟩
        have result := (state.represents.fsCreateFile_performed file).2.1
        rw [room] at result
        simp only [FsRequest.perform, fsCreateFile_console state.represents room, result]
        rfl
      · rw [dif_neg roomy]
        have refused := fsCreateFile_of_full state.represents found (holds.full roomy)
        refine ⟨⟨dir, ?_⟩, ?_⟩
        · simp only [FsRequest.perform, refused]
          exact holds
        · simp only [FsRequest.perform, refused]
          rfl

private theorem delete_answered (holds : Holds disk dir files) :
    Answered (FsRequest.perform disk (.call (.delete file))) (files.serve (.call (.delete file))) := by
  have represents : Represents (FsState.mk disk []).disk dir := holds.represents
  obtain ⟨performed, result, unchanged⟩ := represents.fsDeleteFile_performed file
  have search : findSlot (entryNamed disk file) = dir.find file.bytes := holds.represents.fsFindFile_eq file
  rw [FileTable.serve]
  cases found : dir.find file.bytes with
  | none =>
      rw [if_neg (holds.notMem found)]
      refine ⟨⟨dir, ?_⟩, ?_⟩
      · simp only [FsRequest.perform, unchanged found]
        exact holds
      · simp only [FsRequest.perform, fsDeleteFile, search, found]
        rfl
  | some slot =>
      rw [if_pos (holds.mem found)]
      obtain ⟨entry, stored, named, _⟩ := Directory.lookup_of_find found
      rw [Directory.delete, found] at performed
      refine ⟨⟨dir.set slot none, ?_⟩, ?_⟩
      · rw [← named]
        exact holds.erase stored performed.represents fun other old oldStored =>
          performed.content (holds.represents.valid.placed other old oldStored).1
            (holds.short other old oldStored) nofun
      · simp only [FsRequest.perform, fsDeleteFile, search, found]
        rfl

/-- Storing a block and its size in an entry. -/
theorem Holds.store (holds : Holds disk dir files) (stored : dir slot = some entry) {size : Nat}
    (short : size < 4096) {source : Nat → UInt8}
    (performed : Performed disk changed (dir.set slot (some { entry with size })) [(entry.block, source)])
    (named : entry.name = name) (room : files.Room name) :
    Holds changed (dir.set slot (some { entry with size })) (files.put name (bytesAt source 0 size) room) := by
  subst named
  have placed := (holds.represents.valid.placed slot entry stored).1
  have content := @Performed.written disk changed _ { entry with size } source performed placed short
  have next := @Holds.put disk changed dir files slot { entry with size } holds performed.represents short
    (fun other old oldStored => ⟨fun same => holds.unique other slot old entry oldStored stored same, ?_⟩)
    (fun other old different oldStored => ?_) room
  · rw [content] at next
    exact next
  · rintro rfl
    rw [stored] at oldStored
    cases oldStored
    rfl
  · refine performed.content (holds.represents.valid.placed other old oldStored).1
      (holds.short other old oldStored) fun write member => ?_
    rw [List.mem_singleton.mp member]
    exact fun same => different (holds.represents.valid.distinct _ _ _ _ oldStored stored same.symm)

/-- A file that fits its block is written in one piece. -/
theorem writesOfFile_of_short {memory : Memory} {buf : UInt32} {size : Nat} (nonNull : buf ≠ 0)
    (short : size < 4096) (inside : entry.block < 1024) (looked : dir.lookup name = some entry) :
    dir.writesOfFile name memory buf.toNat size = [(entry.block, memory.behind buf.toNat)] := by
  have pointer : add32 buf.toNat (0 * 4096) = buf.toNat := add32_of_lt buf.toNat_lt
  have nonzero : buf.toNat ≠ 0 := fun zero => nonNull (UInt32.toNat_inj.mp zero)
  have blocks : size / 4096 = 0 := Nat.div_eq_of_lt short
  rw [Directory.writesOfFile, looked]
  simp only [blocks, fileWrites, pointer, bufferAt, if_neg nonzero, blockWrite, Nat.add_zero,
    if_neg (Nat.not_le.mpr inside), List.append_nil]

private theorem fsWriteFile_console {memory : Memory} {buf : UInt32} {size : Nat} (nonNull : buf ≠ 0)
    (short : size < 4096) (represents : Represents state.disk dir) (found : dir.find file.bytes = some slot)
    (stored : dir slot = some entry) :
    (fsWriteFile state file memory buf.toNat size).2.console = state.console := by
  have placed := represents.valid.placed slot entry stored
  have pointer : add32 buf.toNat (0 * blockSize) = buf.toNat := by
    rw [Nat.zero_mul]
    exact add32_of_lt buf.toNat_lt
  have block : add32 (DirEntry.firstDataBlock state.disk slot) 0 = entry.block := by
    rw [(represents.entries slot entry stored).block]
    exact add32_of_lt (by omega)
  have nonzero : buf.toNat ≠ 0 := fun zero => nonNull (UInt32.toNat_inj.mp zero)
  have blocks : size / blockSize = 0 := Nat.div_eq_of_lt short
  have inside : ¬totalBlocks ≤ entry.block := Nat.not_le.mpr placed.2
  unfold fsWriteFile
  rw [represents.fsFindFile_eq, found]
  simp only [blocks, writeBlocks, block, pointer, bufferAt, if_neg nonzero, fsWriteBlock, if_neg inside]

private theorem write_answered {memory : Memory} {buf size : UInt32} (holds : Holds disk dir files) (nonNull : buf ≠ 0)
    (short : size.toNat < blockSize) :
    Answered (FsRequest.perform disk (.call (.write file memory buf size)))
      (files.serve (.call (.write file memory buf size))) := by
  have represents : Represents (FsState.mk disk []).disk dir := holds.represents
  obtain ⟨performed, result, unchanged⟩ :=
    represents.fsWriteFile_performed file memory buf.toNat size.toNat_lt
  rw [FileTable.serve]
  cases found : dir.find file.bytes with
  | none =>
      rw [dif_neg (holds.notMem found)]
      refine ⟨⟨dir, ?_⟩, ?_⟩
      · simp only [FsRequest.perform, unchanged found]
        exact holds
      · simp only [FsRequest.perform, fsWriteFile, represents.fsFindFile_eq, found]
        rfl
  | some slot =>
      rw [dif_pos (holds.mem found)]
      obtain ⟨entry, stored, named, looked⟩ := Directory.lookup_of_find found
      have placed := holds.represents.valid.placed slot entry stored
      rw [writesOfFile_of_short nonNull short placed.2 looked, Directory.resize_eq found stored] at performed
      rw [found] at result
      refine ⟨⟨dir.set slot (some { entry with size := size.toNat }), ?_⟩, ?_⟩
      · exact holds.store stored short performed named (NamedTable.room_of_mem (holds.mem found))
      · simp only [FsRequest.perform, result, fsWriteFile_console nonNull short represents found stored]
        rfl

private theorem take_contentOf (disk : Memory) (entry : Entry) (count : Nat) :
    (contentOf disk entry).take count = bytesAt disk (entry.block * 4096) (min count entry.size) := by
  rw [contentOf, bytesAt, bytesAt, ← List.map_take, List.take_range]

private theorem read_answered {memory : Memory} {buf size : UInt32} (holds : Holds disk dir files) :
    Answered (FsRequest.perform disk (.call (.read file memory buf size)))
      (files.serve (.call (.read file memory buf size))) := by
  have search := holds.represents.fsFindFile_eq file
  rw [FileTable.serve]
  cases found : dir.find file.bytes with
  | none =>
      rw [Finmap.lookup_eq_none.mpr (holds.notMem found)]
      rw [found] at search
      refine ⟨⟨dir, holds⟩, ?_⟩
      simp only [FsRequest.perform, fsReadFile, search, if_pos]
  | some slot =>
      obtain ⟨entry, stored, named, _⟩ := Directory.lookup_of_find found
      rw [found] at search
      have entryAt := holds.represents.entries slot entry stored
      have placed := holds.represents.valid.placed slot entry stored
      have short := holds.short slot entry stored
      have length : (contentOf disk entry).length = entry.size := length_bytesAt
      rw [← named, holds.lookup stored]
      refine ⟨⟨dir, holds⟩, ?_⟩
      have result : (fsReadFile disk file memory buf.toNat size.toNat).1 = entry.size := by
        rw [fsReadFile_eq search]
        exact entryAt.size
      have bytes : bytesAt ((fsReadFile disk file memory buf.toNat size.toNat).2.behind buf.toNat) 0
          (min size.toNat entry.size) = bytesAt disk (entry.block * 4096) (min size.toNat entry.size) := by
        refine List.map_congr_left fun index member => ?_
        have inside := List.mem_range.mp member
        have first : index / 4096 = 0 := by omega
        have within : index % 4096 = index := by omega
        have block : add32 (DirEntry.firstDataBlock disk slot) 0 = entry.block := by
          rw [entryAt.block]
          exact add32_of_lt (by omega)
        rw [Memory.behind, Nat.zero_add, fsReadFile_byte search size.toNat_lt (by omega), if_pos (by omega)]
        unfold fileByte fsReadBlock blockSize
        rw [first, within, block, Nat.mod_eq_of_lt (by omega)]
      have proper : entry.size ≠ minusOne := by
        unfold minusOne
        omega
      simp only [FsRequest.perform, result, if_neg proper, bytes, length, take_contentOf]

/-- One line for each slot. -/
theorem kprintf_each (line : Nat → KprintfCall) (slots : List Nat) (state : FsState) :
    slots.foldl (fun state slot => state.kprintf (line slot).format (line slot).args) state =
      ⟨state.disk, state.console ++ slots.map line⟩ := by
  induction slots generalizing state with
  | nil => rw [List.foldl_nil, List.map_nil, List.append_nil]
  | cons slot slots ih =>
      rw [List.foldl_cons, ih, List.map_cons, FsState.kprintf]
      simp

def usedSlots (disk : Memory) : List Nat := (List.range maxDirEntries).filter (DirEntry.isUsed disk)

def slotLine (disk : Memory) (slot : Nat) : KprintfCall :=
  ⟨"  %s (%d bytes)\n",
    [.text (disk.stringAt (DirEntry.address slot) 4294967296), .number (DirEntry.fileSize disk slot)]⟩

private theorem fsListFiles_eq (state : FsState) :
    fsListFiles state = ⟨state.disk, state.console ++
      if usedSlots state.disk = [] then [⟨"  (empty)\n", []⟩] else (usedSlots state.disk).map (slotLine state.disk)⟩ := by
  have printed := kprintf_each (slotLine state.disk) (usedSlots state.disk) state
  have shown : fsListFiles state =
      let listed := (usedSlots state.disk).foldl (fun state' slot =>
        state'.kprintf (slotLine state.disk slot).format (slotLine state.disk slot).args) state
      if usedSlots state.disk = [] then listed.kprintf "  (empty)\n" [] else listed := rfl
  rw [shown, printed]
  by_cases empty : usedSlots state.disk = []
  · simp only [empty, List.map_nil, List.append_nil]
    rfl
  · simp only [if_neg empty]

private theorem slotLines_eq (holds : Holds disk dir files) :
    (usedSlots disk).map (slotLine disk) = (dir.contents disk).map FileTable.listLine := by
  have represents := holds.represents
  rw [usedSlots, Directory.contents, List.map_filterMap, ← List.filterMap_eq_map', List.filterMap_filter]
  refine List.filterMap_congr fun slot member => ?_
  cases stored : dir slot with
  | none =>
      rw [represents.vacant slot (List.mem_range.mp member) stored]
      rfl
  | some entry =>
      have entryAt := represents.entries slot entry stored
      have named := represents.valid.named slot entry stored
      have text := entryAt.name.stringAt_eq (show entry.name.length < 4294967296 by omega)
      simp only [entryAt.used, if_true, slotLine, text, entryAt.size, Option.map_some, FileTable.listLine, contentOf,
        length_bytesAt]

private theorem list_answered (holds : Holds disk dir files) :
    Answered (FsRequest.perform disk .list) (files.serve .list) := by
  have none_iff : usedSlots disk = [] ↔ files.values.entries = 0 := by
    rw [holds.entries_eq, Multiset.coe_eq_zero, ← @List.map_eq_nil_iff _ _ FileTable.listLine, ← slotLines_eq holds,
      List.map_eq_nil_iff]
  rw [FileTable.serve]
  refine ⟨⟨dir, ?_⟩, ?_⟩
  · rw [FsRequest.perform, fsListFiles_eq]
    exact holds
  · rw [FsRequest.perform, fsListFiles_eq, FileTable.listLines]
    by_cases empty : usedSlots disk = []
    · rw [if_pos (none_iff.mp empty)]
      simp only [if_pos empty]
      rfl
    · rw [if_neg fun zero => empty (none_iff.mpr zero), holds.entries_eq, Multiset.map_coe, ← slotLines_eq holds]
      simp only [if_neg empty]
      rfl

/-- `editorSave` once the file is there. -/
theorem editorSave_of_found {E : EditorConfig} {ready : FsState} (named : E.filename.bytes ≠ [])
    (prepared : (if fsFindFile state.disk E.filename = none then (fsCreateFile state E.filename).2 else state) = ready)
    (represents : Represents ready.disk dir) (found : dir.find E.filename.bytes = some slot)
    (stored : dir slot = some entry) (stack : Memory) :
    (editorSave E state stack).2.console = ready.console ∧
      Performed ready.disk (editorSave E state stack).2.disk
        (dir.set slot (some { entry with size := (savedText E.rows).length })) [(entry.block, savedBlock E stack)] := by
  have search := represents.fsFindFile_eq E.filename
  rw [found] at search
  have block := (represents.entries slot entry stored).block
  have inside := (represents.valid.placed slot entry stored).2
  have length := saveRows_length E.rows stack
  have short : (savedText E.rows).length ≤ 4095 := by
    rw [savedText_length]
    exact Nat.min_le_right _ _
  have saved := storeSaved_performed represents stored (savedBlock E stack)
    (show (savedText E.rows).length < 4294967296 by omega)
  unfold editorSave
  rw [if_neg named]
  simp only [prepared, search, length]
  refine ⟨?_, ?_⟩
  · simp only [fsWriteBlock, block, if_neg (Nat.not_le.mpr (show entry.block < totalBlocks from inside))]
  · rw [savedBlock, length] at saved
    rw [savedBlock, length]
    exact saved

theorem Holds.saved {E : EditorConfig} {ready : FsState} (named : E.filename.bytes ≠ [])
    (prepared : (if fsFindFile state.disk E.filename = none then (fsCreateFile state E.filename).2 else state) = ready)
    (holds : Holds ready.disk dir files) (there : E.filename.bytes ∈ files.values) (stack : Memory)
    (room : files.Room E.filename.bytes) :
    (editorSave E state stack).2.console = ready.console ∧
      ∃ dir, Holds (editorSave E state stack).2.disk dir (files.put E.filename.bytes (savedText E.rows) room) := by
  obtain ⟨slot, found⟩ := Option.ne_none_iff_exists'.mp (holds.mem_iff.mp there)
  obtain ⟨entry, stored, same, _⟩ := Directory.lookup_of_find found
  obtain ⟨console, performed⟩ := editorSave_of_found named prepared holds.represents found stored stack
  have short : (savedText E.rows).length < 4096 := by
    rw [savedText_length]
    omega
  have next := holds.store stored short performed same room
  rw [(savedBlock_spec E stack).1] at next
  exact ⟨console, _, next⟩

private theorem save_answered {E : EditorConfig} {stack : Memory} (holds : Holds disk dir files)
    (short : E.filename.bytes.length < maxFilenameLen) :
    Answered (FsRequest.perform disk (.call (.save E stack))) (files.serve (.call (.save E stack))) := by
  have state : Holds (FsState.mk disk []).disk dir files := holds
  have search := state.represents.fsFindFile_eq E.filename
  rw [FileTable.serve]
  by_cases unnamed : E.filename.bytes = []
  · rw [if_pos unnamed]
    refine ⟨⟨dir, ?_⟩, ?_⟩
    · simp only [FsRequest.perform, editorSave, if_pos unnamed]
      exact holds
    · simp only [FsRequest.perform, editorSave, if_pos unnamed]
      rfl
  rw [if_neg unnamed]
  cases found : dir.find E.filename.bytes with
  | some slot =>
      have there := holds.mem found
      rw [dif_pos (NamedTable.room_of_mem there)]
      rw [found] at search
      obtain ⟨console, saved⟩ := Holds.saved unnamed (if_neg (by rw [search]; exact Option.some_ne_none slot)) state
        there stack (NamedTable.room_of_mem there)
      refine ⟨saved, ?_⟩
      simp only [FsRequest.perform, console]
      rfl
  | none =>
      rw [found] at search
      by_cases roomy : files.Room E.filename.bytes
      · rw [dif_pos roomy]
        obtain ⟨slot, index, room⟩ := holds.exists_room found roomy
        have created := state.create room short roomy
        have there : E.filename.bytes ∈ (files.put E.filename.bytes [] roomy).values :=
          Finmap.mem_insert.mpr (.inl rfl)
        obtain ⟨console, saved⟩ := Holds.saved unnamed (if_pos search) created there stack (NamedTable.room_of_mem there)
        rw [NamedTable.put_put] at saved
        refine ⟨saved, ?_⟩
        simp only [FsRequest.perform, console, fsCreateFile_console state.represents room]
        rfl
      · rw [dif_neg roomy]
        have refused := fsCreateFile_of_full state.represents found (holds.full roomy)
        refine ⟨⟨dir, ?_⟩, ?_⟩
        · simp only [FsRequest.perform, editorSave, if_neg unnamed, search, refused, if_true, FsState.kprintf]
          exact holds
        · simp only [FsRequest.perform, editorSave, if_neg unnamed, search, refused, if_true, FsState.kprintf]
          rfl

end Requests

/-! ## Every request -/

private theorem empty_holds (state : FsState) : Holds (fsInit state).disk Directory.empty NamedTable.empty := by
  refine ⟨fsInit_represents state, nofun, nofun, fun name content => ?_⟩
  rw [NamedTable.empty, Finmap.lookup_empty]
  exact iff_of_false nofun (by rintro ⟨_, _, stored, _⟩; cases stored)

private theorem request_answered {request : FsRequest} (holds : Holds disk dir files) (fits : request.Fits) :
    Answered (request.perform disk) (files.serve request) := by
  cases request with
  | list => exact list_answered holds
  | call call =>
      cases call with
      | create name => exact create_answered holds fits
      | delete name => exact delete_answered holds
      | write name memory buf size => exact write_answered holds fits.1 fits.2
      | read name memory buf size => exact read_answered holds
      | save E stack => exact save_answered holds fits

/-- Whatever is asked of the file system after `fs_init`, by the shell, the editor or programs: as
long as names fit a directory entry and files fit a block, every returned value, every message
and every byte read is that of a table of at most 64 named files. -/
theorem fs_answers_as_table (state : FsState) (requests : List FsRequest)
    (fitting : ∀ request ∈ requests, request.Fits) :
    answers (fun disk request => request.perform disk) (fsInit state).disk requests =
      answers FileTable.serve NamedTable.empty requests := by
  refine @answers_eq _ _ _ _ _ _ (fun disk files => ∃ dir, Holds disk dir files) FsRequest.Fits
    (fun disk files request related fits => ?_) _ _ ⟨_, empty_holds state⟩ requests fitting
  obtain ⟨dir, holds⟩ := related
  exact request_answered holds fits

/-- A file is created, written, listed, read in part and deleted. -/
def fileLife : List FsRequest :=
  [.call (.create nameA), .call (.write nameA (constantMemory 98) 4096 3), .list,
    .call (.read nameA (constantMemory 0) 8192 2), .call (.delete nameA), .call (.delete nameA)]

theorem fs_answers_as_table_life :
    answers (fun disk request => FsRequest.perform disk request) (fsInit blankState).disk fileLife =
      [⟨some 0, 0, []⟩, ⟨some 3, 0, []⟩, ⟨none, {⟨"  %s (%d bytes)\n", [.text [97], .number 3]⟩}, []⟩,
        ⟨some 3, 0, [98, 98]⟩, ⟨some 0, 0, []⟩,
        ⟨some minusOne, {⟨"easyfs: file '%s' not found\n", [.text [97]]⟩}, []⟩] := by
  rw [fs_answers_as_table blankState fileLife
    (by simp [fileLife, FsRequest.Fits, nameA, maxFilenameLen, blockSize])]
  decide +kernel

end ShedKernel.FileSystem
