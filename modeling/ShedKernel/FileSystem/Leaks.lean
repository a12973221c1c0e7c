import ShedKernel.FileSystem.Session
import ShedKernel.Shell.Commands

/-! Two runs that differ in old file contents. What a file shows is the same in both
exactly when the blocks that are read have been written since, or never differed. -/

set_option autoImplicit false

namespace ShedKernel.FileSystem

open Foundation Editor Shell

/-- Both disks hold the same used entries in the same slots. -/
def SameDirectory (left right : Memory) : Prop :=
  ∀ slot, slot < maxDirEntries → DirEntry.isUsed left slot = DirEntry.isUsed right slot ∧
    (DirEntry.isUsed left slot = true →
      (∀ text, left.HoldsString (DirEntry.address slot) text ↔
        right.HoldsString (DirEntry.address slot) text) ∧
      DirEntry.fileSize left slot = DirEntry.fileSize right slot ∧
      DirEntry.firstDataBlock left slot = DirEntry.firstDataBlock right slot)

/-- The call stores a whole block there. -/
def WritesBlock (state : FsState) (block : Nat) : FsCall → Prop
  | .write name _ buf size =>
      ∃ slot, fsFindFile state.disk name = some slot ∧
        ∃ place, place ≤ size.toNat / blockSize ∧ add32 buf.toNat (place * blockSize) ≠ 0 ∧
          block < totalBlocks ∧ block = DirEntry.firstDataBlock state.disk slot + place
  | .save E stack =>
      E.filename.bytes ≠ [] ∧
        ∃ slot, fsFindFile (editorSave E state stack).2.disk E.filename = some slot ∧
          block = DirEntry.firstDataBlock (editorSave E state stack).2.disk slot
  | _ => False

def WrittenSince : FsState → Nat → List FsCall → Prop
  | _, _, [] => False
  | state, block, call :: rest =>
      WritesBlock state block call ∨ WrittenSince (call.exec state) block rest

/-- `lsh_cat` prints the same text and `fs_read_file` gives the same bytes. -/
def SameFile (left right : Memory) (name : CString) : Prop :=
  (∀ stack (buf : UInt32), lshCatPrints left (some name) stack buf.toNat =
      lshCatPrints right (some name) stack buf.toNat) ∧
    ∀ memory (buf size : UInt32), fsReadFile left name memory buf.toNat size.toNat =
      fsReadFile right name memory buf.toNat size.toNat

/-! ## Blocks that a run writes -/

private theorem WritesBlock.iff_writes {state : FsState} {dir : Directory}
    (represents : Represents state.disk dir) (call : FsCall) (block : Nat) :
    WritesBlock state block call ↔ ∃ write ∈ dir.writes call, write.1 = block := by
  cases call with
  | create name => simp [WritesBlock, Directory.writes]
  | delete name => simp [WritesBlock, Directory.writes]
  | read name memory buf size => simp [WritesBlock, Directory.writes]
  | write name memory buf size =>
      simp only [WritesBlock, Directory.writes, Directory.writesOfFile, represents.fsFindFile_eq]
      rcases found : dir.find name.bytes with _ | slot
      · simp [Directory.lookup_eq_none found]
      obtain ⟨entry, stored, _, looked⟩ := Directory.lookup_of_find found
      have first := (represents.entries slot entry stored).block
      rw [looked]
      simp only [mem_fileWrites_iff]
      constructor
      · rintro ⟨_, same, place, low, nonNull, inside, rfl⟩
        cases same
        rw [first] at inside ⊢
        unfold blockSize at low nonNull
        exact ⟨_, ⟨place, by omega, by omega, nonNull, inside, rfl⟩, rfl⟩
      · rintro ⟨_, ⟨place, _, high, nonNull, inside, rfl⟩, rfl⟩
        exact ⟨slot, rfl, place, by unfold blockSize; omega, nonNull, inside, by rw [first]⟩
  | save E stack =>
      have performed := editorSave_performed represents E stack
      simp only [WritesBlock, Directory.writes, writesOfSave, performed.represents.fsFindFile_eq]
      by_cases unnamed : E.filename.bytes = []
      · simp [unnamed]
      have after : directoryAfterSave dir E stack =
          (directoryToSave dir E.filename.bytes).resize E.filename.bytes
            (saveRows E.rows 0 stack).1 := if_neg unnamed
      rw [if_neg unnamed]
      simp only [after, Directory.find_resize] at performed ⊢
      generalize directoryToSave dir E.filename.bytes = ready at performed ⊢
      rcases found : ready.find E.filename.bytes with _ | slot
      · simp [Directory.lookup_eq_none found]
      obtain ⟨entry, stored, _, looked⟩ := Directory.lookup_of_find found
      rw [Directory.resize_eq found stored] at performed
      have first := (performed.represents.entries slot _ (Directory.set_self _ _ _)).block
      simp [looked, first, unnamed, eq_comm]

private theorem WrittenSince.iff_writesAll {state : FsState} {dir : Directory}
    (represents : Represents state.disk dir) (calls : List FsCall) (block : Nat) :
    WrittenSince state block calls ↔ ∃ write ∈ dir.writesAll calls, write.1 = block := by
  induction calls generalizing state dir with
  | nil => simp [WrittenSince, Directory.writesAll]
  | cons call rest ih =>
      have next := (call.exec_performed represents).represents
      rw [WrittenSince, WritesBlock.iff_writes represents, ih next, Directory.writesAll]
      simp only [List.mem_append, or_and_right, exists_or]

/-- Disks that describe one directory agree after a run on the data blocks that it
writes and on those that they agreed on before, and on no others. -/
theorem fsRun_agree_iff {left right : FsState} {dir : Directory}
    (leftRepresents : Represents left.disk dir) (rightRepresents : Represents right.disk dir)
    (calls : List FsCall) {block : Nat} (isData : 3 ≤ block) :
    Memory.BlockAgree 4096 (fsRun left calls).disk (fsRun right calls).disk block ↔
      WrittenSince left block calls ∨ Memory.BlockAgree 4096 left.disk right.disk block := by
  have leftData := (fsRun_performed leftRepresents calls).data.agree isData
  have rightData := (fsRun_performed rightRepresents calls).data.agree isData
  rw [WrittenSince.iff_writesAll leftRepresents]
  constructor
  · intro agree
    by_cases written : ∃ write ∈ dir.writesAll calls, write.1 = block
    · exact .inl written
    · right
      have kept : ∀ disk : Memory, Memory.BlockAgree 4096
          (disk.applyWrites 4096 (dir.writesAll calls)) disk block := fun disk =>
        Memory.applyWrites_other fun write member same => written ⟨write, member, same⟩
      intro index inside
      rw [← kept left.disk index inside, ← kept right.disk index inside, ← leftData index inside,
        ← rightData index inside]
      exact agree index inside
  · intro either index inside
    rw [leftData index inside, rightData index inside]
    exact Memory.applyWrites_agree either.symm index inside

private theorem Represents.sameDirectory {left right : Memory} {leftDir rightDir : Directory}
    (leftRepresents : Represents left leftDir) (rightRepresents : Represents right rightDir)
    (same : SameDirectory left right) : leftDir = rightDir := by
  funext slot
  rcases leftStored : leftDir slot with _ | leftEntry
  · rcases rightStored : rightDir slot with _ | rightEntry
    · rfl
    · have inside := rightRepresents.valid.bounded slot rightEntry rightStored
      have used := (same slot inside).1
      rw [(rightRepresents.entries slot rightEntry rightStored).used,
        leftRepresents.vacant slot inside leftStored] at used
      cases used
  · have inside := leftRepresents.valid.bounded slot leftEntry leftStored
    have leftHolds := leftRepresents.entries slot leftEntry leftStored
    obtain ⟨used, names, sizes, blocks⟩ := (same slot inside).imp id fun rest => rest leftHolds.used
    rw [leftHolds.used] at used
    obtain ⟨rightEntry, rightStored⟩ := rightRepresents.entry_of_used inside used.symm
    have rightHolds := rightRepresents.entries slot rightEntry rightStored
    have name := ((names leftEntry.name).mp leftHolds.name).unique rightHolds.name
    rw [leftHolds.size, rightHolds.size] at sizes
    rw [leftHolds.block, rightHolds.block] at blocks
    rw [rightStored]
    cases leftEntry
    cases rightEntry
    simp_all

/-! ## What a file shows -/

/-- The blocks that reading a file reaches; their numbers wrap around with the
32-bit offset of a block. -/
theorem fsReadBlock_agree_iff {left right : Memory} {block : Nat} :
    (∀ index, index < 4096 → fsReadBlock left block index = fsReadBlock right block index) ↔
      Memory.BlockAgree 4096 left right (block % 1048576) := by
  have offset : block * blockSize % 4294967296 = block % 1048576 * 4096 := by
    unfold blockSize
    omega
  simp only [fsReadBlock, offset, Memory.BlockAgree]

private theorem sameFile_iff {left right : Memory} {dir : Directory} (leftRepresents : Represents left dir)
    (rightRepresents : Represents right dir) {name : CString} {slot : Nat} {entry : Entry}
    (found : dir.find name.bytes = some slot) (stored : dir slot = some entry) :
    SameFile left right name ↔ ∀ place, place ≤ entry.size / 4096 →
      Memory.BlockAgree 4096 left right ((entry.block + place) % 1048576) := by
  have leftHolds := leftRepresents.entries slot entry stored
  have rightHolds := rightRepresents.entries slot entry stored
  have placed := leftRepresents.valid.placed slot entry stored
  have small : entry.size < 4294967296 := leftHolds.size ▸ Memory.load32_lt _ _
  have leftFound := (leftRepresents.fsFindFile_eq name).trans found
  have rightFound := (rightRepresents.fsFindFile_eq name).trans found
  have blocks : ∀ place, place ≤ entry.size / 4096 →
      add32 entry.block place = entry.block + place := fun place _ => add32_of_lt (by omega)
  constructor
  · rintro ⟨_, sameRead⟩ place inside
    rw [← fsReadBlock_agree_iff]
    intro index indexInside
    have read := sameRead (fun _ => 0) 0 (UInt32.ofNat entry.size)
    have size : (UInt32.ofNat entry.size).toNat = entry.size := by
      rw [UInt32.toNat_ofNat', Nat.mod_eq_of_lt small]
    simp only [fsReadFile, leftFound, rightFound, leftHolds.size, rightHolds.size, size,
      Nat.lt_irrefl, ↓reduceIte, Prod.mk.injEq, true_and] at read
    have byte := congrFun read (add32 (0 : UInt32).toNat (place * 4096 + index))
    unfold blockSize at byte
    rwa [readBlocks_inside (by omega) (by omega) (by omega),
      readBlocks_inside (by omega) (by omega) (by omega), leftHolds.block, rightHolds.block,
      show (place * 4096 + index) / 4096 = place by omega,
      show (place * 4096 + index) % 4096 = index by omega, blocks place inside] at byte
  · intro agree
    have same : ∀ place, place ≤ entry.size / 4096 → ∀ index, index < 4096 →
        fsReadBlock left (add32 entry.block place) index =
          fsReadBlock right (add32 entry.block place) index := by
      intro place inside
      rw [blocks place inside]
      exact fsReadBlock_agree_iff.mpr (agree place inside)
    constructor
    · intro stack buf
      have first := same 0 (Nat.zero_le _)
      rw [blocks 0 (Nat.zero_le _), Nat.add_zero] at first
      simp only [lshCatPrints, leftFound, rightFound, leftHolds.block, rightHolds.block,
        @Memory.blit32_congr stack buf.toNat blockSize _ _ first]
    · intro memory buf size
      have read := @readBlocks_congr left right memory slot buf.toNat
        (if entry.size / blockSize + 1 < size.toNat / blockSize + 1 then entry.size / blockSize + 1
          else size.toNat / blockSize + 1) 0 (leftHolds.block.trans rightHolds.block.symm)
        fun place _ high => by
          rw [leftHolds.block]
          refine same place ?_
          unfold blockSize at high
          split at high <;> omega
      simp only [fsReadFile, leftFound, rightFound, leftHolds.size, rightHolds.size, read]

private theorem sameFile_of_missing {left right : Memory} {dir : Directory}
    (leftRepresents : Represents left dir) (rightRepresents : Represents right dir) {name : CString}
    (missing : dir.find name.bytes = none) : SameFile left right name := by
  have leftMissing := (leftRepresents.fsFindFile_eq name).trans missing
  have rightMissing := (rightRepresents.fsFindFile_eq name).trans missing
  constructor
  · intro stack buf
    simp only [lshCatPrints, leftMissing, rightMissing]
  · intro memory buf size
    simp only [fsReadFile, leftMissing, rightMissing]

/-- A data block holds the same in both runs because it was stored since the file was
created or because it did not differ then. A metadata block is reached only by a
block number that wraps around. -/
def Settled (left right : FsState) (later : List FsCall) (block : Nat) : Prop :=
  if block < firstDataBlock then
    Memory.BlockAgree blockSize (fsRun left later).disk (fsRun right later).disk block
  else WrittenSince left block later ∨ Memory.BlockAgree blockSize left.disk right.disk block

/-- The state after a history and the creation of a file. -/
def createdAfter (state : FsState) (history : List FsCall) (name : CString) : FsState :=
  (fsCreateFile (fsRun (fsInit state) history) name).2

/-- Two histories with one directory, then the creation of a file and the same calls:
the file shows the same in both exactly when every block that reading it reaches
is settled. -/
theorem same_file_iff_settled (state : FsState) (first second later : List FsCall) (name : CString)
    (same : SameDirectory (fsRun (fsInit state) first).disk (fsRun (fsInit state) second).disk) :
    SameFile (fsRun (createdAfter state first name) later).disk
        (fsRun (createdAfter state second name) later).disk name ↔
      ∀ slot, fsFindFile (fsRun (createdAfter state first name) later).disk name = some slot →
        ∀ place, place ≤
            DirEntry.fileSize (fsRun (createdAfter state first name) later).disk slot / blockSize →
          Settled (createdAfter state first name) (createdAfter state second name) later
            ((DirEntry.firstDataBlock (fsRun (createdAfter state first name) later).disk slot +
              place) % 1048576) := by
  have firstRepresents := reachable_represents state first
  have secondRepresents := reachable_represents state second
  rw [← firstRepresents.sameDirectory secondRepresents same] at secondRepresents
  have leftCreated : Represents (createdAfter state first name).disk _ :=
    (firstRepresents.fsCreateFile_performed name).1.represents
  have rightCreated : Represents (createdAfter state second name).disk _ :=
    (secondRepresents.fsCreateFile_performed name).1.represents
  generalize createdAfter state first name = left at *
  generalize createdAfter state second name = right at *
  have leftRepresents := (fsRun_performed leftCreated later).represents
  have rightRepresents := (fsRun_performed rightCreated later).represents
  have settled : ∀ block, Settled left right later block ↔
      Memory.BlockAgree 4096 (fsRun left later).disk (fsRun right later).disk block := by
    intro block
    unfold Settled
    split
    · exact Iff.rfl
    · next isData => exact (fsRun_agree_iff leftCreated rightCreated later
        (Nat.le_of_not_lt isData)).symm
  generalize ((Directory.empty.afterAll first).create name.bytes).afterAll later = dir
    at leftRepresents rightRepresents
  have search := leftRepresents.fsFindFile_eq name
  simp only [settled, search]
  rcases found : dir.find name.bytes with _ | slot
  · exact ⟨fun _ slot none => (by cases none),
      fun _ => sameFile_of_missing leftRepresents rightRepresents found⟩
  obtain ⟨entry, stored, _⟩ := Directory.lookup_of_find found
  have holds := leftRepresents.entries slot entry stored
  rw [sameFile_iff leftRepresents rightRepresents found stored]
  constructor
  · intro agree other equal
    cases equal
    rw [holds.size, holds.block]
    exact agree
  · intro agree
    have here := agree slot rfl
    rwa [holds.size, holds.block] at here

/-- A file written and deleted, whose block the next file gets. -/
def deletedFile (value : UInt8) : List FsCall :=
  [.create nameB, .write nameB (fun place => if place = 4096 then value else 0) 4096 1, .delete nameB]

private theorem deletedFile_sameDirectory :
    SameDirectory (fsRun (fsInit blankState) (deletedFile 65)).disk
      (fsRun (fsInit blankState) (deletedFile 66)).disk := by
  have vacant : ∀ value ∈ [(65 : UInt8), 66], ∀ slot, slot < maxDirEntries →
      DirEntry.isUsed (fsRun (fsInit blankState) (deletedFile value)).disk slot = false := by
    decide +kernel
  intro slot inside
  have left := vacant 65 (by decide) slot inside
  have right := vacant 66 (by decide) slot inside
  exact ⟨left.trans right.symm, fun used => absurd (left.symm.trans used) (by decide)⟩

def rewrite : List FsCall := [.write nameA (constantMemory 67) 4096 10]

/-- Once written, the new file shows the same whatever the deleted one held. -/
theorem same_file_iff_settled_rewrite :
    SameFile (fsRun (createdAfter blankState (deletedFile 65) nameA) rewrite).disk
      (fsRun (createdAfter blankState (deletedFile 66) nameA) rewrite).disk nameA := by
  refine (same_file_iff_settled blankState (deletedFile 65) (deletedFile 66) rewrite nameA
    deletedFile_sameDirectory).mpr ?_
  have found : fsFindFile (fsRun (createdAfter blankState (deletedFile 65) nameA) rewrite).disk
      nameA = some 0 := by decide +kernel
  have size : DirEntry.fileSize (fsRun (createdAfter blankState (deletedFile 65) nameA)
      rewrite).disk 0 / blockSize = 0 := by decide +kernel
  have block : DirEntry.firstDataBlock (fsRun (createdAfter blankState (deletedFile 65) nameA)
      rewrite).disk 0 = 3 := by decide +kernel
  intro slot isFound place inside
  rw [found] at isFound
  cases isFound
  rw [size] at inside
  obtain rfl := Nat.le_zero.mp inside
  rw [block, Settled, if_neg (by decide)]
  exact .inl (.inl ⟨0, by decide +kernel, 0, by decide, by decide, by decide, by decide +kernel⟩)

/-- A file created and never written shows the byte of the deleted one. -/
theorem deleted_byte_shows : ¬∀ (first second later : List FsCall) (name : CString),
    SameDirectory (fsRun (fsInit blankState) first).disk (fsRun (fsInit blankState) second).disk →
    SameFile (fsRun (createdAfter blankState first name) later).disk
      (fsRun (createdAfter blankState second name) later).disk name := by
  intro noLeak
  obtain ⟨sameText, _⟩ := noLeak (deletedFile 65) (deletedFile 66) [] nameA
    deletedFile_sameDirectory
  have same := sameText (fun _ => 0) 4096
  revert same
  decide +kernel

end ShedKernel.FileSystem
