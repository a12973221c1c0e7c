import ShedKernel.Editor.QuitProperties
import ShedKernel.Editor.SaveProperties

/-! What a save leaves on the disk: as much of the text as fits in front of the terminator of
one block, in the block of the file and nowhere else. -/

set_option autoImplicit false

namespace ShedKernel.Editor

open Foundation FileSystem Memory

/-! The local buffer. -/

/-- The text of the rows as far as a block has room for it. -/
def savedText (rows : List (List UInt8)) : List UInt8 := (encodeRows rows).take (blockSize - 1)

theorem savedText_length (rows : List (List UInt8)) :
    (savedText rows).length = min (encodeRows rows).length 4095 := by
  rw [savedText, List.length_take, Nat.min_comm]
  rfl

theorem saveRows_length (rows : List (List UInt8)) (buf : Memory) :
    (saveRows rows 0 buf).1 = (savedText rows).length :=
  (saveRows_spec (Nat.zero_le 4095)).1.trans (Nat.zero_add _)

/-- The buffer of `editorSave` begins with the text and a terminator, and keeps within a block. -/
theorem savedBlock_spec (E : EditorConfig) (stack : Memory) :
    bytesAt (savedBlock E stack) 0 (savedText E.rows).length = savedText E.rows ∧
      savedBlock E stack (savedText E.rows).length = 0 ∧
      ∀ other, blockSize ≤ other → savedBlock E stack other = stack other := by
  obtain ⟨_, held, kept⟩ := @saveRows_spec E.rows 0 stack (Nat.zero_le 4095)
  have length := saveRows_length E.rows stack
  have bound := savedText_length E.rows
  unfold savedBlock
  rw [length]
  refine ⟨?_, storeByte_self _ _ _, fun other outside => ?_⟩
  · refine (bytesAt_congr fun index inside => ?_).trans held
    exact storeByte_of_ne (by omega)
  · unfold blockSize at outside
    rw [storeByte_of_ne (by omega), kept _ (by omega)]

/-! The disk. -/

/-- The directory entries of the other slots hold the same bytes. -/
def OtherSlotsKept (disk changed : Memory) (slot : Nat) : Prop :=
  ∀ other, other < maxDirEntries → other ≠ slot → ∀ offset, offset < 28 →
    changed (DirEntry.address other + offset) = disk (DirEntry.address other + offset)

theorem OtherSlotsKept.of_frame {disk changed : Memory} {slot : Nat}
    (same : ∀ place, 8192 ≤ place → place < 12288 →
      place < 8192 + slot * 28 ∨ 8192 + slot * 28 + 28 ≤ place → changed place = disk place) :
    OtherSlotsKept disk changed slot := by
  intro other inside different offset within
  have address := DirEntry.address_eq other
  unfold maxDirEntries at inside
  exact same _ (by omega) (by omega) (by omega)

theorem OtherSlotsKept.trans {disk middle changed : Memory} {slot : Nat}
    (first : OtherSlotsKept disk middle slot) (second : OtherSlotsKept middle changed slot) :
    OtherSlotsKept disk changed slot :=
  fun other inside different offset within =>
    (second other inside different offset within).trans (first other inside different offset within)

section Disk

variable {state : FsState} {dir : Directory} {name : CString} {slot : Nat}

private theorem fsCreateFile_disk (represents : Represents state.disk dir) {index : Nat}
    (room : dir.room name.bytes = some (slot, 3 + index)) :
    (fsCreateFile state name).2.disk =
      fillEntry (fsMarkBlockUsed state.disk index).2 slot name.bytes (3 + index) := by
  obtain ⟨missing, slotFree, found, blockFree, same⟩ := Directory.room_eq_some room
  obtain rfl : index = found := by omega
  have inside := (Directory.freeBlock_eq_some blockFree).1
  have positive : isNegative (3 + index) = false := isNegative_of_lt (by omega)
  unfold fsCreateFile
  simp only [represents.fsFindFile_eq, missing, represents.freeSlot_eq, slotFree,
    represents.fsAllocBlock_eq, blockFree, positive]
  rfl

/-- A new file has the slot that its name is found in. -/
theorem created_slot {index : Nat} (valid : dir.Valid)
    (room : dir.room name.bytes = some (slot, 3 + index)) {found : Nat}
    (search : (dir.create name.bytes).find name.bytes = some found) : found = slot := by
  obtain ⟨missing, _⟩ := Directory.room_eq_some room
  obtain ⟨entry, stored, named, _⟩ := Directory.lookup_of_find search
  unfold Directory.create at stored
  simp only [room] at stored
  by_contra different
  rw [Directory.set_of_ne different] at stored
  exact (Directory.find_eq_none_iff valid).mp missing found entry stored named

private theorem fsCreateFile_otherSlots (represents : Represents state.disk dir)
    (search : (dir.create name.bytes).find name.bytes = some slot) :
    OtherSlotsKept state.disk (fsCreateFile state name).2.disk slot := by
  obtain ⟨_, _, unchanged⟩ := represents.fsCreateFile_performed name
  cases room : dir.room name.bytes with
  | none =>
      rw [unchanged room]
      exact .of_frame fun _ _ _ _ => rfl
  | some place =>
      obtain ⟨made, block⟩ := place
      obtain ⟨_, _, index, blockFree, rfl⟩ := Directory.room_eq_some room
      obtain rfl := created_slot represents.valid room search
      have inside := (Directory.freeBlock_eq_some blockFree).1
      have free : state.disk.bit 4096 index = false :=
        (represents.bits index inside).trans (Directory.freeBlock_eq_some blockFree).2
      rw [fsCreateFile_disk represents room]
      refine .of_frame fun place low _ outside => ?_
      rw [fillEntry_of_outside outside]
      exact (fsMarkBlockUsed_changed represents inside free).same place (.inr (.inr low))

private theorem prepared_otherSlots (represents : Represents state.disk dir)
    (search : (directoryToSave dir name.bytes).find name.bytes = some slot) :
    OtherSlotsKept state.disk
      (if fsFindFile state.disk name = none then (fsCreateFile state name).2 else state).disk
      slot := by
  unfold directoryToSave at search
  rw [represents.fsFindFile_eq]
  split
  · next missing =>
      rw [if_pos missing] at search
      exact fsCreateFile_otherSlots represents search
  · exact .of_frame fun _ _ _ _ => rfl

/-- A save changes one directory entry, that of the file it writes. -/
theorem editorSave_otherSlots (represents : Represents state.disk dir) (E : EditorConfig)
    (stack : Memory) (found : fsFindFile (editorSave E state stack).2.disk E.filename = some slot) :
    OtherSlotsKept state.disk (editorSave E state stack).2.disk slot := by
  have performed := editorSave_performed represents E stack
  rw [performed.represents.fsFindFile_eq] at found
  by_cases unnamed : E.filename.bytes = []
  · unfold editorSave
    rw [if_pos unnamed]
    exact .of_frame fun _ _ _ _ => rfl
  rw [directoryAfterSave, if_neg unnamed, Directory.find_resize] at found
  have prepared := prepared_performed represents E.filename
  have kept := prepared_otherSlots represents found
  unfold editorSave
  rw [if_neg unnamed]
  dsimp only
  generalize (if fsFindFile state.disk E.filename = none then
    (fsCreateFile state E.filename).2 else state) = ready at prepared kept ⊢
  rw [prepared.represents.fsFindFile_eq, found]
  refine kept.trans (.of_frame fun place low high outside => ?_)
  have address := DirEntry.address_eq slot
  obtain ⟨entry, stored, _⟩ := Directory.lookup_of_find found
  have placed := prepared.represents.valid.placed slot entry stored
  simp only
  unfold DirEntry.setFileSize
  rw [Memory.store32_of_outside (by omega), fsWriteBlock_disk,
    (prepared.represents.entries slot entry stored).block]
  refine Memory.applyWrites_of_outside fun write member => ?_
  unfold blockWrite at member
  simp only at member
  rw [if_neg (by omega), List.mem_singleton] at member
  subst member
  simp only
  omega

theorem OtherSlotsKept.fields {disk changed : Memory} (kept : OtherSlotsKept disk changed slot)
    {other : Nat} (inside : other < maxDirEntries) (different : other ≠ slot) :
    DirEntry.isUsed changed other = DirEntry.isUsed disk other ∧
      DirEntry.firstDataBlock changed other = DirEntry.firstDataBlock disk other := by
  have byte := kept other inside different
  refine ⟨congrArg (· != 0) (byte 24 (by decide)), Memory.load32_congr fun place low high => ?_⟩
  have offset := byte (place - DirEntry.address other) (by omega)
  rwa [Nat.add_sub_cancel' (by omega)] at offset

/-- The block that a save writes is that of the file. -/
theorem writesOfSave_block {disk : Memory} {E : EditorConfig} {stack : Memory}
    (represents : Represents disk (directoryAfterSave dir E stack))
    (found : fsFindFile disk E.filename = some slot) {write : BlockWrite}
    (member : write ∈ writesOfSave dir E stack) : write.1 = DirEntry.firstDataBlock disk slot := by
  unfold writesOfSave at member
  rw [represents.fsFindFile_eq] at found
  split at member
  · cases member
  · next named =>
      rw [directoryAfterSave, if_neg named, Directory.find_resize] at found
      obtain ⟨entry, stored, _, looked⟩ := Directory.lookup_of_find found
      rw [looked, List.mem_singleton] at member
      have resized : directoryAfterSave dir E stack slot =
          some { entry with size := (saveRows E.rows 0 stack).1 } := by
        rw [directoryAfterSave, if_neg named, Directory.resize_eq found stored, Directory.set_self]
      rw [member, (represents.entries slot _ resized).block]

private theorem editorSave_otherData (represents : Represents state.disk dir) (E : EditorConfig)
    (stack : Memory) (found : fsFindFile (editorSave E state stack).2.disk E.filename = some slot)
    {other : Nat} (inside : other < maxDirEntries) (different : other ≠ slot)
    (used : DirEntry.isUsed state.disk other = true) :
    BlockAgree blockSize (editorSave E state stack).2.disk state.disk
      (DirEntry.firstDataBlock state.disk other) := by
  have performed := editorSave_performed represents E stack
  have after := performed.represents.consistent
  have kept := editorSave_otherSlots represents E stack found
  obtain ⟨sameUsed, sameBlock⟩ := kept.fields inside different
  have search := found
  rw [performed.represents.fsFindFile_eq] at search
  obtain ⟨slotInside, ⟨entry, stored, _⟩, _⟩ := Directory.find_eq_some search
  have slotUsed := (performed.represents.entries slot entry stored).used
  have placed := represents.consistent.placed other inside used
  have apart : ∀ write ∈ writesOfSave dir E stack,
      write.1 ≠ DirEntry.firstDataBlock state.disk other := by
    intro write member same
    rw [writesOfSave_block performed.represents found member, ← sameBlock] at same
    exact different (after.distinct slot other slotInside inside slotUsed
      (sameUsed.trans used) same).symm
  intro index within
  exact (performed.data.agree placed.1 index within).trans (applyWrites_other apart index within)

end Disk

/-- A save leaves the first bytes of the text, as many as fit in front of a terminator in one
block, in the file of that name, and touches no other file. -/
theorem editorSave_writes_text (state : FsState) (calls : List FsCall) (E : EditorConfig)
    (stack : Memory) (named : E.filename.bytes ≠ []) (short : E.filename.bytes.length ≤ 15)
    (saveable : Saveable (fsRun (fsInit state) calls) E.filename) :
    let before := (fsRun (fsInit state) calls).disk
    let after := (editorSave E (fsRun (fsInit state) calls) stack).2.disk
    let text := (encodeRows E.rows).take (blockSize - 1)
    (∀ index, blockSize ≤ index → savedBlock E stack index = stack index) ∧
      ∃ slot, fsFindFile after E.filename = some slot ∧
        DirEntry.fileSize after slot = text.length ∧
        bytesAt (fsReadBlock after (DirEntry.firstDataBlock after slot)) 0 text.length = text ∧
        text.length < blockSize ∧
        fsReadBlock after (DirEntry.firstDataBlock after slot) text.length = 0 ∧
        OtherSlotsKept before after slot ∧
        ∀ other, other < maxDirEntries → other ≠ slot → DirEntry.isUsed before other = true →
          BlockAgree blockSize after before (DirEntry.firstDataBlock before other) := by
  have represents := reachable_represents state calls
  obtain ⟨slot, found, size, held⟩ := editorSave_saved represents E stack named short saveable
  obtain ⟨text, ended, kept⟩ := savedBlock_spec E stack
  have bound : (savedText E.rows).length < 4096 := by
    rw [savedText_length]
    omega
  refine ⟨kept, slot, found, ?_, ?_, bound, ?_, ?_, ?_⟩
  · exact size.trans (saveRows_length E.rows stack)
  · refine (bytesAt_congr fun index inside => ?_).trans text
    exact held _ (Nat.lt_of_le_of_lt (Nat.zero_add index).le (inside.trans bound))
  · exact (held _ bound).trans ended
  · exact editorSave_otherSlots represents E stack found
  · exact fun other => editorSave_otherData represents E stack found

theorem editorSave_writes_text_oneRow : ∃ slot,
    fsFindFile (editorSave oneRowEditor (fsRun (fsInit blankState) []) (constantMemory 7)).2.disk
      nameA = some slot ∧
    DirEntry.fileSize
      (editorSave oneRowEditor (fsRun (fsInit blankState) []) (constantMemory 7)).2.disk slot = 2 := by
  obtain ⟨_, slot, found, size, _⟩ := editorSave_writes_text blankState [] oneRowEditor
    (constantMemory 7) (by decide) (by decide) oneRowEditor_saveable
  exact ⟨slot, found, size⟩

end ShedKernel.Editor
