import Mathlib.Data.List.Induction
import ShedKernel.FileSystem.Session

/-! When the directory is a set of names. Entries keep 15 bytes of a name, and
lookups compare all of it. -/

set_option autoImplicit false

namespace ShedKernel.FileSystem

open Foundation

inductive DirCall where
  | create (name : CString)
  | delete (name : CString)

namespace DirCall

/-- The call with its result. -/
def exec (state : FsState) : DirCall → Nat × FsState
  | create name => fsCreateFile state name
  | delete name => fsDeleteFile state name

def after (dir : Directory) : DirCall → Directory
  | create name => dir.create name.bytes
  | delete name => dir.delete name.bytes

end DirCall

def dirRun (state : FsState) (calls : List DirCall) : FsState :=
  calls.foldl (fun state call => (call.exec state).2) state

/-- No two used entries hold the same name. -/
def UniqueNames (disk : Memory) : Prop :=
  ∀ left right, left < maxDirEntries → right < maxDirEntries →
    DirEntry.isUsed disk left = true → DirEntry.isUsed disk right = true →
    ∀ text, disk.HoldsString (DirEntry.address left) text →
      disk.HoldsString (DirEntry.address right) text → left = right

/-- A creation that succeeds makes the entry that a lookup finds, and cannot be
repeated; after a deletion that succeeds a lookup finds nothing. -/
def Served (state : FsState) : DirCall → Prop
  | .create name =>
      (fsCreateFile state name).1 = 0 →
        (∃ slot, fsFindFile (fsCreateFile state name).2.disk name = some slot ∧
          DirEntry.isUsed state.disk slot = false ∧
          DirEntry.isUsed (fsCreateFile state name).2.disk slot = true) ∧
        (fsCreateFile (fsCreateFile state name).2 name).1 = minusOne
  | .delete name =>
      (fsDeleteFile state name).1 = 0 →
        fsFindFile (fsDeleteFile state name).2.disk name = none

/-- A new name fits an entry, unless there is no slot or no block to create it. -/
def FitsOrFull (state : FsState) : DirCall → Prop
  | .create name =>
      name.bytes.length < maxFilenameLen ∨
        (∀ slot, slot < maxDirEntries → DirEntry.isUsed state.disk slot = true) ∨
        ∀ block, block < numDataBlocks → fsBlockIsFree state.disk block = false
  | .delete _ => True

theorem DirCall.exec_performed {state : FsState} {dir : Directory}
    (represents : Represents state.disk dir) (call : DirCall) :
    Represents (call.exec state).2.disk (call.after dir) := by
  cases call with
  | create name => exact (represents.fsCreateFile_performed name).1.represents
  | delete name => exact (represents.fsDeleteFile_performed name).1.represents

/-! ## Names of a directory -/

namespace Directory

def Unique (dir : Directory) : Prop :=
  ∀ left right leftEntry rightEntry, dir left = some leftEntry → dir right = some rightEntry →
    leftEntry.name = rightEntry.name → left = right

private theorem empty_unique : empty.Unique := fun _ _ _ _ stored => by cases stored

private theorem Unique.find_eq {dir : Directory} (unique : dir.Unique) (valid : dir.Valid) {slot : Nat}
    {entry : Entry} (stored : dir slot = some entry) : dir.find entry.name = some slot := by
  rcases found : dir.find entry.name with _ | other
  · exact absurd rfl ((find_eq_none_iff valid).mp found slot entry stored)
  · obtain ⟨otherEntry, otherStored, same, _⟩ := lookup_of_find found
    rw [unique _ _ _ _ otherStored stored same]

theorem Unique.erase {dir : Directory} (unique : dir.Unique) (slot : Nat) :
    (dir.set slot none).Unique :=
  fun _ _ _ _ left right => unique _ _ _ _ (of_erased left) (of_erased right)

theorem Unique.delete {dir : Directory} (unique : dir.Unique) (name : List UInt8) :
    (dir.delete name).Unique := by
  unfold Directory.delete
  split
  · exact unique.erase _
  · exact unique

theorem Unique.create {dir : Directory} (unique : dir.Unique) (valid : dir.Valid)
    {name : List UInt8} (fits : name.length ≤ 15 ∨ dir.room name = none) :
    (dir.create name).Unique := by
  rcases room : dir.room name with _ | ⟨slot, block⟩
  · unfold Directory.create
    rw [room]
    exact unique
  have short : name.take 15 = name := by
    rcases fits with short | none
    · exact List.take_of_length_le short
    · rw [room] at none
      cases none
  have unnamed := (find_eq_none_iff valid).mp (room_eq_some room).1
  unfold Directory.create
  rw [room, short]
  intro left right leftEntry rightEntry leftStored rightStored same
  simp only [set] at leftStored rightStored
  split at leftStored
  · next leftHere =>
      split at rightStored
      · next rightHere => rw [leftHere, rightHere]
      · cases leftStored
        exact absurd same.symm (unnamed right rightEntry rightStored)
  · split at rightStored
    · cases rightStored
      exact absurd same (unnamed left leftEntry leftStored)
    · exact unique _ _ _ _ leftStored rightStored same

end Directory

private theorem Represents.uniqueNames_iff {disk : Memory} {dir : Directory}
    (represents : Represents disk dir) : UniqueNames disk ↔ dir.Unique := by
  constructor
  · intro unique left right leftEntry rightEntry leftStored rightStored same
    have leftHolds := represents.entries left leftEntry leftStored
    have rightHolds := represents.entries right rightEntry rightStored
    exact unique left right (represents.valid.bounded _ _ leftStored)
      (represents.valid.bounded _ _ rightStored) leftHolds.used rightHolds.used leftEntry.name
      leftHolds.name (same ▸ rightHolds.name)
  · intro unique left right leftInside rightInside leftUsed rightUsed text leftText rightText
    obtain ⟨leftEntry, leftStored⟩ := represents.entry_of_used leftInside leftUsed
    obtain ⟨rightEntry, rightStored⟩ := represents.entry_of_used rightInside rightUsed
    have leftName := (represents.entries left leftEntry leftStored).name.unique leftText
    have rightName := (represents.entries right rightEntry rightStored).name.unique rightText
    exact unique _ _ _ _ leftStored rightStored (leftName.trans rightName.symm)

/-! ## One call -/

namespace Directory

private theorem room_eq_none {dir : Directory} {name : List UInt8}
    (full : dir.freeSlot = none ∨ dir.freeBlock = none) : dir.room name = none := by
  unfold room
  rcases full with slotNone | blockNone
  · rw [slotNone]
    split <;> simp_all
  · rw [blockNone]
    split <;> simp_all

private theorem delete_eq {dir : Directory} {name : List UInt8} {slot : Nat}
    (found : dir.find name = some slot) : dir.delete name = dir.set slot none := by
  unfold delete
  rw [found]

/-- No entry has a name of more than 15 bytes. -/
theorem Valid.find_long {dir : Directory} (valid : dir.Valid) {name : List UInt8}
    (long : 15 < name.length) : dir.find name = none := by
  refine (find_eq_none_iff valid).mpr fun slot entry stored same => ?_
  have := valid.named slot entry stored
  rw [same] at this
  omega

end Directory

private theorem Represents.fitsOrFull_iff {state : FsState} {dir : Directory}
    (represents : Represents state.disk dir) (name : CString) :
    FitsOrFull state (.create name) ↔
      name.bytes.length ≤ 15 ∨ dir.freeSlot = none ∨ dir.freeBlock = none := by
  have slots : dir.freeSlot = none ↔ ∀ slot, slot < maxDirEntries →
      DirEntry.isUsed state.disk slot = true := by
    rw [← represents.freeSlot_eq, findSlot, List.find?_range_eq_none]
    simp
  have blocks : dir.freeBlock = none ↔ ∀ block, block < numDataBlocks →
      fsBlockIsFree state.disk block = false := by
    unfold Directory.freeBlock
    rw [List.find?_range_eq_none]
    refine forall_congr' fun block => forall_congr' fun inside => ?_
    unfold fsBlockIsFree
    rw [superblock_numDataBlocks represents.superblock, if_neg (Nat.not_le_of_lt inside)]
    rw [show state.disk.bit (bitmapBlock * blockSize) block = _ from represents.bits block inside]
    simp
  rw [slots, blocks, FitsOrFull, maxFilenameLen, Nat.lt_succ_iff]

theorem Represents.served {state : FsState} {dir : Directory} (represents : Represents state.disk dir)
    (unique : dir.Unique) {call : DirCall} (fits : FitsOrFull state call) :
    Served state call ∧ (call.after dir).Unique := by
  cases call with
  | create name =>
      have fitsRoom : name.bytes.length ≤ 15 ∨ dir.room name.bytes = none :=
        ((represents.fitsOrFull_iff name).mp fits).imp id Directory.room_eq_none
      obtain ⟨performed, result, _⟩ := represents.fsCreateFile_performed name
      have uniqueAfter := unique.create represents.valid fitsRoom
      refine ⟨fun succeeded => ?_, uniqueAfter⟩
      rcases room : dir.room name.bytes with _ | ⟨slot, block⟩
      · rw [result, room] at succeeded
        cases succeeded
      have short : name.bytes.take 15 = name.bytes := by
        rcases fitsRoom with short | none
        · exact List.take_of_length_le short
        · rw [room] at none
          cases none
      have stored : dir.create name.bytes slot = some ⟨name.bytes, 0, block⟩ := by
        unfold Directory.create
        rw [room, short]
        exact Directory.set_self _ _ _
      have found := uniqueAfter.find_eq performed.represents.valid stored
      obtain ⟨inside, vacant⟩ := Directory.freeSlot_eq_some (Directory.room_eq_some room).2.1
      refine ⟨⟨slot, ?_, represents.vacant slot inside vacant,
        (performed.represents.entries slot _ stored).used⟩, ?_⟩
      · rw [performed.represents.fsFindFile_eq]
        exact found
      · have again := (performed.represents.fsCreateFile_performed name).2.1
        have noRoom : (dir.create name.bytes).room name.bytes = none := by
          unfold Directory.room
          rw [show (dir.create name.bytes).find name.bytes = some slot from found]
        rw [again, noRoom]
        rfl
  | delete name =>
      obtain ⟨performed, result, _⟩ := represents.fsDeleteFile_performed name
      refine ⟨fun succeeded => ?_, unique.delete name.bytes⟩
      rcases found : dir.find name.bytes with _ | slot
      · rw [result, found] at succeeded
        cases succeeded
      obtain ⟨entry, stored, named, _⟩ := Directory.lookup_of_find found
      rw [performed.represents.fsFindFile_eq, Directory.find_eq_none_iff performed.represents.valid]
      intro other otherEntry otherStored same
      rw [Directory.delete_eq found] at otherStored
      by_cases here : other = slot
      · subst here
        simp at otherStored
      · rw [Directory.set_of_ne here] at otherStored
        exact here (unique _ _ _ _ otherStored stored (same.trans named.symm))

/-- A long name that is created is not found. -/
theorem Represents.fitsOrFull {state : FsState} {dir : Directory}
    (represents : Represents state.disk dir) {call : DirCall} (served : Served state call) :
    FitsOrFull state call := by
  cases call with
  | delete name => trivial
  | create name =>
      rw [represents.fitsOrFull_iff]
      by_contra refused
      obtain ⟨long, slotFree, blockFree⟩ : 15 < name.bytes.length ∧ dir.freeSlot ≠ none ∧
          dir.freeBlock ≠ none := by
        simpa [not_or] using refused
      obtain ⟨slot, slotFound⟩ := Option.ne_none_iff_exists'.mp slotFree
      obtain ⟨index, blockFound⟩ := Option.ne_none_iff_exists'.mp blockFree
      obtain ⟨performed, result, _⟩ := represents.fsCreateFile_performed name
      have room : dir.room name.bytes = some (slot, 3 + index) := by
        simp [Directory.room, represents.valid.find_long long, slotFound, blockFound]
      obtain ⟨⟨_, found, _⟩, _⟩ := served (by rw [result, room]; rfl)
      rw [performed.represents.fsFindFile_eq, performed.represents.valid.find_long long] at found
      cases found

/-! ## Runs -/

private theorem dirRun_append (state : FsState) (calls : List DirCall) (call : DirCall) :
    dirRun state (calls ++ [call]) = (call.exec (dirRun state calls)).2 := by
  simp [dirRun]

private theorem dirRun_represents (state : FsState) (calls : List DirCall) :
    Represents (dirRun (fsInit state) calls).disk (calls.foldl DirCall.after Directory.empty) := by
  induction calls using List.reverseRecOn with
  | nil => exact fsInit_represents state
  | append_singleton calls call ih =>
      rw [dirRun_append, List.foldl_append]
      exact call.exec_performed ih

/-- The directory of every run is a set of names exactly when no long name is
created while there is room for it. -/
theorem names_form_set_iff (state : FsState) (calls : List DirCall) :
    ((∀ earlier, earlier <+: calls → UniqueNames (dirRun (fsInit state) earlier).disk) ∧
        ∀ earlier call, earlier ++ [call] <+: calls →
          Served (dirRun (fsInit state) earlier) call) ↔
      ∀ earlier call, earlier ++ [call] <+: calls →
        FitsOrFull (dirRun (fsInit state) earlier) call := by
  constructor
  · rintro ⟨_, served⟩ earlier call reached
    exact (dirRun_represents state earlier).fitsOrFull (served earlier call reached)
  · intro fits
    have unique : ∀ earlier, earlier <+: calls →
        (earlier.foldl DirCall.after Directory.empty).Unique := by
      intro earlier reached
      induction earlier using List.reverseRecOn with
      | nil => exact Directory.empty_unique
      | append_singleton earlier call ih =>
          have before := ih ((List.prefix_append earlier [call]).trans reached)
          rw [List.foldl_append]
          exact ((dirRun_represents state earlier).served before (fits earlier call reached)).2
    refine ⟨fun earlier reached => ?_, fun earlier call reached => ?_⟩
    · exact (dirRun_represents state earlier).uniqueNames_iff.mpr (unique earlier reached)
    · have before := unique earlier ((List.prefix_append earlier [call]).trans reached)
      exact ((dirRun_represents state earlier).served before (fits earlier call reached)).1

/-- A name of 16 bytes. -/
def longName : CString := ⟨List.replicate 16 97, by decide⟩

/-- A file with a name of 16 bytes is created and not found. -/
theorem long_name_not_found : ¬∀ calls : List DirCall,
    (∀ earlier, earlier <+: calls → UniqueNames (dirRun (fsInit blankState) earlier).disk) ∧
      ∀ earlier call, earlier ++ [call] <+: calls →
        Served (dirRun (fsInit blankState) earlier) call := by
  intro isSet
  have served : Served (fsInit blankState) (.create longName) :=
    (isSet [.create longName]).2 [] (.create longName) (List.prefix_refl _)
  have created : (fsCreateFile (fsInit blankState) longName).1 = 0 := by decide +kernel
  have missing : fsFindFile (fsCreateFile (fsInit blankState) longName).2.disk longName = none := by
    decide +kernel
  obtain ⟨⟨slot, found, _⟩, _⟩ := served created
  rw [missing] at found
  cases found

end ShedKernel.FileSystem
