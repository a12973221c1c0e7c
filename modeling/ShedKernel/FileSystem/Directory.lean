import ShedKernel.FileSystem.Disk

/-! What the file system is for: a table of named entries, each owning one data
block. The operations pick the first free slot and the first free block. -/

set_option autoImplicit false

namespace ShedKernel.FileSystem

open Foundation

theorem find?_range_congr {count : Nat} {first second : Nat → Bool}
    (same : ∀ index, index < count → first index = second index) :
    (List.range count).find? first = (List.range count).find? second := by
  rcases result : (List.range count).find? second with _ | found
  · rw [List.find?_range_eq_none] at result ⊢
    intro index inside
    rw [same index inside]
    exact result index inside
  · rw [List.find?_range_eq_some] at result ⊢
    obtain ⟨here, member, before⟩ := result
    have inside := List.mem_range.mp member
    refine ⟨by rwa [same found inside], member, fun other earlier => ?_⟩
    rw [same other (by omega)]
    exact before other earlier

structure Entry where
  name : List UInt8
  size : Nat
  block : Nat
  deriving DecidableEq

/-- The entry in every slot. -/
abbrev Directory := Nat → Option Entry

namespace Directory

/-- Entries lie in the 64 slots, have names that fit, and own different data blocks. -/
structure Valid (dir : Directory) : Prop where
  bounded : ∀ slot entry, dir slot = some entry → slot < 64
  named : ∀ slot entry, dir slot = some entry → entry.name.length ≤ 15
  placed : ∀ slot entry, dir slot = some entry → 3 ≤ entry.block ∧ entry.block < 1024
  distinct : ∀ left right leftEntry rightEntry, dir left = some leftEntry →
    dir right = some rightEntry → leftEntry.block = rightEntry.block → left = right

def empty : Directory := fun _ => none

def set (dir : Directory) (slot : Nat) (entry : Option Entry) : Directory :=
  fun other => if other = slot then entry else dir other

/-- The first slot whose entry has the name. -/
def find (dir : Directory) (name : List UInt8) : Option Nat :=
  findSlot fun slot => (dir slot).any fun entry => entry.name = name

def freeSlot (dir : Directory) : Option Nat := findSlot fun slot => (dir slot).isNone

def owns (dir : Directory) (block : Nat) : Bool :=
  (List.range 64).any fun slot => (dir slot).any fun entry => entry.block = block

/-- The first data block that no entry owns, counted from block 3. -/
def freeBlock (dir : Directory) : Option Nat :=
  (List.range 1021).find? fun index => !dir.owns (3 + index)

/-- The slot and the block that a new file of this name gets, if any. -/
def room (dir : Directory) (name : List UInt8) : Option (Nat × Nat) :=
  match dir.find name, dir.freeSlot, dir.freeBlock with
  | none, some slot, some index => some (slot, 3 + index)
  | _, _, _ => none

def create (dir : Directory) (name : List UInt8) : Directory :=
  match dir.room name with
  | some (slot, block) => dir.set slot (some ⟨name.take 15, 0, block⟩)
  | none => dir

def delete (dir : Directory) (name : List UInt8) : Directory :=
  match dir.find name with
  | some slot => dir.set slot none
  | none => dir

def resize (dir : Directory) (name : List UInt8) (size : Nat) : Directory :=
  match dir.find name with
  | some slot => dir.set slot ((dir slot).map fun entry => { entry with size })
  | none => dir

@[simp] theorem set_self (dir : Directory) (slot : Nat) (entry : Option Entry) :
    dir.set slot entry slot = entry := if_pos rfl

theorem set_of_ne {dir : Directory} {slot other : Nat} {entry : Option Entry}
    (different : other ≠ slot) : dir.set slot entry other = dir other := if_neg different

theorem of_erased {dir : Directory} {slot other : Nat} {stored : Entry}
    (found : dir.set slot none other = some stored) : dir other = some stored := by
  by_cases here : other = slot
  · subst here
    simp at found
  · rwa [set_of_ne here] at found

theorem find_eq_some {dir : Directory} {name : List UInt8} {slot : Nat}
    (found : dir.find name = some slot) :
    slot < 64 ∧ (∃ entry, dir slot = some entry ∧ entry.name = name) ∧
      ∀ other, other < slot → ∀ entry, dir other = some entry → entry.name ≠ name := by
  obtain ⟨here, member, before⟩ := List.find?_range_eq_some.mp found
  refine ⟨List.mem_range.mp member, by simpa [Option.any_eq_true] using here, ?_⟩
  intro other earlier entry stored same
  have notHere := before other earlier
  simp [stored, same] at notHere

theorem find_eq_none_iff {dir : Directory} (valid : dir.Valid) {name : List UInt8} :
    dir.find name = none ↔ ∀ slot entry, dir slot = some entry → entry.name ≠ name := by
  unfold find findSlot
  rw [List.find?_range_eq_none]
  constructor
  · intro nowhere slot entry stored same
    have notHere := nowhere slot (valid.bounded slot entry stored)
    simp [stored, same] at notHere
  · intro nowhere slot _
    rcases stored : dir slot with _ | entry
    · simp
    · simpa using nowhere slot entry stored

theorem freeSlot_eq_some {dir : Directory} {slot : Nat} (found : dir.freeSlot = some slot) :
    slot < 64 ∧ dir slot = none := by
  obtain ⟨here, member, _⟩ := List.find?_range_eq_some.mp found
  exact ⟨List.mem_range.mp member, by simpa using here⟩

theorem owns_iff {dir : Directory} (valid : dir.Valid) {block : Nat} :
    dir.owns block = true ↔ ∃ slot entry, dir slot = some entry ∧ entry.block = block := by
  unfold owns
  rw [List.any_eq_true]
  constructor
  · rintro ⟨slot, _, holds⟩
    obtain ⟨entry, stored, same⟩ := Option.any_eq_true .. |>.mp holds
    exact ⟨slot, entry, stored, by simpa using same⟩
  · rintro ⟨slot, entry, stored, same⟩
    exact ⟨slot, List.mem_range.mpr (valid.bounded slot entry stored), by simp [stored, same]⟩

theorem freeBlock_eq_some {dir : Directory} {index : Nat} (found : dir.freeBlock = some index) :
    index < 1021 ∧ dir.owns (3 + index) = false := by
  obtain ⟨here, member, _⟩ := List.find?_range_eq_some.mp found
  exact ⟨List.mem_range.mp member, by simpa using here⟩

theorem room_eq_some {dir : Directory} {name : List UInt8} {slot block : Nat}
    (found : dir.room name = some (slot, block)) :
    dir.find name = none ∧ dir.freeSlot = some slot ∧
      ∃ index, dir.freeBlock = some index ∧ block = 3 + index := by
  unfold room at found
  split at found
  · next named slotFound blockFound =>
      cases found
      exact ⟨named, slotFound, _, blockFound, rfl⟩
  · cases found

theorem empty_valid : empty.Valid := by
  constructor <;> intros <;> simp [empty] at *

/-- The entry that `fs_find_file` points to. -/
def lookup (dir : Directory) (name : List UInt8) : Option Entry := (dir.find name).bind dir

theorem lookup_of_find {dir : Directory} {name : List UInt8} {slot : Nat}
    (found : dir.find name = some slot) :
    ∃ entry, dir slot = some entry ∧ entry.name = name ∧ dir.lookup name = some entry := by
  obtain ⟨_, ⟨entry, stored, same⟩, _⟩ := find_eq_some found
  exact ⟨entry, stored, same, by rw [lookup, found]; exact stored⟩

theorem lookup_eq_none {dir : Directory} {name : List UInt8} (missing : dir.find name = none) :
    dir.lookup name = none := by
  rw [lookup, missing]
  rfl

theorem resize_eq {dir : Directory} {name : List UInt8} {slot : Nat} {entry : Entry}
    (found : dir.find name = some slot) (stored : dir slot = some entry) (size : Nat) :
    dir.resize name size = dir.set slot (some { entry with size }) := by
  unfold resize
  rw [found]
  simp only [stored, Option.map_some]

theorem resize_eq_self {dir : Directory} {name : List UInt8} (missing : dir.find name = none)
    (size : Nat) : dir.resize name size = dir := by
  unfold resize
  rw [missing]

/-- A new size leaves every name where it is. -/
theorem find_resize (dir : Directory) (name other : List UInt8) (size : Nat) :
    (dir.resize name size).find other = dir.find other := by
  rcases found : dir.find name with _ | slot
  · rw [resize_eq_self found]
  obtain ⟨entry, stored, _⟩ := lookup_of_find found
  rw [resize_eq found stored]
  unfold find findSlot
  refine find?_range_congr fun place _ => ?_
  by_cases here : place = slot
  · subst here
    rw [set_self, stored]
    rfl
  · rw [set_of_ne here]

namespace Valid

variable {dir : Directory}

/-- A slot may take any entry that fits and whose block no other entry owns. -/
theorem set (valid : dir.Valid) {slot : Nat} {entry : Entry} (inside : slot < 64)
    (named : entry.name.length ≤ 15) (placed : 3 ≤ entry.block ∧ entry.block < 1024)
    (fresh : ∀ other otherEntry, dir other = some otherEntry → otherEntry.block = entry.block →
      other = slot) : (dir.set slot (some entry)).Valid := by
  have cases : ∀ {other : Nat} {stored : Entry}, dir.set slot (some entry) other = some stored →
      other = slot ∧ stored = entry ∨ other ≠ slot ∧ dir other = some stored := by
    intro other stored found
    by_cases here : other = slot
    · subst here
      rw [set_self] at found
      exact .inl ⟨rfl, (Option.some.inj found).symm⟩
    · rw [set_of_ne here] at found
      exact .inr ⟨here, found⟩
  constructor
  · intro other stored found
    rcases cases found with ⟨rfl, _⟩ | ⟨_, old⟩
    · exact inside
    · exact valid.bounded other stored old
  · intro other stored found
    rcases cases found with ⟨_, rfl⟩ | ⟨_, old⟩
    · exact named
    · exact valid.named other stored old
  · intro other stored found
    rcases cases found with ⟨_, rfl⟩ | ⟨_, old⟩
    · exact placed
    · exact valid.placed other stored old
  · intro left right leftEntry rightEntry leftFound rightFound same
    rcases cases leftFound with ⟨rfl, rfl⟩ | ⟨_, leftOld⟩
    · rcases cases rightFound with ⟨rfl, _⟩ | ⟨_, rightOld⟩
      · rfl
      · exact (fresh right rightEntry rightOld same.symm).symm
    · rcases cases rightFound with ⟨rfl, rfl⟩ | ⟨_, rightOld⟩
      · exact fresh left leftEntry leftOld same
      · exact valid.distinct left right leftEntry rightEntry leftOld rightOld same

theorem erase (valid : dir.Valid) (slot : Nat) : (dir.set slot none).Valid :=
  ⟨fun _ _ found => valid.bounded _ _ (of_erased found),
    fun _ _ found => valid.named _ _ (of_erased found),
    fun _ _ found => valid.placed _ _ (of_erased found),
    fun _ _ _ _ left right => valid.distinct _ _ _ _ (of_erased left) (of_erased right)⟩

theorem resized (valid : dir.Valid) {slot : Nat} {entry : Entry} (stored : dir slot = some entry)
    (size : Nat) : (dir.set slot (some { entry with size })).Valid :=
  valid.set (valid.bounded slot entry stored) (valid.named slot entry stored)
    (valid.placed slot entry stored) fun _ _ otherStored same =>
      valid.distinct _ _ _ _ otherStored stored same

private theorem fresh_block (valid : dir.Valid) {index : Nat} (free : dir.freeBlock = some index) :
    ∀ other entry, dir other = some entry → entry.block ≠ 3 + index := by
  intro other entry stored same
  have owned := (owns_iff valid).mpr ⟨other, entry, stored, same⟩
  rw [(freeBlock_eq_some free).2] at owned
  cases owned

theorem created (valid : dir.Valid) {name : List UInt8} {slot block : Nat}
    (room : dir.room name = some (slot, block)) :
    (dir.set slot (some ⟨name.take 15, 0, block⟩)).Valid := by
  obtain ⟨_, slotFree, index, blockFree, rfl⟩ := room_eq_some room
  have inside := (freeBlock_eq_some blockFree).1
  refine valid.set (freeSlot_eq_some slotFree).1 (List.length_take_le _ _) ⟨?_, ?_⟩ ?_
  · simp only
    omega
  · simp only
    omega
  · intro other entry stored same
    exact absurd same (valid.fresh_block blockFree other entry stored)

theorem create (valid : dir.Valid) (name : List UInt8) : (dir.create name).Valid := by
  unfold Directory.create
  split
  · next room => exact valid.created room
  · exact valid

theorem delete (valid : dir.Valid) (name : List UInt8) : (dir.delete name).Valid := by
  unfold Directory.delete
  split
  · exact valid.erase _
  · exact valid

theorem resize (valid : dir.Valid) (name : List UInt8) (size : Nat) :
    (dir.resize name size).Valid := by
  rcases found : dir.find name with _ | slot
  · rw [resize_eq_self found]
    exact valid
  · obtain ⟨entry, stored, _⟩ := lookup_of_find found
    rw [resize_eq found stored]
    exact valid.resized stored size

end Valid

/-- Which blocks a changed table owns. -/
theorem owns_set {dir : Directory} {slot : Nat} {entry : Option Entry}
    (after : (dir.set slot entry).Valid) {block : Nat} :
    (dir.set slot entry).owns block = true ↔
      (∃ new, entry = some new ∧ new.block = block) ∨
        ∃ other old, other ≠ slot ∧ dir other = some old ∧ old.block = block := by
  rw [owns_iff after]
  constructor
  · rintro ⟨other, stored, found, same⟩
    by_cases here : other = slot
    · subst here
      rw [set_self] at found
      exact .inl ⟨stored, found, same⟩
    · rw [set_of_ne here] at found
      exact .inr ⟨other, stored, here, found, same⟩
  · rintro (⟨new, rfl, same⟩ | ⟨other, old, different, stored, same⟩)
    · exact ⟨slot, new, set_self _ _ _, same⟩
    · exact ⟨other, old, by rw [set_of_ne different, stored], same⟩

end Directory

end ShedKernel.FileSystem
