import ShedKernel.Foundation.ByteMemory

/-! Two-level page tables in memory: a directory of 1024 words, each naming a table of
1024 words, each naming a frame of 4096 bytes. Pages and frames go by number. -/

set_option autoImplicit false

namespace ShedKernel.Foundation.PageTable

/-- The address of a word of a frame. -/
def wordAddress (frame index : Nat) : Nat := 4096 * frame + 4 * index

def Present (entry : Nat) : Prop := entry % 2 = 1

instance (entry : Nat) : Decidable (Present entry) := inferInstanceAs (Decidable (_ = _))

def Writable (entry : Nat) : Prop := entry / 2 % 2 = 1

instance (entry : Nat) : Decidable (Writable entry) := inferInstanceAs (Decidable (_ = _))

def User (entry : Nat) : Prop := entry / 4 % 2 = 1

instance (entry : Nat) : Decidable (User entry) := inferInstanceAs (Decidable (_ = _))

def frameOf (entry : Nat) : Nat := entry / 4096

def directoryEntry (memory : Memory) (root directory : Nat) : Nat :=
  memory.load32 (wordAddress root directory)

def tableFrame (memory : Memory) (root directory : Nat) : Nat :=
  frameOf (directoryEntry memory root directory)

def pageEntry (memory : Memory) (root page : Nat) : Nat :=
  memory.load32 (wordAddress (tableFrame memory root (page / 1024)) (page % 1024))

structure Translation where
  frame : Nat
  writable : Bool
  user : Bool
  deriving DecidableEq

/-- What the processor finds for a page: a right has to be granted at both levels. -/
def translate (memory : Memory) (root page : Nat) : Option Translation :=
  let directory := directoryEntry memory root (page / 1024)
  let entry := pageEntry memory root page
  if Present directory ∧ Present entry then
    some {
      frame := frameOf entry
      writable := decide (Writable directory ∧ Writable entry)
      user := decide (User directory ∧ User entry) }
  else none

variable {memory other : Memory} {root page directory frame index value : Nat}

theorem translate_congr
    (directories : directoryEntry other root (page / 1024) = directoryEntry memory root (page / 1024))
    (entries : pageEntry other root page = pageEntry memory root page) :
    translate other root page = translate memory root page := by
  simp only [translate, directories, entries]

theorem translate_eq {directory entry : Nat} (found : directoryEntry memory root (page / 1024) = directory)
    (held : pageEntry memory root page = entry) :
    translate memory root page =
      if Present directory ∧ Present entry then
        some ⟨frameOf entry, decide (Writable directory ∧ Writable entry),
          decide (User directory ∧ User entry)⟩
      else none := by
  rw [translate, found, held]

theorem translate_of_absent (absent : ¬Present (directoryEntry memory root (page / 1024))) :
    translate memory root page = none :=
  if_neg fun both => absent both.1

theorem translate_eq_some {translation : Translation}
    (found : translate memory root page = some translation) :
    Present (directoryEntry memory root (page / 1024)) ∧ Present (pageEntry memory root page) ∧
      translation.frame = frameOf (pageEntry memory root page) := by
  unfold translate at found
  dsimp only at found
  split at found
  · next both =>
    cases found
    exact ⟨both.1, both.2, rfl⟩
  · cases found

theorem translate_of_present (table : Present (directoryEntry memory root (page / 1024)))
    (entry : Present (pageEntry memory root page)) :
    ∃ translation, translate memory root page = some translation ∧
      translation.frame = frameOf (pageEntry memory root page) := by
  refine ⟨_, if_pos ⟨table, entry⟩, rfl⟩

/-! Words of different frames, or at different places of one frame, do not overlap. -/

theorem load_store_word {frame' index' : Nat} (inside : index < 1024) (inside' : index' < 1024)
    (different : frame' ≠ frame ∨ index' ≠ index) :
    (memory.store32 (wordAddress frame index) value).load32 (wordAddress frame' index') =
      memory.load32 (wordAddress frame' index') := by
  apply Memory.load32_store32_of_disjoint
  unfold wordAddress
  by_cases same : frame' = frame
  · subst same
    cases different with
    | inl other => exact absurd rfl other
    | inr other => omega
  · cases Nat.lt_or_gt_of_ne same with
    | inl before => left; omega
    | inr after => right; omega

theorem load_store_word_self (small : value < 4294967296) :
    (memory.store32 (wordAddress frame index) value).load32 (wordAddress frame index) = value :=
  Memory.load32_store32_of_lt small

/-! A word stored into a frame that is not the directory. -/

theorem directoryEntry_store_word (apart : frame ≠ root) (inside : index < 1024) (small : directory < 1024) :
    directoryEntry (memory.store32 (wordAddress frame index) value) root directory =
      directoryEntry memory root directory :=
  load_store_word inside small (.inl apart.symm)

/-- The word is the entry of every page whose table is that frame. -/
theorem pageEntry_store_word (apart : frame ≠ root) (inside : index < 1024) (small : page < 1048576)
    (fits : value < 4294967296) :
    pageEntry (memory.store32 (wordAddress frame index) value) root page =
      if tableFrame memory root (page / 1024) = frame ∧ page % 1024 = index then value
      else pageEntry memory root page := by
  have table : tableFrame (memory.store32 (wordAddress frame index) value) root (page / 1024) =
      tableFrame memory root (page / 1024) :=
    congrArg frameOf (directoryEntry_store_word apart inside (by omega))
  rw [pageEntry, table]
  split
  · next here =>
    rw [here.1, here.2]
    exact load_store_word_self fits
  · next elsewhere =>
    exact load_store_word inside (Nat.mod_lt _ (by decide)) (not_and_or.mp elsewhere)

/-- Tables lie outside the directory and are not shared. -/
structure Tree (memory : Memory) (root : Nat) : Prop where
  apart : ∀ directory, directory < 1024 → Present (directoryEntry memory root directory) →
    tableFrame memory root directory ≠ root
  distinct : ∀ first second, first < 1024 → second < 1024 →
    Present (directoryEntry memory root first) → Present (directoryEntry memory root second) →
    tableFrame memory root first = tableFrame memory root second → first = second

theorem Tree.congr (tree : Tree memory root) (same : ∀ directory, directory < 1024 →
    directoryEntry other root directory = directoryEntry memory root directory) : Tree other root := by
  constructor
  · intro directory inside there
    rw [same directory inside] at there
    rw [tableFrame, same directory inside]
    exact tree.apart directory inside there
  · intro first second firstBound secondBound firstPresent secondPresent equal
    rw [same first firstBound] at firstPresent
    rw [same second secondBound] at secondPresent
    simp only [tableFrame, same first firstBound, same second secondBound] at equal
    exact tree.distinct first second firstBound secondBound firstPresent secondPresent equal

def setDirectory (memory : Memory) (root directory value : Nat) : Memory :=
  memory.store32 (wordAddress root directory) value

def setEntry (memory : Memory) (root page value : Nat) : Memory :=
  memory.store32 (wordAddress (tableFrame memory root (page / 1024)) (page % 1024)) value

/-! A new directory entry. -/

theorem directoryEntry_setDirectory_self (small : value < 4294967296) :
    directoryEntry (setDirectory memory root directory value) root directory = value :=
  load_store_word_self small

theorem directoryEntry_setDirectory_of_ne {directory' : Nat} (inside : directory < 1024)
    (inside' : directory' < 1024) (different : directory' ≠ directory) :
    directoryEntry (setDirectory memory root directory value) root directory' =
      directoryEntry memory root directory' :=
  load_store_word inside inside' (.inr different)

/-- The pages of the other tables keep their entries. -/
theorem pageEntry_setDirectory_of_apart (inside : directory < 1024) (small : page < 1048576)
    (apart : tableFrame memory root (page / 1024) ≠ root) (different : page / 1024 ≠ directory) :
    pageEntry (setDirectory memory root directory value) root page = pageEntry memory root page := by
  have same : tableFrame (setDirectory memory root directory value) root (page / 1024) =
      tableFrame memory root (page / 1024) :=
    congrArg frameOf (directoryEntry_setDirectory_of_ne inside (by omega) different)
  rw [pageEntry, same]
  exact load_store_word inside (Nat.mod_lt _ (by decide)) (.inl apart)

theorem pageEntry_setDirectory_of_ne (tree : Tree memory root) (inside : directory < 1024)
    (small : page < 1048576) (present : Present (directoryEntry memory root (page / 1024)))
    (different : page / 1024 ≠ directory) :
    pageEntry (setDirectory memory root directory value) root page = pageEntry memory root page :=
  pageEntry_setDirectory_of_apart inside small (tree.apart _ (by omega) present) different

/-- The pages of the new table have the entries that its frame held. -/
theorem pageEntry_setDirectory_self (inside : directory < 1024) (small : value < 4294967296)
    (apart : frameOf value ≠ root) (here : page / 1024 = directory) :
    pageEntry (setDirectory memory root directory value) root page =
      memory.load32 (wordAddress (frameOf value) (page % 1024)) := by
  have table : tableFrame (setDirectory memory root directory value) root (page / 1024) =
      frameOf value := by
    rw [here]
    exact congrArg frameOf (directoryEntry_setDirectory_self small)
  rw [pageEntry, table]
  exact load_store_word inside (Nat.mod_lt _ (by decide)) (.inl apart)

theorem Tree.setDirectory (tree : Tree memory root) (inside : directory < 1024)
    (small : value < 4294967296) (apart : frameOf value ≠ root)
    (fresh : ∀ other, other < 1024 → Present (directoryEntry memory root other) →
      tableFrame memory root other ≠ frameOf value) :
    Tree (setDirectory memory root directory value) root := by
  have self := @directoryEntry_setDirectory_self memory root directory value small
  have others := fun other bound different =>
    @directoryEntry_setDirectory_of_ne memory root directory value other inside bound different
  constructor
  · intro table bound present
    by_cases here : table = directory
    · rw [here, tableFrame, self]
      exact apart
    · rw [others table bound here] at present
      rw [tableFrame, others table bound here]
      exact tree.apart table bound present
  · intro first second firstBound secondBound firstPresent secondPresent same
    simp only [tableFrame] at same fresh
    by_cases firstHere : first = directory
    · by_cases secondHere : second = directory
      · rw [firstHere, secondHere]
      · rw [firstHere, self, others second secondBound secondHere] at same
        rw [others second secondBound secondHere] at secondPresent
        exact absurd same.symm (fresh second secondBound secondPresent)
    · rw [others first firstBound firstHere] at same firstPresent
      by_cases secondHere : second = directory
      · rw [secondHere, self] at same
        exact absurd same (fresh first firstBound firstPresent)
      · rw [others second secondBound secondHere] at same secondPresent
        exact tree.distinct first second firstBound secondBound firstPresent secondPresent same

/-! A new table entry. -/

section SetEntry

variable (tree : Tree memory root) (small : page < 1048576)
  (present : Present (directoryEntry memory root (page / 1024)))

include tree small present

theorem directoryEntry_setEntry {directory : Nat} (inside : directory < 1024) :
    directoryEntry (setEntry memory root page value) root directory =
      directoryEntry memory root directory := by
  have apart := tree.apart (page / 1024) (by omega) present
  exact load_store_word (Nat.mod_lt _ (by decide)) inside (.inl apart.symm)

theorem pageEntry_setEntry_self (fits : value < 4294967296) :
    pageEntry (setEntry memory root page value) root page = value := by
  rw [pageEntry, tableFrame, directoryEntry_setEntry tree small present (by omega)]
  exact load_store_word_self fits

theorem pageEntry_setEntry_of_ne {page' : Nat} (small' : page' < 1048576)
    (present' : Present (directoryEntry memory root (page' / 1024))) (different : page' ≠ page) :
    pageEntry (setEntry memory root page value) root page' = pageEntry memory root page' := by
  rw [pageEntry, tableFrame, directoryEntry_setEntry tree small present (by omega)]
  apply load_store_word (Nat.mod_lt _ (by decide)) (Nat.mod_lt _ (by decide))
  by_cases here : page' / 1024 = page / 1024
  · right
    intro same
    exact different (by omega)
  · left
    intro same
    exact here (tree.distinct _ _ (by omega) (by omega) present' present same)

theorem Tree.setEntry : Tree (setEntry memory root page value) root :=
  tree.congr fun _ inside => directoryEntry_setEntry tree small present inside

end SetEntry

end ShedKernel.Foundation.PageTable
