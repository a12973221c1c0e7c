import ShedKernel.Paging.Kernel

/-! The invariant of the kernel's page tables: every table lies in the first 8 MiB, which
the kernel reaches at their own addresses. Its two edits keep it. -/

set_option autoImplicit false

namespace ShedKernel.Paging

open Foundation PageTable

namespace PagingState

def directory (s : PagingState) (index : Nat) : Nat := directoryEntry s.memory rootFrame index

def table (s : PagingState) (index : Nat) : Nat := tableFrame s.memory rootFrame index

def entry (s : PagingState) (page : Nat) : Nat := pageEntry s.memory rootFrame page

/-- The translation of a virtual page. -/
def translation (s : PagingState) (page : Nat) : Option Translation :=
  translate s.memory rootFrame page

end PagingState

/-- The kernel finds the frame at its own address. -/
def ReachesFrame (s : PagingState) (frame : Nat) : Prop :=
  ∃ translation, s.translation frame = some translation ∧ translation.frame = frame

section OwnAddress

variable {s : PagingState} {frame offset value : Nat} (reaches : ReachesFrame s frame)
  (inside : offset < 4096)

include reaches inside

theorem ReachesFrame.physicalAddress :
    physicalAddress s.memory (4096 * frame + offset) = .ok (4096 * frame + offset) := by
  obtain ⟨translation, found, same⟩ := reaches
  have page : (4096 * frame + offset) / 0x1000 = frame := by omega
  have found : translate s.memory rootFrame ((4096 * frame + offset) / 0x1000) = some translation :=
    page.symm ▸ found
  rw [Paging.physicalAddress, found]
  simp only [same, Except.ok.injEq]
  omega

theorem ReachesFrame.load :
    kernelLoad s (4096 * frame + offset) = .ok (s.memory.load32 (4096 * frame + offset)) := by
  simp only [kernelLoad, reaches.physicalAddress inside, bind, Except.bind, pure, Except.pure]

theorem ReachesFrame.store : kernelStore s (4096 * frame + offset) value =
    .ok { s with memory := s.memory.store32 (4096 * frame + offset) value } := by
  simp only [kernelStore, reaches.physicalAddress inside, bind, Except.bind, pure, Except.pure]

end OwnAddress

/-- The kernel's own tables are in place, the first 8 MiB are mapped to themselves, and
the other tables are frames handed out since `base`. -/
structure PageMap (base : Nat) (s : PagingState) : Prop where
  start : 0x100000 ≤ base
  aligned : s.nextFreePage % 4096 = 0
  grown : base ≤ s.nextFreePage
  kernelTables : ∀ index, index < 2 → s.directory index = 4096 * (0x9D + index) + 3
  tables : ∀ index, 2 ≤ index → index < 1024 → Present (s.directory index) →
    base ≤ 4096 * s.table index ∧ 4096 * s.table index < s.nextFreePage ∧ s.table index < 2048
  distinct : ∀ first second, first < 1024 → second < 1024 → Present (s.directory first) →
    Present (s.directory second) → s.table first = s.table second → first = second
  identity : ∀ page, page < 2048 → Present (s.entry page) ∧ frameOf (s.entry page) = page

variable {base : Nat} {s : PagingState} {index page address value : Nat}

namespace PageMap

theorem kernelPresent (map : PageMap base s) (kernel : index < 2) : Present (s.directory index) := by
  rw [map.kernelTables index kernel]
  unfold Present
  omega

theorem kernelTable (map : PageMap base s) (kernel : index < 2) : s.table index = 0x9D + index := by
  have entry := map.kernelTables index kernel
  show frameOf (s.directory index) = _
  rw [entry]
  unfold frameOf
  omega

theorem table_low (map : PageMap base s) (inside : index < 1024) (present : Present (s.directory index)) :
    s.table index < 2048 ∧ rootFrame < s.table index := by
  by_cases kernel : index < 2
  · rw [map.kernelTable kernel]
    unfold rootFrame
    omega
  · obtain ⟨above, _, low⟩ := map.tables index (Nat.not_lt.mp kernel) inside present
    have start := map.start
    unfold rootFrame
    omega

theorem tree (map : PageMap base s) : Tree s.memory rootFrame :=
  ⟨fun _ inside present => Nat.ne_of_gt (map.table_low inside present).2, map.distinct⟩

/-- No table lies in a frame that is still free. -/
theorem table_not_free (map : PageMap base s) (inside : index < 1024)
    (present : Present (s.directory index)) : 4096 * s.table index < s.nextFreePage := by
  by_cases kernel : index < 2
  · rw [map.kernelTable kernel]
    have start := map.start
    have grown := map.grown
    omega
  · exact (map.tables index (Nat.not_lt.mp kernel) inside present).2.1

theorem identity_translation (map : PageMap base s) (low : page < 2048) :
    ∃ translation, s.translation page = some translation ∧ translation.frame = page := by
  have kernel : page / 1024 < 2 := by omega
  obtain ⟨present, frame⟩ := map.identity page low
  obtain ⟨translation, found, same⟩ := translate_of_present (map.kernelPresent kernel) present
  exact ⟨translation, found, same.trans frame⟩

theorem physicalAddress_low (map : PageMap base s) (low : address < 0x800000) :
    physicalAddress s.memory address = .ok address := by
  have page : address / 0x1000 < 2048 := by omega
  obtain ⟨translation, found, same⟩ := map.identity_translation page
  have found : translate s.memory rootFrame (address / 0x1000) = some translation := found
  rw [physicalAddress, found]
  simp only [same, Except.ok.injEq]
  exact Nat.div_add_mod address 4096

theorem kernelLoad_low (map : PageMap base s) (low : address < 0x800000) :
    kernelLoad s address = .ok (s.memory.load32 address) := by
  simp only [kernelLoad, map.physicalAddress_low low, bind, Except.bind, pure, Except.pure]

theorem kernelStore_low (map : PageMap base s) (low : address < 0x800000) :
    kernelStore s address value = .ok { s with memory := s.memory.store32 address value } := by
  simp only [kernelStore, map.physicalAddress_low low, bind, Except.bind, pure, Except.pure]

theorem advance (map : PageMap base s) :
    PageMap base { s with nextFreePage := s.nextFreePage + 4096 } := by
  have aligned := map.aligned
  refine ⟨map.start, ?_, Nat.le_trans map.grown (Nat.le_add_right _ _), map.kernelTables, ?_, map.distinct,
    map.identity⟩
  · show (s.nextFreePage + 4096) % 4096 = 0
    omega
  · intro other above otherInside present
    obtain ⟨first, second, third⟩ := map.tables other above otherInside present
    exact ⟨first, Nat.lt_of_lt_of_le second (Nat.le_add_right _ _), third⟩

end PageMap

/-! Flags. -/

theorem flag_eq_zero_iff (entry : Nat) : entry &&& 1 = 0 ↔ ¬Present entry := by
  rw [Nat.and_one_is_mod]
  unfold Present
  omega

theorem userFlags_eq (aligned : value % 4096 = 0) :
    value ||| pagePresent ||| pageWrite ||| pageUser = value + 7 := by
  have split : value = 2 ^ 12 * (value / 4096) := by omega
  rw [Nat.or_assoc, Nat.or_assoc, split]
  exact (Nat.two_pow_add_eq_or_of_lt (by decide) _).symm

theorem kernelFlags_eq (aligned : value % 4096 = 0) : value ||| 3 = value + 3 := by
  have split : value = 2 ^ 12 * (value / 4096) := by omega
  rw [split]
  exact (Nat.two_pow_add_eq_or_of_lt (by decide) _).symm

theorem kernelFlags_present (value : Nat) : Present (value ||| 3) := by
  have odd := @Nat.or_mod_two_pow value 3 1
  have bit : value % 2 ||| 1 = 1 := by
    cases Nat.mod_two_eq_zero_or_one value with
    | inl even => rw [even]; rfl
    | inr odd => rw [odd]; rfl
  exact odd.trans bit

theorem kernelFlags_frame (value : Nat) : frameOf (value ||| 3) = frameOf value := by
  have shifted := @Nat.or_div_two_pow value 3 12
  exact shifted.trans (Nat.or_zero _)

theorem kernelFlags_lt (small : value < 4294967296) : value ||| 3 < 4294967296 :=
  Nat.or_lt_two_pow (n := 32) small (by decide)

/-! The two edits: a new table, and an entry of a table. -/

namespace PagingState

def addTable (s : PagingState) (index flags : Nat) : PagingState :=
  { s with
    memory := setDirectory s.memory rootFrame index (s.nextFreePage + flags)
    nextFreePage := s.nextFreePage + 4096 }

def putEntry (s : PagingState) (page value : Nat) : PagingState :=
  { s with memory := setEntry s.memory rootFrame page value }

end PagingState

section AddTable

variable {flags : Nat} (map : PageMap base s) (inside : index < 1024)
  (absent : ¬Present (s.directory index)) (low : s.nextFreePage < 0x800000)
  (odd : flags % 2 = 1) (small : flags < 4096)

include map small

private theorem newTable_frame : frameOf (s.nextFreePage + flags) = s.nextFreePage / 4096 := by
  have aligned := map.aligned
  unfold frameOf
  omega

private theorem newTable_apart : frameOf (s.nextFreePage + flags) ≠ rootFrame := by
  have start := map.start
  have grown := map.grown
  rw [newTable_frame map small]
  unfold rootFrame
  omega

include low

omit map in
theorem directory_addTable_self : (s.addTable index flags).directory index = s.nextFreePage + flags :=
  directoryEntry_setDirectory_self (by omega)

theorem table_addTable_self : (s.addTable index flags).table index = s.nextFreePage / 4096 :=
  (congrArg frameOf (directory_addTable_self low small)).trans (newTable_frame map small)

include inside

omit map low small in
theorem directory_addTable_of_ne {other : Nat} (otherInside : other < 1024) (different : other ≠ index) :
    (s.addTable index flags).directory other = s.directory other :=
  directoryEntry_setDirectory_of_ne inside otherInside different

omit low small in
theorem entry_addTable_of_ne (fits : page < 1048576) (present : Present (s.directory (page / 1024)))
    (different : page / 1024 ≠ index) : (s.addTable index flags).entry page = s.entry page :=
  pageEntry_setDirectory_of_ne map.tree inside fits present different

theorem entry_addTable_self (here : page / 1024 = index) :
    (s.addTable index flags).entry page =
      s.memory.load32 (wordAddress (s.nextFreePage / 4096) (page % 1024)) := by
  rw [← newTable_frame map small]
  exact pageEntry_setDirectory_self inside (by omega) (newTable_apart map small) here

include absent odd

theorem PageMap.addTable : PageMap base (s.addTable index flags) := by
  have notKernel : 2 ≤ index := by
    apply Nat.not_lt.mp
    intro kernel
    exact absent (map.kernelPresent kernel)
  have aligned := map.aligned
  have fresh : ∀ other, other < 1024 → Present (s.directory other) →
      s.table other ≠ frameOf (s.nextFreePage + flags) := by
    intro other otherInside present
    have below := map.table_not_free otherInside present
    rw [newTable_frame map small]
    omega
  have tree := map.tree.setDirectory inside (by omega) (newTable_apart map small) fresh
  refine ⟨map.start, ?_, ?_, ?_, ?_, tree.distinct, ?_⟩
  · show (s.nextFreePage + 4096) % 4096 = 0
    omega
  · exact Nat.le_trans map.grown (Nat.le_add_right _ _)
  · intro kernel bound
    rw [directory_addTable_of_ne inside (by omega) (by omega)]
    exact map.kernelTables kernel bound
  · intro other above otherInside present
    by_cases here : other = index
    · rw [here, table_addTable_self map low small]
      have grown := map.grown
      refine ⟨?_, ?_, ?_⟩
      · omega
      · show 4096 * (s.nextFreePage / 4096) < s.nextFreePage + 4096
        omega
      · omega
    · rw [directory_addTable_of_ne inside otherInside here] at present
      obtain ⟨first, second, third⟩ := map.tables other above otherInside present
      have same : (s.addTable index flags).table other = s.table other :=
        congrArg frameOf (directory_addTable_of_ne inside otherInside here)
      rw [same]
      exact ⟨first, Nat.lt_of_lt_of_le second (Nat.le_add_right _ _), third⟩
  · intro page below
    have kernel : page / 1024 < 2 := by omega
    rw [entry_addTable_of_ne map inside (by omega) (map.kernelPresent kernel) (by omega)]
    exact map.identity page below

end AddTable

section PutEntry

variable (map : PageMap base s) (fits : page < 1048576) (present : Present (s.directory (page / 1024)))
  (small : value < 4294967296)

include map fits present

theorem directory_putEntry (inside : index < 1024) :
    (s.putEntry page value).directory index = s.directory index :=
  directoryEntry_setEntry map.tree fits present inside

theorem table_putEntry (inside : index < 1024) : (s.putEntry page value).table index = s.table index :=
  congrArg frameOf (directory_putEntry map fits present inside)

theorem entry_putEntry_of_ne {other : Nat} (otherFits : other < 1048576)
    (otherPresent : Present (s.directory (other / 1024))) (different : other ≠ page) :
    (s.putEntry page value).entry other = s.entry other :=
  pageEntry_setEntry_of_ne map.tree fits present otherFits otherPresent different

include small

theorem entry_putEntry_self : (s.putEntry page value).entry page = value :=
  pageEntry_setEntry_self map.tree fits present small

theorem PageMap.putEntry (kept : page < 2048 → Present value ∧ frameOf value = page) :
    PageMap base (s.putEntry page value) := by
  have tree := @Tree.setEntry s.memory rootFrame page value map.tree fits present
  refine ⟨map.start, map.aligned, map.grown, ?_, ?_, tree.distinct, ?_⟩
  · intro index kernel
    rw [directory_putEntry map fits present (by omega)]
    exact map.kernelTables index kernel
  · intro index above inside there
    rw [directory_putEntry map fits present inside] at there
    rw [table_putEntry map fits present inside]
    exact map.tables index above inside there
  · intro other low
    by_cases here : other = page
    · subst here
      rw [entry_putEntry_self map fits present small]
      exact kept low
    · rw [entry_putEntry_of_ne map fits present (by omega) (map.kernelPresent (by omega)) here]
      exact map.identity other low

end PutEntry

end ShedKernel.Paging
