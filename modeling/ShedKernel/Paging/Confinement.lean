import ShedKernel.Paging.BreakProperties

/-! What ring 3 reaches. Whatever a program stores and however it moves its break, each of
its pages has a frame of its own behind the kernel, until the frames run out. -/

set_option autoImplicit false

namespace ShedKernel.Paging

open Foundation PageTable

/-! Programs. -/

/-- A store of a program. Where ring 3 may not write the processor faults, and the kernel
has no handler for that. -/
def storeFromRing3 (s : PagingState) (address : Nat) (value : UInt8) : Option PagingState :=
  match s.translation (address / 4096) with
  | some translation =>
      if translation.user && translation.writable then
        some { s with
          memory := s.memory.storeByte (4096 * translation.frame + address % 4096) value }
      else none
  | none => none

inductive ProgramAct where
  | store (address : UInt32) (value : UInt8)
  | sbrk (increment : UInt32)

def ProgramStep (s : PagingState) (act : ProgramAct) (next : PagingState) : Prop :=
  match act with
  | .store address value => storeFromRing3 s address.toNat value = some next
  | .sbrk increment => UserStep s increment next

/-- No call takes more frames than are left. -/
def Funded (s : PagingState) (act : ProgramAct) : Prop :=
  match act with
  | .store _ _ => True
  | .sbrk increment =>
      s.nextFreePage + 4096 * framesTaken s (firstPage s) (pageCount s increment.toNat) ≤ physMemEnd

def FundedStep (s : PagingState) (act : ProgramAct) (next : PagingState) : Prop :=
  ProgramStep s act next ∧ Funded s act

/-- Ring 3 reaches the frame under the number of the page. -/
def Ring3Reaches (s : PagingState) (page frame : Nat) : Prop :=
  page < 1048576 ∧ ∃ translation, s.translation page = some translation ∧ translation.user = true ∧
    translation.frame = frame

/-- No page table lies in the frame, and above 8 MiB no other page has it. -/
structure OwnFrame (base : Nat) (s : PagingState) (page frame : Nat) : Prop where
  above : base ≤ 4096 * frame
  used : 4096 * frame < s.nextFreePage
  alone : ∀ other, 2048 ≤ other → other < 1048576 → other ≠ page →
    ∀ shared, s.translation other = some shared → shared.frame ≠ frame
  notTable : ∀ index, index < 1024 → Present (s.directory index) → s.table index ≠ frame

/-- `alloc_page_frame` returns 0 when it has no frame left. -/
structure Confined (base : Nat) (s : PagingState) : Prop where
  map : PageMap base s
  free : FreeFrames s
  limit : s.nextFreePage ≤ physMemEnd
  own : ∀ page frame, Ring3Reaches s page frame →
    OwnFrame base s page frame ∨ frame = 0 ∧ s.nextFreePage = physMemEnd

variable {base page frame first done increment : Nat} {start s next : PagingState} {info : BootInfo}

theorem user_of_translation {translation : Translation} (found : s.translation page = some translation)
    (user : translation.user = true) : User (s.directory (page / 1024)) := by
  unfold PagingState.translation PageTable.translate at found
  dsimp only at found
  split at found
  · cases found
    exact (of_decide_eq_true user).1
  · cases found

/-- The kernel's own tables do not admit ring 3. -/
theorem Ring3Reaches.above (reached : Ring3Reaches s page frame) (map : PageMap base s) : 2048 ≤ page := by
  apply Nat.not_lt.mp
  intro low
  obtain ⟨_, translation, found, user, _⟩ := reached
  have granted := user_of_translation found user
  rw [map.kernelTables (page / 1024) (by omega)] at granted
  unfold User at granted
  omega

/-! A page gets a frame. -/

section MapNewFrame

variable (map : PageMap base s) (free : FreeFrames s) (fits : page < 1048576) (ready : Ready s page)
  (mapped : Mapped 7 s.allocated next page (s.handedOut + 7))

include map ready mapped

theorem translation_mapNewFrame_of_ne (free : FreeFrames s) {other : Nat} (otherFits : other < 1048576)
    (different : other ≠ page) : next.translation other = s.translation other := by
  by_cases present : Present (s.directory (other / 1024))
  · exact translation_mapNewFrame_of_present mapped otherFits different present
  · have unmapped : s.translation other = none := translate_of_absent present
    rw [unmapped]
    apply mapped.translation_of_absent map.allocated free.allocated otherFits different
    · rwa [allocated_directory]
    · intro own
      have low := ready.resolve_left (own ▸ present)
      rw [allocated_nextFreePage low]
      exact low

/-- The allocator moves on, or it is exhausted and stays where it is. -/
theorem nextFree_mapNewFrame_cases : s.nextFreePage < physMemEnd ∧ s.handedOut = s.nextFreePage ∧
      s.nextFreePage < next.nextFreePage ∧ next.nextFreePage ≤ physMemEnd ∨
    physMemEnd ≤ s.nextFreePage ∧ s.handedOut = 0 ∧ next.nextFreePage = s.nextFreePage := by
  have advanced := mapped.nextFree
  have aligned := map.aligned
  rw [allocated_directory] at advanced
  cases Nat.lt_or_ge s.nextFreePage physMemEnd with
  | inl available =>
    left
    obtain ⟨handed, moved⟩ := handedOut_available available
    rw [moved] at advanced
    refine ⟨available, handed, ?_⟩
    unfold physMemEnd at available ⊢
    by_cases present : Present (s.directory (page / 1024))
    · simp only [if_pos present] at advanced
      omega
    · have low := ready.resolve_left present
      simp only [if_neg present] at advanced
      omega
  | inr exhausted =>
    right
    obtain ⟨handed, same⟩ := handedOut_exhausted exhausted
    have present : Present (s.directory (page / 1024)) := ready.resolve_right fun low => by
      unfold physMemEnd at exhausted
      omega
    rw [same, if_pos present] at advanced
    exact ⟨exhausted, handed, advanced⟩

/-- A table was there before, or it lies in the frame behind that of the page. -/
theorem table_mapNewFrame {index : Nat} (inside : index < 1024) (present : Present (next.directory index)) :
    Present (s.directory index) ∧ next.table index = s.table index ∨
      s.nextFreePage + 4096 < 0x800000 ∧ 4096 * next.table index = s.nextFreePage + 4096 := by
  by_cases before : Present (s.directory index)
  · exact .inl ⟨before, congrArg frameOf (directory_mapNewFrame mapped inside (.inr before))⟩
  · have here : index = page / 1024 := by
      apply Classical.byContradiction
      intro elsewhere
      rw [directory_mapNewFrame mapped inside (.inl elsewhere)] at present
      exact before present
    subst here
    have low := ready.resolve_left before
    have aligned := map.aligned
    rw [← allocated_directory] at before
    refine .inr ⟨low, ?_⟩
    show 4096 * frameOf (next.directory (page / 1024)) = _
    rw [(mapped.newTable before).1, allocated_nextFreePage low]
    unfold frameOf
    omega

/-- The frame just handed out belongs to the page alone. -/
theorem ownFrame_handedOut (free : FreeFrames s) (available : s.nextFreePage < physMemEnd)
    (handed : 4096 * frame = s.nextFreePage) (moved : s.nextFreePage < next.nextFreePage) :
    OwnFrame base next page frame where
  above := handed ▸ map.grown
  used := handed ▸ moved
  alone other above otherFits different shared found := by
    rw [translation_mapNewFrame_of_ne map ready mapped free otherFits different] at found
    cases free.unused other above otherFits shared found with
    | inl below => omega
    | inr beyond => omega
  notTable index inside present := by
    cases table_mapNewFrame map ready mapped inside present with
    | inl before =>
      have used := map.table_not_free inside before.1
      omega
    | inr new => omega

/-- A page keeps its own frame when another page gets one. -/
theorem OwnFrame.mapNewFrame {other : Nat} (own : OwnFrame base s other frame) (free : FreeFrames s) :
    OwnFrame base next other frame := by
  have start := map.start
  have above := own.above
  have used := own.used
  have moved := nextFree_mapNewFrame_cases map ready mapped
  refine ⟨above, by omega, ?_, ?_⟩
  · intro third thirdAbove thirdFits different shared found
    by_cases here : third = page
    · subst here
      obtain ⟨translation, mappedTo, handed, _⟩ := translation_handedOut map mapped
      rw [mappedTo] at found
      cases Option.some.inj found
      omega
    · rw [translation_mapNewFrame_of_ne map ready mapped free thirdFits here] at found
      exact own.alone third thirdAbove thirdFits different shared found
  · intro index inside present
    cases table_mapNewFrame map ready mapped inside present with
    | inl before =>
      rw [before.2]
      exact own.notTable index inside before.1
    | inr new => omega

end MapNewFrame

namespace Confined

section Step

variable (confined : Confined base s) (fits : page < 1048576) (ready : Ready s page)

include confined ready

theorem mapNewFrame (fits : page < 1048576) (nextMap : PageMap base next)
    (mapped : Mapped 7 s.allocated next page (s.handedOut + 7)) : Confined base next := by
  have map := confined.map
  have free := confined.free
  have limit := confined.limit
  have moved := nextFree_mapNewFrame_cases map ready mapped
  refine ⟨nextMap, freeFrames_mapNewFrame map nextMap fits mapped ready free, by omega, ?_⟩
  rintro other frame ⟨otherFits, translation, found, user, rfl⟩
  by_cases here : other = page
  · subst here
    obtain ⟨handed, mappedTo, frame, _⟩ := translation_handedOut map mapped
    rw [mappedTo] at found
    cases Option.some.inj found
    cases moved with
    | inl available =>
      exact .inl (ownFrame_handedOut map ready mapped free available.1 (frame.trans available.2.1)
        available.2.2.1)
    | inr exhausted => exact .inr (by omega)
  · rw [translation_mapNewFrame_of_ne map ready mapped free otherFits here] at found
    cases confined.own other translation.frame ⟨otherFits, translation, found, user, rfl⟩ with
    | inl own => exact .inl (own.mapNewFrame map ready mapped free)
    | inr zero => exact .inr (by omega)

end Step

/-- While frames are left, ring 3 does not reach frame 0. -/
theorem not_zero (confined : Confined base s) (available : s.nextFreePage < physMemEnd) (page : Nat) :
    ¬Ring3Reaches s page 0 := by
  intro reached
  cases confined.own page 0 reached with
  | inl own =>
    have above := own.above
    have start := confined.map.start
    omega
  | inr exhausted => omega

end Confined

/-! `sbrk`. -/

/-- Frame 0 is reached once the pages and tables of the loop have used up the frames. -/
structure ConfinedTurns (base : Nat) (start : PagingState) (first done : Nat) (s : PagingState) : Prop where
  grants : Granting base start first done s
  confined : Confined base s
  zero : (∃ page, Ring3Reaches s page 0) ↔ (∃ page, Ring3Reaches start page 0) ∨
    physMemEnd < start.nextFreePage + 4096 * framesTaken start first done

theorem Confined.turns (confined : Confined base start) : ConfinedTurns base start first 0 start := by
  refine ⟨.zero confined.map, confined, ?_⟩
  constructor
  · exact .inl
  · intro either
    apply either.resolve_right
    have limit := confined.limit
    simp only [framesTaken]
    omega

namespace ConfinedTurns

/-- The pages of the loop admit ring 3. -/
theorem user_here (turns : Granting base start first (done + 1) next) (fits : first + done < 1048576)
    (user : Present (start.directory ((first + done) / 1024)) →
      User (start.directory ((first + done) / 1024)))
    (present : Present (next.directory ((first + done) / 1024))) :
    User (next.directory ((first + done) / 1024)) := by
  have inside : (first + done) / 1024 < 1024 := by omega
  by_cases before : Present (start.directory ((first + done) / 1024))
  · rw [turns.progress.directories _ inside before]
    exact user before
  · exact (turns.tables _ inside before present).1

theorem step (turns : ConfinedTurns base start first done s) (fits : first + done < 1048576)
    (user : Present (start.directory ((first + done) / 1024)) →
      User (start.directory ((first + done) / 1024)))
    (low : TableDue start first (first + done) →
      start.nextFreePage + 4096 * framesTaken start first done + 4096 < 0x800000)
    (nextMap : PageMap base next) (mapped : Mapped 7 s.allocated next (first + done) (s.handedOut + 7)) :
    ConfinedTurns base start first (done + 1) next := by
  have confined := turns.confined
  have progress := turns.grants.progress
  have ready := progress.ready fits low
  have grants := turns.grants.step ready mapped fits nextMap
  have nextConfined := confined.mapNewFrame ready fits nextMap mapped
  have frames := progress.frames
  have aligned := confined.map.aligned
  have taken : framesTaken start first (done + 1) = framesTaken start first done + 1 +
      if TableDue start first (first + done) then 1 else 0 := rfl
  refine ⟨grants, nextConfined, ?_⟩
  cases nextFree_mapNewFrame_cases confined.map ready mapped with
  | inl available =>
    have exact := frames.resolve_right fun capped => absurd capped.1 (Nat.not_le.mpr available.1)
    have notNow : ¬∃ page, Ring3Reaches s page 0 := fun ⟨page, reached⟩ =>
      confined.not_zero available.1 page reached
    apply iff_of_false
    · rintro ⟨page, reached⟩
      by_cases here : page = first + done
      · subst here
        obtain ⟨_, translation, found, _, zero⟩ := reached
        obtain ⟨handed, mappedTo, frame, _⟩ := translation_handedOut confined.map mapped
        rw [mappedTo] at found
        cases Option.some.inj found
        have start := confined.map.start
        have grown := confined.map.grown
        omega
      · obtain ⟨pageFits, translation, found, granted⟩ := reached
        rw [translation_mapNewFrame_of_ne confined.map ready mapped confined.free pageFits here] at found
        exact notNow ⟨page, pageFits, translation, found, granted⟩
    · rintro (before | past)
      · exact notNow (turns.zero.mpr (.inl before))
      · have limit := available.1
        unfold physMemEnd at limit past
        by_cases due : TableDue start first (first + done)
        · have room := low due
          rw [if_pos due] at taken
          omega
        · rw [if_neg due] at taken
          omega
  | inr exhausted =>
    apply iff_of_true
    · obtain ⟨handed, mappedTo, frame, granted⟩ := translation_handedOut confined.map mapped
      refine ⟨first + done, fits, handed, mappedTo, granted ?_, by omega⟩
      exact user_here grants fits user mapped.present
    · right
      have spent : physMemEnd ≤ start.nextFreePage + 4096 * framesTaken start first done := by
        cases frames with
        | inl exact => exact exact ▸ exhausted.1
        | inr capped => exact capped.2
      omega

end ConfinedTurns

private theorem Ring3Reaches.setBreak_iff (address : Nat) :
    Ring3Reaches { s with userHeapPtr := address } page frame ↔ Ring3Reaches s page frame :=
  Iff.rfl

theorem Confined.setBreak (confined : Confined base s) (address : Nat) :
    Confined base { s with userHeapPtr := address } := by
  refine ⟨confined.map.setBreak address, confined.free.setBreak address, confined.limit, ?_⟩
  intro page frame reached
  cases confined.own page frame reached with
  | inl own => exact .inl ⟨own.above, own.used, own.alone, own.notTable⟩
  | inr zero => exact .inr zero

theorem Confined.sbrk (confined : Confined base s) (heap : s.userHeapPtr < 4294967296)
    (orderly : Orderly s increment) (user : UserTables s increment) :
    ∃ final, sbrk s increment =
        .ok (s.userHeapPtr, { final with userHeapPtr := newBreak s increment }) ∧
      ConfinedTurns base s (firstPage s) (pageCount s increment) final := by
  have above := user.above confined.map
  apply sbrk_rule heap orderly.ends confined.turns
  intro done current within fits turns
  have low := orderly.tables done within
  obtain ⟨next, ran, nextMap, mapped⟩ := mapNewFrame_spec turns.confined.map fits (above done within)
    (turns.grants.progress.ready fits low)
  exact ⟨next, ran, turns.step fits (user done within) low nextMap mapped⟩

/-! A store. -/

private theorem storeFromRing3_eq_some {address : Nat} {value : UInt8} (small : address < 4294967296)
    (stored : storeFromRing3 s address value = some next) :
    ∃ frame, Ring3Reaches s (address / 4096) frame ∧
      next = { s with memory := s.memory.storeByte (4096 * frame + address % 4096) value } := by
  unfold storeFromRing3 at stored
  cases found : s.translation (address / 4096) with
  | none =>
    rw [found] at stored
    cases stored
  | some translation =>
    rw [found] at stored
    dsimp only at stored
    split at stored
    · next granted =>
      obtain ⟨user, _⟩ := Bool.and_eq_true_iff.mp granted
      exact ⟨translation.frame, ⟨by omega, translation, found, user, rfl⟩, (Option.some.inj stored).symm⟩
    · cases stored

section Store

variable {offset : Nat} {value : UInt8} (inside : offset < 4096)

include inside

private theorem storeByte_of_frame_ne {memory : Memory} {address : Nat} (elsewhere : address / 4096 ≠ frame) :
    memory.storeByte (4096 * frame + offset) value address = memory address := by
  apply Memory.storeByte_of_ne
  omega

private theorem load32_storeByte {memory : Memory} {other index : Nat} (bound : index < 1024)
    (different : other ≠ frame) :
    (memory.storeByte (4096 * frame + offset) value).load32 (wordAddress other index) =
      memory.load32 (wordAddress other index) := by
  apply Memory.load32_congr
  unfold wordAddress
  intro address _ _
  apply storeByte_of_frame_ne inside
  omega

theorem beside_storeByte (notRoot : frame ≠ rootFrame)
    (notTable : ∀ index, index < 1024 → Present (s.directory index) → s.table index ≠ frame) :
    Beside frame s { s with memory := s.memory.storeByte (4096 * frame + offset) value } := by
  have directories : ∀ index, index < 1024 →
      directoryEntry (s.memory.storeByte (4096 * frame + offset) value) rootFrame index = s.directory index :=
    fun index bound => load32_storeByte inside bound notRoot.symm
  refine ⟨directories, ?_, rfl, rfl, fun address elsewhere => storeByte_of_frame_ne inside elsewhere⟩
  intro page fits present
  have table : tableFrame (s.memory.storeByte (4096 * frame + offset) value) rootFrame (page / 1024) =
      s.table (page / 1024) := congrArg frameOf (directories _ (by omega))
  simp only [PagingState.entry, pageEntry, table]
  exact load32_storeByte inside (Nat.mod_lt _ (by decide)) (notTable _ (by omega) present)

end Store

namespace Confined

/-- A frame that ring 3 reaches is neither the directory nor a table, and not free. -/
theorem reached_apart (confined : Confined base s) (reached : Ring3Reaches s page frame) :
    frame ≠ rootFrame ∧ 4096 * frame < s.nextFreePage ∧
      ∀ index, index < 1024 → Present (s.directory index) → s.table index ≠ frame := by
  have start := confined.map.start
  have grown := confined.map.grown
  unfold rootFrame
  cases confined.own page frame reached with
  | inl own =>
    have above := own.above
    exact ⟨by omega, own.used, own.notTable⟩
  | inr zero =>
    refine ⟨by omega, by omega, ?_⟩
    intro index inside present
    have low := (confined.map.table_low inside present).2
    unfold rootFrame at low
    omega

theorem beside (confined : Confined base s) (beside : Beside frame s next)
    (used : 4096 * frame < s.nextFreePage) : Confined base next := by
  have aligned := confined.map.aligned
  have nextFree := beside.nextFree
  refine ⟨beside.map confined.map, ⟨?_, ?_⟩, nextFree ▸ confined.limit, ?_⟩
  · intro address above low
    rw [beside.untouched address (by omega)]
    exact confined.free.zero address (by omega) low
  · intro page above fits translation found
    rw [beside.translation fits] at found
    rw [nextFree]
    exact confined.free.unused page above fits translation found
  · rintro page other ⟨fits, translation, found, granted⟩
    rw [beside.translation fits] at found
    cases confined.own page other ⟨fits, translation, found, granted⟩ with
    | inl own =>
      refine .inl ⟨own.above, nextFree ▸ own.used, ?_, ?_⟩
      · intro third above thirdFits different shared sharedFound
        rw [beside.translation thirdFits] at sharedFound
        exact own.alone third above thirdFits different shared sharedFound
      · intro index inside present
        rw [beside.directories index inside] at present
        have table : next.table index = s.table index := congrArg frameOf (beside.directories index inside)
        rw [table]
        exact own.notTable index inside present
    | inr zero => exact .inr ⟨zero.1, nextFree.trans zero.2⟩

theorem store (confined : Confined base s) {address : Nat} {value : UInt8} (small : address < 4294967296)
    (stored : storeFromRing3 s address value = some next) :
    ∃ frame, Ring3Reaches s (address / 4096) frame ∧ Beside frame s next ∧ Confined base next := by
  obtain ⟨frame, reached, rfl⟩ := storeFromRing3_eq_some small stored
  obtain ⟨notRoot, used, notTable⟩ := confined.reached_apart reached
  have changed := @beside_storeByte frame s _ value (Nat.mod_lt address (by decide)) notRoot notTable
  exact ⟨frame, reached, changed, confined.beside changed used⟩

end Confined

/-! Boot. -/

/-- No table admits ring 3. -/
def KernelOnly (s : PagingState) : Prop :=
  ∀ index, index < 1024 → Present (s.directory index) → ¬User (s.directory index)

theorem KernelOnly.confined (only : KernelOnly s) (map : PageMap base s) (free : FreeFrames s)
    (limit : s.nextFreePage ≤ physMemEnd) : Confined base s := by
  refine ⟨map, free, limit, ?_⟩
  rintro page frame ⟨fits, translation, found, user, _⟩
  exact absurd (user_of_translation found user) (only _ (by omega) (translate_eq_some found).1)

private theorem pagingOn_kernelOnly (memory : Memory) (base : Nat) : KernelOnly (pagingOn memory base) := by
  intro index inside present
  rw [pagingOn_directory memory base inside, if_pos ((pagingOn_present memory base inside).mp present)]
  unfold User
  omega

private theorem KernelOnly.framebufferPage (only : KernelOnly s) (map : PageMap base s) {value : Nat}
    (mapped : Mapped 3 s next page value) : KernelOnly next := by
  intro index inside present
  by_cases kept : index ≠ page / 1024 ∨ Present (s.directory index)
  · rw [mapped.directories index inside kept] at present ⊢
    exact only index inside present
  · have aligned := map.aligned
    have here : index = page / 1024 := Decidable.not_not.mp fun elsewhere => kept (.inl elsewhere)
    subst here
    rw [(mapped.newTable fun before => kept (.inr before)).1]
    unfold User
    omega

theorem FramebufferTurns.low (turns : FramebufferTurns info done s) (bootable : Bootable info)
    (mapped : info.fbPhysAddr ≠ 0) (within : 4096 * done < info.fbSize) : s.nextFreePage < 0x800000 := by
  have room := bootable.room
  have frames := turns.frames
  have tables : info.fbTables = info.fbSize / 0x400000 + 2 := if_neg mapped
  have bound := @tablesBy_le (info.fbPhysAddr.toNat / 4096) info.fbSize done
    (Nat.lt_of_lt_of_le within (Nat.le_add_right _ _))
  obtain ⟨_, _, near⟩ := bootable.firstFrame_spec
  omega

/-- The directory entries in use belong to the framebuffer, and behind the tables of
`init_paging` the kernel's memory is as it was loaded. -/
structure KernelTurns (info : BootInfo) (done : Nat) (s : PagingState) : Prop where
  turns : FramebufferTurns info done s
  only : KernelOnly s
  created : ∀ index, 2 ≤ index → index < 1024 → Present (s.directory index) →
    ∃ turn, turn < done ∧ (info.fbPhysAddr.toNat / 4096 + turn) % 1048576 / 1024 = index
  image : ∀ address, 0x9F000 ≤ address → address < info.firstFrame → s.memory address = info.memory address

theorem KernelTurns.zero (bootable : Bootable info) (clean : CleanBoot info) :
    KernelTurns info 0 (pagingOn info.memory info.firstFrame) := by
  obtain ⟨aligned, above, _⟩ := bootable.firstFrame_spec
  have low : 0x100000 ≤ info.firstFrame := Nat.le_trans bootable.kernelStart above
  have free := pagingOn_freeFrames info.memory low fun address after below =>
    clean.zero address (Nat.le_trans above after) below
  refine ⟨⟨pagingOn_map info.memory low aligned, rfl, Nat.le_add_right _ _, nofun, fun _ => free⟩,
    pagingOn_kernelOnly info.memory info.firstFrame, ?_,
    fun address high _ => pagingOn_untouched info.memory info.firstFrame high⟩
  intro index kernel inside present
  exact absurd ((pagingOn_present info.memory info.firstFrame inside).mp present) (Nat.not_lt.mpr kernel)

theorem KernelTurns.step (kernel : KernelTurns info done s) (bootable : Bootable info)
    (mapped : info.fbPhysAddr ≠ 0) (within : 4096 * done < info.fbSize) :
    ∃ next, mapFramebufferPage s (add32 info.fbPhysAddr.toNat (4096 * done)) = .ok next ∧
      KernelTurns info (done + 1) next := by
  have map := kernel.turns.map
  have start := map.start
  have fits := add32_lt info.fbPhysAddr.toNat (4096 * done)
  obtain ⟨next, ran, turns⟩ := kernel.turns.step bootable mapped within
  obtain ⟨same, again, _, page⟩ :=
    mapFramebufferPage_spec map fits (.inr (kernel.turns.low bootable mapped within))
  cases Except.ok.inj (ran.symm.trans again)
  have number : add32 info.fbPhysAddr.toNat (4096 * done) / 4096 =
      (info.fbPhysAddr.toNat / 4096 + done) % 1048576 := by
    unfold add32
    omega
  rw [number] at page
  have here : (info.fbPhysAddr.toNat / 4096 + done) % 1048576 / 1024 < 1024 := by omega
  refine ⟨next, ran, turns, kernel.only.framebufferPage map page, ?_, ?_⟩
  · intro index above inside present
    by_cases kept : index ≠ (info.fbPhysAddr.toNat / 4096 + done) % 1048576 / 1024
    · rw [page.directories index inside (.inl kept)] at present
      obtain ⟨turn, earlier, same⟩ := kernel.created index above inside present
      exact ⟨turn, Nat.lt_succ_of_lt earlier, same⟩
    · exact ⟨done, Nat.lt_succ_self done, (Decidable.not_not.mp kept).symm⟩
  · intro address high below
    rw [page.untouched address, kernel.image address high below]
    · unfold rootFrame
      omega
    · have table : ∀ index, index < 1024 → Present (next.directory index) →
          address / 4096 ≠ next.table index := by
        intro index inside present
        by_cases own : index < 2
        · rw [turns.map.kernelTable own]
          omega
        · have behind := (turns.map.tables index (Nat.not_lt.mp own) inside present).1
          omega
      exact table _ here page.present

/-- The state in which the kernel comes to the pages of the programs. -/
structure KernelReady (info : BootInfo) (s : PagingState) : Prop where
  map : PageMap info.firstFrame s
  free : FreeFrames s
  heap : s.userHeapPtr = 0xE0000000
  frames : s.nextFreePage ≤ info.firstFrame + 4096 * info.fbTables
  only : KernelOnly s
  created : ∀ index, 2 ≤ index → index < 1024 → Present (s.directory index) → info.fbPhysAddr ≠ 0 ∧
    ∃ turn, 4096 * turn < info.fbSize ∧ (info.fbPhysAddr.toNat / 4096 + turn) % 1048576 / 1024 = index
  image : ∀ address, 0x9F000 ≤ address → address < info.firstFrame → s.memory address = info.memory address

theorem kernel_ready (bootable : Bootable info) (clean : CleanBoot info) : ∃ s, KernelReady info s ∧
    (info.fbPhysAddr = 0 ∧ s = pagingOn info.memory info.firstFrame ∨ info.fbPhysAddr ≠ 0 ∧
      mapFramebuffer (pagingOn info.memory info.firstFrame) info.fbPhysAddr.toNat info.fbSize = .ok s) := by
  have start := KernelTurns.zero bootable clean
  by_cases none : info.fbPhysAddr = 0
  · refine ⟨_, ⟨start.turns.map, start.turns.free clean, rfl, Nat.le_add_right _ _, start.only, ?_,
      start.image⟩, .inl ⟨none, rfl⟩⟩
    intro index above inside present
    obtain ⟨turn, never, _⟩ := start.created index above inside present
    exact absurd never (Nat.not_lt_zero turn)
  · have size := bootable.framebuffer none
    obtain ⟨s, looped, kernel⟩ := @pageLoop_rule _
      (fun s off => mapFramebufferPage s (add32 info.fbPhysAddr.toNat off)) info.fbSize 0
      ((info.fbSize + 4095) / 4096) enoughTurns (KernelTurns info) (fun done within => by omega) (by omega)
      (by omega) (by unfold enoughTurns; omega) start fun done current within reached => by
        rw [Nat.zero_add]
        exact reached.step bootable none (by omega)
    have bound := @tablesBy_le (info.fbPhysAddr.toNat / 4096) info.fbSize ((info.fbSize + 4095) / 4096) (by omega)
    have tables : info.fbTables = info.fbSize / 0x400000 + 2 := if_neg none
    rw [← tables] at bound
    refine ⟨s, ⟨kernel.turns.map, kernel.turns.free clean, kernel.turns.heap,
      Nat.le_trans kernel.turns.frames (Nat.add_le_add_left (Nat.mul_le_mul_left 4096 bound) _), kernel.only, ?_,
      kernel.image⟩, .inr ⟨none, looped⟩⟩
    intro index above inside present
    obtain ⟨turn, earlier, same⟩ := kernel.created index above inside present
    exact ⟨none, turn, by omega, same⟩

theorem KernelReady.confined (ready : KernelReady info s) (bootable : Bootable info) :
    Confined info.firstFrame s := by
  have frames := ready.frames
  have room := bootable.room
  obtain ⟨_, _, near⟩ := bootable.firstFrame_spec
  exact ready.only.confined ready.map ready.free (by unfold physMemEnd; omega)

private theorem mapNewFrames_confined (pages : List Nat) (confined : Confined base s)
    (proper : ∀ virt, virt ∈ pages → virt % 4096 = 0 ∧ 2048 ≤ virt / 4096 ∧ virt / 4096 < 1048576)
    (room : s.nextFreePage + 8192 * pages.length ≤ 0x800000) (mapped : mapNewFrames s pages = .ok next) :
    Confined base next := by
  induction pages generalizing s with
  | nil =>
    cases mapped
    exact confined
  | cons virt rest ih =>
    obtain ⟨aligned, above, fits⟩ := proper virt (List.mem_cons_self ..)
    have number : 4096 * (virt / 4096) = virt := by omega
    rw [List.length_cons] at room
    have ready : Ready s (virt / 4096) := by
      right
      omega
    obtain ⟨middle, ran, middleMap, page⟩ := mapNewFrame_spec confined.map fits above ready
    have taken := nextFree_mapNewFrame page
    rw [number] at ran
    simp only [mapNewFrames, ran, bind, Except.bind] at mapped
    exact ih (confined.mapNewFrame ready fits middleMap page)
      (fun other member => proper other (List.mem_cons_of_mem _ member)) (by omega) mapped

private theorem boot_confined (bootable : Bootable info) (clean : CleanBoot info) (booted : boot info = .ok start) :
    Confined info.firstFrame start ∧ start.userHeapPtr = 0xE0000000 ∧ start.nextFreePage < 0x800000 := by
  obtain ⟨_, _, near⟩ := bootable.firstFrame_spec
  obtain ⟨started, ran, spec⟩ := boot_spec bootable
  cases Except.ok.inj (booted.symm.trans ran)
  obtain ⟨s, ready, reached⟩ := kernel_ready bootable clean
  have room := bootable.room
  have length := programPages_length
  have frames := spec.frames
  have spent := ready.frames
  refine ⟨?_, spec.heap, by omega⟩
  have rest : mapNewFrames s programPages = .ok start := by
    cases reached with
    | inl without =>
      rw [boot_of_none without.1, ← without.2] at booted
      exact booted
    | inr framebuffer =>
      rw [boot_of_framebuffer framebuffer.1 framebuffer.2] at booted
      exact booted
  exact mapNewFrames_confined programPages (ready.confined bootable) programPages_proper (by omega) rest

/-! Runs. -/

/-- What programs cannot change, and what they get. -/
structure Confinement (info : BootInfo) (start s : PagingState) : Prop where
  own : ∀ page frame, Ring3Reaches s page frame → frame ≠ 0 →
    OwnsFrame info (2048 ≤ ·) s page ∧ 4096 * frame < physMemEnd
  kernel : ∀ page, page < 2048 → ∃ translation, s.translation page = some translation ∧
    translation.frame = page ∧ translation.user = false
  image : ∀ address, 4096 ≤ address → address < info.kernelEnd.toNat →
    address < 0x9C000 ∨ 0x9F000 ≤ address → s.memory address = start.memory address
  stores : ∀ (address : UInt32) value next, storeFromRing3 s address.toNat value = some next →
    ∀ page, page < 1048576 → next.translation page = s.translation page

private theorem programStep_deterministic (s : PagingState) (act : ProgramAct) (left right : PagingState)
    (one : ProgramStep s act left) (two : ProgramStep s act right) : left = right := by
  cases act with
  | store address value => exact Option.some.inj (one.symm.trans two)
  | sbrk increment => exact congrArg Prod.snd (Except.ok.inj (one.2.2.symm.trans two.2.2))

private theorem fundedRun_snoc {acts : List ProgramAct} {act : ProgramAct} (run : Run ProgramStep start acts s)
    (step : ProgramStep s act next) :
    Run FundedStep start (acts ++ [act]) next ↔ Run FundedStep start acts s ∧ Funded s act := by
  constructor
  · intro funded
    obtain ⟨before, earlier, last⟩ := funded.last
    have same : before = s := run.unique programStep_deterministic (earlier.weaken fun _ _ _ step => step.1)
    subst same
    exact ⟨earlier, last.2⟩
  · intro ⟨earlier, funded⟩
    exact earlier.snoc ⟨step, funded⟩

/-- The invariant of a run: frame 0 is safe in exactly the runs whose calls were funded. -/
structure Confining (info : BootInfo) (start : PagingState) (acts : List ProgramAct) (s : PagingState) : Prop where
  confined : Confined info.firstFrame s
  heap : s.userHeapPtr < 4294967296
  zero : (∃ page, Ring3Reaches s page 0) ↔ ¬Run FundedStep start acts s
  image : ∀ address, address < info.kernelEnd.toNat → address < 0x9C000 ∨ 0x9F000 ≤ address →
    4096 ≤ address ∨ Run FundedStep start acts s → s.memory address = start.memory address

namespace Confining

variable {acts : List ProgramAct}

theorem store (confining : Confining info start acts s) (bootable : Bootable info) {address : UInt32}
    {value : UInt8} (run : Run ProgramStep start acts s) (step : ProgramStep s (.store address value) next) :
    Confining info start (acts ++ [.store address value]) next := by
  obtain ⟨frame, reached, changed, confined⟩ := confining.confined.store address.toNat_lt step
  have funded := fundedRun_snoc run step
  simp only [Funded, and_true] at funded
  refine ⟨confined, changed.heap ▸ confining.heap, ?_, ?_⟩
  · rw [funded, ← confining.zero]
    unfold Ring3Reaches
    constructor
    · rintro ⟨page, fits, found⟩
      exact ⟨page, fits, changed.translation fits ▸ found⟩
    · rintro ⟨page, fits, found⟩
      exact ⟨page, fits, (changed.translation fits).symm ▸ found⟩
  · intro other below elsewhere safe
    rw [funded] at safe
    rw [changed.untouched other, confining.image other below elsewhere safe]
    cases confining.confined.own _ frame reached with
    | inl own =>
      obtain ⟨_, above, _⟩ := bootable.firstFrame_spec
      have behind := own.above
      omega
    | inr zero =>
      intro same
      cases safe with
      | inl above => omega
      | inr funded => exact confining.zero.mp ⟨_, zero.1 ▸ reached⟩ funded

theorem sbrk (confining : Confining info start acts s) (bootable : Bootable info) {increment : UInt32}
    (run : Run ProgramStep start acts s) (step : ProgramStep s (.sbrk increment) next) :
    Confining info start (acts ++ [.sbrk increment]) next := by
  have funded := fundedRun_snoc run step
  obtain ⟨orderly, user, called⟩ := step
  obtain ⟨final, ran, turns⟩ := confining.confined.sbrk confining.heap orderly user
  cases Except.ok.inj (called.symm.trans ran)
  refine ⟨turns.confined.setBreak _, add32_lt _ _, ?_, ?_⟩
  · rw [funded, Classical.not_and_iff_not_or_not, ← confining.zero]
    simp only [Ring3Reaches.setBreak_iff, Funded, Nat.not_le]
    exact turns.zero
  · intro address below elsewhere safe
    rw [funded] at safe
    rw [← confining.image address below elsewhere (safe.imp_right And.left)]
    apply turns.grants.progress.untouched
    · unfold rootFrame
      omega
    · intro index inside present
      obtain ⟨_, above, _⟩ := bootable.firstFrame_spec
      have map := turns.confined.map
      by_cases kernel : index < 2
      · rw [map.kernelTable kernel]
        omega
      · have behind := (map.tables index (Nat.not_lt.mp kernel) inside present).1
        omega

private theorem of_run (bootable : Bootable info) (clean : CleanBoot info) (booted : boot info = .ok start)
    (run : Run ProgramStep start acts s) : Confining info start acts s := by
  induction run with
  | nil =>
    obtain ⟨confined, heap, low⟩ := boot_confined bootable clean booted
    have available : start.nextFreePage < physMemEnd := Nat.lt_trans low (by decide)
    refine ⟨confined, heap ▸ (by decide), ?_, fun _ _ _ _ => rfl⟩
    exact iff_of_false (fun ⟨page, reached⟩ => confined.not_zero available page reached) (absurd .nil ·)
  | @snoc acts current next act run step ih =>
    cases act with
    | store address value => exact ih.store bootable run step
    | sbrk increment => exact ih.sbrk bootable run step

private theorem confinement (confining : Confining info start acts s) (bootable : Bootable info) :
    Confinement info start s := by
  have map := confining.confined.map
  obtain ⟨_, above, _⟩ := bootable.firstFrame_spec
  refine ⟨?_, ?_, ?_, ?_⟩
  · intro page frame reached nonzero
    have limit := confining.confined.limit
    cases confining.confined.own page frame reached with
    | inl own =>
      obtain ⟨fits, translation, found, user, rfl⟩ := reached
      have behind := own.above
      have used := own.used
      exact ⟨⟨translation, found, user, Nat.pos_of_ne_zero nonzero, by omega,
        fun other otherFits low different => own.alone other low otherFits different, own.notTable⟩, by omega⟩
    | inr zero => exact absurd zero.1 nonzero
  · intro page low
    obtain ⟨translation, found, same⟩ := map.identity_translation low
    refine ⟨translation, found, same, ?_⟩
    cases user : translation.user with
    | false => rfl
    | true =>
      have high := Ring3Reaches.above ⟨by omega, translation, found, user, rfl⟩ map
      omega
  · intro address high below elsewhere
    exact confining.image address below elsewhere (.inl high)
  · intro address value next stored page fits
    obtain ⟨_, _, changed, _⟩ := confining.confined.store address.toNat_lt stored
    exact changed.translation fits

end Confining

theorem ring3_confined (bootable : Bootable info) (clean : CleanBoot info) (booted : boot info = .ok start)
    (acts : List ProgramAct) (s : PagingState) (run : Run ProgramStep start acts s) :
    Confinement info start s ∧
      ((∃ page, Ring3Reaches s page 0) ↔ ¬Run FundedStep start acts s) ∧
      (Run FundedStep start acts s → ∀ address, address < 4096 → s.memory address = start.memory address) := by
  have confining := Confining.of_run bootable clean booted run
  have behind := bootable.kernelStart
  exact ⟨confining.confinement bootable, confining.zero, fun funded address low =>
    confining.image address (by omega) (.inl (by omega)) (.inr funded)⟩

theorem ring3_confined_example : ∃ start first, boot exampleBoot = .ok start ∧
    Run FundedStep start [.sbrk 0x1000] first ∧ Confinement exampleBoot start first ∧
    ¬∃ page, Ring3Reaches first page 0 := by
  obtain ⟨start, booted, spec⟩ := boot_spec exampleBoot_bootable
  obtain ⟨first, grown⟩ := exampleBoot_firstPage spec
  have step : ProgramStep start (.sbrk 0x1000) first := ⟨grown.fresh.orderly, grown.user, grown.ran⟩
  have funded : Funded start (.sbrk 0x1000) := by
    have frames := exampleBoot_frames spec
    have taken := framesTaken_le start (firstPage start) (pageCount start (0x1000 : UInt32).toNat)
    have single : pageCount start (0x1000 : UInt32).toNat = 1 := by
      rw [pageCount, newBreak, firstPage, spec.heap]
      rfl
    rw [single] at taken
    simp only [Funded, single]
    unfold physMemEnd
    omega
  have run : Run FundedStep start [.sbrk 0x1000] first := .single ⟨step, funded⟩
  obtain ⟨confinement, zero, _⟩ :=
    ring3_confined exampleBoot_bootable exampleBoot_clean booted [.sbrk 0x1000] first (.single step)
  exact ⟨start, first, booted, run, confinement, fun reached => zero.mp reached run⟩

end ShedKernel.Paging
