import ShedKernel.Foundation.Run
import ShedKernel.Paging.BootProperties
import ShedKernel.Paging.GrantProperties

/-! Runs of `sbrk` calls after boot: pages that are mapped stay where they are, and the
frames handed out are used once. -/

set_option autoImplicit false

namespace ShedKernel.Paging

open Foundation PageTable

variable {base first done increment : Nat} {start s next : PagingState} {info : BootInfo}

theorem PageMap.setBreak (map : PageMap base s) (address : Nat) :
    PageMap base { s with userHeapPtr := address } :=
  ⟨map.start, map.aligned, map.grown, map.kernelTables, map.tables, map.distinct, map.identity⟩

theorem FreeFrames.setBreak (free : FreeFrames s) (address : Nat) :
    FreeFrames { s with userHeapPtr := address } :=
  ⟨free.zero, free.unused⟩

/-- Outside the pages of the loop, what was mapped stays. -/
theorem Progress.translation (progress : Progress base start first done s) {page : Nat}
    (fits : page < 1048576) (mapped : start.translation page ≠ none)
    (outside : ∀ turn, turn < done → first + turn ≠ page) : s.translation page = start.translation page := by
  have present := (translation_ne_none_iff.mp mapped).1
  exact translate_congr (progress.directories _ (by omega) present)
    (progress.entries page fits present outside)

/-! Frames of one call. -/

private theorem framesTaken_mono {turn later : Nat} (order : turn ≤ later) :
    framesTaken s first turn ≤ framesTaken s first later := by
  induction order with
  | refl => exact Nat.le_refl _
  | step _ ih => exact Nat.le_trans ih (Nat.le_trans (Nat.le_add_right _ 1) (Nat.le_add_right _ _))

private theorem framesTaken_lt {turn later : Nat} (order : turn < later) :
    framesTaken s first turn < framesTaken s first later :=
  Nat.lt_of_lt_of_le (Nat.lt_of_lt_of_le (Nat.lt_succ_self _) (Nat.le_add_right _ _)) (framesTaken_mono order)

theorem framesTaken_le (s : PagingState) (first done : Nat) : framesTaken s first done ≤ 2 * done := by
  induction done with
  | zero => exact Nat.le_refl _
  | succ done ih =>
    simp only [framesTaken]
    split <;> omega

/-- The first page of the loop gets the first frame. -/
theorem sbrk_first_frame (map : PageMap base s) (heap : s.userHeapPtr < 4294967296)
    (orderly : Orderly s increment) (above : ∀ done, done < pageCount s increment → 2048 ≤ firstPage s + done)
    (grows : 0 < pageCount s increment) (room : s.nextFreePage + 8192 * pageCount s increment < physMemEnd) :
    ∃ next translation, sbrk s increment = .ok (s.userHeapPtr, next) ∧ PageMap base next ∧
      next.userHeapPtr = newBreak s increment ∧
      next.translation (firstPage s) = some translation ∧ 4096 * translation.frame = s.nextFreePage ∧
      s.nextFreePage < next.nextFreePage ∧
      next.nextFreePage ≤ s.nextFreePage + 8192 * pageCount s increment := by
  have bound := framesTaken_le s (firstPage s) (pageCount s increment)
  have more := @framesTaken_lt (firstPage s) s 0 (pageCount s increment) grows
  obtain ⟨final, ran, grants⟩ := sbrk_grants map heap orderly above
  have taken : final.nextFreePage =
      s.nextFreePage + 4096 * framesTaken s (firstPage s) (pageCount s increment) ∨
      physMemEnd ≤ final.nextFreePage ∧
        physMemEnd ≤ s.nextFreePage + 4096 * framesTaken s (firstPage s) (pageCount s increment) :=
    grants.progress.frames
  have available : s.nextFreePage < physMemEnd := by omega
  obtain ⟨translation, found, frame, _⟩ := grants.granted 0 grows available
  refine ⟨_, translation, ran, grants.progress.map.setBreak _, rfl, found, frame, ?_, ?_⟩
  · show s.nextFreePage < final.nextFreePage
    omega
  · show final.nextFreePage ≤ s.nextFreePage + 8192 * pageCount s increment
    omega

/-! Growing into unmapped pages. -/

/-- The call ends with its tables in place, and no page of its loop was mapped before. -/
structure FreshCall (s : PagingState) (increment : Nat) : Prop where
  orderly : Orderly s increment
  unmapped : ∀ done, done < pageCount s increment → s.translation (firstPage s + done) = none

def FreshStep (s : PagingState) (increment : UInt32) (next : PagingState) : Prop :=
  FreshCall s increment.toNat ∧ sbrk s increment.toNat = .ok (s.userHeapPtr, next)

theorem FreshCall.above (fresh : FreshCall s increment) (map : PageMap base s) (done : Nat)
    (within : done < pageCount s increment) : 2048 ≤ firstPage s + done := by
  apply Nat.not_lt.mp
  intro low
  obtain ⟨translation, found, _⟩ := map.identity_translation low
  rw [fresh.unmapped done within] at found
  cases found

/-- The pages that were mapped keep their translations, and memory changes only in the
page directory and in page tables. -/
structure PagesKept (s next : PagingState) : Prop where
  translations : ∀ page, page < 1048576 → s.translation page ≠ none →
    next.translation page = s.translation page
  untouched : ∀ address, address / 4096 ≠ rootFrame →
    (∀ index, index < 1024 → Present (next.directory index) → next.table index ≠ address / 4096) →
    next.memory address = s.memory address

theorem FreshCall.sbrk (fresh : FreshCall s increment) (map : PageMap base s)
    (heap : s.userHeapPtr < 4294967296) :
    ∃ next, sbrk s increment = .ok (s.userHeapPtr, next) ∧ PageMap base next ∧
      next.userHeapPtr < 4294967296 ∧ PagesKept s next := by
  obtain ⟨final, ran, grants⟩ := sbrk_grants map heap fresh.orderly (fresh.above map)
  have progress := grants.progress
  refine ⟨_, ran, progress.map.setBreak _, add32_lt _ _, ?_, progress.untouched⟩
  intro page fits mapped
  apply progress.translation fits mapped
  intro turn within same
  exact mapped (same ▸ fresh.unmapped turn within)

theorem mapped_pages_stay (bootable : Bootable info) (booted : boot info = .ok start)
    (calls : List UInt32) (s : PagingState) (run : Run FreshStep start calls s) (increment : UInt32)
    (fresh : FreshCall s increment.toNat) :
    (∀ page, page < 1048576 → start.translation page ≠ none →
      s.translation page = start.translation page) ∧
    ∃ next, sbrk s increment.toNat = .ok (s.userHeapPtr, next) ∧ PagesKept s next := by
  obtain ⟨started, ran, spec⟩ := boot_spec bootable
  cases Except.ok.inj (booted.symm.trans ran)
  have reached : PageMap info.firstFrame s ∧ s.userHeapPtr < 4294967296 ∧
      ∀ page, page < 1048576 → start.translation page ≠ none →
        s.translation page = start.translation page := by
    apply run.invariant
    · exact ⟨spec.map, spec.heap ▸ (by decide), fun _ _ _ => rfl⟩
    · intro current call after ⟨map, heap, kept⟩ ⟨fresh, called⟩
      obtain ⟨next, ran, nextMap, nextHeap, pages⟩ := fresh.sbrk map heap
      cases Except.ok.inj (called.symm.trans ran)
      refine ⟨nextMap, nextHeap, ?_⟩
      intro page fits mapped
      have same := kept page fits mapped
      rw [pages.translations page fits (same ▸ mapped), same]
  obtain ⟨map, heap, kept⟩ := reached
  obtain ⟨next, ran, _, _, pages⟩ := fresh.sbrk map heap
  exact ⟨kept, next, ran, pages⟩

/-! The frames that a call hands out. -/

/-- A page that has at least one address in `[low, high)`. -/
def Meets (page low high : Nat) : Prop := low < high ∧ low < 4096 * (page + 1) ∧ 4096 * page < high

/-- The page is user-mapped to a frame behind the kernel that no page table and, of the
pages in `others`, no other page uses. -/
def OwnsFrame (info : BootInfo) (others : Nat → Prop) (s : PagingState) (page : Nat) : Prop :=
  ∃ translation, s.translation page = some translation ∧ translation.user = true ∧
    0 < translation.frame ∧ info.kernelEnd.toNat ≤ 4096 * translation.frame ∧
    (∀ other, other < 1048576 → others other → other ≠ page →
      ∀ shared, s.translation other = some shared → shared.frame ≠ translation.frame) ∧
    ∀ index, index < 1024 → Present (s.directory index) → s.table index ≠ translation.frame

/-- `sbrk` reports failure and changes nothing, or every page it promises owns a frame. -/
def AllOrNothing (info : BootInfo) (others : Nat → Prop) (s : PagingState) (increment : Nat) : Prop :=
  (∃ next, sbrk s increment = .ok (0xFFFFFFFF, next) ∧ next.userHeapPtr = s.userHeapPtr ∧
    ∀ page, page < 1048576 → next.translation page = s.translation page) ∨
  ∃ next, sbrk s increment = .ok (s.userHeapPtr, next) ∧
    ∀ page, Meets page s.userHeapPtr (s.userHeapPtr + increment) → OwnsFrame info others next page

/-- `sbrk` returns the old break and moves it by `increment`, and every page it promises
owns a frame. -/
def GrantsAll (info : BootInfo) (others : Nat → Prop) (s : PagingState) (increment : Nat) : Prop :=
  ∃ next, sbrk s increment = .ok (s.userHeapPtr, next) ∧
    next.userHeapPtr = s.userHeapPtr + increment ∧
    ∀ page, Meets page s.userHeapPtr (s.userHeapPtr + increment) → OwnsFrame info others next page

/-- The tables that the loop finds admit ring 3. -/
def UserTables (s : PagingState) (increment : Nat) : Prop :=
  ∀ done, done < pageCount s increment → Present (s.directory ((firstPage s + done) / 1024)) →
    User (s.directory ((firstPage s + done) / 1024))

def UserStep (s : PagingState) (increment : UInt32) (next : PagingState) : Prop :=
  Orderly s increment.toNat ∧ UserTables s increment.toNat ∧
    sbrk s increment.toNat = .ok (s.userHeapPtr, next)

/-- The kernel's own tables do not admit ring 3. -/
theorem UserTables.above (user : UserTables s increment) (map : PageMap base s) (done : Nat)
    (within : done < pageCount s increment) : 2048 ≤ firstPage s + done := by
  apply Nat.not_lt.mp
  intro low
  have kernel : (firstPage s + done) / 1024 < 2 := by omega
  have granted := user done within (map.kernelPresent kernel)
  rw [map.kernelTables _ kernel] at granted
  unfold User at granted
  omega

section Grants

variable {count : Nat} {final : PagingState} (grants : Granting base start first count final)

include grants

/-- A frame granted to one page is granted to no other, and was free before. -/
theorem Granting.alone (free : FreeFrames start) {turn : Nat} (within : turn < count)
    (unspent : start.nextFreePage + 4096 * framesTaken start first count ≤ physMemEnd) {frame : Nat}
    (granted : 4096 * frame = start.nextFreePage + 4096 * framesTaken start first turn) {other : Nat}
    (fits : other < 1048576) (user : 2048 ≤ other) (different : other ≠ first + turn) {shared : Translation}
    (found : final.translation other = some shared) : shared.frame ≠ frame := by
  have below := @framesTaken_lt first start turn count within
  intro same
  by_cases inside : ∃ later, later < count ∧ first + later = other
  · obtain ⟨later, laterWithin, place⟩ := inside
    have laterBelow := @framesTaken_lt first start later count laterWithin
    obtain ⟨translation, own, place', _⟩ := grants.granted later laterWithin (by omega)
    rw [place, found] at own
    cases Option.some.inj own
    cases Nat.lt_or_gt_of_ne (show later ≠ turn from fun equal => different (equal ▸ place.symm)) with
    | inl before =>
      have order := @framesTaken_lt first start later turn before
      omega
    | inr after =>
      have order := @framesTaken_lt first start turn later after
      omega
  · have outside : ∀ later, later < count → first + later ≠ other := fun later bound place =>
      inside ⟨later, bound, place⟩
    by_cases present : Present (start.directory (other / 1024))
    · have kept : final.translation other = start.translation other :=
        translate_congr (grants.progress.directories _ (by omega) present)
          (grants.progress.entries other fits present outside)
      rw [kept] at found
      cases free.unused other user fits shared found with
      | inl used => omega
      | inr beyond => omega
    · rw [grants.empty free other fits present outside] at found
      cases found

/-- No page table lies in a granted frame. -/
theorem Granting.notTable (map : PageMap base start) {turn : Nat} {frame : Nat}
    (granted : 4096 * frame = start.nextFreePage + 4096 * framesTaken start first turn) {index : Nat}
    (inside : index < 1024) (present : Present (final.directory index)) : final.table index ≠ frame := by
  intro same
  by_cases before : Present (start.directory index)
  · have kept : final.table index = start.table index :=
      congrArg frameOf (grants.progress.directories index inside before)
    have used := map.table_not_free inside before
    omega
  · obtain ⟨_, creator, _, due, table⟩ := grants.tables index inside before present
    have next : framesTaken start first (creator + 1) = framesTaken start first creator + 1 + 1 := by
      simp only [framesTaken, if_pos due]
    cases Nat.lt_or_ge creator turn with
    | inl earlier =>
      have order := @framesTaken_mono first start (creator + 1) turn earlier
      omega
    | inr later =>
      have order := @framesTaken_mono first start turn creator later
      omega

end Grants

/-- A call with frames enough for its pages and tables hands out frames of its own. -/
theorem sbrk_ownsFrames (bootable : Bootable info) (map : PageMap info.firstFrame s) (free : FreeFrames s)
    (heap : s.userHeapPtr < 4294967296) (orderly : Orderly s increment) (user : UserTables s increment)
    (frames : s.nextFreePage + 4096 * framesTaken s (firstPage s) (pageCount s increment) ≤ physMemEnd)
    (small : s.userHeapPtr + increment < 4294967296) :
    GrantsAll info (2048 ≤ ·) s increment := by
  obtain ⟨final, ran, grants⟩ := sbrk_grants map heap orderly (user.above map)
  have ended : newBreak s increment = s.userHeapPtr + increment := add32_of_lt small
  have bounds := bootable.firstFrame_spec
  have grown := map.grown
  have start := map.start
  refine ⟨_, ran, ended, ?_⟩
  intro page ⟨_, after, before⟩
  obtain ⟨turn, rfl⟩ : ∃ turn, page = firstPage s + turn := Nat.exists_eq_add_of_le (by
    unfold firstPage
    omega)
  have within : turn < pageCount s increment := by
    unfold pageCount
    omega
  have below := @framesTaken_lt (firstPage s) s turn (pageCount s increment) within
  obtain ⟨translation, found, frame, userMapped⟩ := grants.granted turn within (by omega)
  refine ⟨translation, found, userMapped (user turn within), by omega, by omega, ?_, ?_⟩
  · intro other fits above different shared sharedFound
    exact grants.alone free within frames frame fits above different sharedFound
  · intro index inside present
    exact grants.notTable map frame inside present

theorem FreeFrames.sbrk (free : FreeFrames s) (map : PageMap base s) (heap : s.userHeapPtr < 4294967296)
    (orderly : Orderly s increment) (user : UserTables s increment)
    (ran : sbrk s increment = .ok (s.userHeapPtr, next)) :
    PageMap base next ∧ next.userHeapPtr < 4294967296 ∧ FreeFrames next := by
  obtain ⟨final, called, grants⟩ := sbrk_grants map heap orderly (user.above map)
  cases Except.ok.inj (ran.symm.trans called)
  exact ⟨grants.progress.map.setBreak _, add32_lt _ _, (grants.free free).setBreak _⟩

theorem sbrk_all_or_nothing (bootable : Bootable info) (clean : CleanBoot info)
    (booted : boot info = .ok start) (calls : List UInt32) (s : PagingState)
    (run : Run UserStep start calls s) (increment : UInt32) (orderly : Orderly s increment.toNat)
    (user : UserTables s increment.toNat)
    (frames : s.nextFreePage + 4096 * framesTaken s (firstPage s) (pageCount s increment.toNat) ≤ physMemEnd)
    (small : s.userHeapPtr + increment.toNat < 4294967296) :
    GrantsAll info (2048 ≤ ·) s increment.toNat := by
  obtain ⟨started, ran, spec⟩ := boot_spec bootable
  cases Except.ok.inj (booted.symm.trans ran)
  have reached : PageMap info.firstFrame s ∧ s.userHeapPtr < 4294967296 ∧ FreeFrames s := by
    apply run.invariant
    · exact ⟨spec.map, spec.heap ▸ (by decide), spec.free clean⟩
    · intro current call after ⟨map, heap, free⟩ ⟨orderly, user, called⟩
      exact free.sbrk map heap orderly user called
  obtain ⟨map, heap, free⟩ := reached
  exact sbrk_ownsFrames bootable map free heap orderly user frames small

/-! The kernel of the repository, loaded without a framebuffer into zero memory. -/

def exampleBoot : BootInfo where
  memory _ := 0
  kernelEnd := 0x61A4E0
  fbPhysAddr := 0
  fbPitch := 0
  fbHeight := 0

theorem exampleBoot_bootable : Bootable exampleBoot :=
  ⟨by decide, fun mapped => absurd rfl mapped, by decide⟩

/-- The page of the initial break has no table yet. -/
theorem exampleBoot_absent (spec : Booted exampleBoot start) : ¬Present (start.directory 896) :=
  spec.absent rfl 896 (by decide) (by decide) (by decide)

theorem exampleBoot_frames (spec : Booted exampleBoot start) : start.nextFreePage ≤ 0x655000 :=
  spec.frames

/-- A call that stays in one page whose table exists, or may be created below 8 MiB. -/
theorem orderly_onePage (single : pageCount s increment = 1) (low : newBreak s increment ≤ 0xFFFFF000)
    (ready : Present (s.directory (firstPage s / 1024)) ∨ s.nextFreePage + 4096 < 0x800000) :
    Orderly s increment := by
  refine ⟨.inr low, ?_⟩
  intro done within due
  have only : done = 0 := by omega
  subst only
  cases ready with
  | inl present => exact absurd present due.1
  | inr room => exact room

/-- A call that stays in the first page of the heap. -/
theorem sbrk_inFirstPage (map : PageMap base s) (low : 0xE0000000 ≤ s.userHeapPtr)
    (positive : 0 < increment) (high : s.userHeapPtr + increment ≤ 0xE0001000)
    (frames : s.nextFreePage + 4096 < 0x800000) :
    ∃ next translation, sbrk s increment = .ok (s.userHeapPtr, next) ∧ PageMap base next ∧
      next.userHeapPtr = s.userHeapPtr + increment ∧
      next.translation 0xE0000 = some translation ∧ 4096 * translation.frame = s.nextFreePage ∧
      s.nextFreePage < next.nextFreePage ∧ next.nextFreePage ≤ s.nextFreePage + 8192 := by
  have page : firstPage s = 0xE0000 := by
    unfold firstPage
    omega
  have ended : newBreak s increment = s.userHeapPtr + increment := add32_of_lt (by omega)
  have single : pageCount s increment = 1 := by
    rw [pageCount, ended, page]
    omega
  have room : s.nextFreePage + 8192 * pageCount s increment < physMemEnd := by
    rw [single]
    unfold physMemEnd
    omega
  have orderly := orderly_onePage single (by omega) (.inr frames)
  have granted := sbrk_first_frame map (by omega) orderly (fun done _ => by omega) (by omega) room
  rwa [page, ended, single] at granted

theorem second_sbrk_remaps : ∃ start first second, boot exampleBoot = .ok start ∧
    sbrk start 16 = .ok (0xE0000000, first) ∧ sbrk first 16 = .ok (0xE0000010, second) ∧
    first.translation 0xE0000 ≠ none ∧ second.translation 0xE0000 ≠ first.translation 0xE0000 := by
  obtain ⟨start, booted, spec⟩ := boot_spec exampleBoot_bootable
  have heap := spec.heap
  have frames := exampleBoot_frames spec
  obtain ⟨first, mapped, ran, firstMap, firstHeap, found, frame, later, bound⟩ :=
    @sbrk_inFirstPage _ 16 start spec.map (by omega) (by decide) (by omega) (by omega)
  rw [heap] at ran firstHeap
  obtain ⟨second, remapped, ranAgain, _, _, foundAgain, frameAgain, _, _⟩ :=
    @sbrk_inFirstPage _ 16 first firstMap (by omega) (by decide) (by omega) (by omega)
  rw [firstHeap] at ranAgain
  refine ⟨start, first, second, booted, ran, ranAgain, ?_, ?_⟩
  · rw [found]
    exact Option.some_ne_none mapped
  · rw [found, foundAgain]
    intro same
    cases Option.some.inj same
    omega

theorem exampleBoot_clean : CleanBoot exampleBoot :=
  ⟨fun _ _ _ => rfl, fun mapped => absurd rfl mapped⟩

/-- What the first page of the heap leaves for the second. -/
structure FirstPage (start first : PagingState) : Prop where
  fresh : FreshCall start 0x1000
  user : UserTables start 0x1000
  ran : sbrk start 0x1000 = .ok (start.userHeapPtr, first)
  heap : first.userHeapPtr = 0xE0001000
  frames : first.nextFreePage ≤ 0x657000
  table : Present (first.directory 896) ∧ User (first.directory 896)
  next : first.translation 0xE0001 = none

theorem exampleBoot_firstPage (spec : Booted exampleBoot start) : ∃ first, FirstPage start first := by
  have frames := exampleBoot_frames spec
  have absent := exampleBoot_absent spec
  have page : firstPage start = 0xE0000 := by rw [firstPage, spec.heap]
  have single : pageCount start 0x1000 = 1 := by rw [pageCount, newBreak, firstPage, spec.heap]; rfl
  have ended : newBreak start 0x1000 = 0xE0001000 := by rw [newBreak, spec.heap]; rfl
  have fresh : FreshCall start 0x1000 := by
    refine ⟨orderly_onePage single (ended ▸ by decide) (.inr (by omega)), ?_⟩
    intro done within
    have only : done = 0 := by omega
    rw [only, page]
    exact translate_of_absent absent
  have user : UserTables start 0x1000 := by
    intro done within present
    have only : done = 0 := by omega
    rw [only, page] at present
    exact absurd present absent
  have heap : start.userHeapPtr < 4294967296 := spec.heap ▸ by decide
  obtain ⟨final, ran, grants⟩ := sbrk_grants spec.map heap fresh.orderly (fresh.above spec.map)
  rw [page, single] at grants
  rw [ended] at ran
  have progress := grants.progress
  have created : Present (final.directory 896) :=
    (progress.created 896 (by decide) absent).mpr ⟨0, by decide, by decide⟩
  refine ⟨_, fresh, user, ran, rfl, ?_, ⟨created, (grants.tables 896 (by decide) absent created).1⟩, ?_⟩
  · show final.nextFreePage ≤ 0x657000
    have taken := framesTaken_le start 0xE0000 1
    cases progress.frames with
    | inl exact => omega
    | inr capped =>
      have ended := capped.2
      unfold physMemEnd at ended
      omega
  · apply grants.empty (spec.free exampleBoot_clean) 0xE0001 (by decide) absent
    intro turn only
    omega

theorem FirstPage.second {first : PagingState} (grown : FirstPage start first) :
    FreshCall first 0x1000 ∧ UserTables first 0x1000 ∧
      first.nextFreePage + 4096 * framesTaken first (firstPage first) (pageCount first 0x1000) ≤
        physMemEnd := by
  have page : firstPage first = 0xE0001 := by rw [firstPage, grown.heap]
  have single : pageCount first 0x1000 = 1 := by rw [pageCount, newBreak, firstPage, grown.heap]; rfl
  have ended : newBreak first 0x1000 = 0xE0002000 := by rw [newBreak, grown.heap]; rfl
  have taken := framesTaken_le first 0xE0001 1
  have frames := grown.frames
  refine ⟨⟨orderly_onePage single (ended ▸ by decide) (.inl (page ▸ grown.table.1)), ?_⟩, ?_, ?_⟩
  · intro done within
    have only : done = 0 := by omega
    rw [only, page]
    exact grown.next
  · intro done within _
    have only : done = 0 := by omega
    rw [only, page]
    exact grown.table.2
  · rw [page, single]
    unfold physMemEnd
    omega

theorem mapped_pages_stay_example : ∃ start first, boot exampleBoot = .ok start ∧
    Run FreshStep start [0x1000] first ∧ (∀ page, page < 1048576 → start.translation page ≠ none →
      first.translation page = start.translation page) ∧
    ∃ next, sbrk first 0x1000 = .ok (first.userHeapPtr, next) ∧ PagesKept first next := by
  obtain ⟨start, booted, spec⟩ := boot_spec exampleBoot_bootable
  obtain ⟨first, grown⟩ := exampleBoot_firstPage spec
  have run : Run FreshStep start [0x1000] first := .single ⟨grown.fresh, grown.ran⟩
  have fresh : FreshCall first (0x1000 : UInt32).toNat := grown.second.1
  exact ⟨start, first, booted, run,
    mapped_pages_stay exampleBoot_bootable booted [0x1000] first run 0x1000 fresh⟩

/-- The first frame handed to a program is mapped once more: by the kernel, at its own
address. -/
theorem first_sbrk_shares_frame : ∃ start, boot exampleBoot = .ok start ∧
    ¬AllOrNothing exampleBoot (fun _ => True) start 0x1000 := by
  obtain ⟨start, booted, spec⟩ := boot_spec exampleBoot_bootable
  have heap := spec.heap
  have frames := exampleBoot_frames spec
  obtain ⟨first, mapped, ran, firstMap, _, found, frame, _, _⟩ :=
    @sbrk_inFirstPage _ 0x1000 start spec.map (by omega) (by decide) (by omega) (by omega)
  refine ⟨start, booted, ?_⟩
  intro either
  cases either with
  | inl failed =>
    obtain ⟨next, refused, _⟩ := failed
    have same := congrArg Prod.fst (Except.ok.inj (refused.symm.trans ran))
    rw [spec.heap] at same
    cases same
  | inr granted =>
    obtain ⟨next, called, owns⟩ := granted
    cases Except.ok.inj (called.symm.trans ran)
    rw [spec.heap] at owns
    obtain ⟨translation, own, _, _, _, alone, _⟩ := owns 0xE0000 ⟨by decide, by decide, by decide⟩
    rw [found] at own
    cases Option.some.inj own
    have low : mapped.frame < 2048 := by omega
    obtain ⟨shared, identity, same⟩ := firstMap.identity_translation low
    exact alone mapped.frame (by omega) trivial (by omega) shared identity same

theorem sbrk_all_or_nothing_example : ∃ start first, boot exampleBoot = .ok start ∧
    Run UserStep start [0x1000] first ∧ GrantsAll exampleBoot (2048 ≤ ·) first 0x1000 := by
  obtain ⟨start, booted, spec⟩ := boot_spec exampleBoot_bootable
  obtain ⟨first, grown⟩ := exampleBoot_firstPage spec
  obtain ⟨fresh, user, frames⟩ := grown.second
  have run : Run UserStep start [0x1000] first := .single ⟨grown.fresh.orderly, grown.user, grown.ran⟩
  have small : first.userHeapPtr + (0x1000 : UInt32).toNat < 4294967296 := by
    rw [grown.heap]
    decide
  exact ⟨start, first, booted, run, sbrk_all_or_nothing exampleBoot_bootable exampleBoot_clean booted [0x1000]
    first run 0x1000 fresh.orderly user frames small⟩

end ShedKernel.Paging
