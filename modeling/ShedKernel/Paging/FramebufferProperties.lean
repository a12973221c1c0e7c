import ShedKernel.Drivers.Vga13
import ShedKernel.Paging.BootProperties

/-! The framebuffer loop of `kernel_main` maps the first 8 MiB and the framebuffer to
themselves and nothing else, and `vga13_clear` stays inside. -/

set_option autoImplicit false

namespace ShedKernel.Paging

open Foundation PageTable Drivers

/-- The pages of the first 8 MiB and the first `done` pages of the framebuffer. -/
def Covered (fbPage done page : Nat) : Prop := page < 2048 ∨ fbPage ≤ page ∧ page < fbPage + done

instance (fbPage done page : Nat) : Decidable (Covered fbPage done page) :=
  inferInstanceAs (Decidable (_ ∨ _))

/-- The covered pages are mapped to themselves for the kernel, no other page is mapped, and
every table can be reached. -/
structure IdentityMap (covered : Nat → Prop) [DecidablePred covered] (s : PagingState) : Prop where
  aligned : s.nextFreePage % 4096 = 0
  tree : Tree s.memory rootFrame
  tables : ∀ index, index < 1024 → Present (s.directory index) → covered (s.table index)
  rights : ∀ index, index < 1024 → Present (s.directory index) →
    Writable (s.directory index) ∧ ¬User (s.directory index)
  low : ∀ page, page < 2048 → covered page
  pages : ∀ page, page < 1048576 →
    s.translation page = if covered page then some ⟨page, true, false⟩ else none

/-- The next frame of `alloc_page_frame` is in use neither as the directory nor as a table,
and the kernel can write to it. -/
structure FrameUsable (s : PagingState) : Prop where
  notRoot : s.handedOut / 4096 ≠ rootFrame
  fresh : ∀ index, index < 1024 → Present (s.directory index) → s.table index ≠ s.handedOut / 4096
  reaches : ReachesFrame s (s.handedOut / 4096)

variable {covered : Nat → Prop} [DecidablePred covered] {s next : PagingState}
  {index page frame value addr : Nat}

namespace IdentityMap

variable (map : IdentityMap covered s)

include map

private theorem reaches_iff (fits : frame < 1048576) : ReachesFrame s frame ↔ covered frame := by
  have page := map.pages frame fits
  constructor
  · rintro ⟨translation, found, _⟩
    apply Classical.byContradiction
    intro outside
    rw [if_neg outside, found] at page
    cases page
  · intro inside
    exact ⟨_, page.trans (if_pos inside), rfl⟩

theorem load_directory (inside : index < 1024) :
    kernelLoad s (pageDirectory + 4 * index) = .ok (s.directory index) :=
  ((map.reaches_iff (by decide)).mpr (map.low rootFrame (by decide))).load (by omega)

theorem store_directory (inside : index < 1024) : kernelStore s (pageDirectory + 4 * index) value =
    .ok { s with memory := setDirectory s.memory rootFrame index value } :=
  ((map.reaches_iff (by decide)).mpr (map.low rootFrame (by decide))).store (by omega)

/-- A page is mapped only where there is a table. -/
theorem present (fits : page < 1048576) (inside : covered page) : Present (s.directory (page / 1024)) := by
  have found := map.pages page fits
  rw [if_pos inside] at found
  exact (translate_eq_some found).1

theorem store_entry (fits : page < 1048576) (present : Present (s.directory (page / 1024))) :
    kernelStore s (pageAlign (s.directory (page / 1024)) + 4 * (page % 1024)) value =
      .ok (s.putEntry page value) := by
  have small := Memory.load32_lt s.memory (wordAddress rootFrame (page / 1024))
  have place : pageAlign (s.directory (page / 1024)) = 4096 * s.table (page / 1024) := Nat.mul_comm _ _
  have tableFits : s.table (page / 1024) < 1048576 := by
    show s.memory.load32 (wordAddress rootFrame (page / 1024)) / 4096 < 1048576
    omega
  rw [place]
  exact ((map.reaches_iff tableFits).mpr (map.tables _ (by omega) present)).store (by omega)

/-- Maps with the same translations, and good tables, are both identity maps. -/
theorem congr (aligned : next.nextFreePage % 4096 = 0) (tree : Tree next.memory rootFrame)
    (tables : ∀ index, index < 1024 → Present (next.directory index) → covered (next.table index) ∧
      Writable (next.directory index) ∧ ¬User (next.directory index))
    (same : ∀ page, page < 1048576 → next.translation page = s.translation page) :
    IdentityMap covered next :=
  ⟨aligned, tree, fun index inside present => (tables index inside present).1,
    fun index inside present => (tables index inside present).2, map.low,
    fun page fits => (same page fits).trans (map.pages page fits)⟩

theorem beside (beside : Beside frame s next) : IdentityMap covered next := by
  refine map.congr (beside.nextFree ▸ map.aligned) (map.tree.congr beside.directories) ?_
    fun page fits => beside.translation fits
  intro index inside present
  have table : next.table index = s.table index := congrArg frameOf (beside.directories index inside)
  rw [beside.directories index inside] at present ⊢
  exact ⟨table.symm ▸ map.tables index inside present, map.rights index inside present⟩

theorem allocated : IdentityMap covered s.allocated := by
  have memory := allocated_memory s
  obtain ⟨aligned, tree, tables, rights, low, pages⟩ := map
  refine ⟨?_, ?_, ?_, ?_, low, ?_⟩
  · cases Nat.lt_or_ge s.nextFreePage physMemEnd with
    | inl available =>
      rw [(handedOut_available available).2]
      show (s.nextFreePage + 4096) % 4096 = 0
      omega
    | inr exhausted => rwa [(handedOut_exhausted exhausted).2]
  · rwa [memory]
  · unfold PagingState.table PagingState.directory
    rwa [memory]
  · unfold PagingState.directory
    rwa [memory]
  · unfold PagingState.translation
    rwa [memory]

/-- A new table, all of whose words are zero, maps nothing. -/
theorem setDirectory {frame : Nat} (inside : index < 1024) (absent : ¬Present (s.directory index))
    (fits : frame < 1048576) (reached : covered frame) (notRoot : frame ≠ rootFrame)
    (fresh : ∀ other, other < 1024 → Present (s.directory other) → s.table other ≠ frame)
    (zero : ∀ other, other < 1024 → s.memory.load32 (wordAddress frame other) = 0) :
    IdentityMap covered
      { s with memory := setDirectory s.memory rootFrame index (4096 * frame + 3) } := by
  have valueFits : 4096 * frame + 3 < 4294967296 := by omega
  have frameEq : frameOf (4096 * frame + 3) = frame := by
    unfold frameOf
    omega
  have self : directoryEntry (PageTable.setDirectory s.memory rootFrame index (4096 * frame + 3)) rootFrame
      index = 4096 * frame + 3 := directoryEntry_setDirectory_self valueFits
  have others : ∀ other, other < 1024 → other ≠ index →
      directoryEntry (PageTable.setDirectory s.memory rootFrame index (4096 * frame + 3)) rootFrame other =
        s.directory other := fun other otherInside different =>
    directoryEntry_setDirectory_of_ne inside otherInside different
  refine map.congr map.aligned ?_ ?_ ?_
  · apply map.tree.setDirectory inside valueFits
    · rwa [frameEq]
    · rw [frameEq]
      exact fresh
  · intro other otherInside present
    by_cases here : other = index
    · subst here
      refine ⟨?_, ?_⟩
      · show covered (frameOf (directoryEntry _ rootFrame other))
        rwa [self, frameEq]
      · show Writable (directoryEntry _ rootFrame other) ∧ ¬User (directoryEntry _ rootFrame other)
        rw [self]
        unfold Writable User
        omega
    · have kept := others other otherInside here
      have present : Present (directoryEntry _ rootFrame other) := present
      rw [kept] at present
      refine ⟨?_, ?_⟩
      · show covered (frameOf (directoryEntry _ rootFrame other))
        rw [kept]
        exact map.tables other otherInside present
      · show Writable (directoryEntry _ rootFrame other) ∧ ¬User (directoryEntry _ rootFrame other)
        rw [kept]
        exact map.rights other otherInside present
  · intro page pageFits
    by_cases here : page / 1024 = index
    · subst here
      have before : s.translation page = none := translate_of_absent absent
      have entry := @pageEntry_setDirectory_self s.memory rootFrame page _ (4096 * frame + 3) inside
        valueFits (by rwa [frameEq]) rfl
      rw [frameEq, zero _ (Nat.mod_lt _ (by decide))] at entry
      rw [before, PagingState.translation, translate_eq self entry]
      exact if_neg fun both => absurd both.2 (by decide)
    · have kept := others (page / 1024) (by omega) here
      by_cases present : Present (s.directory (page / 1024))
      · exact translate_congr kept (pageEntry_setDirectory_of_ne map.tree inside pageFits present here)
      · have before : s.translation page = none := translate_of_absent present
        rw [before]
        exact translate_of_absent (by rwa [kept])

/-- The table of a page is there or gets made. -/
theorem ensureKernelTable (inside : index < 1024)
    (usable : ¬Present (s.directory index) → FrameUsable s) :
    ∃ next, ensureKernelTable s index = .ok next ∧ IdentityMap covered next ∧
      Present (next.directory index) := by
  by_cases present : Present (s.directory index)
  · have flag : ¬(s.directory index &&& 1 = 0) := fun zero => (flag_eq_zero_iff _).mp zero present
    refine ⟨s, ?_, map, present⟩
    simp only [Paging.ensureKernelTable, map.load_directory inside, if_neg flag, bind, Except.bind, pure,
      Except.pure]
  obtain ⟨notRoot, fresh, reaches⟩ := usable present
  obtain ⟨aligned, below⟩ := handedOut_aligned map.aligned
  unfold physMemEnd at below
  have flag : s.directory index &&& 1 = 0 := (flag_eq_zero_iff _).mpr present
  have fits : s.handedOut / 4096 < 1048576 := by omega
  have place : s.handedOut = 4096 * (s.handedOut / 4096) := by omega
  have reached := (map.allocated.reaches_iff fits).mpr ((map.reaches_iff fits).mp reaches)
  have stillFresh : ∀ other, other < 1024 → Present (s.allocated.directory other) →
      s.allocated.table other ≠ s.handedOut / 4096 := by
    unfold PagingState.table PagingState.directory
    rwa [allocated_memory]
  obtain ⟨cleared, ran, beside, zero⟩ := clearTable_spec notRoot stillFresh reached fits (Nat.le_refl 1024)
  have clearedMap := map.allocated.beside beside
  have directories : ∀ other, other < 1024 → cleared.directory other = s.directory other := fun other inside =>
    (beside.directories other inside).trans (allocated_directory s other)
  have made := @IdentityMap.setDirectory covered _ cleared index clearedMap (s.handedOut / 4096) inside
    (by rwa [directories index inside]) fits ((map.reaches_iff fits).mp reaches) notRoot (by
      intro other otherInside there
      have same : cleared.table other = s.table other := congrArg frameOf (directories other otherInside)
      rw [directories other otherInside] at there
      rw [same]
      exact fresh other otherInside there) zero
  rw [← place] at ran made
  have stored := @IdentityMap.store_directory covered _ cleared index (s.handedOut + 3) clearedMap inside
  refine ⟨_, ?_, made, ?_⟩
  · simp only [Paging.ensureKernelTable, map.load_directory inside, if_pos flag, bind, Except.bind]
    have cleared : clearTable (allocPageFrame s).2 (allocPageFrame s).1 1024 = .ok cleared := ran
    rw [cleared]
    exact (congrArg _ (kernelFlags_eq aligned)).trans stored
  · show Present (directoryEntry (PageTable.setDirectory cleared.memory rootFrame index (s.handedOut + 3)) rootFrame
      index)
    rw [directoryEntry_setDirectory_self (by omega)]
    unfold Present
    omega

/-- A page with a table is mapped to itself. -/
theorem putEntry {after : Nat → Prop} [DecidablePred after] (fits : page < 1048576)
    (present : Present (s.directory (page / 1024))) (grown : ∀ other, after other ↔ covered other ∨ other = page) :
    IdentityMap after (s.putEntry page (4096 * page + 3)) := by
  have valueFits : 4096 * page + 3 < 4294967296 := by omega
  have kept : ∀ other, other < 1024 →
      (s.putEntry page (4096 * page + 3)).directory other = s.directory other := fun other inside =>
    directoryEntry_setEntry map.tree fits present inside
  have tables : ∀ other, other < 1024 → (s.putEntry page (4096 * page + 3)).table other = s.table other :=
    fun other inside => congrArg frameOf (kept other inside)
  refine ⟨map.aligned, map.tree.setEntry fits present, ?_, ?_, ?_, ?_⟩
  · intro other inside there
    rw [kept other inside] at there
    rw [tables other inside, grown]
    exact .inl (map.tables other inside there)
  · intro other inside there
    rw [kept other inside] at there ⊢
    exact map.rights other inside there
  · exact fun other low => (grown other).mpr (.inl (map.low other low))
  · intro other otherFits
    have same : (s.putEntry page (4096 * page + 3)).directory (other / 1024) = s.directory (other / 1024) :=
      kept _ (by omega)
    by_cases here : other = page
    · subst here
      obtain ⟨writable, user⟩ := map.rights _ (by omega) present
      have flags : Present (4096 * other + 3) ∧ Writable (4096 * other + 3) ∧ ¬User (4096 * other + 3) ∧
          frameOf (4096 * other + 3) = other := by
        unfold Present Writable User frameOf
        omega
      rw [if_pos ((grown other).mpr (.inr rfl)), PagingState.translation,
        translate_eq same (pageEntry_setEntry_self map.tree fits present valueFits),
        if_pos ⟨present, flags.1⟩, flags.2.2.2]
      simp [writable, user, flags.2.1]
    · have before := map.pages other otherFits
      have sameCover : after other ↔ covered other := by
        rw [grown]
        exact or_iff_left here
      simp only [sameCover]
      rw [← before]
      by_cases there : Present (s.directory (other / 1024))
      · exact translate_congr same (pageEntry_setEntry_of_ne map.tree fits present otherFits there here)
      · have unmapped : s.translation other = none := translate_of_absent there
        rw [unmapped]
        exact translate_of_absent (by rwa [← same] at there)

/-- A turn of the framebuffer loop. -/
theorem mapFramebufferPage {after : Nat → Prop} [DecidablePred after] (fits : page < 1048576)
    (usable : ¬Present (s.directory (page / 1024)) → FrameUsable s)
    (grown : ∀ other, after other ↔ covered other ∨ other = page) :
    ∃ next, mapFramebufferPage s (4096 * page) = .ok next ∧ IdentityMap after next := by
  have directory : 4096 * page / 0x400000 = page / 1024 := by omega
  have place : 4096 * page / 0x1000 % 0x400 = page % 1024 := by omega
  obtain ⟨made, ran, madeMap, present⟩ := map.ensureKernelTable (show page / 1024 < 1024 by omega) usable
  refine ⟨_, ?_, madeMap.putEntry fits present grown⟩
  simp only [Paging.mapFramebufferPage, directory, place, ran, madeMap.load_directory (show page / 1024 < 1024 by omega),
    kernelFlags_eq (show 4096 * page % 4096 = 0 by omega), bind, Except.bind]
  exact madeMap.store_entry fits present

end IdentityMap

/-! The whole loop, after `init_paging`. -/

private theorem pagingOn_identityMap (memory : Memory) {base : Nat} (aligned : base % 4096 = 0) (fbPage : Nat) :
    IdentityMap (Covered fbPage 0) (pagingOn memory base) := by
  -- the tables do not depend on the first free frame
  have map : PageMap 0x100000 (pagingOn memory 0x100000) := pagingOn_map memory (Nat.le_refl _) (by decide)
  have covered : ∀ page, Covered fbPage 0 page ↔ page < 2048 := by
    intro page
    unfold Covered
    omega
  refine ⟨aligned, map.tree, ?_, ?_, fun page low => .inl low, ?_⟩
  · intro index inside present
    rw [covered]
    exact (map.table_low inside present).1
  · intro index inside present
    rw [pagingOn_directory memory base inside, if_pos ((pagingOn_present memory base inside).mp present)]
    unfold Writable User
    omega
  · intro page fits
    simp only [covered]
    have inside : page / 1024 < 1024 := by omega
    by_cases low : page < 2048
    · have kernel : page / 1024 < 2 := by omega
      have directory := pagingOn_directory memory base inside
      rw [if_pos kernel] at directory
      rw [if_pos low, PagingState.translation, translate_eq directory (pagingOn_entry memory base low)]
      have flags : (Present (4096 * (157 + page / 1024) + 3) ∧ Present (4096 * page + 3)) ∧
          (Writable (4096 * (157 + page / 1024) + 3) ∧ Writable (4096 * page + 3)) ∧
          ¬(User (4096 * (157 + page / 1024) + 3) ∧ User (4096 * page + 3)) ∧
          frameOf (4096 * page + 3) = page := by
        unfold Present Writable User frameOf
        omega
      rw [if_pos flags.1, flags.2.2.2]
      simp only [flags.2.1, flags.2.2.1, and_self, decide_true, decide_false]
    · rw [if_neg low]
      apply translate_of_absent
      intro present
      have kernel := (pagingOn_present memory base inside).mp present
      omega

/-- The first turns of the framebuffer loop. -/
def framebufferTurns (start : PagingState) (fbPhysAddr : Nat) : Nat → Except KernelStop PagingState
  | 0 => .ok start
  | done + 1 => do
      let s ← framebufferTurns start fbPhysAddr done
      Paging.mapFramebufferPage s (add32 fbPhysAddr (4096 * done))

/-- Whenever the loop takes a frame for a new table, `alloc_page_frame` has a usable one. -/
def FramesUsable (start : PagingState) (fbPhysAddr fbSize : Nat) : Prop :=
  ∀ done s, 4096 * done < fbSize → framebufferTurns start fbPhysAddr done = .ok s →
    ¬Present (s.directory ((fbPhysAddr / 4096 + done) / 1024)) → FrameUsable s

/-- The loop ends with the first 8 MiB and the framebuffer mapped to themselves. -/
theorem mapFramebuffer_identityMap (memory : Memory) {base fbPhysAddr fbSize : Nat} (aligned : base % 4096 = 0)
    (pageAligned : fbPhysAddr % 4096 = 0) (nonzero : fbPhysAddr ≠ 0) (fits : fbPhysAddr + fbSize ≤ 4294967296)
    (frames : FramesUsable (pagingOn memory base) fbPhysAddr fbSize) :
    ∃ next, mapFramebuffer (pagingOn memory base) fbPhysAddr fbSize = .ok next ∧
      IdentityMap (Covered (fbPhysAddr / 4096) ((fbSize + 4095) / 4096)) next := by
  have looped := @pageLoop_rule (pagingOn memory base)
    (fun s off => Paging.mapFramebufferPage s (add32 fbPhysAddr off)) fbSize 0 ((fbSize + 4095) / 4096) enoughTurns
    (fun done s => framebufferTurns (pagingOn memory base) fbPhysAddr done = .ok s ∧
      IdentityMap (Covered (fbPhysAddr / 4096) done) s)
    (fun done within => by omega) (by omega) (by omega) (by unfold enoughTurns; omega)
    ⟨rfl, pagingOn_identityMap memory aligned _⟩
  obtain ⟨next, ran, _, map⟩ := looped (by
    rintro done current within ⟨reached, map⟩
    have page : add32 fbPhysAddr (4096 * (0 + done)) = 4096 * (fbPhysAddr / 4096 + done) := by
      rw [add32_of_lt (by omega)]
      omega
    have usable := frames done current (by omega) reached
    obtain ⟨next, turned, nextMap⟩ := @IdentityMap.mapFramebufferPage _ _ current (fbPhysAddr / 4096 + done) map
      (Covered (fbPhysAddr / 4096) (done + 1)) _ (by omega) usable (fun other => by unfold Covered; omega)
    rw [← page] at turned
    refine ⟨next, turned, ?_, nextMap⟩
    rw [Nat.zero_add] at turned
    simp only [framebufferTurns, reached, bind, Except.bind]
    exact turned)
  exact ⟨next, ran, map⟩

/-- While the next frame is below 8 MiB, it is usable. -/
theorem PageMap.frameUsable {base : Nat} (map : PageMap base s) (low : s.nextFreePage < 0x800000) :
    FrameUsable s := by
  have aligned := map.aligned
  have start := Nat.le_trans map.start map.grown
  have frame : s.handedOut = s.nextFreePage :=
    (handedOut_available (by unfold physMemEnd; omega)).1
  constructor
  · rw [frame]
    unfold rootFrame
    omega
  · intro index inside present same
    have below := map.table_not_free inside present
    omega
  · rw [frame]
    exact map.identity_translation (by omega)

private theorem framebufferTurns_map (memory : Memory) {base fbPhysAddr done : Nat} (start : 0x100000 ≤ base)
    (aligned : base % 4096 = 0) (room : base + 4096 * done ≤ 0x800000)
    (turned : framebufferTurns (pagingOn memory base) fbPhysAddr done = .ok s) :
    PageMap base s ∧ s.nextFreePage ≤ base + 4096 * done := by
  induction done generalizing s with
  | zero =>
    cases turned
    exact ⟨pagingOn_map memory start aligned, Nat.le_refl _⟩
  | succ done ih =>
    cases before : framebufferTurns (pagingOn memory base) fbPhysAddr done with
    | error stop =>
      rw [framebufferTurns, before] at turned
      cases turned
    | ok current =>
      obtain ⟨map, frames⟩ := ih (by omega) before
      obtain ⟨next, ran, nextMap, put⟩ :=
        mapFramebufferPage_spec map (add32_lt fbPhysAddr (4096 * done)) (.inr (by omega))
      rw [framebufferTurns, before] at turned
      cases Except.ok.inj (turned.symm.trans ran)
      have advanced := put.nextFree
      refine ⟨nextMap, ?_⟩
      split at advanced
      · omega
      · omega

/-- Each turn takes one frame at most. -/
theorem framesUsable_of_room (memory : Memory) {base fbPhysAddr fbSize : Nat} (start : 0x100000 ≤ base)
    (aligned : base % 4096 = 0) (room : base + fbSize < 0x800000) :
    FramesUsable (pagingOn memory base) fbPhysAddr fbSize := by
  intro done s within turned _
  obtain ⟨map, frames⟩ := framebufferTurns_map memory start aligned (by omega) turned
  exact map.frameUsable (by omega)

/-! `vga13_clear`. -/

private theorem totalPixels_le (driver : Vga13) :
    4 * driver.totalPixels.toNat ≤ driver.fbPitch.toNat * driver.fbHeight.toNat := by
  have rows : 4 * (driver.fbPitch.toNat / 4) * driver.fbHeight.toNat ≤
      driver.fbPitch.toNat * driver.fbHeight.toNat := Nat.mul_le_mul_right _ (Nat.mul_div_le _ _)
  have wrapped : driver.totalPixels.toNat ≤ driver.fbPitch.toNat / 4 * driver.fbHeight.toNat := by
    unfold Vga13.totalPixels
    rw [UInt32.toNat_mul, UInt32.toNat_div]
    exact Nat.mod_le _ _
  rw [Nat.mul_assoc] at rows
  omega

/-- Without overflow, the stores stay inside the framebuffer. -/
theorem vga13Clear_inside {driver : Vga13} {address : Nat} (stored : address ∈ vga13Clear driver)
    (fits : driver.fb.toNat + driver.fbPitch.toNat * driver.fbHeight.toNat ≤ 4294967296) :
    driver.fb.toNat ≤ address ∧
      address < driver.fb.toNat + driver.fbPitch.toNat * driver.fbHeight.toNat := by
  have pixels := totalPixels_le driver
  unfold vga13Clear Vga13.pixelBytes at stored
  simp only [List.mem_flatMap, List.mem_range, List.mem_map] at stored
  obtain ⟨i, inside, byte, small, rfl⟩ := stored
  rw [add32_of_lt (by omega)]
  omega

/-- The loop ends, the pages of everything that `vga13_clear` stores are mapped to themselves
and writable, so are the first 8 MiB, and no page outside the two ranges is mapped. -/
theorem framebuffer_mapping_covers_clear (memory : Memory) (base : Nat) (aligned : base % 4096 = 0)
    (fb pitch width height : UInt32) (pageAligned : fb.toNat % 4096 = 0) (nonzero : fb ≠ 0)
    (fits : fb.toNat + pitch.toNat * height.toNat ≤ 4294967296)
    (frames : FramesUsable (pagingOn memory base) fb.toNat (pitch * height).toNat) :
    ∃ next, mapFramebuffer (pagingOn memory base) fb.toNat (pitch * height).toNat = .ok next ∧
      (∀ address, address ∈ vga13Clear (vga13Init fb pitch width height) →
        next.translation (address / 4096) = some ⟨address / 4096, true, false⟩) ∧
      (∀ page, page < 2048 → next.translation page = some ⟨page, true, false⟩) ∧
      ∀ page, page < 1048576 → next.translation page ≠ none → page < 2048 ∨
        ∃ address, fb.toNat ≤ address ∧ address < fb.toNat + pitch.toNat * height.toNat ∧
          address / 4096 = page := by
  have start : fb.toNat ≠ 0 := fun zero => nonzero (UInt32.toNat_inj.mp zero)
  have size : (pitch * height).toNat = pitch.toNat * height.toNat := by
    rw [UInt32.toNat_mul]
    exact Nat.mod_eq_of_lt (by omega)
  rw [size] at frames ⊢
  obtain ⟨next, ran, map⟩ := mapFramebuffer_identityMap memory aligned pageAligned start fits frames
  refine ⟨next, ran, fun address stored => ?_, fun page low => ?_, fun page pageFits mapped => ?_⟩
  · obtain ⟨above, below⟩ : fb.toNat ≤ address ∧ address < fb.toNat + pitch.toNat * height.toNat :=
      vga13Clear_inside stored fits
    have covered : Covered (fb.toNat / 4096) ((pitch.toNat * height.toNat + 4095) / 4096) (address / 4096) := by
      unfold Covered
      omega
    exact (map.pages _ (by omega)).trans (if_pos covered)
  · exact (map.pages page (by omega)).trans (if_pos (map.low page low))
  · have covered : Covered (fb.toNat / 4096) ((pitch.toNat * height.toNat + 4095) / 4096) page := by
      apply Classical.byContradiction
      intro outside
      exact mapped ((map.pages page pageFits).trans (if_neg outside))
    cases covered with
    | inl low => exact .inl low
    | inr inside => exact .inr ⟨4096 * page, by omega, by omega, by omega⟩

/-- 1280 by 1024 pixels in five MiB, which take two page tables. -/
theorem framebuffer_mapping_covers_screen :
    ∃ next, mapFramebuffer (pagingOn (fun _ => 0) 0x200000) 0xFD000000 0x500000 = .ok next ∧
      (∀ address, address ∈ vga13Clear (vga13Init 0xFD000000 5120 1280 1024) →
        next.translation (address / 4096) = some ⟨address / 4096, true, false⟩) ∧
      (∀ page, page < 2048 → next.translation page = some ⟨page, true, false⟩) ∧
      ∀ page, page < 1048576 → next.translation page ≠ none → page < 2048 ∨
        ∃ address, 0xFD000000 ≤ address ∧ address < 0xFD000000 + 5120 * 1024 ∧ address / 4096 = page :=
  framebuffer_mapping_covers_clear (fun _ => 0) 0x200000 (by decide) 0xFD000000 5120 1280 1024 (by decide)
    (by decide) (by decide) (framesUsable_of_room _ (by decide) (by decide) (by decide))

end ShedKernel.Paging
