import ShedKernel.Paging.InitProperties
import ShedKernel.Paging.FrameProperties

/-! Boot ends, and hands over page tables that satisfy the invariant: the framebuffer
loop and the pages of the programs. -/

set_option autoImplicit false

namespace ShedKernel.Paging

open Foundation PageTable

variable {base page address : Nat} {s next : PagingState}

/-! One page of the framebuffer. -/

/-- `next` differs from `s` in the bytes of one frame, which is no table. -/
structure Beside (frame : Nat) (s next : PagingState) : Prop where
  directories : ∀ index, index < 1024 → next.directory index = s.directory index
  entries : ∀ page, page < 1048576 → Present (s.directory (page / 1024)) → next.entry page = s.entry page
  nextFree : next.nextFreePage = s.nextFreePage
  heap : next.userHeapPtr = s.userHeapPtr
  untouched : ∀ address, address / 4096 ≠ frame → next.memory address = s.memory address

section ClearTable

variable {frame : Nat} (notRoot : frame ≠ rootFrame)
  (free : ∀ index, index < 1024 → Present (s.directory index) → s.table index ≠ frame)

include notRoot free

private theorem beside_store {index value : Nat} (inside : index < 1024) :
    Beside frame s { s with memory := s.memory.store32 (wordAddress frame index) value } := by
  have directories : ∀ other, other < 1024 →
      directoryEntry (s.memory.store32 (wordAddress frame index) value) rootFrame other =
        s.directory other :=
    fun other bound => load_store_word inside bound (.inl notRoot.symm)
  refine ⟨directories, ?_, rfl, rfl, fun address elsewhere => store_word_untouched inside elsewhere⟩
  intro page bound present
  have table : tableFrame (s.memory.store32 (wordAddress frame index) value) rootFrame (page / 1024) =
      s.table (page / 1024) := congrArg frameOf (directories _ (by omega))
  simp only [PagingState.entry, pageEntry, table]
  exact load_store_word inside (Nat.mod_lt _ (by decide)) (.inl (free _ (by omega) present))

omit notRoot free in
theorem Beside.trans {last : PagingState} (first : Beside frame s next) (second : Beside frame next last) :
    Beside frame s last where
  directories index inside := (second.directories index inside).trans (first.directories index inside)
  entries page fits present := by
    have stillPresent : Present (next.directory (page / 1024)) := by
      rw [first.directories _ (by omega)]
      exact present
    exact (second.entries page fits stillPresent).trans (first.entries page fits present)
  nextFree := second.nextFree.trans first.nextFree
  heap := second.heap.trans first.heap
  untouched address elsewhere := (second.untouched address elsewhere).trans (first.untouched address elsewhere)

omit notRoot free in
theorem Beside.map (beside : Beside frame s next) (map : PageMap base s) : PageMap base next := by
  have tables : ∀ index, index < 1024 → next.table index = s.table index := fun index inside =>
    congrArg frameOf (beside.directories index inside)
  constructor
  · exact map.start
  · exact beside.nextFree ▸ map.aligned
  · exact beside.nextFree ▸ map.grown
  · intro index kernel
    rw [beside.directories index (by omega)]
    exact map.kernelTables index kernel
  · intro index above inside present
    rw [beside.directories index inside] at present
    rw [tables index inside, beside.nextFree]
    exact map.tables index above inside present
  · intro one two oneInside twoInside onePresent twoPresent same
    rw [beside.directories one oneInside] at onePresent
    rw [beside.directories two twoInside] at twoPresent
    rw [tables one oneInside, tables two twoInside] at same
    exact map.distinct one two oneInside twoInside onePresent twoPresent same
  · intro page low
    rw [beside.entries page (by omega) (map.kernelPresent (by omega))]
    exact map.identity page low

omit notRoot free in
theorem Beside.translation (beside : Beside frame s next) (fits : page < 1048576) :
    next.translation page = s.translation page := by
  have directory := beside.directories (page / 1024) (by omega)
  by_cases present : Present (s.directory (page / 1024))
  · exact translate_congr directory (beside.entries page fits present)
  · have before : s.translation page = none := translate_of_absent present
    rw [before]
    exact translate_of_absent (by rwa [← directory] at present)

omit notRoot free in
theorem Beside.reaches (beside : Beside frame s next) {other : Nat} (fits : other < 1048576)
    (reaches : ReachesFrame s other) : ReachesFrame next other := by
  obtain ⟨translation, found, same⟩ := reaches
  exact ⟨translation, (beside.translation fits).trans found, same⟩

theorem clearTable_spec (reaches : ReachesFrame s frame) (fits : frame < 1048576) {count : Nat}
    (within : count ≤ 1024) :
    ∃ next, clearTable s (4096 * frame) count = .ok next ∧ Beside frame s next ∧
      ∀ index, index < count → next.memory.load32 (wordAddress frame index) = 0 := by
  induction count with
  | zero =>
    exact ⟨s, rfl, ⟨fun _ _ => rfl, fun _ _ _ => rfl, rfl, rfl, fun _ _ => rfl⟩,
      fun index none => absurd none (Nat.not_lt_zero index)⟩
  | succ count ih =>
    obtain ⟨next, cleared, beside, zero⟩ := ih (Nat.le_of_succ_le within)
    have bound : count < 1024 := within
    have stillFree : ∀ index, index < 1024 → Present (next.directory index) → next.table index ≠ frame := by
      intro index inside present
      have table : next.table index = s.table index := congrArg frameOf (beside.directories index inside)
      rw [table]
      exact free index inside (beside.directories index inside ▸ present)
    have stored := @ReachesFrame.store next frame (4 * count) 0 (beside.reaches fits reaches) (by omega)
    refine ⟨{ next with memory := next.memory.store32 (wordAddress frame count) 0 }, ?_,
      beside.trans (beside_store notRoot stillFree bound), ?_⟩
    · simp only [clearTable, cleared, bind, Except.bind]
      exact stored
    · intro index inside
      by_cases last : index = count
      · subst last
        exact load_store_word_self (by decide)
      · apply (load_store_word bound (by omega) (.inr last)).trans
        exact zero index (by omega)

end ClearTable

section Framebuffer

variable (map : PageMap base s)

include map

private theorem ensureKernelTable_of_present {index : Nat} (inside : index < 1024)
    (present : Present (s.directory index)) : ensureKernelTable s index = .ok s := by
  have flag : ¬(s.directory index &&& 1 = 0) := fun zero => (flag_eq_zero_iff _).mp zero present
  simp only [ensureKernelTable, load_directory map inside, if_neg flag, bind, Except.bind, pure, Except.pure]

private theorem ensureKernelTable_of_absent {index : Nat} (inside : index < 1024)
    (absent : ¬Present (s.directory index)) (low : s.nextFreePage < 0x800000) :
    ∃ cleared, ensureKernelTable s index = .ok (cleared.addTable index 3) ∧
      Beside (s.nextFreePage / 4096) s cleared ∧
      ∀ other, other < 1024 → cleared.memory.load32 (wordAddress (s.nextFreePage / 4096) other) = 0 := by
  have flag : s.directory index &&& 1 = 0 := (flag_eq_zero_iff _).mpr absent
  have available : ¬physMemEnd ≤ s.nextFreePage := by
    unfold physMemEnd
    omega
  have aligned := map.aligned
  have start := map.start
  have grown := map.grown
  have place : s.nextFreePage = 4096 * (s.nextFreePage / 4096) := by omega
  have notRoot : s.nextFreePage / 4096 ≠ rootFrame := by
    unfold rootFrame
    omega
  have free : ∀ other, other < 1024 → Present (s.directory other) → s.table other ≠ s.nextFreePage / 4096 := by
    intro other otherInside present
    have used := map.table_not_free otherInside present
    omega
  obtain ⟨next, cleared, beside, zero⟩ :=
    @clearTable_spec { s with nextFreePage := s.nextFreePage + 4096 } (s.nextFreePage / 4096) notRoot free
      (map.advance.identity_translation (by omega)) (by omega) 1024 (Nat.le_refl 1024)
  rw [← place] at cleared
  have stored := @store_directory base next index (s.nextFreePage + 3) (beside.map map.advance) inside
  have result : ({ next with memory := setDirectory next.memory rootFrame index (s.nextFreePage + 3) } :
      PagingState) = PagingState.addTable { s with memory := next.memory } index 3 := by
    simp only [PagingState.addTable, beside.nextFree, beside.heap]
  refine ⟨{ s with memory := next.memory }, ?_,
    ⟨beside.directories, beside.entries, rfl, rfl, beside.untouched⟩, zero⟩
  simp only [ensureKernelTable, load_directory map inside, if_pos flag, allocPageFrame, if_neg available,
    kernelFlags_eq aligned, add32_of_lt (show s.nextFreePage + 0x1000 < 4294967296 by omega), cleared, stored,
    bind, Except.bind, result]

theorem mapFramebufferPage_spec {addr : Nat} (fits : addr < 4294967296)
    (ready : Present (s.directory (addr / 4096 / 1024)) ∨ s.nextFreePage < 0x800000) :
    ∃ next, mapFramebufferPage s addr = .ok next ∧ PageMap base next ∧
      Mapped 3 s next (addr / 4096) (addr ||| 3) := by
  have pageFits : addr / 4096 < 1048576 := by omega
  have inside : addr / 4096 / 1024 < 1024 := by omega
  have directory : addr / 0x400000 = addr / 4096 / 1024 := (Nat.div_div_eq_div_mul addr 4096 1024).symm
  have valueFits := kernelFlags_lt fits
  have kernel : addr / 4096 < 2048 → Present (addr ||| 3) ∧ frameOf (addr ||| 3) = addr / 4096 :=
    fun _ => ⟨kernelFlags_present addr, kernelFlags_frame addr⟩
  by_cases present : Present (s.directory (addr / 4096 / 1024))
  · refine ⟨s.putEntry (addr / 4096) (addr ||| 3), ?_, map.putEntry pageFits present valueFits kernel,
      mapped_putEntry map pageFits valueFits present⟩
    simp only [mapFramebufferPage, directory, ensureKernelTable_of_present map inside present,
      load_directory map inside, bind, Except.bind]
    exact store_entry map pageFits present
  · have low : s.nextFreePage < 0x800000 := ready.resolve_left present
    obtain ⟨cleared, ensured, beside, zero⟩ := ensureKernelTable_of_absent map inside present low
    have clearedMap := beside.map map
    have clearedAbsent : ¬Present (cleared.directory (addr / 4096 / 1024)) := by
      rw [beside.directories _ inside]
      exact present
    have clearedLow : cleared.nextFreePage < 0x800000 := beside.nextFree ▸ low
    have added :=
      @PageMap.addTable base cleared _ 3 clearedMap inside clearedAbsent clearedLow (by decide) (by decide)
    have mapped := @mapped_addTable base cleared (addr / 4096) (addr ||| 3) 3 clearedMap pageFits valueFits
      clearedAbsent clearedLow (by decide) (by decide)
    have nowPresent : Present ((cleared.addTable (addr / 4096 / 1024) 3).directory (addr / 4096 / 1024)) := by
      have aligned := clearedMap.aligned
      rw [@directory_addTable_self cleared (addr / 4096 / 1024) 3 clearedLow (by decide)]
      unfold Present
      omega
    refine ⟨(cleared.addTable (addr / 4096 / 1024) 3).putEntry (addr / 4096) (addr ||| 3), ?_,
      added.putEntry pageFits nowPresent valueFits kernel, ?_⟩
    · simp only [mapFramebufferPage, directory, ensured, load_directory added inside, bind, Except.bind]
      exact store_entry added pageFits nowPresent
    · constructor
      · exact mapped.present
      · exact mapped.entry
      · intro index bound kept
        rw [← beside.directories index bound] at kept ⊢
        exact mapped.directories index bound kept
      · intro other bound different otherPresent
        rw [← beside.entries other bound otherPresent]
        apply mapped.entries other bound different
        rw [beside.directories _ (by omega)]
        exact otherPresent
      · intro _
        obtain ⟨directory, entries⟩ := mapped.newTable clearedAbsent
        refine ⟨beside.nextFree ▸ directory, ?_⟩
        intro other different here
        left
        cases entries other different here with
        | inl empty => exact empty
        | inr held =>
          rw [held, beside.nextFree]
          exact zero _ (Nat.mod_lt _ (by decide))
      · have same := mapped.nextFree
        rw [beside.directories _ inside, beside.nextFree] at same
        exact same
      · exact mapped.heap.trans beside.heap
      · intro address notRoot elsewhere
        rw [mapped.untouched address notRoot elsewhere]
        apply beside.untouched
        have table : (PagingState.putEntry (cleared.addTable (addr / 4096 / 1024) 3) (addr / 4096)
            (addr ||| 3)).table (addr / 4096 / 1024) = s.nextFreePage / 4096 := by
          rw [table_putEntry added pageFits nowPresent inside,
            table_addTable_self clearedMap clearedLow (by decide), beside.nextFree]
        rw [table] at elsewhere
        exact elsewhere

end Framebuffer

/-! Boot information. -/

/-- The page tables that the framebuffer may need. -/
def BootInfo.fbTables (info : BootInfo) : Nat :=
  if info.fbPhysAddr = 0 then 0 else info.fbSize / 0x400000 + 2

/-- The kernel is loaded at 1 MiB, the framebuffer loop ends, and the frames of boot (two
at most for each page of a program) lie in the first 8 MiB. -/
structure Bootable (info : BootInfo) : Prop where
  kernelStart : 0x100000 ≤ info.kernelEnd.toNat
  framebuffer : info.fbPhysAddr ≠ 0 → info.fbSize ≤ 0xFFFFF000
  room : info.kernelEnd.toNat + 4096 * info.fbTables + 0x3B000 ≤ 0x800000

/-- The memory behind the kernel is zero, and the framebuffer lies beyond it. -/
structure CleanBoot (info : BootInfo) : Prop where
  zero : ∀ address, info.kernelEnd.toNat ≤ address → address < 0x800000 → info.memory address = 0
  framebuffer : info.fbPhysAddr ≠ 0 →
    physMemEnd ≤ info.fbPhysAddr.toNat ∧ info.fbPhysAddr.toNat + info.fbSize ≤ 4294967296

def BootInfo.firstFrame (info : BootInfo) : Nat := pagingAllocInit info.kernelEnd.toNat

variable {info : BootInfo}

theorem Bootable.firstFrame_spec (bootable : Bootable info) : info.firstFrame % 4096 = 0 ∧
    info.kernelEnd.toNat ≤ info.firstFrame ∧ info.firstFrame < info.kernelEnd.toNat + 4096 := by
  have room := bootable.room
  have small : info.kernelEnd.toNat + 0xFFF < 4294967296 := by omega
  unfold BootInfo.firstFrame pagingAllocInit pageAlign
  rw [add32_of_lt small]
  omega

/-! The framebuffer loop. -/

/-- The tables that the first turns of the framebuffer loop may create. -/
def tablesBy (fbPage : Nat) : Nat → Nat
  | 0 => 0
  | done + 1 => (fbPage % 1024 + done) / 1024 + 1

structure FramebufferTurns (info : BootInfo) (done : Nat) (s : PagingState) : Prop where
  map : PageMap info.firstFrame s
  heap : s.userHeapPtr = 0xE0000000
  frames : s.nextFreePage ≤ info.firstFrame + 4096 * tablesBy (info.fbPhysAddr.toNat / 4096) done
  previous : ∀ turn, turn + 1 = done →
    Present (s.directory ((info.fbPhysAddr.toNat / 4096 + turn) % 1048576 / 1024))
  free : CleanBoot info → FreeFrames s

theorem tablesBy_le {fbPage fbSize done : Nat} (within : 4096 * done < fbSize + 4096) :
    tablesBy fbPage done ≤ fbSize / 0x400000 + 2 := by
  cases done with
  | zero => exact Nat.zero_le _
  | succ done =>
    simp only [tablesBy]
    omega

private theorem tablesBy_le_succ (fbPage done : Nat) : tablesBy fbPage done ≤ tablesBy fbPage (done + 1) := by
  cases done with
  | zero => exact Nat.zero_le _
  | succ done =>
    simp only [tablesBy]
    omega

theorem FramebufferTurns.step {done : Nat} (bootable : Bootable info) (mapped : info.fbPhysAddr ≠ 0)
    (turns : FramebufferTurns info done s) (within : 4096 * done < info.fbSize) :
    ∃ next, mapFramebufferPage s (add32 info.fbPhysAddr.toNat (4096 * done)) = .ok next ∧
      FramebufferTurns info (done + 1) next := by
  have size := bootable.framebuffer mapped
  have room := bootable.room
  obtain ⟨_, _, baseBound⟩ := bootable.firstFrame_spec
  have fits := add32_lt info.fbPhysAddr.toNat (4096 * done)
  have page : add32 info.fbPhysAddr.toNat (4096 * done) / 4096 =
      (info.fbPhysAddr.toNat / 4096 + done) % 1048576 := by
    unfold add32
    omega
  have tables : info.fbTables = info.fbSize / 0x400000 + 2 := if_neg mapped
  have low : s.nextFreePage < 0x800000 := by
    have frames := turns.frames
    have bound := @tablesBy_le (info.fbPhysAddr.toNat / 4096) info.fbSize done
      (Nat.lt_of_lt_of_le within (Nat.le_add_right _ _))
    omega
  obtain ⟨next, ran, nextMap, put⟩ := mapFramebufferPage_spec turns.map fits (.inr low)
  refine ⟨next, ran, nextMap, put.heap.trans turns.heap, ?_, ?_, ?_⟩
  · have frames := turns.frames
    have advanced := put.nextFree
    by_cases present : Present (s.directory (add32 info.fbPhysAddr.toNat (4096 * done) / 4096 / 1024))
    · rw [if_pos present] at advanced
      have more := tablesBy_le_succ (info.fbPhysAddr.toNat / 4096) done
      omega
    · rw [if_neg present] at advanced
      have more : tablesBy (info.fbPhysAddr.toNat / 4096) done + 1 ≤
          tablesBy (info.fbPhysAddr.toNat / 4096) (done + 1) := by
        cases done with
        | zero => exact Nat.succ_le_succ (Nat.zero_le _)
        | succ done =>
          -- within one table the page before had it already
          have boundary : (info.fbPhysAddr.toNat / 4096 + (done + 1)) % 1024 = 0 := by
            by_cases inner : (info.fbPhysAddr.toNat / 4096 + (done + 1)) % 1024 = 0
            · exact inner
            · have same : (info.fbPhysAddr.toNat / 4096 + (done + 1)) % 1048576 / 1024 =
                  (info.fbPhysAddr.toNat / 4096 + done) % 1048576 / 1024 := by omega
              rw [page, same] at present
              exact absurd (turns.previous done rfl) present
          simp only [tablesBy]
          omega
      omega
  · intro turn last
    have here : turn = done := Nat.succ.inj last
    rw [here, ← page]
    exact put.present
  · intro clean
    obtain ⟨beyond, noWrap⟩ := clean.framebuffer mapped
    have free := turns.free clean
    apply put.freeFrames turns.map nextMap (by omega) free (fun _ => low)
    right
    rw [kernelFlags_frame]
    unfold physMemEnd at beyond ⊢
    unfold add32 frameOf
    omega

theorem mapFramebuffer_spec (bootable : Bootable info) (mapped : info.fbPhysAddr ≠ 0)
    (turns : FramebufferTurns info 0 s) :
    ∃ next, mapFramebuffer s info.fbPhysAddr.toNat info.fbSize = .ok next ∧
      FramebufferTurns info ((info.fbSize + 4095) / 4096) next := by
  have size := bootable.framebuffer mapped
  apply @pageLoop_rule s _ info.fbSize 0 ((info.fbSize + 4095) / 4096) enoughTurns
    (FramebufferTurns info)
  · intro done within
    omega
  · omega
  · omega
  · unfold enoughTurns
    omega
  · exact turns
  · intro done current within reached
    rw [Nat.zero_add]
    exact reached.step bootable mapped (by omega)

/-! The pages of the programs. -/

/-- What mapping `pages` in turn makes of `s`. -/
structure ProgramsMapped (base : Nat) (s : PagingState) (pages : List Nat) (next : PagingState) : Prop where
  map : PageMap base next
  heap : next.userHeapPtr = s.userHeapPtr
  frames : next.nextFreePage ≤ s.nextFreePage + 8192 * pages.length
  mapped : ∀ virt, virt ∈ pages → next.translation (virt / 4096) ≠ none
  kept : ∀ page, page < 1048576 → s.translation page ≠ none → next.translation page ≠ none
  absent : ∀ index, index < 1024 → ¬Present (s.directory index) →
    (∀ virt, virt ∈ pages → virt / 4096 / 1024 ≠ index) → ¬Present (next.directory index)
  free : FreeFrames s → FreeFrames next

theorem mapNewFrames_spec (pages : List Nat) (map : PageMap base s)
    (proper : ∀ virt, virt ∈ pages → virt % 4096 = 0 ∧ 2048 ≤ virt / 4096 ∧ virt / 4096 < 1048576)
    (room : s.nextFreePage + 8192 * pages.length ≤ 0x800000) :
    ∃ next, mapNewFrames s pages = .ok next ∧ ProgramsMapped base s pages next := by
  induction pages generalizing s with
  | nil =>
    refine ⟨s, rfl, map, rfl, Nat.le_refl _, ?_, fun _ _ there => there, fun _ _ absent _ => absent, id⟩
    intro virt none
    cases none
  | cons virt rest ih =>
    obtain ⟨aligned, above, fits⟩ := proper virt (List.mem_cons_self ..)
    have number : 4096 * (virt / 4096) = virt := by omega
    rw [List.length_cons] at room
    have ready : Ready s (virt / 4096) := by
      right
      omega
    obtain ⟨middle, ran, middleMap, mapped⟩ := mapNewFrame_spec map fits above ready
    have taken := nextFree_mapNewFrame mapped
    obtain ⟨next, finished, rest'⟩ := ih middleMap (fun other member =>
      proper other (List.mem_cons_of_mem _ member)) (by omega)
    rw [number] at ran
    refine ⟨next, ?_, rest'.map, ?_, ?_, ?_, ?_, ?_, ?_⟩
    · simp only [mapNewFrames, ran, bind, Except.bind]
      exact finished
    · rw [rest'.heap, mapped.heap, allocated_userHeapPtr]
    · have more := rest'.frames
      rw [List.length_cons]
      omega
    · intro other member
      cases List.mem_cons.mp member with
      | inl same =>
        rw [same]
        exact rest'.kept _ fits (translation_mapNewFrame map mapped)
      | inr later => exact rest'.mapped other later
    · intro page bound before
      exact rest'.kept page bound (translation_mapNewFrame_kept map mapped bound before)
    · intro index inside absent elsewhere
      apply rest'.absent index inside
      · have different : index ≠ virt / 4096 / 1024 := (elsewhere virt (List.mem_cons_self ..)).symm
        rw [mapped.directories index inside (.inl different), allocated_directory]
        exact absent
      · intro other member
        exact elsewhere other (List.mem_cons_of_mem _ member)
    · intro free
      exact rest'.free (freeFrames_mapNewFrame map middleMap fits mapped ready free)

theorem programPages_proper : ∀ virt, virt ∈ programPages →
    virt % 4096 = 0 ∧ 2048 ≤ virt / 4096 ∧ virt / 4096 < 1048576 := by
  decide

theorem programPages_length : programPages.length = 29 := by decide

/-- What boot hands over to system calls. -/
structure Booted (info : BootInfo) (start : PagingState) : Prop where
  map : PageMap info.firstFrame start
  heap : start.userHeapPtr = 0xE0000000
  programs : ∀ virt, virt ∈ programPages → start.translation (virt / 4096) ≠ none
  absent : info.fbPhysAddr = 0 → ∀ index, 2 ≤ index → index < 1024 →
    (∀ virt, virt ∈ programPages → virt / 4096 / 1024 ≠ index) → ¬Present (start.directory index)
  frames : start.nextFreePage ≤ info.firstFrame + 4096 * info.fbTables + 0x3A000
  free : CleanBoot info → FreeFrames start

/-- The programs' pages after the framebuffer loop. -/
theorem Bootable.programs (bootable : Bootable info) (map : PageMap info.firstFrame s)
    (frames : s.nextFreePage ≤ info.firstFrame + 4096 * info.fbTables) :
    ∃ start, mapNewFrames s programPages = .ok start ∧
      ProgramsMapped info.firstFrame s programPages start ∧
      start.nextFreePage ≤ info.firstFrame + 4096 * info.fbTables + 0x3A000 := by
  have room := bootable.room
  obtain ⟨_, _, near⟩ := bootable.firstFrame_spec
  obtain ⟨start, ran, programs⟩ := mapNewFrames_spec programPages map programPages_proper (by
    rw [programPages_length]
    omega)
  refine ⟨start, ran, programs, ?_⟩
  have taken := programs.frames
  rw [programPages_length] at taken
  omega

theorem ok_bind {ε α β : Type} (value : α) (next : α → Except ε β) :
    (Except.ok value >>= next) = next value := rfl

theorem pagingOn_eq (memory : Memory) (base : Nat) :
    pagingOn memory base = ⟨initPaging memory, base, 0xE0000000⟩ := rfl

theorem boot_of_none (none : info.fbPhysAddr = 0) :
    boot info = mapNewFrames (pagingOn info.memory info.firstFrame) programPages := by
  unfold boot
  rw [if_pos none, pure_bind, pagingOn_eq, BootInfo.firstFrame]

theorem boot_of_framebuffer (there : info.fbPhysAddr ≠ 0)
    (looped : mapFramebuffer (pagingOn info.memory info.firstFrame) info.fbPhysAddr.toNat info.fbSize = .ok s) :
    boot info = mapNewFrames s programPages := by
  rw [pagingOn_eq, BootInfo.firstFrame] at looped
  unfold boot
  rw [if_neg there, looped, ok_bind]

theorem boot_spec (bootable : Bootable info) : ∃ start, boot info = .ok start ∧ Booted info start := by
  obtain ⟨aligned, above, _⟩ := bootable.firstFrame_spec
  have low : 0x100000 ≤ info.firstFrame := Nat.le_trans bootable.kernelStart above
  have map := pagingOn_map info.memory low aligned
  have free : CleanBoot info → FreeFrames (pagingOn info.memory info.firstFrame) := fun clean =>
    pagingOn_freeFrames info.memory low fun address after below =>
      clean.zero address (Nat.le_trans above after) below
  by_cases none : info.fbPhysAddr = 0
  · obtain ⟨start, ran, programs, frames⟩ := bootable.programs map (Nat.le_add_right _ _)
    refine ⟨start, (boot_of_none none).trans ran, programs.map, programs.heap, programs.mapped, ?_, frames,
      fun clean => programs.free (free clean)⟩
    · intro _ index kernel inside elsewhere
      apply programs.absent index inside _ elsewhere
      rw [pagingOn_present info.memory info.firstFrame inside]
      exact Nat.not_lt.mpr kernel
  · have turns : FramebufferTurns info 0 (pagingOn info.memory info.firstFrame) := by
      refine ⟨map, rfl, Nat.le_add_right _ _, ?_, free⟩
      intro turn never
      cases never
    obtain ⟨middle, looped, reached⟩ := mapFramebuffer_spec bootable none turns
    have bound := @tablesBy_le (info.fbPhysAddr.toNat / 4096) info.fbSize ((info.fbSize + 4095) / 4096) (by omega)
    have tables : info.fbTables = info.fbSize / 0x400000 + 2 := if_neg none
    rw [← tables] at bound
    have frames := Nat.le_trans reached.frames (Nat.add_le_add_left (Nat.mul_le_mul_left 4096 bound) _)
    obtain ⟨start, ran, programs, taken⟩ := bootable.programs reached.map frames
    exact ⟨start, (boot_of_framebuffer none looped).trans ran, programs.map, programs.heap.trans reached.heap,
      programs.mapped, fun absent => absurd absent none, taken, fun clean => programs.free (reached.free clean)⟩

end ShedKernel.Paging
