import ShedKernel.Paging.PageMap

/-! What one call of `map_user_page` does to the page tables, and the rule for loops
over pages. -/

set_option autoImplicit false

namespace ShedKernel.Paging

open Foundation PageTable

variable {base : Nat} {s : PagingState} {index page address value : Nat}

/-! `map_user_page`. -/

section Accesses

variable (map : PageMap base s)

include map

theorem load_directory (inside : index < 1024) :
    kernelLoad s (pageDirectory + 4 * index) = .ok (s.directory index) :=
  map.kernelLoad_low (by unfold pageDirectory; omega)

theorem store_directory (inside : index < 1024) :
    kernelStore s (pageDirectory + 4 * index) value =
      .ok { s with memory := setDirectory s.memory rootFrame index value } :=
  map.kernelStore_low (by unfold pageDirectory; omega)

theorem store_entry (fits : page < 1048576) (present : Present (s.directory (page / 1024))) :
    kernelStore s (pageAlign (s.directory (page / 1024)) + 4 * (page % 1024)) value =
      .ok (s.putEntry page value) := by
  have low := (map.table_low (by omega) present).1
  have place : pageAlign (s.directory (page / 1024)) + 4 * (page % 1024) =
      wordAddress (s.table (page / 1024)) (page % 1024) := by
    rw [pageAlign, Nat.mul_comm]
    rfl
  rw [place]
  apply map.kernelStore_low
  unfold wordAddress
  omega

private theorem ensureTable_of_present (inside : index < 1024) (present : Present (s.directory index)) :
    ensureTable s index = .ok s := by
  have flag : ¬(s.directory index &&& pagePresent = 0) := fun zero =>
    (flag_eq_zero_iff _).mp zero present
  simp only [ensureTable, load_directory map inside, if_neg flag, bind, Except.bind, pure, Except.pure]

private theorem ensureTable_of_absent (inside : index < 1024) (absent : ¬Present (s.directory index))
    (low : s.nextFreePage < 0x800000) : ensureTable s index = .ok (s.addTable index 7) := by
  have flag : s.directory index &&& pagePresent = 0 := (flag_eq_zero_iff _).mpr absent
  have available : ¬physMemEnd ≤ s.nextFreePage := by
    unfold physMemEnd
    omega
  have stored := @store_directory base _ index (s.nextFreePage + 7) map.advance inside
  simp only [ensureTable, load_directory map inside, if_pos flag, allocPageFrame, if_neg available,
    userFlags_eq map.aligned, add32_of_lt (show s.nextFreePage + 0x1000 < 4294967296 by omega), stored, bind,
    Except.bind]
  rfl

end Accesses

/-- `page` has the entry `value` in `next`, in the table it had in `s` or in a new one;
nothing else that was mapped has changed. -/
structure Mapped (flags : Nat) (s next : PagingState) (page value : Nat) : Prop where
  present : Present (next.directory (page / 1024))
  entry : next.entry page = value
  directories : ∀ index, index < 1024 → index ≠ page / 1024 ∨ Present (s.directory index) →
    next.directory index = s.directory index
  entries : ∀ other, other < 1048576 → other ≠ page → Present (s.directory (other / 1024)) →
    next.entry other = s.entry other
  newTable : ¬Present (s.directory (page / 1024)) →
    next.directory (page / 1024) = s.nextFreePage + flags ∧
    ∀ other, other ≠ page → other / 1024 = page / 1024 → next.entry other = 0 ∨
      next.entry other = s.memory.load32 (wordAddress (s.nextFreePage / 4096) (other % 1024))
  nextFree : next.nextFreePage =
    s.nextFreePage + if Present (s.directory (page / 1024)) then 0 else 4096
  heap : next.userHeapPtr = s.userHeapPtr
  untouched : ∀ address, address / 4096 ≠ rootFrame → address / 4096 ≠ next.table (page / 1024) →
    next.memory address = s.memory address

theorem store_word_untouched {memory : Memory} {frame : Nat} (inside : index < 1024)
    (elsewhere : address / 4096 ≠ frame) :
    memory.store32 (wordAddress frame index) value address = memory address := by
  apply Memory.store32_of_outside
  unfold wordAddress
  omega

section Mapping

variable {flags : Nat} (map : PageMap base s) (fits : page < 1048576) (small : value < 4294967296)

include map fits small

theorem mapped_putEntry (present : Present (s.directory (page / 1024))) :
    Mapped flags s (s.putEntry page value) page value where
  present := by
    rw [directory_putEntry map fits present (by omega)]
    exact present
  entry := entry_putEntry_self map fits present small
  directories index inside _ := directory_putEntry map fits present inside
  entries other otherFits different otherPresent :=
    entry_putEntry_of_ne map fits present otherFits otherPresent different
  newTable absent := absurd present absent
  nextFree := by
    rw [if_pos present]
    rfl
  heap := rfl
  untouched address _ elsewhere := by
    apply store_word_untouched (Nat.mod_lt _ (by decide))
    rw [table_putEntry map fits present (by omega)] at elsewhere
    exact elsewhere

theorem mapped_addTable (absent : ¬Present (s.directory (page / 1024)))
    (low : s.nextFreePage < 0x800000) (odd : flags % 2 = 1) (smallFlags : flags < 4096) :
    Mapped flags s ((s.addTable (page / 1024) flags).putEntry page value) page value := by
  have inside : page / 1024 < 1024 := by omega
  have added := map.addTable inside absent low odd smallFlags
  have self := @directory_addTable_self s (page / 1024) flags low smallFlags
  have present : Present ((s.addTable (page / 1024) flags).directory (page / 1024)) := by
    have aligned := map.aligned
    rw [self]
    unfold Present
    omega
  have put := @mapped_putEntry base _ page value flags added fits small present
  have kept := fun index indexInside different =>
    @directory_addTable_of_ne s (page / 1024) flags inside index indexInside different
  constructor
  · exact put.present
  · exact put.entry
  · intro index indexInside cases
    have different : index ≠ page / 1024 := by
      cases cases with
      | inl different => exact different
      | inr there => exact fun here => absent (here ▸ there)
    rw [put.directories index indexInside (.inl different), kept index indexInside different]
  · intro other otherFits different otherPresent
    have otherTable : other / 1024 ≠ page / 1024 := fun here => absent (here ▸ otherPresent)
    have stillPresent : Present ((s.addTable (page / 1024) flags).directory (other / 1024)) := by
      rw [kept _ (by omega) otherTable]
      exact otherPresent
    rw [put.entries other otherFits different stillPresent]
    exact entry_addTable_of_ne map inside otherFits otherPresent otherTable
  · intro _
    refine ⟨(put.directories _ inside (.inr present)).trans self, ?_⟩
    intro other different here
    right
    have otherFits : other < 1048576 := by omega
    rw [put.entries other otherFits different (here ▸ present)]
    exact entry_addTable_self map inside low smallFlags here
  · rw [if_neg absent]
    exact put.nextFree.trans (if_pos present ▸ rfl)
  · exact put.heap
  · intro address notRoot elsewhere
    rw [put.untouched address notRoot elsewhere]
    exact store_word_untouched inside notRoot

end Mapping

/-- `map_user_page`, when the table exists or gets a frame below 8 MiB. -/
theorem mapUserPage_spec {virt phys : Nat} (map : PageMap base s) (fits : virt < 4294967296)
    (aligned : phys % 4096 = 0) (small : phys < 4294967296) (above : 2048 ≤ virt / 4096)
    (ready : Present (s.directory (virt / 4096 / 1024)) ∨ s.nextFreePage < 0x800000) :
    ∃ next, mapUserPage s virt phys = .ok next ∧ PageMap base next ∧
      Mapped 7 s next (virt / 4096) (phys + 7) := by
  have pageFits : virt / 4096 < 1048576 := by omega
  have inside : virt / 4096 / 1024 < 1024 := by omega
  have directory : virt / 0x400000 = virt / 4096 / 1024 := (Nat.div_div_eq_div_mul virt 4096 1024).symm
  have valueFits : phys + 7 < 4294967296 := by omega
  have kernel : virt / 4096 < 2048 → Present (phys + 7) ∧ frameOf (phys + 7) = virt / 4096 :=
    fun below => absurd below (Nat.not_lt.mpr above)
  by_cases present : Present (s.directory (virt / 4096 / 1024))
  · refine ⟨s.putEntry (virt / 4096) (phys + 7), ?_, map.putEntry pageFits present valueFits kernel,
      mapped_putEntry map pageFits valueFits present⟩
    simp only [mapUserPage, directory, ensureTable_of_present map inside present,
      load_directory map inside, userFlags_eq aligned, bind, Except.bind]
    exact store_entry map pageFits present
  · have low : s.nextFreePage < 0x800000 := ready.resolve_left present
    have added := @PageMap.addTable base s _ 7 map inside present low (by decide) (by decide)
    have self := @directory_addTable_self s (virt / 4096 / 1024) 7 low (by decide)
    have nowPresent : Present ((s.addTable (virt / 4096 / 1024) 7).directory (virt / 4096 / 1024)) := by
      have aligned := map.aligned
      rw [self]
      unfold Present
      omega
    refine ⟨(s.addTable (virt / 4096 / 1024) 7).putEntry (virt / 4096) (phys + 7), ?_,
      added.putEntry pageFits nowPresent valueFits kernel,
      mapped_addTable map pageFits valueFits present low (by decide) (by decide)⟩
    simp only [mapUserPage, directory, ensureTable_of_absent map inside present low,
      load_directory added inside, userFlags_eq aligned, bind, Except.bind]
    exact store_entry added pageFits nowPresent

/-! `alloc_page_frame` as the argument of `map_user_page`. -/

namespace PagingState

def handedOut (s : PagingState) : Nat := (allocPageFrame s).1

def allocated (s : PagingState) : PagingState := (allocPageFrame s).2

end PagingState

theorem handedOut_available (available : s.nextFreePage < physMemEnd) :
    s.handedOut = s.nextFreePage ∧
      s.allocated = { s with nextFreePage := s.nextFreePage + 4096 } := by
  have below : s.nextFreePage + 0x1000 < 4294967296 := by
    unfold physMemEnd at available
    omega
  simp only [PagingState.handedOut, PagingState.allocated, allocPageFrame,
    if_neg (Nat.not_le.mpr available), add32_of_lt below, and_self]

theorem handedOut_exhausted (exhausted : physMemEnd ≤ s.nextFreePage) :
    s.handedOut = 0 ∧ s.allocated = s := by
  simp only [PagingState.handedOut, PagingState.allocated, allocPageFrame, if_pos exhausted, and_self]

theorem allocated_nextFreePage (low : s.nextFreePage + 4096 < 0x800000) :
    s.allocated.nextFreePage = s.nextFreePage + 4096 := by
  have available : s.nextFreePage < physMemEnd := by
    unfold physMemEnd
    omega
  rw [(handedOut_available available).2]

theorem allocated_memory (s : PagingState) : s.allocated.memory = s.memory := by
  unfold PagingState.allocated allocPageFrame
  split <;> rfl

theorem allocated_userHeapPtr (s : PagingState) : s.allocated.userHeapPtr = s.userHeapPtr := by
  unfold PagingState.allocated allocPageFrame
  split <;> rfl

theorem allocated_directory (s : PagingState) (index : Nat) :
    s.allocated.directory index = s.directory index := by
  unfold PagingState.directory
  rw [allocated_memory]

theorem allocated_entry (s : PagingState) (page : Nat) : s.allocated.entry page = s.entry page := by
  unfold PagingState.entry
  rw [allocated_memory]

theorem nextFreePage_le_allocated (s : PagingState) : s.nextFreePage ≤ s.allocated.nextFreePage := by
  cases Nat.lt_or_ge s.nextFreePage physMemEnd with
  | inl available =>
    rw [(handedOut_available available).2]
    exact Nat.le_add_right _ _
  | inr exhausted => exact Nat.le_of_eq (congrArg PagingState.nextFreePage (handedOut_exhausted exhausted).2.symm)

theorem PageMap.allocated (map : PageMap base s) : PageMap base s.allocated := by
  cases Nat.lt_or_ge s.nextFreePage physMemEnd with
  | inl available =>
    rw [(handedOut_available available).2]
    exact map.advance
  | inr exhausted =>
    rw [(handedOut_exhausted exhausted).2]
    exact map

theorem handedOut_aligned (aligned : s.nextFreePage % 4096 = 0) :
    s.handedOut % 4096 = 0 ∧ s.handedOut < physMemEnd := by
  cases Nat.lt_or_ge s.nextFreePage physMemEnd with
  | inl available =>
    rw [(handedOut_available available).1]
    exact ⟨aligned, available⟩
  | inr exhausted =>
    rw [(handedOut_exhausted exhausted).1]
    exact ⟨rfl, by decide⟩

/-- `Ready s page`: the page has a table, or its table gets a frame below 8 MiB. -/
def Ready (s : PagingState) (page : Nat) : Prop :=
  Present (s.directory (page / 1024)) ∨ s.nextFreePage + 4096 < 0x800000

theorem mapNewFrame_spec (map : PageMap base s) (fits : page < 1048576) (above : 2048 ≤ page)
    (ready : Ready s page) :
    ∃ next, mapNewFrame s (4096 * page) = .ok next ∧ PageMap base next ∧
      Mapped 7 s.allocated next page (s.handedOut + 7) := by
  obtain ⟨aligned, below⟩ := handedOut_aligned map.aligned
  have number : 4096 * page / 4096 = page := Nat.mul_div_cancel_left page (by decide)
  have spec := @mapUserPage_spec base s.allocated (4096 * page) s.handedOut map.allocated (by omega) aligned
    (Nat.lt_trans below (by decide))
  rw [number] at spec
  apply spec above
  cases ready with
  | inl present =>
    left
    rw [allocated_directory]
    exact present
  | inr low =>
    right
    rw [allocated_nextFreePage low]
    exact low

/-- The rule of `for` loops over pages: what each turn carries on holds at the end. -/
theorem pageLoop_rule {body : PagingState → Nat → Except KernelStop PagingState}
    {bound first count turns : Nat} {holds : Nat → PagingState → Prop}
    (inside : ∀ done, done < count → 4096 * (first + done) < bound)
    (ends : bound ≤ 4096 * (first + count)) (fits : first + count < 1048576) (enough : count < turns)
    (initial : holds 0 s)
    (step : ∀ done current, done < count → holds done current →
      ∃ next, body current (4096 * (first + done)) = .ok next ∧ holds (done + 1) next) :
    ∃ final, pageLoop body bound turns s (4096 * first) = .ok final ∧ holds count final := by
  have rest : ∀ remaining done turns current, done + remaining = count → remaining < turns →
      holds done current →
      ∃ final, pageLoop body bound turns current (4096 * (first + done)) = .ok final ∧
        holds count final := by
    intro remaining
    induction remaining with
    | zero =>
      intro done turns current total enough reached
      obtain ⟨turns, rfl⟩ := Nat.exists_eq_succ_of_ne_zero (Nat.ne_of_gt enough)
      subst total
      exact ⟨current, if_neg (Nat.not_lt.mpr ends), reached⟩
    | succ remaining ih =>
      intro done turns current total enough reached
      obtain ⟨turns, rfl⟩ := Nat.exists_eq_succ_of_ne_zero (Nat.ne_of_gt (Nat.lt_of_le_of_lt (Nat.zero_le _) enough))
      have here : done < count := by omega
      obtain ⟨next, ran, carried⟩ := step done current here reached
      obtain ⟨final, finished, held⟩ := ih (done + 1) turns next (by omega) (by omega) carried
      refine ⟨final, ?_, held⟩
      have advance : add32 (4096 * (first + done)) 0x1000 = 4096 * (first + (done + 1)) := by
        rw [add32_of_lt (by omega)]
        omega
      simp only [pageLoop, if_pos (inside done here), ran, advance, bind, Except.bind]
      exact finished
  exact rest count 0 turns s (Nat.zero_add count) enough initial

end ShedKernel.Paging
