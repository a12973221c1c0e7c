import ShedKernel.Paging.MapProperties

/-! Frames that are still free: mapping a page takes none of them into use but those
it is handed. -/

set_option autoImplicit false

namespace ShedKernel.Paging

open Foundation PageTable

/-- Free frames below 8 MiB hold zeros, and no page above 8 MiB is mapped to a free frame. -/
structure FreeFrames (s : PagingState) : Prop where
  zero : ∀ address, s.nextFreePage ≤ address → address < 0x800000 → s.memory address = 0
  unused : ∀ page, 2048 ≤ page → page < 1048576 → ∀ translation, s.translation page = some translation →
    4096 * translation.frame < s.nextFreePage ∨ physMemEnd ≤ 4096 * translation.frame

variable {base flags page value : Nat} {s next : PagingState}

private theorem load32_zero {memory : Memory} {address : Nat}
    (zero : ∀ place, address ≤ place → place < address + 4 → memory place = 0) :
    memory.load32 address = 0 := by
  unfold Memory.load32
  rw [zero address (by omega) (by omega), zero (address + 1) (by omega) (by omega),
    zero (address + 2) (by omega) (by omega), zero (address + 3) (by omega) (by omega)]
  rfl

theorem FreeFrames.allocated (free : FreeFrames s) : FreeFrames s.allocated := by
  have grown := nextFreePage_le_allocated s
  constructor
  · intro address above low
    rw [allocated_memory]
    exact free.zero address (Nat.le_trans grown above) low
  · intro page above fits translation found
    unfold PagingState.translation at found
    rw [allocated_memory] at found
    cases free.unused page above fits translation found with
    | inl below => exact .inl (Nat.lt_of_lt_of_le below grown)
    | inr beyond => exact .inr beyond

namespace Mapped

/-- Mapping `page` changes no other translation but from none, in its own directory entry. -/
theorem translation_of_present (mapped : Mapped flags s next page value) {other : Nat}
    (fits : other < 1048576) (different : other ≠ page) (present : Present (s.directory (other / 1024))) :
    next.translation other = s.translation other :=
  translate_congr (mapped.directories _ (by omega) (.inr present)) (mapped.entries other fits different present)

/-- With the free frames zero, a new table maps nothing else. -/
theorem translation_of_absent (mapped : Mapped flags s next page value) (map : PageMap base s)
    (free : FreeFrames s) {other : Nat} (fits : other < 1048576) (different : other ≠ page)
    (absent : ¬Present (s.directory (other / 1024)))
    (low : other / 1024 = page / 1024 → s.nextFreePage < 0x800000) : next.translation other = none := by
  by_cases here : other / 1024 = page / 1024
  · have entries := (mapped.newTable (here ▸ absent)).2 other different here
    have aligned := map.aligned
    have held : s.memory.load32 (wordAddress (s.nextFreePage / 4096) (other % 1024)) = 0 := by
      apply load32_zero
      intro place after before
      have below := low here
      unfold wordAddress at after before
      exact free.zero place (by omega) (by omega)
    have empty : next.entry other = 0 := by
      cases entries with
      | inl zero => exact zero
      | inr same => exact same.trans held
    apply if_neg
    intro both
    have present : Present (next.entry other) := both.2
    rw [empty] at present
    cases present
  · apply translate_of_absent
    have same : next.directory (other / 1024) = s.directory (other / 1024) :=
      mapped.directories _ (by omega) (.inl here)
    intro present
    exact absent (same ▸ present)

private theorem nextFree_le (mapped : Mapped flags s next page value) : s.nextFreePage ≤ next.nextFreePage := by
  rw [mapped.nextFree]
  exact Nat.le_add_right _ _

theorem freeFrames (mapped : Mapped flags s next page value) (map : PageMap base s)
    (nextMap : PageMap base next) (fits : page < 1048576) (free : FreeFrames s)
    (low : ¬Present (s.directory (page / 1024)) → s.nextFreePage < 0x800000)
    (placed : 4096 * frameOf value < s.nextFreePage ∨ physMemEnd ≤ 4096 * frameOf value) :
    FreeFrames next := by
  have grown := mapped.nextFree_le
  have start := map.start
  have base := map.grown
  constructor
  · intro address above below
    rw [mapped.untouched address]
    · exact free.zero address (Nat.le_trans grown above) below
    · unfold rootFrame
      omega
    · have used := nextMap.table_not_free (by omega) mapped.present
      have aligned := nextMap.aligned
      omega
  · intro other above otherFits translation found
    by_cases here : other = page
    · obtain ⟨_, _, frame⟩ := translate_eq_some found
      have entry : next.entry other = value := here ▸ mapped.entry
      have frame : translation.frame = frameOf (next.entry other) := frame
      rw [frame, entry]
      cases placed with
      | inl below => exact .inl (Nat.lt_of_lt_of_le below grown)
      | inr beyond => exact .inr beyond
    · by_cases present : Present (s.directory (other / 1024))
      · rw [mapped.translation_of_present otherFits here present] at found
        cases free.unused other above otherFits translation found with
        | inl below => exact .inl (Nat.lt_of_lt_of_le below grown)
        | inr beyond => exact .inr beyond
      · have none := mapped.translation_of_absent map free otherFits here present fun own =>
          low (own ▸ present)
        rw [none] at found
        cases found

end Mapped

/-! `map_user_page(virt, alloc_page_frame())`. -/

theorem translation_ne_none_iff : s.translation page ≠ none ↔
    Present (s.directory (page / 1024)) ∧ Present (s.entry page) := by
  constructor
  · intro mapped
    obtain ⟨translation, found⟩ := Option.ne_none_iff_exists'.mp mapped
    obtain ⟨directory, entry, _⟩ := translate_eq_some found
    exact ⟨directory, entry⟩
  · intro ⟨directory, entry⟩
    obtain ⟨translation, found, _⟩ := translate_of_present directory entry
    exact Option.ne_none_iff_exists'.mpr ⟨translation, found⟩

section MapNewFrame

variable (map : PageMap base s) (nextMap : PageMap base next) (fits : page < 1048576)
  (mapped : Mapped 7 s.allocated next page (s.handedOut + 7))

include mapped

theorem nextFree_mapNewFrame : next.nextFreePage ≤ s.nextFreePage + 8192 := by
  have advanced := mapped.nextFree
  have alloc : s.allocated.nextFreePage ≤ s.nextFreePage + 4096 := by
    cases Nat.lt_or_ge s.nextFreePage physMemEnd with
    | inl available =>
      exact Nat.le_of_eq (congrArg (·.nextFreePage) (handedOut_available available).2)
    | inr exhausted =>
      rw [(handedOut_exhausted exhausted).2]
      exact Nat.le_add_right _ _
  split at advanced <;> omega

theorem directory_mapNewFrame {index : Nat} (bound : index < 1024)
    (kept : index ≠ page / 1024 ∨ Present (s.directory index)) :
    next.directory index = s.directory index := by
  rw [← allocated_directory s] at kept ⊢
  exact mapped.directories index bound kept

theorem translation_mapNewFrame_of_present {other : Nat} (otherFits : other < 1048576)
    (different : other ≠ page) (present : Present (s.directory (other / 1024))) :
    next.translation other = s.translation other := by
  rw [← allocated_directory] at present
  rw [mapped.translation_of_present otherFits different present, PagingState.translation,
    allocated_memory]
  rfl

include map

theorem translation_mapNewFrame : next.translation page ≠ none := by
  have aligned := (handedOut_aligned map.aligned).1
  rw [translation_ne_none_iff, mapped.entry]
  refine ⟨mapped.present, ?_⟩
  unfold Present
  omega

theorem translation_mapNewFrame_kept {other : Nat} (otherFits : other < 1048576)
    (before : s.translation other ≠ none) : next.translation other ≠ none := by
  by_cases here : other = page
  · rw [here]
    exact translation_mapNewFrame map mapped
  · have present := (translation_ne_none_iff.mp before).1
    rw [translation_mapNewFrame_of_present mapped otherFits here present]
    exact before

include nextMap fits

theorem freeFrames_mapNewFrame (ready : Ready s page) (free : FreeFrames s) : FreeFrames next := by
  have grown := map.grown
  have start := map.start
  have aligned := (handedOut_aligned map.aligned).1
  have frame : 4096 * frameOf (s.handedOut + 7) = s.handedOut := by
    unfold frameOf
    omega
  apply mapped.freeFrames map.allocated nextMap fits free.allocated
  · intro absent
    cases ready with
    | inl present =>
      rw [allocated_directory] at absent
      exact absurd present absent
    | inr low =>
      rw [allocated_nextFreePage low]
      exact low
  · left
    rw [frame]
    cases Nat.lt_or_ge s.nextFreePage physMemEnd with
    | inl available =>
      rw [(handedOut_available available).1, (handedOut_available available).2]
      exact Nat.lt_add_of_pos_right (by decide)
    | inr exhausted =>
      rw [(handedOut_exhausted exhausted).1, (handedOut_exhausted exhausted).2]
      omega

end MapNewFrame

end ShedKernel.Paging
