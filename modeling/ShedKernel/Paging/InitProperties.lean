import ShedKernel.Paging.FrameProperties

/-! `init_paging` sets up page tables that satisfy the invariant. -/

set_option autoImplicit false

namespace ShedKernel.Paging

open Foundation PageTable

variable {base page address : Nat} {s next : PagingState}

/-! `init_paging`. -/

private theorem tableFlags_eq {value : Nat} (aligned : value % 4096 = 0) :
    value ||| pagePresent ||| pageWrite = value + 3 := by
  rw [Nat.or_assoc]
  exact kernelFlags_eq aligned

theorem initPagingLoop_spec (memory : Memory) {count : Nat} (fits : count ≤ 1024) {index : Nat}
    (inside : index < count) :
    (initPagingLoop memory count).load32 (wordAddress 0x9C index) = 0 ∧
      (initPagingLoop memory count).load32 (wordAddress 0x9D index) = 4096 * index + 3 ∧
      (initPagingLoop memory count).load32 (wordAddress 0x9E index) = 4096 * (1024 + index) + 3 := by
  induction count with
  | zero => exact absurd inside (Nat.not_lt_zero index)
  | succ count ih =>
    have bound : count < 1024 := fits
    have step : initPagingLoop memory (count + 1) =
        (((initPagingLoop memory count).store32 (wordAddress 0x9C count) 0).store32
          (wordAddress 0x9D count) (4096 * count + 3)).store32
          (wordAddress 0x9E count) (4096 * (1024 + count) + 3) := by
      have first : count * 0x1000 % 4096 = 0 := Nat.mul_mod_left _ _
      have second : (0x400000 + count * 0x1000) % 4096 = 0 := by omega
      simp only [initPagingLoop, tableFlags_eq first, tableFlags_eq second]
      congr 2
      · congr 1
        omega
      · omega
    rw [step]
    have small : index < 1024 := Nat.lt_of_lt_of_le inside fits
    by_cases last : index = count
    · subst last
      refine ⟨?_, ?_, load_store_word_self (by omega)⟩
      · rw [load_store_word small small (.inl (by decide)), load_store_word small small (.inl (by decide))]
        exact load_store_word_self (by decide)
      · rw [load_store_word small small (.inl (by decide))]
        exact load_store_word_self (by omega)
    · have other : index ≠ count := last
      obtain ⟨first, second, third⟩ := ih (Nat.le_of_lt bound) (by omega)
      refine ⟨?_, ?_, ?_⟩
      all_goals
        rw [load_store_word bound small (.inr other), load_store_word bound small (.inr other),
          load_store_word bound small (.inr other)]
      · exact first
      · exact second
      · exact third

private theorem initPagingLoop_untouched (memory : Memory) {count : Nat} (fits : count ≤ 1024)
    (above : 0x9F000 ≤ address) : initPagingLoop memory count address = memory address := by
  induction count with
  | zero => rfl
  | succ count ih =>
    simp only [initPagingLoop, pageDirectory, pageTableKernel, pageTableKernel2]
    rw [Memory.store32_of_outside (.inr (by omega)), Memory.store32_of_outside (.inr (by omega)),
      Memory.store32_of_outside (.inr (by omega))]
    exact ih (Nat.le_of_succ_le fits)

/-- What the kernel holds when its frame allocator and `init_paging` have run. -/
def pagingOn (memory : Memory) (base : Nat) : PagingState where
  memory := initPaging memory
  nextFreePage := base
  userHeapPtr := 0xE0000000

theorem pagingOn_untouched (memory : Memory) (base : Nat) (above : 0x9F000 ≤ address) :
    (pagingOn memory base).memory address = memory address := by
  simp only [pagingOn, initPaging, pageDirectory]
  rw [Memory.store32_of_outside (.inr (by omega)), Memory.store32_of_outside (.inr (by omega))]
  exact initPagingLoop_untouched memory (Nat.le_refl _) above

private theorem pagingOn_words (memory : Memory) (base : Nat) {frame index : Nat} (inside : index < 1024)
    (elsewhere : frame ≠ rootFrame ∨ 2 ≤ index) :
    (pagingOn memory base).memory.load32 (wordAddress frame index) =
      (initPagingLoop memory 1024).load32 (wordAddress frame index) := by
  have other : ∀ kernel, kernel < 2 → frame ≠ rootFrame ∨ index ≠ kernel := by
    intro kernel small
    cases elsewhere with
    | inl frame => exact .inl frame
    | inr index => exact .inr (Nat.ne_of_gt (Nat.lt_of_lt_of_le small index))
  have second := @load_store_word ((initPagingLoop memory 1024).store32 (wordAddress rootFrame 0)
    (pageTableKernel ||| pagePresent ||| pageWrite)) rootFrame 1
    (pageTableKernel2 ||| pagePresent ||| pageWrite) frame index (by decide) inside (other 1 (by decide))
  exact second.trans (load_store_word (by decide) inside (other 0 (by decide)))

theorem pagingOn_directory (memory : Memory) (base : Nat) {index : Nat} (inside : index < 1024) :
    (pagingOn memory base).directory index = if index < 2 then 4096 * (0x9D + index) + 3 else 0 := by
  by_cases kernel : index < 2
  · rw [if_pos kernel]
    by_cases second : index = 1
    · subst second
      exact load_store_word_self (by decide)
    · have first : index = 0 := by omega
      subst first
      have same := @load_store_word ((initPagingLoop memory 1024).store32 (wordAddress rootFrame 0)
        (pageTableKernel ||| pagePresent ||| pageWrite)) rootFrame 1
        (pageTableKernel2 ||| pagePresent ||| pageWrite) rootFrame 0 (by decide) (by decide) (.inr (by decide))
      exact same.trans (load_store_word_self (by decide))
  · rw [if_neg kernel]
    have same := @pagingOn_words memory base rootFrame index inside (.inr (Nat.not_lt.mp kernel))
    exact same.trans (initPagingLoop_spec memory (Nat.le_refl _) inside).1

theorem pagingOn_entry (memory : Memory) (base : Nat) (low : page < 2048) :
    (pagingOn memory base).entry page = 4096 * page + 3 := by
  have kernel : page / 1024 < 2 := by omega
  have table : (pagingOn memory base).table (page / 1024) = 0x9D + page / 1024 := by
    show frameOf ((pagingOn memory base).directory (page / 1024)) = _
    rw [pagingOn_directory memory base (by omega), if_pos kernel]
    unfold frameOf
    omega
  have place : (pagingOn memory base).entry page =
      (initPagingLoop memory 1024).load32 (wordAddress (0x9D + page / 1024) (page % 1024)) := by
    have apart : 0x9D + page / 1024 ≠ rootFrame := by
      unfold rootFrame
      omega
    rw [← pagingOn_words memory base (Nat.mod_lt _ (by decide)) (.inl apart), ← table]
    rfl
  obtain ⟨_, first, second⟩ :=
    @initPagingLoop_spec memory 1024 (Nat.le_refl _) (page % 1024) (Nat.mod_lt _ (by decide))
  rw [place]
  by_cases upper : page / 1024 = 1
  · rw [upper]
    apply second.trans
    omega
  · have lower : page / 1024 = 0 := by omega
    rw [lower]
    apply first.trans
    omega

theorem pagingOn_present (memory : Memory) (base : Nat) {index : Nat} (inside : index < 1024) :
    Present ((pagingOn memory base).directory index) ↔ index < 2 := by
  rw [pagingOn_directory memory base inside]
  by_cases kernel : index < 2
  · rw [if_pos kernel]
    apply iff_of_true _ kernel
    unfold Present
    omega
  · rw [if_neg kernel]
    exact iff_of_false (by decide) kernel

theorem pagingOn_map (memory : Memory) (start : 0x100000 ≤ base) (aligned : base % 4096 = 0) :
    PageMap base (pagingOn memory base) where
  start := start
  aligned := aligned
  grown := Nat.le_refl _
  kernelTables index kernel := by
    rw [pagingOn_directory memory base (by omega), if_pos kernel]
  tables index above inside present :=
    absurd ((pagingOn_present memory base inside).mp present) (Nat.not_lt.mpr above)
  distinct first second firstInside secondInside firstPresent secondPresent same := by
    have firstKernel := (pagingOn_present memory base firstInside).mp firstPresent
    have secondKernel := (pagingOn_present memory base secondInside).mp secondPresent
    have same : frameOf ((pagingOn memory base).directory first) =
      frameOf ((pagingOn memory base).directory second) := same
    rw [pagingOn_directory memory base firstInside, pagingOn_directory memory base secondInside,
      if_pos firstKernel, if_pos secondKernel] at same
    unfold frameOf at same
    omega
  identity page low := by
    rw [pagingOn_entry memory base low]
    unfold Present frameOf
    omega

/-- Nothing is mapped beyond the first 8 MiB, and memory from `base` on is untouched. -/
theorem pagingOn_freeFrames (memory : Memory) (start : 0x100000 ≤ base)
    (zero : ∀ address, base ≤ address → address < 0x800000 → memory address = 0) :
    FreeFrames (pagingOn memory base) := by
  constructor
  · intro address above low
    rw [pagingOn_untouched memory base (by have above : base ≤ address := above; omega)]
    exact zero address above low
  · intro page above fits translation found
    have absent : ¬Present ((pagingOn memory base).directory (page / 1024)) := by
      rw [pagingOn_present memory base (by omega)]
      omega
    rw [PagingState.translation, translate_of_absent absent] at found
    cases found

end ShedKernel.Paging
