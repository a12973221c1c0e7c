import ShedKernel.Paging.MapProperties

/-! `sbrk`: the calls whose loop ends with every table in the first 8 MiB, and what
they leave behind. -/

set_option autoImplicit false

namespace ShedKernel.Paging

open Foundation PageTable

def firstPage (s : PagingState) : Nat := s.userHeapPtr / 4096

def newBreak (s : PagingState) (increment : Nat) : Nat := add32 s.userHeapPtr increment

/-- The number of pages from the old break's page up to the new break. -/
def pageCount (s : PagingState) (increment : Nat) : Nat :=
  (newBreak s increment + 4095) / 4096 - firstPage s

/-- The loop that starts at `first` finds no table when it comes to `page`. -/
def TableDue (s : PagingState) (first page : Nat) : Prop :=
  ¬Present (s.directory (page / 1024)) ∧ (page = first ∨ page % 1024 = 0)

instance (s : PagingState) (first page : Nat) : Decidable (TableDue s first page) :=
  inferInstanceAs (Decidable (_ ∧ _))

/-- The frames that the first turns of the loop take, one for each page and one for each
new table. -/
def framesTaken (s : PagingState) (first : Nat) : Nat → Nat
  | 0 => 0
  | done + 1 => framesTaken s first done + 1 + if TableDue s first (first + done) then 1 else 0

/-- The loop ends, and each table it creates gets a frame below 8 MiB. -/
structure Orderly (s : PagingState) (increment : Nat) : Prop where
  ends : pageCount s increment = 0 ∨ newBreak s increment ≤ 0xFFFFF000
  tables : ∀ done, done < pageCount s increment → TableDue s (firstPage s) (firstPage s + done) →
    s.nextFreePage + 4096 * framesTaken s (firstPage s) done + 4096 < 0x800000

/-- What the first `done` turns of the loop have made of `start`. -/
structure Progress (base : Nat) (start : PagingState) (first done : Nat) (s : PagingState) : Prop where
  map : PageMap base s
  directories : ∀ index, index < 1024 → Present (start.directory index) →
    s.directory index = start.directory index
  created : ∀ index, index < 1024 → ¬Present (start.directory index) →
    (Present (s.directory index) ↔ ∃ turn, turn < done ∧ (first + turn) / 1024 = index)
  entries : ∀ page, page < 1048576 → Present (start.directory (page / 1024)) →
    (∀ turn, turn < done → first + turn ≠ page) → s.entry page = start.entry page
  frames : s.nextFreePage = start.nextFreePage + 4096 * framesTaken start first done ∨
    physMemEnd ≤ s.nextFreePage ∧
      physMemEnd ≤ start.nextFreePage + 4096 * framesTaken start first done
  heap : s.userHeapPtr = start.userHeapPtr
  untouched : ∀ address, address / 4096 ≠ rootFrame →
    (∀ index, index < 1024 → Present (s.directory index) → s.table index ≠ address / 4096) →
    s.memory address = start.memory address

variable {base first done : Nat} {start s : PagingState}

theorem Progress.zero (map : PageMap base start) : Progress base start first 0 start where
  map := map
  directories _ _ _ := rfl
  created _ _ absent := iff_of_false absent fun created => Nat.not_lt_zero _ created.choose_spec.1
  entries _ _ _ _ := rfl
  frames := .inl rfl
  heap := rfl
  untouched _ _ _ := rfl

namespace Progress

/-- A page whose table is missing is where the loop creates one. -/
theorem due (progress : Progress base start first done s) (fits : first + done < 1048576)
    (absent : ¬Present (s.directory ((first + done) / 1024))) : TableDue start first (first + done) := by
  have inside : (first + done) / 1024 < 1024 := by omega
  have before : ¬Present (start.directory ((first + done) / 1024)) := by
    intro present
    rw [progress.directories _ inside present] at absent
    exact absent present
  refine ⟨before, ?_⟩
  cases Decidable.em (first + done = first ∨ (first + done) % 1024 = 0) with
  | inl either => exact either
  | inr neither =>
    have earlier : Present (s.directory ((first + done) / 1024)) :=
      (progress.created _ inside before).mpr ⟨done - 1, by omega, by omega⟩
    exact absurd earlier absent

private theorem not_due (progress : Progress base start first done s) (fits : first + done < 1048576)
    (present : Present (s.directory ((first + done) / 1024))) : ¬TableDue start first (first + done) := by
  intro due
  obtain ⟨turn, earlier, same⟩ := (progress.created _ (by omega) due.1).mp present
  have here := due.2
  omega

theorem ready (progress : Progress base start first done s) (fits : first + done < 1048576)
    (low : TableDue start first (first + done) →
      start.nextFreePage + 4096 * framesTaken start first done + 4096 < 0x800000) :
    Ready s (first + done) := by
  by_cases present : Present (s.directory ((first + done) / 1024))
  · exact .inl present
  · right
    have bound := low (progress.due fits present)
    cases progress.frames with
    | inl frames => omega
    | inr capped =>
      have ended := capped.2
      unfold physMemEnd at ended
      omega

theorem step {next : PagingState} (progress : Progress base start first done s)
    (fits : first + done < 1048576) (ready : Ready s (first + done)) (map : PageMap base next)
    (mapped : Mapped 7 s.allocated next (first + done) (s.handedOut + 7)) :
    Progress base start first (done + 1) next := by
  have inside : (first + done) / 1024 < 1024 := by omega
  have directories := mapped.directories
  simp only [allocated_directory] at directories
  constructor
  · exact map
  · intro index bound present
    have same := progress.directories index bound present
    rw [directories index bound (.inr (same ▸ present)), same]
  · intro index bound absent
    by_cases here : index = (first + done) / 1024
    · exact iff_of_true (here ▸ mapped.present) ⟨done, Nat.lt_succ_self done, here.symm⟩
    · rw [directories index bound (.inl here), progress.created index bound absent]
      constructor
      · intro ⟨turn, earlier, same⟩
        exact ⟨turn, Nat.lt_succ_of_lt earlier, same⟩
      · intro ⟨turn, earlier, same⟩
        cases Nat.lt_succ_iff_lt_or_eq.mp earlier with
        | inl earlier => exact ⟨turn, earlier, same⟩
        | inr last => exact absurd (last ▸ same).symm here
  · intro page bound present outside
    have earlier := progress.entries page bound present fun turn before =>
      outside turn (Nat.lt_succ_of_lt before)
    have stillPresent : Present (s.allocated.directory (page / 1024)) := by
      rw [allocated_directory, progress.directories _ (by omega) present]
      exact present
    rw [mapped.entries page bound (Ne.symm (outside done (Nat.lt_succ_self done))) stillPresent,
      allocated_entry, earlier]
  · have taken : framesTaken start first (done + 1) = framesTaken start first done + 1 +
        if TableDue start first (first + done) then 1 else 0 := rfl
    have advanced := mapped.nextFree
    rw [allocated_directory] at advanced
    cases Nat.lt_or_ge s.nextFreePage physMemEnd with
    | inl available =>
      left
      have exact := progress.frames.resolve_right fun capped =>
        absurd capped.1 (Nat.not_le.mpr available)
      rw [(handedOut_available available).2] at advanced
      by_cases present : Present (s.directory ((first + done) / 1024))
      · simp only [if_pos present, Nat.add_zero] at advanced
        simp only [if_neg (progress.not_due fits present), Nat.add_zero] at taken
        rw [advanced, taken, exact, Nat.mul_add_one, ← Nat.add_assoc]
      · simp only [if_neg present] at advanced
        simp only [if_pos (progress.due fits present)] at taken
        rw [advanced, taken, exact, Nat.mul_add_one, Nat.mul_add_one, ← Nat.add_assoc, ← Nat.add_assoc]
    | inr exhausted =>
      right
      rw [(handedOut_exhausted exhausted).2] at advanced
      have present : Present (s.directory ((first + done) / 1024)) :=
        ready.resolve_right fun low => by
          unfold physMemEnd at exhausted
          omega
      rw [if_pos present] at advanced
      have before : physMemEnd ≤ start.nextFreePage + 4096 * framesTaken start first done := by
        cases progress.frames with
        | inl frames => exact frames ▸ exhausted
        | inr capped => exact capped.2
      have more : framesTaken start first done ≤ framesTaken start first (done + 1) := by
        rw [taken]
        exact Nat.le_trans (Nat.le_add_right _ 1) (Nat.le_add_right _ _)
      refine ⟨advanced ▸ exhausted, Nat.le_trans before ?_⟩
      exact Nat.add_le_add_left (Nat.mul_le_mul_left 4096 more) _
  · rw [mapped.heap, allocated_userHeapPtr, progress.heap]
  · intro address notRoot elsewhere
    have own := elsewhere _ inside mapped.present
    rw [mapped.untouched address notRoot (Ne.symm own), allocated_memory]
    apply progress.untouched address notRoot
    intro index bound present
    have same := directories index bound (.inr present)
    have kept : next.table index = s.table index := congrArg frameOf same
    rw [← kept]
    exact elsewhere index bound (same ▸ present)

end Progress

/-! Whole calls. -/

section Calls

variable {increment : Nat}

/-- The rule of `sbrk`: what each turn of an orderly call carries on holds at its end. -/
theorem sbrk_rule {holds : Nat → PagingState → Prop} (heap : start.userHeapPtr < 4294967296)
    (ends : pageCount start increment = 0 ∨ newBreak start increment ≤ 0xFFFFF000)
    (initial : holds 0 start)
    (step : ∀ done current, done < pageCount start increment → firstPage start + done < 1048576 →
      holds done current →
      ∃ next, mapNewFrame current (4096 * (firstPage start + done)) = .ok next ∧ holds (done + 1) next) :
    ∃ final, sbrk start increment =
        .ok (start.userHeapPtr, { final with userHeapPtr := newBreak start increment }) ∧
      holds (pageCount start increment) final := by
  have small : newBreak start increment < 4294967296 := add32_lt _ _
  have total : pageCount start increment = (newBreak start increment + 4095) / 4096 - firstPage start := rfl
  have first : firstPage start = start.userHeapPtr / 4096 := rfl
  have fits : firstPage start + pageCount start increment < 1048576 := by omega
  obtain ⟨final, looped, held⟩ := @pageLoop_rule start mapNewFrame (newBreak start increment)
    (firstPage start) (pageCount start increment) enoughTurns holds (fun done within => by omega) (by omega)
    fits (by unfold enoughTurns; omega) initial fun done current within reached =>
      step done current within (by omega) reached
  refine ⟨final, ?_, held⟩
  have aligned : pageAlign start.userHeapPtr = 4096 * firstPage start := Nat.mul_comm _ _
  have looped : pageLoop mapNewFrame (add32 start.userHeapPtr increment) enoughTurns start
      (4096 * firstPage start) = .ok final := looped
  simp only [sbrk, aligned, looped, bind, Except.bind, pure, Except.pure]
  rfl

end Calls

end ShedKernel.Paging
