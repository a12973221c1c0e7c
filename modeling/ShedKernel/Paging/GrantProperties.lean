import ShedKernel.Paging.FrameProperties
import ShedKernel.Paging.SbrkProperties

/-! The frames that one call of `sbrk` puts into use: those of its pages and those of
its new tables, in the order of the allocator. -/

set_option autoImplicit false

namespace ShedKernel.Paging

open Foundation PageTable

/-- `Progress`, with the frames behind the pages mapped and the tables created so far. -/
structure Granting (base : Nat) (start : PagingState) (first done : Nat) (s : PagingState) : Prop where
  progress : Progress base start first done s
  granted : ∀ turn, turn < done →
    start.nextFreePage + 4096 * framesTaken start first turn < physMemEnd →
    ∃ translation, s.translation (first + turn) = some translation ∧
      4096 * translation.frame = start.nextFreePage + 4096 * framesTaken start first turn ∧
      ((Present (start.directory ((first + turn) / 1024)) →
        User (start.directory ((first + turn) / 1024))) → translation.user = true)
  tables : ∀ index, index < 1024 → ¬Present (start.directory index) → Present (s.directory index) →
    User (s.directory index) ∧ ∃ turn, turn < done ∧ TableDue start first (first + turn) ∧
      4096 * s.table index = start.nextFreePage + 4096 * framesTaken start first turn + 4096
  free : FreeFrames start → FreeFrames s
  empty : FreeFrames start → ∀ page, page < 1048576 → ¬Present (start.directory (page / 1024)) →
    (∀ turn, turn < done → first + turn ≠ page) → s.translation page = none

variable {base first done : Nat} {start s next : PagingState}

theorem Granting.zero (map : PageMap base start) : Granting base start first 0 start where
  progress := .zero map
  granted _ never := absurd never (Nat.not_lt_zero _)
  tables _ _ absent present := absurd present absent
  free := id
  empty _ _ _ absent _ := translate_of_absent absent

/-- The page just mapped gets the frame just handed out. -/
theorem translation_handedOut {page : Nat} (map : PageMap base s)
    (mapped : Mapped 7 s.allocated next page (s.handedOut + 7)) :
    ∃ translation, next.translation page = some translation ∧ 4096 * translation.frame = s.handedOut ∧
      (User (next.directory (page / 1024)) → translation.user = true) := by
  have aligned := (handedOut_aligned map.aligned).1
  have entry : pageEntry next.memory rootFrame page = s.handedOut + 7 := mapped.entry
  have present : Present (s.handedOut + 7) := by
    unfold Present
    omega
  have user : User (s.handedOut + 7) := by
    unfold User
    omega
  refine ⟨_, if_pos ⟨mapped.present, entry ▸ present⟩, ?_, ?_⟩
  · show 4096 * frameOf (pageEntry next.memory rootFrame page) = s.handedOut
    rw [entry]
    unfold frameOf
    omega
  · intro granted
    exact decide_eq_true ⟨granted, entry ▸ user⟩

namespace Granting

section Turn

variable (grants : Granting base start first done s) (ready : Ready s (first + done))
  (mapped : Mapped 7 s.allocated next (first + done) (s.handedOut + 7))

include grants mapped

theorem newTable (absent : ¬Present (s.directory ((first + done) / 1024))) :
    next.directory ((first + done) / 1024) = s.allocated.nextFreePage + 7 ∧
      User (next.directory ((first + done) / 1024)) := by
  have aligned := grants.progress.map.allocated.aligned
  rw [← allocated_directory s] at absent
  have entry := (mapped.newTable absent).1
  refine ⟨entry, ?_⟩
  rw [entry]
  unfold User
  omega

private theorem granted_here (fits : first + done < 1048576)
    (unspent : start.nextFreePage + 4096 * framesTaken start first done < physMemEnd) :
    ∃ translation, next.translation (first + done) = some translation ∧
      4096 * translation.frame = start.nextFreePage + 4096 * framesTaken start first done ∧
      ((Present (start.directory ((first + done) / 1024)) →
        User (start.directory ((first + done) / 1024))) → translation.user = true) := by
  have inside : (first + done) / 1024 < 1024 := by omega
  have exact := grants.progress.frames.resolve_right fun capped =>
    absurd capped.2 (Nat.not_le.mpr unspent)
  obtain ⟨translation, found, frame, user⟩ := translation_handedOut grants.progress.map mapped
  refine ⟨translation, found, ?_, ?_⟩
  · rw [frame, (handedOut_available (exact ▸ unspent)).1, exact]
  · intro granted
    apply user
    by_cases present : Present (s.directory ((first + done) / 1024))
    · rw [directory_mapNewFrame mapped inside (.inr present)]
      by_cases before : Present (start.directory ((first + done) / 1024))
      · rw [grants.progress.directories _ inside before]
        exact granted before
      · exact (grants.tables _ inside before present).1
    · exact (grants.newTable mapped present).2

include ready

/-- The frame of a table that this turn creates comes right behind that of its page. -/
theorem table_here (absent : ¬Present (s.directory ((first + done) / 1024))) :
    4096 * next.table ((first + done) / 1024) =
      start.nextFreePage + 4096 * framesTaken start first done + 4096 := by
  have low := ready.resolve_left absent
  have exact := grants.progress.frames.resolve_right fun capped => by
    have ended := capped.1
    unfold physMemEnd at ended
    omega
  have aligned := grants.progress.map.aligned
  show 4096 * frameOf (next.directory ((first + done) / 1024)) = _
  rw [(grants.newTable mapped absent).1, allocated_nextFreePage low, ← exact]
  unfold frameOf
  omega

private theorem tables_next (fits : first + done < 1048576) {index : Nat} (bound : index < 1024)
    (absent : ¬Present (start.directory index)) (present : Present (next.directory index)) :
    User (next.directory index) ∧
      ∃ turn, turn < done + 1 ∧ TableDue start first (first + turn) ∧
        4096 * next.table index = start.nextFreePage + 4096 * framesTaken start first turn + 4096 := by
  by_cases earlier : Present (s.directory index)
  · obtain ⟨user, turn, before, due, table⟩ := grants.tables index bound absent earlier
    have same := directory_mapNewFrame mapped bound (.inr earlier)
    have sameTable : next.table index = s.table index := congrArg frameOf same
    rw [same, sameTable]
    exact ⟨user, turn, Nat.lt_succ_of_lt before, due, table⟩
  · have here : index = (first + done) / 1024 := by
      by_cases here : index = (first + done) / 1024
      · exact here
      · rw [directory_mapNewFrame mapped bound (.inl here)] at present
        exact absurd present earlier
    subst here
    exact ⟨(grants.newTable mapped earlier).2, done, Nat.lt_succ_self done,
      grants.progress.due fits earlier, grants.table_here ready mapped earlier⟩

private theorem empty_next (free : FreeFrames start) {page : Nat} (bound : page < 1048576)
    (absent : ¬Present (start.directory (page / 1024)))
    (outside : ∀ turn, turn < done + 1 → first + turn ≠ page) : next.translation page = none := by
  have different : page ≠ first + done := (outside done (Nat.lt_succ_self done)).symm
  by_cases present : Present (s.directory (page / 1024))
  · rw [translation_mapNewFrame_of_present mapped bound different present]
    exact grants.empty free page bound absent fun turn earlier =>
      outside turn (Nat.lt_succ_of_lt earlier)
  · have absentNow : ¬Present (s.allocated.directory (page / 1024)) := by
      rw [allocated_directory]
      exact present
    apply mapped.translation_of_absent grants.progress.map.allocated (grants.free free).allocated bound
      different absentNow
    intro own
    have low := ready.resolve_left (own ▸ present)
    rw [allocated_nextFreePage low]
    exact low

theorem step (fits : first + done < 1048576) (map : PageMap base next) :
    Granting base start first (done + 1) next where
  progress := grants.progress.step fits ready map mapped
  granted := by
    intro turn earlier unspent
    cases Nat.lt_succ_iff_lt_or_eq.mp earlier with
    | inl earlier =>
      obtain ⟨translation, found, frame, user⟩ := grants.granted turn earlier unspent
      refine ⟨translation, ?_, frame, user⟩
      rw [translation_mapNewFrame_of_present mapped (by omega) (by omega) (translate_eq_some found).1]
      exact found
    | inr last =>
      subst last
      exact grants.granted_here mapped fits unspent
  tables _ bound absent present := grants.tables_next ready mapped fits bound absent present
  free free := freeFrames_mapNewFrame grants.progress.map map fits mapped ready (grants.free free)
  empty free _ bound absent outside := grants.empty_next ready mapped free bound absent outside

end Turn

end Granting

theorem sbrk_grants {increment : Nat} (map : PageMap base start) (heap : start.userHeapPtr < 4294967296)
    (orderly : Orderly start increment)
    (above : ∀ done, done < pageCount start increment → 2048 ≤ firstPage start + done) :
    ∃ final, sbrk start increment =
        .ok (start.userHeapPtr, { final with userHeapPtr := newBreak start increment }) ∧
      Granting base start (firstPage start) (pageCount start increment) final := by
  apply sbrk_rule heap orderly.ends (.zero map)
  intro done current within fits grants
  have ready := grants.progress.ready fits (orderly.tables done within)
  obtain ⟨next, ran, nextMap, mapped⟩ := mapNewFrame_spec grants.progress.map fits (above done within) ready
  exact ⟨next, ran, grants.step ready mapped fits nextMap⟩

end ShedKernel.Paging
