import Mathlib.Data.List.GetD
import Mathlib.Data.List.Sort

/-! The maximal runs of a text: the stretches all of whose elements satisfy a predicate and
that no such stretch extends. A run is given by its start and its length. -/

set_option autoImplicit false

namespace ShedKernel.Foundation

section

variable {α : Type} (inside : α → Bool) (text : List α)

/-- There is an element at the index, and it satisfies the predicate. -/
def insideAt (index : Nat) : Bool := text[index]?.any inside

structure MaximalRun (start length : Nat) : Prop where
  nonempty : 0 < length
  within : ∀ index, start ≤ index → index < start + length → insideAt inside text index = true
  before : start = 0 ∨ insideAt inside text (start - 1) = false
  after : insideAt inside text (start + length) = false

/-- All the maximal runs that begin in front of `stop`, from left to right. -/
structure RunsBefore (stop : Nat) (runs : List (Nat × Nat)) : Prop where
  sorted : runs.Pairwise fun left right => left.1 < right.1
  complete : ∀ run, run ∈ runs ↔ MaximalRun inside text run.1 run.2 ∧ run.1 < stop

/-- All the maximal runs, from left to right. -/
structure AreRuns (runs : List (Nat × Nat)) : Prop where
  sorted : runs.Pairwise fun left right => left.1 < right.1
  complete : ∀ run, run ∈ runs ↔ MaximalRun inside text run.1 run.2

/-- A run begins at the index. -/
def beginsRun (index : Nat) : Bool :=
  insideAt inside text index && (index == 0 || !insideAt inside text (index - 1))

def maximalRuns : List (Nat × Nat) :=
  ((List.range text.length).filter (beginsRun inside text)).map fun start =>
    (start, ((text.drop start).takeWhile inside).length)

end

variable {α : Type} {inside : α → Bool} {text : List α} {index start length stop : Nat} {runs : List (Nat × Nat)}

theorem insideAt_eq (bounded : index < text.length) (default : α) :
    insideAt inside text index = inside (text.getD index default) := by
  rw [insideAt, List.getElem?_eq_getElem bounded, List.getD_eq_getElem _ _ bounded]
  rfl

theorem insideAt_beyond (beyond : text.length ≤ index) : insideAt inside text index = false := by
  rw [insideAt, List.getElem?_eq_none beyond]
  rfl

theorem lt_of_insideAt (isInside : insideAt inside text index = true) : index < text.length := by
  apply Nat.lt_of_not_le
  intro beyond
  rw [insideAt_beyond beyond] at isInside
  cases isInside

namespace MaximalRun

theorem first (run : MaximalRun inside text start length) : insideAt inside text start = true :=
  run.within start (Nat.le_refl _) (Nat.lt_add_of_pos_right run.nonempty)

theorem bounded (run : MaximalRun inside text start length) : start + length ≤ text.length := by
  have nonempty := run.nonempty
  have last := lt_of_insideAt (run.within (start + length - 1) (by omega) (by omega))
  omega

theorem length_le {other : Nat} (run : MaximalRun inside text start length)
    (also : MaximalRun inside text start other) : length ≤ other := by
  apply Nat.le_of_not_lt
  intro longer
  have extended := run.within (start + other) (by omega) (by omega)
  rw [also.after] at extended
  cases extended

theorem length_unique {other : Nat} (run : MaximalRun inside text start length)
    (also : MaximalRun inside text start other) : length = other :=
  Nat.le_antisymm (run.length_le also) (also.length_le run)

/-- A run does not reach over an element outside. -/
theorem ends_before (run : MaximalRun inside text start length) (earlier : start < stop)
    (boundary : insideAt inside text (stop - 1) = false) : start + length < stop := by
  apply Nat.lt_of_not_le
  intro reaches
  have isInside := run.within (stop - 1) (by omega) (by omega)
  rw [boundary] at isInside
  cases isInside

end MaximalRun

namespace RunsBefore

theorem zero : RunsBefore inside text 0 [] :=
  ⟨.nil, fun _ => ⟨fun member => absurd member List.not_mem_nil, fun both => absurd both.2 (Nat.not_lt_zero _)⟩⟩

theorem skip {next : Nat} (before : RunsBefore inside text stop runs) (further : stop ≤ next)
    (outside : ∀ index, stop ≤ index → index < next → insideAt inside text index = false) :
    RunsBefore inside text next runs := by
  refine ⟨before.sorted, fun run => (before.complete run).trans ?_⟩
  constructor
  · exact fun both => ⟨both.1, Nat.lt_of_lt_of_le both.2 further⟩
  · rintro ⟨maximal, earlier⟩
    refine ⟨maximal, Nat.lt_of_not_le fun later => ?_⟩
    have first := maximal.first
    rw [outside run.1 later earlier] at first
    cases first

/-- The run that begins at `stop` and ends in front of `next`. -/
theorem snoc {next : Nat} (before : RunsBefore inside text stop runs) (nonempty : stop < next)
    (boundary : stop = 0 ∨ insideAt inside text (stop - 1) = false)
    (run : ∀ index, stop ≤ index → index < next → insideAt inside text index = true)
    (after : insideAt inside text next = false) :
    RunsBefore inside text (next + 1) (runs ++ [(stop, next - stop)]) := by
  have maximal : MaximalRun inside text stop (next - stop) :=
    ⟨by omega, fun index low high => run index low (by omega), boundary,
      by rwa [Nat.add_sub_cancel' (Nat.le_of_lt nonempty)]⟩
  refine ⟨?_, fun other => ?_⟩
  · rw [List.pairwise_append]
    refine ⟨before.sorted, List.pairwise_singleton .., fun left member right last => ?_⟩
    rw [List.mem_singleton.mp last]
    exact ((before.complete left).mp member).2
  · rw [List.mem_append, List.mem_singleton, before.complete]
    constructor
    · rintro (⟨earlier, inFront⟩ | rfl)
      · exact ⟨earlier, by omega⟩
      · exact ⟨maximal, Nat.lt_succ_of_lt nonempty⟩
    · rintro ⟨found, inFront⟩
      rcases Nat.lt_trichotomy other.1 stop with earlier | here | later
      · exact .inl ⟨found, earlier⟩
      · refine .inr ?_
        obtain ⟨first, size⟩ := other
        simp only at here found
        subst here
        rw [found.length_unique maximal]
      · -- it would begin behind an element inside, or at one outside
        have first := found.first
        by_cases last : other.1 = next
        · rw [last, after] at first
          cases first
        · have previous := run (other.1 - 1) (by omega) (by omega)
          have outside := found.before.resolve_left (by omega)
          rw [outside] at previous
          cases previous

theorem all (before : RunsBefore inside text stop runs) (whole : text.length ≤ stop) : AreRuns inside text runs := by
  refine ⟨before.sorted, fun run => (before.complete run).trans ⟨And.left, fun maximal => ⟨maximal, ?_⟩⟩⟩
  have first := lt_of_insideAt maximal.first
  omega

end RunsBefore

/-! The runs computed. -/

theorem takeWhile_insideAt (inside : α → Bool) (text : List α) :
    (∀ index, index < (text.takeWhile inside).length → insideAt inside text index = true) ∧
      insideAt inside text (text.takeWhile inside).length = false := by
  induction text with
  | nil => exact ⟨fun index low => absurd low (Nat.not_lt_zero _), rfl⟩
  | cons c rest ih =>
      by_cases first : inside c = true
      · rw [List.takeWhile_cons_of_pos first]
        refine ⟨fun index low => ?_, ih.2⟩
        cases index with
        | zero => exact first
        | succ index => exact ih.1 index (Nat.lt_of_succ_lt_succ low)
      · rw [List.takeWhile_cons_of_neg first]
        exact ⟨fun index low => absurd low (Nat.not_lt_zero _), Bool.eq_false_of_not_eq_true first⟩

theorem insideAt_drop (inside : α → Bool) (text : List α) (start index : Nat) :
    insideAt inside (text.drop start) index = insideAt inside text (start + index) := by
  rw [insideAt, insideAt, List.getElem?_drop]

/-- The stretch from `start` on that `takeWhile` takes. -/
theorem takeWhile_drop_insideAt (inside : α → Bool) (text : List α) (start : Nat) :
    (∀ index, start ≤ index → index < start + ((text.drop start).takeWhile inside).length →
        insideAt inside text index = true) ∧
      insideAt inside text (start + ((text.drop start).takeWhile inside).length) = false := by
  obtain ⟨taken, behind⟩ := takeWhile_insideAt inside (text.drop start)
  rw [insideAt_drop] at behind
  refine ⟨fun index low high => ?_, behind⟩
  have satisfied := taken (index - start) (by omega)
  rwa [insideAt_drop, Nat.add_sub_cancel' low] at satisfied

theorem beginsRun_iff : beginsRun inside text start = true ↔
    insideAt inside text start = true ∧ (start = 0 ∨ insideAt inside text (start - 1) = false) := by
  simp [beginsRun]

theorem takeWhile_maximalRun (first : insideAt inside text start = true)
    (boundary : start = 0 ∨ insideAt inside text (start - 1) = false) :
    MaximalRun inside text start ((text.drop start).takeWhile inside).length := by
  obtain ⟨taken, behind⟩ := takeWhile_drop_insideAt inside text start
  refine ⟨Nat.pos_of_ne_zero fun empty => ?_, taken, boundary, behind⟩
  rw [empty, Nat.add_zero, first] at behind
  cases behind

theorem maximalRuns_areRuns (inside : α → Bool) (text : List α) : AreRuns inside text (maximalRuns inside text) := by
  constructor
  · rw [maximalRuns, List.pairwise_map]
    exact List.pairwise_lt_range.filter _
  · intro run
    simp only [maximalRuns, List.mem_map, List.mem_filter, List.mem_range, beginsRun_iff]
    constructor
    · rintro ⟨start, ⟨_, first, boundary⟩, rfl⟩
      exact takeWhile_maximalRun first boundary
    · intro maximal
      have first := maximal.first
      have computed := takeWhile_maximalRun first maximal.before
      exact ⟨run.1, ⟨lt_of_insideAt first, first, maximal.before⟩, by rw [computed.length_unique maximal]⟩

theorem AreRuns.unique {other : List (Nat × Nat)} (all : AreRuns inside text runs) (also : AreRuns inside text other) :
    runs = other := by
  have irreflexive : Std.Irrefl fun left right : Nat × Nat => left.1 < right.1 := ⟨fun _ => Nat.lt_irrefl _⟩
  have antisymmetric : Std.Antisymm fun left right : Nat × Nat => left.1 < right.1 :=
    ⟨fun _ _ first second => absurd second (Nat.lt_asymm first)⟩
  exact all.sorted.eq_of_mem_iff also.sorted fun run => (all.complete run).trans (also.complete run).symm

theorem RunsBefore.length_le {all : List (Nat × Nat)} (before : RunsBefore inside text stop runs)
    (areRuns : AreRuns inside text all) : runs.length ≤ all.length := by
  have irreflexive : Std.Irrefl fun left right : Nat × Nat => left.1 < right.1 := ⟨fun _ => Nat.lt_irrefl _⟩
  refine (List.subperm_of_subset before.sorted.nodup fun run member => ?_).length_le
  exact (areRuns.complete run).mpr ((before.complete run).mp member).1

end ShedKernel.Foundation
