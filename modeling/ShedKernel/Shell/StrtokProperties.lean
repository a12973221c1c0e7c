import ShedKernel.Foundation.MaximalRuns
import ShedKernel.Shell.Lines

/-! `strtok` on a line: call after call cuts the maximal runs of bytes that are no delimiters. -/

set_option autoImplicit false

namespace ShedKernel.Shell

open Foundation Heap

variable {memory : Memory} {text : List UInt8} {line index : Nat}

/-! One call. -/

/-- The first byte from `p` on that is NUL or not skipped. -/
theorem skipWhile_finds (skips : UInt8 → Bool) {turns p stop : Nat} (terminated : memory stop = 0)
    (low : p ≤ stop) (high : stop < 4294967296) (enough : stop - p < turns) :
    ∃ q, skipWhile skips memory turns p = some q ∧ p ≤ q ∧ q ≤ stop ∧
      (memory q = 0 ∨ skips (memory q) = false) ∧
      ∀ place, p ≤ place → place < q → memory place ≠ 0 ∧ skips (memory place) = true := by
  induction turns generalizing p with
  | zero => omega
  | succ turns ih =>
      unfold skipWhile
      split
      · next moves =>
          have inside : p ≠ stop := by
            rintro rfl
            exact moves.1 terminated
          have next : add32 p 1 = p + 1 := add32_of_lt (by omega)
          rw [next]
          have further : p + 1 ≤ stop := by omega
          obtain ⟨q, found, after, before, stopped, skipped⟩ := ih further (by omega)
          refine ⟨q, found, by omega, before, stopped, ?_⟩
          intro place above below
          by_cases here : place = p
          · rw [here]
            exact moves
          · exact skipped place (by omega) below
      · next stays =>
          refine ⟨p, rfl, Nat.le_refl p, low, ?_, ?_⟩
          · apply Classical.byContradiction
            intro neither
            simp only [not_or, Bool.not_eq_false] at neither
            exact stays neither
          · intro place above below
            omega

/-- A byte of a token: no blank, tab, carriage return, line feed or bell. -/
def isWord (c : UInt8) : Bool := c ∉ ([0x20, 0x09, 0x0D, 0x0A, 0x07] : List UInt8)

theorem isWord_eq (c : UInt8) : isWord c = !isDelim c := by
  have delims : literal " \t\r\n" ++ [7] = [0x20, 0x09, 0x0D, 0x0A, 0x07] := by decide
  rw [isWord, isDelim, delims, List.contains_eq_mem, decide_not]

/-- `___strtok` where it has come to an index of the line; it is null behind the end. -/
def resumeAt (line length index : Nat) : Nat := if index ≤ length then line + index else nullPointer

/-- From an index on, the line still holds its text. -/
def Ahead (memory : Memory) (line : Nat) (text : List UInt8) (index : Nat) : Prop :=
  ∀ place, index ≤ place → place ≤ text.length → memory (line + place) = text.getD place 0

theorem ahead_of_holdsString (holds : memory.HoldsString line text) : Ahead memory line text 0 := by
  obtain ⟨_, bytes, last⟩ := Memory.HoldsString.bytes_iff.mp holds
  intro place _ high
  by_cases ended : place = text.length
  · rw [ended, last, List.getD_eq_default _ _ (Nat.le_refl _)]
  · exact bytes place (by omega)

private theorem Ahead.eq_zero_iff (ahead : Ahead memory line text index) (proper : 0 ∉ text) {place : Nat}
    (low : index ≤ place) (high : place ≤ text.length) : memory (line + place) = 0 ↔ place = text.length := by
  rw [ahead place low high]
  constructor
  · intro zero
    apply Nat.le_antisymm high
    apply Nat.le_of_not_lt
    intro inside
    rw [List.getD_eq_getElem _ _ inside] at zero
    exact proper (zero ▸ List.getElem_mem inside)
  · rintro rfl
    exact List.getD_eq_default _ _ (Nat.le_refl _)

theorem Ahead.insideAt_eq (ahead : Ahead memory line text index) {place : Nat} (low : index ≤ place)
    (high : place < text.length) : insideAt isWord text place = !isDelim (memory (line + place)) := by
  rw [Foundation.insideAt_eq high 0, ahead place low (Nat.le_of_lt high), isWord_eq]

/-- A loop of `strtok` from an index on stops at the first byte that it does not skip. -/
theorem Ahead.skipWhile (ahead : Ahead memory line text index) (proper : 0 ∉ text) (inLine : index ≤ text.length)
    (high : line + text.length < 4294967296) (skips : UInt8 → Bool) :
    ∃ stop, Shell.skipWhile skips memory addressSpace (line + index) = some (line + stop) ∧ index ≤ stop ∧
      stop ≤ text.length ∧ (stop < text.length → skips (memory (line + stop)) = false) ∧
      ∀ place, index ≤ place → place < stop → skips (memory (line + place)) = true := by
  have last : memory (line + text.length) = 0 := (ahead.eq_zero_iff proper inLine (Nat.le_refl _)).mpr rfl
  have enough : line + text.length - (line + index) < addressSpace := by
    unfold addressSpace
    omega
  obtain ⟨place, found, low, bounded, stopped, skipped⟩ :=
    skipWhile_finds skips last (Nat.add_le_add_left inLine line) high enough
  have offset : line + (place - line) = place := by omega
  refine ⟨place - line, by rw [offset]; exact found, by omega, by omega, fun inside => ?_, fun other lower upper => ?_⟩
  · rw [offset]
    refine stopped.resolve_left fun zero => ?_
    have ended : place - line = text.length :=
      (ahead.eq_zero_iff proper (by omega) (by omega)).mp (by rwa [offset])
    omega
  · exact (skipped (line + other) (by omega) (by omega)).2

/-- At the end of the line there is nothing to store. -/
theorem Ahead.storeByte_end (ahead : Ahead memory line text index) (inLine : index ≤ text.length) :
    memory.storeByte (line + text.length) 0 = memory := by
  have zero := ahead text.length inLine (Nat.le_refl _)
  rw [List.getD_eq_default _ _ (Nat.le_refl _)] at zero
  funext other
  unfold Memory.storeByte
  split
  · next here => rw [here, zero]
  · rfl

/-- The end of `strtok` behind a token. -/
theorem Ahead.cut (ahead : Ahead memory line text index) (proper : 0 ∉ text) {token stop : Nat}
    (low : index ≤ stop) (inLine : stop ≤ text.length) (high : line + text.length < 4294967296) :
    (if memory (line + stop) ≠ 0 then pure (token, add32 (line + stop) 1, memory.storeByte (line + stop) 0)
      else pure (token, nullPointer, memory) : Option (Nat × Nat × Memory)) =
      some (token, resumeAt line text.length (stop + 1), memory.storeByte (line + stop) 0) := by
  have zero_iff := ahead.eq_zero_iff proper low inLine
  by_cases last : stop = text.length
  · have same : memory.storeByte (line + stop) 0 = memory := last ▸ ahead.storeByte_end (Nat.le_trans low inLine)
    have resumes : resumeAt line text.length (stop + 1) = nullPointer := if_neg (by omega)
    rw [same, resumes, if_neg (not_not.mpr (zero_iff.mpr last))]
    rfl
  · have resumes : resumeAt line text.length (stop + 1) = line + stop + 1 := if_pos (by omega)
    have next : add32 (line + stop) 1 = line + stop + 1 := add32_of_lt (by omega)
    rw [if_pos fun zero => last (zero_iff.mp zero), resumes, next]
    rfl

/-- What a call of `strtok` does that takes up the line at an index: it finds no token on the
rest of it, or it ends the next run. -/
inductive NextCut (line : Nat) (text : List UInt8) (memory : Memory) (index : Nat) : Nat → Nat → Memory → Prop where
  | ended :
      (∀ place, index ≤ place → insideAt isWord text place = false) →
      NextCut line text memory index nullPointer nullPointer memory
  | token {start stop : Nat} :
      index ≤ start → start < stop → stop ≤ text.length →
      (∀ place, index ≤ place → place < start → insideAt isWord text place = false) →
      (∀ place, start ≤ place → place < stop → insideAt isWord text place = true) →
      insideAt isWord text stop = false →
      NextCut line text memory index (line + start) (resumeAt line text.length (stop + 1))
        (memory.storeByte (line + stop) 0)

/-- The line is used up, or the call resumes in it. -/
theorem resumeAt_cases {line index : Nat} {text : List UInt8} (notNull : line ≠ nullPointer) :
    (resumeAt line text.length index = nullPointer ∧ ∀ place, index ≤ place → insideAt isWord text place = false) ∨
      (index ≤ text.length ∧ resumeAt line text.length index = line + index ∧ line + index ≠ nullPointer) := by
  by_cases behind : text.length < index
  · exact .inl ⟨if_neg (Nat.not_le.mpr behind), fun place low => insideAt_beyond (by omega)⟩
  · have inLine := Nat.le_of_not_lt behind
    refine .inr ⟨inLine, if_pos inLine, ?_⟩
    unfold nullPointer at notNull ⊢
    omega

theorem Ahead.strtok (ahead : Ahead memory line text index) (proper : 0 ∉ text) (notNull : line ≠ nullPointer)
    (high : line + text.length < 4294967296) :
    ∃ token saved changed, Shell.strtok memory (resumeAt line text.length index) nullPointer =
        some (token, saved, changed) ∧ NextCut line text memory index token saved changed := by
  rcases @resumeAt_cases line index text notNull with ⟨resumed, beyond⟩ | ⟨inLine, resumed, notEnded⟩
  · rw [resumed]
    exact ⟨_, _, _, rfl, .ended beyond⟩
  obtain ⟨start, startFound, startLow, startHigh, startStops, outside⟩ := ahead.skipWhile proper inLine high isDelim
  have later : Ahead memory line text start := fun place low => ahead place (by omega)
  obtain ⟨stop, stopFound, stopLow, stopHigh, stopStops, inside⟩ :=
    later.skipWhile proper startHigh high fun c => !isDelim c
  have skipped : ∀ place, index ≤ place → place < start → insideAt isWord text place = false := by
    intro place low before
    rw [ahead.insideAt_eq low (by omega), outside place low before]
    rfl
  rw [resumed]
  simp only [Shell.strtok, ne_eq, not_true_eq_false, if_false, if_neg notEnded, startFound, stopFound,
    Option.bind_eq_bind, Option.bind_some]
  by_cases ended : start = text.length
  · refine ⟨_, _, _, if_pos ((ahead.eq_zero_iff proper startLow startHigh).mpr ended), .ended fun place low => ?_⟩
    by_cases before : place < start
    · exact skipped place low before
    · exact insideAt_beyond (by omega)
  have more : start < text.length := by omega
  have notZero : ¬memory (line + start) = 0 := fun zero => ended ((ahead.eq_zero_iff proper startLow startHigh).mp zero)
  have proceeds : start < stop := by
    apply Nat.lt_of_le_of_ne stopLow
    rintro rfl
    have delim := startStops more
    have word := stopStops more
    rw [delim] at word
    cases word
  refine ⟨_, _, _, ?_, .token startLow proceeds stopHigh skipped ?_ ?_⟩
  · rw [if_neg notZero]
    exact later.cut proper stopLow stopHigh high
  · intro place low before
    rw [later.insideAt_eq low (by omega)]
    exact inside place low before
  · by_cases last : stop = text.length
    · exact insideAt_beyond (Nat.le_of_eq last.symm)
    · rw [later.insideAt_eq stopLow (by omega)]
      exact stopStops (by omega)

/-! The line between two calls. -/

/-- The runs found are stored, but for the last one, or they are all. -/
def Pending (line : Nat) (text : List UInt8) (stored runs : List (Nat × Nat)) (token : Nat) : Prop :=
  token = nullPointer ∧ runs = stored ∧ AreRuns isWord text stored ∨
    token ≠ nullPointer ∧ ∃ run, runs = stored ++ [run] ∧ token = line + run.1

/-- The only byte that a call stores, if it finds a token. -/
theorem NextCut.stores {token saved : Nat} {changed : Memory}
    (nextCut : NextCut line text memory index token saved changed) :
    changed = memory ∨ ∃ stop, stop ≤ text.length ∧ changed = memory.storeByte (line + stop) 0 := by
  cases nextCut with
  | ended outside => exact .inl rfl
  | @token start stop low nonempty inLine outside inside after => exact .inr ⟨stop, inLine, rfl⟩

/-- The runs in front of an index are strings of their own, and the text goes on from there. -/
structure LineCut (line : Nat) (text : List UInt8) (memory : Memory) (runs : List (Nat × Nat)) (index : Nat) :
    Prop where
  ahead : Ahead memory line text index
  before : RunsBefore isWord text index runs
  boundary : index = 0 ∨ insideAt isWord text (index - 1) = false
  cut : ∀ run ∈ runs, memory.HoldsString (line + run.1) ((text.drop run.1).take run.2)

namespace LineCut

variable {changed : Memory} {runs : List (Nat × Nat)}

theorem congr (cut : LineCut line text memory runs index)
    (same : ∀ place, place ≤ text.length → changed (line + place) = memory (line + place)) :
    LineCut line text changed runs index := by
  refine ⟨fun place low high => (same place high).trans (cut.ahead place low high), cut.before, cut.boundary,
    fun run member => (cut.cut run member).congr fun place low high => ?_⟩
  have bounded := ((cut.before.complete run).mp member).1.bounded
  have offset : line + (place - line) = place := by omega
  rw [List.length_take, List.length_drop] at high
  have kept := same (place - line) (by omega)
  rwa [offset] at kept

private theorem index_le (cut : LineCut line text memory runs index) {run : Nat × Nat} (member : run ∈ runs) :
    run.1 + run.2 < index := by
  obtain ⟨maximal, earlier⟩ := (cut.before.complete run).mp member
  exact maximal.ends_before earlier (cut.boundary.resolve_left (by omega))

/-- The run that begins at `start` is cut off at `stop`. -/
theorem snoc (cut : LineCut line text memory runs index) (proper : 0 ∉ text) {start stop : Nat}
    (low : index ≤ start) (nonempty : start < stop) (bounded : stop ≤ text.length)
    (outside : ∀ place, index ≤ place → place < start → insideAt isWord text place = false)
    (inside : ∀ place, start ≤ place → place < stop → insideAt isWord text place = true)
    (after : insideAt isWord text stop = false) :
    LineCut line text (memory.storeByte (line + stop) 0) (runs ++ [(start, stop - start)]) (stop + 1) := by
  have boundary : start = 0 ∨ insideAt isWord text (start - 1) = false := by
    by_cases first : start = index
    · exact first ▸ cut.boundary
    · exact .inr (outside _ (by omega) (by omega))
  refine ⟨fun place above high => ?_, (cut.before.skip low outside).snoc nonempty boundary inside after, .inr after,
    fun run member => ?_⟩
  · rw [Memory.storeByte_of_ne (by omega)]
    exact cut.ahead place (by omega) high
  · cases List.mem_append.mp member with
    | inl earlier =>
        have ends := cut.index_le earlier
        refine (cut.cut run earlier).congr fun place above high => Memory.storeByte_of_ne ?_
        rw [List.length_take, List.length_drop] at high
        omega
    | inr last =>
        rw [List.mem_singleton.mp last]
        show Memory.HoldsString _ (line + start) ((text.drop start).take (stop - start))
        have length : ((text.drop start).take (stop - start)).length = stop - start := by
          rw [List.length_take, List.length_drop]
          omega
        refine Memory.HoldsString.bytes_iff.mpr ⟨fun zero => proper ?_, fun place within => ?_, ?_⟩
        · exact List.drop_subset _ _ (List.take_subset _ _ zero)
        · rw [length] at within
          rw [Memory.storeByte_of_ne (by omega), Nat.add_assoc, cut.ahead (start + place) (by omega) (by omega),
            List.getD_eq_getElem _ _ (by omega), List.getD_eq_getElem _ _ (by omega), List.getElem_take,
            List.getElem_drop]
        · rw [length, Nat.add_assoc, Nat.add_sub_cancel' (Nat.le_of_lt nonempty)]
          exact Memory.storeByte_self ..

/-- A call leaves the line cut up to where it has come, with the token it found still to be stored. -/
theorem next {token saved : Nat} (cut : LineCut line text memory runs index) (proper : 0 ∉ text)
    (notNull : line ≠ nullPointer) (bounded : index ≤ text.length + 1)
    (nextCut : NextCut line text memory index token saved changed) :
    ∃ nextRuns nextIndex, LineCut line text changed nextRuns nextIndex ∧ Pending line text runs nextRuns token ∧
      saved = resumeAt line text.length nextIndex ∧ nextIndex ≤ text.length + 1 ∧
      (token = nullPointer ∨ index < nextIndex) := by
  cases nextCut with
  | ended outside =>
      have all : RunsBefore isWord text (text.length + 1) runs :=
        cut.before.skip bounded fun place low _ => outside place low
      refine ⟨runs, text.length + 1, ⟨fun place low high => ?_, all, .inr ?_, cut.cut⟩,
        .inl ⟨rfl, rfl, all.all (Nat.le_succ _)⟩, ?_, Nat.le_refl _, .inl rfl⟩
      · omega
      · exact insideAt_beyond (Nat.le_refl _)
      · exact (if_neg (Nat.not_succ_le_self _)).symm
  | @token start stop low nonempty inLine outside inside after =>
      have found : line + start ≠ nullPointer := by
        unfold nullPointer at notNull ⊢
        omega
      exact ⟨_, stop + 1, cut.snoc proper low nonempty inLine outside inside after, .inr ⟨found, _, rfl, rfl⟩, rfl,
        by omega, .inr (by omega)⟩

end LineCut

end ShedKernel.Shell
