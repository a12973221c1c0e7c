import ShedKernel.Shell.TokenProperties
import ShedKernel.UserShell.Lines

/-! The user shell tokenises a line as the kernel's shell does while its array has room. -/

set_option autoImplicit false

namespace ShedKernel.UserShell

open Foundation Heap Console Shell

variable {memory : Memory} {text : List UInt8} {line index : Nat}

/-! `strtok`. -/

/-- A byte of the line belongs to a token or is a delimiter. -/
theorem insideAt_isWord (bounded : index < text.length) :
    insideAt isWord text index = !insideAt isDelim text index := by
  rw [insideAt_eq bounded 0, insideAt_eq bounded 0]
  exact Shell.isWord_eq _

private theorem dropWhile_eq_drop (skips : UInt8 → Bool) (text : List UInt8) :
    text.dropWhile skips = text.drop (text.takeWhile skips).length := by
  have whole := @List.takeWhile_append_dropWhile _ skips text
  exact (List.drop_left' rfl).symm.trans (congrArg _ whole)

/-- The string that a search reads. -/
theorem stringAt_ahead (ahead : Ahead memory line text index) (proper : 0 ∉ text) (inLine : index ≤ text.length)
    (fits : line + text.length < 4294967296) :
    memory.stringAt (line + index) addressSpace = text.drop index := by
  refine Memory.HoldsString.stringAt_eq (Memory.HoldsString.bytes_iff.mpr ⟨fun zero => proper (List.drop_subset _ _ zero),
    fun place inside => ?_, ?_⟩) ?_
  · rw [List.length_drop] at inside
    rw [Nat.add_assoc, ahead (index + place) (by omega) (by omega), List.getD_eq_getElem _ _ (by omega),
      List.getD_eq_getElem _ _ (by rw [List.length_drop]; omega), List.getElem_drop]
  · rw [List.length_drop, Nat.add_assoc, Nat.add_sub_cancel' inLine, ahead _ inLine (Nat.le_refl _)]
    exact List.getD_eq_default _ _ (Nat.le_refl _)
  · rw [List.length_drop]
    unfold addressSpace
    omega

/-- The C library's function does what the kernel's does. -/
theorem strtok_nextCut (ahead : Ahead memory line text index) (proper : 0 ∉ text) (notNull : line ≠ nullPointer)
    (fits : line + text.length < 4294967296) :
    ∃ token saved changed, strtok memory (resumeAt line text.length index) nullPointer = (token, saved, changed) ∧
      NextCut line text memory index token saved changed := by
  rcases @resumeAt_cases line index text notNull with ⟨resumed, beyond⟩ | ⟨inLine, resumed, notEnded⟩
  · rw [resumed]
    exact ⟨_, _, _, rfl, .ended beyond⟩
  obtain ⟨delims, behindDelims⟩ := takeWhile_drop_insideAt isDelim text index
  have rest := dropWhile_eq_drop isDelim (text.drop index)
  have length := (List.takeWhile_prefix (l := text.drop index) isDelim).length_le
  rw [List.length_drop] at length
  rw [List.drop_drop] at rest
  rw [resumed]
  simp only [strtok, ne_eq, not_true_eq_false, if_false, if_neg notEnded, stringAt_ahead ahead proper inLine fits, rest,
    Nat.add_assoc line index, List.length_drop, Nat.add_sub_cancel' inLine]
  obtain ⟨start, same⟩ : ∃ start, start = index + ((text.drop index).takeWhile isDelim).length := ⟨_, rfl⟩
  rw [← same] at delims behindDelims ⊢
  have outside : ∀ place, index ≤ place → place < start → insideAt isWord text place = false := by
    intro place low high
    rw [insideAt_isWord (by omega), delims place low high]
    rfl
  by_cases ended : start = text.length
  · refine ⟨_, _, _, if_pos (List.drop_eq_nil_of_le (Nat.le_of_eq ended.symm)), .ended fun place low => ?_⟩
    by_cases before : place < start
    · exact outside place low before
    · exact insideAt_beyond (by omega)
  have more : start < text.length := by omega
  have notEmpty : text.drop start ≠ [] := fun empty => by
    have none := List.drop_eq_nil_iff.mp empty
    omega
  obtain ⟨words, behindWords⟩ := takeWhile_drop_insideAt isWord text start
  have shorter := (List.takeWhile_prefix (l := text.drop start) isWord).length_le
  rw [List.length_drop] at shorter
  have word : (fun c => !isDelim c) = isWord := (funext Shell.isWord_eq).symm
  rw [if_neg notEmpty, word, Nat.add_assoc line start]
  obtain ⟨stop, ends⟩ : ∃ stop, stop = start + ((text.drop start).takeWhile isWord).length := ⟨_, rfl⟩
  rw [← ends] at words behindWords ⊢
  have first : insideAt isWord text start = true := by
    rw [insideAt_isWord more, behindDelims]
    rfl
  have nonempty : start < stop := by
    apply Nat.lt_of_le_of_ne (by omega)
    rintro rfl
    rw [first] at behindWords
    cases behindWords
  refine ⟨_, _, _, ?_, .token (by omega) nonempty (by omega) outside words behindWords⟩
  by_cases last : stop = text.length
  · have resumes : resumeAt line text.length (stop + 1) = nullPointer := if_neg (by omega)
    rw [if_pos (by rw [last]), resumes, last, ahead.storeByte_end inLine]
  · have resumes : resumeAt line text.length (stop + 1) = line + stop + 1 := if_pos (by omega)
    rw [if_neg (by omega), resumes]

/-! `split_line`. -/

/-- A table of strings of the line, each with its offset, and then null. -/
structure HoldsTable (memory : Memory) (tokens line : Nat) (table : List (Nat × List UInt8)) : Prop where
  entries : ∀ position entry, table[position]? = some entry →
    memory.load32 (tokens + position * pointerSize) = line + entry.1 ∧ memory.HoldsString (line + entry.1) entry.2
  last : memory.load32 (tokens + table.length * pointerSize) = nullPointer

def tokenTable (text : List UInt8) (runs : List (Nat × Nat)) : List (Nat × List UInt8) :=
  runs.map fun run => (run.1, (text.drop run.1).take run.2)

private theorem holdsTable_of_runs
    {tokens : Nat} {runs : List (Nat × Nat)} (entries : HoldsRuns memory tokens line runs)
    (last : memory.load32 (tokens + runs.length * pointerSize) = nullPointer)
    (cut : ∀ run ∈ runs, memory.HoldsString (line + run.1) ((text.drop run.1).take run.2)) :
    HoldsTable memory tokens line (tokenTable text runs) := by
  refine ⟨fun position entry found => ?_, by rwa [tokenTable, List.length_map]⟩
  rw [tokenTable, List.getElem?_map, Option.map_eq_some_iff] at found
  obtain ⟨run, here, rfl⟩ := found
  exact ⟨entries position run here, cut run (List.mem_of_getElem? here)⟩

/-- Where the C library's `malloc` has put the line and the array. -/
structure Blocks (buf tokens : Nat) : Prop where
  notNull : buf ≠ nullPointer
  bufFits : buf + bufsize ≤ 4294967296
  apart : buf + bufsize ≤ tokens ∨ tokens + toksize * pointerSize ≤ buf

/-- The loop at its head, with `entries` left in the array. -/
structure Splits (tokens line : Nat) (text : List UInt8) (stored runs : List (Nat × Nat)) (index entries : Nat)
    (memory : Memory) (pos tok saved : Nat) : Prop where
  position : pos = stored.length
  left : pos + entries = toksize
  holds : HoldsRuns memory tokens line stored
  cut : LineCut line text memory runs index
  bounded : index ≤ text.length + 1
  pending : Pending line text stored runs tok
  saved : saved = resumeAt line text.length index

section

variable {tokens entries pos tok saved : Nat} {stored runs : List (Nat × Nat)} (blocks : Blocks line tokens)
  (proper : 0 ∉ text) (short : text.length < bufsize)

include blocks short

/-- A store into the array leaves the line alone. -/
theorem Splits.store (splits : Splits tokens line text stored runs index (entries + 1) memory pos tok saved)
    (value : Nat) : LineCut line text (memory.store32 (tokens + stored.length * pointerSize) value) runs index := by
  have apart := blocks.apart
  have left := splits.left
  have position := splits.position
  unfold bufsize toksize pointerSize at apart
  unfold bufsize at short
  unfold toksize at left
  refine splits.cut.congr fun place high => Memory.store32_of_outside ?_
  unfold pointerSize
  omega

include proper

/-- A turn of the loop with a token. -/
theorem Splits.turn (splits : Splits tokens line text stored runs index (entries + 1) memory pos tok saved)
    (goesOn : tok ≠ nullPointer) :
    ∃ nextTok nextSaved changed nextRuns nextIndex,
      strtok (memory.store32 (tokens + pos * pointerSize) tok) saved nullPointer = (nextTok, nextSaved, changed) ∧
      Splits tokens line text runs nextRuns nextIndex entries changed (pos + 1) nextTok nextSaved := by
  have fits := blocks.bufFits
  have apart := blocks.apart
  have left := splits.left
  have position := splits.position
  obtain ⟨_, run, rfl, found⟩ := splits.pending.resolve_left fun ended => goesOn ended.1
  have inLine := (((splits.cut.before.complete run).mp (by simp)).1).bounded
  have cut := splits.store blocks short tok
  have holds : HoldsRuns (memory.store32 (tokens + stored.length * pointerSize) tok) tokens line (stored ++ [run]) :=
    found ▸ splits.holds.snoc (by omega)
  obtain ⟨nextTok, nextSaved, changed, called, nextCut⟩ :=
    strtok_nextCut cut.ahead proper blocks.notNull (by omega)
  obtain ⟨nextRuns, nextIndex, nextLine, pending, resumes, bounded, _⟩ :=
    cut.next proper blocks.notNull splits.bounded nextCut
  rw [splits.saved, position]
  refine ⟨nextTok, nextSaved, changed, nextRuns, nextIndex, called, by simp, by omega, ?_, nextLine, bounded, pending,
    resumes⟩
  -- `strtok` stores in the line only
  refine @HoldsRuns.moved _ _ _ tokens tokens (toksize * pointerSize) _ holds ?_ fun offset inside => ?_
  · rw [List.length_append, List.length_singleton]
    exact Nat.mul_le_mul_right _ (by omega)
  · rcases nextCut.stores with rfl | ⟨stop, low, rfl⟩
    · rfl
    · exact Memory.storeByte_of_ne (by omega)

/-- The loop ends with the table of all the tokens, or behind the array if there are too many. -/
theorem Splits.ends (splits : Splits tokens line text stored runs index entries memory pos tok saved) :
    ((maximalRuns isWord text).length < toksize ∧ ∃ after, splitTokens tokens entries memory pos tok saved = .ok after ∧
        HoldsTable after tokens line (tokenTable text (maximalRuns isWord text))) ∨
      toksize ≤ (maximalRuns isWord text).length ∧
        splitTokens tokens entries memory pos tok saved = .error .tableOverrun := by
  induction entries generalizing memory stored runs index pos tok saved with
  | zero =>
      have fewer := splits.cut.before.length_le (maximalRuns_areRuns isWord text)
      have position := splits.position
      have left := splits.left
      refine .inr ⟨?_, rfl⟩
      rcases splits.pending with ⟨_, rfl, _⟩ | ⟨_, run, rfl, _⟩
      · omega
      · rw [List.length_append] at fewer
        omega
  | succ entries ih =>
      have position := splits.position
      have left := splits.left
      unfold splitTokens
      by_cases ended : tok = nullPointer
      · obtain ⟨_, rfl, all⟩ := splits.pending.resolve_right fun goesOn => goesOn.1 ended
        rw [if_pos ended, position]
        rw [(maximalRuns_areRuns isWord text).unique all]
        exact .inl ⟨by omega, _, rfl, holdsTable_of_runs (splits.holds.store _)
          (Memory.load32_store32_of_lt (by decide)) (splits.store blocks short _).cut⟩
      · obtain ⟨nextTok, nextSaved, changed, nextRuns, nextIndex, called, next⟩ :=
          splits.turn blocks proper short ended
        rw [if_neg ended]
        simp only [called]
        exact ih next

end

private theorem splitLine_ends {tokens : Nat} (blocks : Blocks line tokens) (short : text.length < bufsize)
    (holds : memory.HoldsString line text) :
    ((maximalRuns isWord text).length < toksize ∧ ∃ after, splitLine tokens memory line = .ok after ∧
        HoldsTable after tokens line (tokenTable text (maximalRuns isWord text))) ∨
      toksize ≤ (maximalRuns isWord text).length ∧ splitLine tokens memory line = .error .tableOverrun := by
  have fits := blocks.bufFits
  have proper := holds.proper
  -- the first call takes up the line where it begins, as if it had been left there
  have first : strtok memory nullPointer line = strtok memory (resumeAt line text.length 0) nullPointer := by
    have resumed : resumeAt line text.length 0 = line := if_pos (Nat.zero_le _)
    rw [resumed]
    simp only [strtok, ne_eq, blocks.notNull, not_false_eq_true, if_true, not_true_eq_false, if_false]
  have cut : LineCut line text memory [] 0 :=
    ⟨ahead_of_holdsString holds, .zero, .inl rfl, fun run member => absurd member List.not_mem_nil⟩
  obtain ⟨tok, saved, changed, called, nextCut⟩ := strtok_nextCut cut.ahead proper blocks.notNull (by omega)
  obtain ⟨runs, index, nextLine, pending, resumes, bounded, _⟩ :=
    cut.next proper blocks.notNull (Nat.zero_le _) nextCut
  have splits : Splits tokens line text [] runs index toksize changed 0 tok saved :=
    ⟨rfl, Nat.zero_add _, fun place run found => absurd found (by simp), nextLine, bounded, pending, resumes⟩
  unfold splitLine
  simp only [first, called]
  exact splits.ends blocks proper short

/-! `read_line`. -/

private theorem readKeys_terminates
    {buf pos : Nat} {filled : Memory} {codes rest : List UInt8} (free : pos < bufsize - 1)
    (read : readKeys buf memory pos codes = some (filled, rest)) :
    ∃ stop, stop < bufsize ∧ filled (buf + stop) = 0 := by
  induction codes generalizing memory pos with
  | nil => cases read
  | cons c codes ih =>
      unfold readKeys at read
      by_cases newline : c = newlineByte
      · rw [if_pos newline] at read
        cases read
        exact ⟨pos, by omega, Memory.storeByte_self ..⟩
      rw [if_neg newline] at read
      by_cases back : c = backspaceByte
      · rw [if_pos back] at read
        split at read
        · exact ih (by omega) read
        · exact ih free read
      rw [if_neg back] at read
      simp only at read
      split at read
      · cases read
        exact ⟨pos + 1, by omega, Memory.storeByte_self ..⟩
      · exact ih (by omega) read

/-- A line that `read_line` returns leaves room for its terminator. -/
theorem readLine_short {buf : Nat} {filled : Memory} {codes rest : List UInt8}
    (read : readLine buf memory codes = some (filled, rest)) (holds : filled.HoldsString buf text) :
    text.length < bufsize := by
  obtain ⟨stop, inside, zero⟩ := readKeys_terminates (by decide) read
  apply Nat.lt_of_le_of_lt _ inside
  apply Nat.le_of_not_lt
  intro longer
  obtain ⟨proper, bytes, _⟩ := Memory.HoldsString.bytes_iff.mp holds
  rw [bytes stop longer, List.getD_eq_getElem _ _ longer] at zero
  exact proper (zero ▸ List.getElem_mem longer)

/-- A line typed without backspaces is in the buffer. -/
theorem readKeys_types {buf pos : Nat} {rest : List UInt8}
    (plain : ∀ c ∈ text, c ≠ newlineByte ∧ c ≠ backspaceByte) (short : pos + text.length < bufsize - 1) :
    readKeys buf memory pos (text ++ newlineByte :: rest) =
      some (memory.storeBytes (buf + pos) (text ++ [0]), rest) := by
  induction text generalizing memory pos with
  | nil => rfl
  | cons c text ih =>
      obtain ⟨notNewline, notBack⟩ := plain c List.mem_cons_self
      rw [List.length_cons] at short
      rw [List.cons_append, readKeys, if_neg notNewline, if_neg notBack]
      simp only
      rw [if_neg (by omega), ih (fun c member => plain c (List.mem_cons_of_mem _ member)) (by omega)]
      rfl

private theorem readLine_types {buf : Nat} {rest : List UInt8} (plain : ∀ c ∈ text, c ≠ newlineByte ∧ c ≠ backspaceByte)
    (short : text.length < bufsize - 1) :
    readLine buf memory (text ++ newlineByte :: rest) = some (memory.storeBytes buf (text ++ [0]), rest) :=
  readKeys_types plain (by rwa [Nat.zero_add])

/-! Both shells. -/

/-- The same strings at the same places of the line, and then null. -/
def SameTokens (memory : Memory) (tokens line : Nat) (other : Memory) (otherTokens otherLine : Nat) : Prop :=
  ∃ table, HoldsTable memory tokens line table ∧ HoldsTable other otherTokens otherLine table

/-- The user shell stores inside its array and finds the tokens that the kernel's shell finds
exactly for the lines of fewer than 64 tokens. -/
theorem shells_tokenise_alike_iff (memory : Memory) (buf tokens : Nat) (blocks : Blocks buf tokens)
    (codes rest : List UInt8) (filled : Memory) (read : readLine buf memory codes = some (filled, rest))
    (text : List UInt8) (typed : filled.HoldsString buf text)
    (area : Area) (start : Memory) (calls : List HeapCall) (heap : HeapState)
    (reached : Run (HeapStep area) (initialHeap area start) calls heap) (screen : TextScreen) (line : Nat)
    (holds : heap.memory.HoldsString line text) (notNull : line ≠ nullPointer)
    (fits : line + text.length < 4294967296) (inUse : InUse area heap.memory line (text.length + 1))
    (kernelTokens : Nat) (changed : Memory) (shown : TextScreen)
    (called : lshSplitLine area heap.memory screen line = some (kernelTokens, changed, shown))
    (granted : kernelTokens ≠ nullPointer) :
    (∃ after, splitLine tokens filled buf = .ok after ∧ SameTokens after tokens buf changed kernelTokens line) ↔
      (maximalRuns isWord text).length < toksize := by
  obtain ⟨begun, invariant⟩ := heapInvariant_of_run reached
  have represents := invariant.represents
  have lineAt : LineAt area begun line text := ⟨holds.proper, notNull, fits, inUse.kept represents⟩
  have kernel : HoldsTable changed kernelTokens line (tokenTable text (maximalRuns isWord text)) := by
    rcases lshSplitLine_returns (.begin represents) lineAt holds screen with
      ⟨also, _⟩ | ⟨_, state, _, ⟨_, runs, room, _, also, table⟩ | ⟨_, _, _, also, _⟩⟩
    · cases called.symm.trans also
      exact absurd rfl granted
    · cases called.symm.trans also
      rw [(maximalRuns_areRuns isWord text).unique table.all]
      exact holdsTable_of_runs table.entries table.last table.cut
    · cases called.symm.trans also
      exact absurd rfl granted
  rcases splitLine_ends blocks (readLine_short read typed) typed with ⟨fewer, after, split, user⟩ | ⟨more, overrun⟩
  · exact iff_of_true ⟨after, split, _, user, kernel⟩ fewer
  · refine iff_of_false ?_ (Nat.not_lt.mpr more)
    rintro ⟨after, split, _⟩
    rw [overrun] at split
    cases split

private theorem exampleBlocks : Blocks 0x8000 0x9000 := ⟨by decide, by decide, by decide⟩

/-- The user shell's line `text`, typed into an empty memory. -/
def typedLine (text : List UInt8) : Memory := Memory.storeBytes (fun _ => 0) 0x8000 (text ++ [0])

theorem shells_tokenise_alike_ls : ∃ kernelTokens changed shown,
    lshSplitLine exampleArea (initDynamicMem exampleArea exampleLine) ⟨fun _ => 0, 0, []⟩ 2048 =
        some (kernelTokens, changed, shown) ∧
      ((∃ after, splitLine 0x9000 (typedLine (literal " ls  -a")) 0x8000 = .ok after ∧
          SameTokens after 0x9000 0x8000 changed kernelTokens 2048) ↔
        (maximalRuns isWord (literal " ls  -a")).length < toksize) := by
  have evaluated : (lshSplitLine exampleArea (initDynamicMem exampleArea exampleLine) ⟨fun _ => 0, 0, []⟩ 2048).map
      Prod.fst = some 1052416 := by
    decide +kernel
  obtain ⟨⟨kernelTokens, changed, shown⟩, called, rfl⟩ := Option.map_eq_some_iff.mp evaluated
  have plain : (literal " ls  -a").all fun c => c ≠ newlineByte ∧ c ≠ backspaceByte := by decide
  have read : readLine 0x8000 (fun _ => 0) (literal " ls  -a" ++ newlineByte :: []) =
      some (typedLine (literal " ls  -a"), []) :=
    readLine_types (fun c member => by simpa using List.all_eq_true.mp plain c member) (by decide)
  exact ⟨_, changed, shown, called, shells_tokenise_alike_iff (fun _ => 0) 0x8000 0x9000 exampleBlocks _ [] _ read
    (literal " ls  -a") (Memory.storeBytes_holdsString _ _ (by decide)) exampleArea exampleLine []
    (initialHeap exampleArea exampleLine) .nil ⟨fun _ => 0, 0, []⟩ 2048 (by decide) (by decide) (by decide)
    (.inl (by decide)) _ changed shown called (by decide)⟩

/-- 64 tokens of one letter. -/
def manyTokens : List UInt8 := (List.replicate 64 [97, 32]).flatten

/-- `read_line` returns the line of 64 tokens, and `split_line` stores behind its array. -/
theorem many_tokens_overrun_table :
    readLine 0x8000 (fun _ => 0) (manyTokens ++ [newlineByte]) = some (typedLine manyTokens, []) ∧
      (typedLine manyTokens).HoldsString 0x8000 manyTokens ∧ Blocks 0x8000 0x9000 ∧
      splitLine 0x9000 (typedLine manyTokens) 0x8000 = .error .tableOverrun := by
  have plain : manyTokens.all fun c => c ≠ newlineByte ∧ c ≠ backspaceByte := by decide +kernel
  have proper : 0 ∉ manyTokens := by decide +kernel
  have many : toksize ≤ (maximalRuns isWord manyTokens).length := by decide +kernel
  have holds : (typedLine manyTokens).HoldsString 0x8000 manyTokens := Memory.storeBytes_holdsString _ _ proper
  refine ⟨?_, holds, exampleBlocks, ?_⟩
  · exact readLine_types (fun c member => by simpa using List.all_eq_true.mp plain c member) (by decide +kernel)
  · rcases splitLine_ends exampleBlocks (by decide +kernel) holds with ⟨fewer, _⟩ | ⟨_, overrun⟩
    · exact absurd fewer (Nat.not_lt.mpr many)
    · exact overrun

end ShedKernel.UserShell
