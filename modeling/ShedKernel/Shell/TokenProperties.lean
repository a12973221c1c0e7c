import ShedKernel.Heap.Ownership
import ShedKernel.Shell.StrtokProperties

/-! What `lsh_split_line` makes of a line: the table of its tokens, in a block of its own. -/

set_option autoImplicit false

namespace ShedKernel.Shell

open Foundation BlockList Heap Console

variable {area : Area} {begun : List Block} {memory : Memory} {text : List UInt8} {line index : Nat}

/-! The turns of the loop. -/

/-- The loop of `lsh_split_line` at its head. -/
structure Tokenising where
  memory : Memory
  table : TokenTable
  token : Nat

namespace Tokenising

/-- `token = strtok(NULL, LSH_TOK_DELIM)` -/
def nextToken (memory : Memory) (table : TokenTable) : Option Tokenising :=
  match Shell.strtok memory table.saved nullPointer with
  | none => none
  | some (token, saved, memory) => some ⟨memory, { table with saved }, token⟩

/-- `tokens[position++] = token` -/
def store (state : Tokenising) : Tokenising where
  memory := state.memory.store32 (state.table.tokens + state.table.position * pointerSize) state.token
  table := { state.table with position := state.table.position + 1 }
  token := state.token

def grow (area : Area) (state : Tokenising) : Option (Nat × Memory) :=
  realloc area state.memory state.table.tokens ((state.table.bufsize + lshTokBufsize) * pointerSize)

/-- One turn; `none` if the call returns. -/
def turn (area : Area) (state : Tokenising) : Option Tokenising :=
  if state.token = nullPointer then none
  else
    let stored := state.store
    if stored.table.bufsize ≤ stored.table.position then
      match stored.grow area with
      | none => none
      | some (newtokens, memory) =>
          if newtokens = nullPointer then none
          else nextToken memory
            { stored.table with tokens := newtokens, bufsize := stored.table.bufsize + lshTokBufsize }
    else nextToken stored.memory stored.table

def turns (area : Area) : Nat → Tokenising → Option Tokenising
  | 0, state => some state
  | count + 1, state => (state.turn area).bind (turns area count)

/-- The rest of the loop. -/
def rest (area : Area) (budget : Nat) (screen : TextScreen) (state : Tokenising) :
    Option (Nat × Memory × TextScreen) :=
  splitTokens area budget state.memory screen state.table state.token

/-- The token fills the table, and the table does not grow. -/
def Refused (area : Area) (state : Tokenising) : Prop :=
  state.token ≠ nullPointer ∧ state.store.table.bufsize ≤ state.store.table.position ∧
    ∃ memory, state.store.grow area = some (nullPointer, memory)

end Tokenising

/-- `malloc`, the local variables and the first token; `none` if there is no table. -/
def beginTokenising (area : Area) (memory : Memory) (line : Nat) : Option Tokenising :=
  match malloc area memory (lshTokBufsize * pointerSize) with
  | none => none
  | some (tokens, memory) =>
      if tokens = nullPointer then none
      else
        match Shell.strtok memory nullPointer line with
        | none => none
        | some (token, saved, memory) => some ⟨memory, ⟨tokens, lshTokBufsize, 0, saved⟩, token⟩

/-- The loop after some turns; `none` if the call has returned by then. -/
def tokenisingAfter (area : Area) (memory : Memory) (line count : Nat) : Option Tokenising :=
  (beginTokenising area memory line).bind (Tokenising.turns area count)

namespace Tokenising

variable {state next : Tokenising}

/-- After a turn that goes on, the loop has one turn less. -/
theorem rest_of_turn (turned : state.turn area = some next) (budget : Nat) (screen : TextScreen) :
    state.rest area (budget + 1) screen = next.rest area budget screen := by
  have later {memory : Memory} {table : TokenTable} (found : nextToken memory table = some next) :
      (match Shell.strtok memory table.saved nullPointer with
        | none => none
        | some (token, saved, memory) => splitTokens area budget memory screen { table with saved } token) =
        next.rest area budget screen := by
    unfold nextToken at found
    split at found
    · cases found
    · next called =>
        cases found
        rfl
  unfold turn at turned
  unfold rest
  rw [splitTokens]
  split at turned
  · cases turned
  next goesOn =>
  rw [if_neg goesOn]
  simp only at turned ⊢
  by_cases full : state.table.bufsize ≤ state.table.position + 1
  · rw [if_pos full]
    rw [if_pos (show state.store.table.bufsize ≤ state.store.table.position from full)] at turned
    cases called : state.store.grow area with
    | none =>
        rw [called] at turned
        cases turned
    | some grown =>
        obtain ⟨newtokens, memory⟩ := grown
        rw [called] at turned
        unfold grow store at called
        rw [called]
        by_cases null : newtokens = nullPointer
        · simp [null] at turned
        · simp only [if_neg null] at turned ⊢
          exact later turned
  · rw [if_neg full]
    rw [if_neg (show ¬state.store.table.bufsize ≤ state.store.table.position from full)] at turned
    exact later turned

theorem Refused.turn (refused : state.Refused area) : state.turn area = none := by
  obtain ⟨goesOn, full, memory, called⟩ := refused
  rw [Tokenising.turn, if_neg goesOn]
  simp only
  rw [if_pos full, called]
  exact if_pos rfl

/-- Then the table is freed. -/
theorem Refused.rest (refused : state.Refused area) (budget : Nat) (screen : TextScreen) :
    ∃ memory, state.store.grow area = some (nullPointer, memory) ∧
      state.rest area (budget + 1) screen = some (nullPointer, memFree memory state.table.tokens,
        kprintfText screen "allocation error\n") := by
  obtain ⟨goesOn, full, memory, called⟩ := refused
  refine ⟨memory, called, ?_⟩
  unfold store grow at called
  unfold store at full
  unfold Tokenising.rest
  rw [splitTokens, if_neg goesOn]
  simp only at full called ⊢
  rw [if_pos full, called]
  exact if_pos rfl

end Tokenising

/-! The table. -/

/-- A string that the allocator leaves alone. -/
structure LineAt (area : Area) (begun : List Block) (line : Nat) (text : List UInt8) : Prop where
  proper : 0 ∉ text
  notNull : line ≠ nullPointer
  fits : line + text.length < 4294967296
  kept : Kept area begun [] line (text.length + 1)

/-- The first entries of the table point to the runs stored. -/
def HoldsRuns (memory : Memory) (tokens line : Nat) (stored : List (Nat × Nat)) : Prop :=
  ∀ position run, stored[position]? = some run → memory.load32 (tokens + position * pointerSize) = line + run.1

/-- The entries after the table's bytes have moved, or stayed. -/
theorem HoldsRuns.moved {changed : Memory} {tokens newtokens room : Nat} {stored : List (Nat × Nat)}
    (holds : HoldsRuns memory tokens line stored) (enough : stored.length * pointerSize ≤ room)
    (same : ∀ offset, offset < room → changed (newtokens + offset) = memory (tokens + offset)) :
    HoldsRuns changed newtokens line stored := by
  intro position run found
  have inside := (List.getElem?_eq_some_iff.mp found).1
  rw [← holds position run found]
  unfold pointerSize at enough ⊢
  have byte (offset : Nat) (low : offset < 4) :
      changed (newtokens + position * 4 + offset) = memory (tokens + position * 4 + offset) := by
    rw [Nat.add_assoc, Nat.add_assoc]
    exact same _ (by omega)
  have first := byte 0 (by omega)
  rw [Nat.add_zero, Nat.add_zero] at first
  unfold Memory.load32
  rw [first, byte 1 (by omega), byte 2 (by omega), byte 3 (by omega)]

/-- A store behind the entries. -/
theorem HoldsRuns.store {tokens : Nat} {stored : List (Nat × Nat)} (holds : HoldsRuns memory tokens line stored)
    (value : Nat) : HoldsRuns (memory.store32 (tokens + stored.length * pointerSize) value) tokens line stored := by
  intro position run found
  have inside := (List.getElem?_eq_some_iff.mp found).1
  rw [← holds position run found]
  exact Memory.load32_store32_of_disjoint (by unfold pointerSize; omega)

theorem HoldsRuns.snoc {tokens : Nat} {stored : List (Nat × Nat)} {run : Nat × Nat}
    (holds : HoldsRuns memory tokens line stored) (fits : line + run.1 < 4294967296) :
    HoldsRuns (memory.store32 (tokens + stored.length * pointerSize) (line + run.1)) tokens line
      (stored ++ [run]) := by
  intro position other found
  by_cases last : position = stored.length
  · subst last
    rw [List.getElem?_append_right (Nat.le_refl _), Nat.sub_self] at found
    cases found
    exact Memory.load32_store32_of_lt fits
  · have bounded := (List.getElem?_eq_some_iff.mp found).1
    rw [List.length_append, List.length_singleton] at bounded
    rw [List.getElem?_append_left (by omega)] at found
    exact holds.store _ position other found

/-- The table after some stores, and the line up to where `strtok` has come. -/
structure Filled (area : Area) (begun : List Block) (initial : Memory) (line : Nat) (text : List UInt8)
    (stored runs : List (Nat × Nat)) (index room : Nat) (memory : Memory) (table : TokenTable) : Prop where
  notNull : table.tokens ≠ nullPointer
  owns : Owns area begun memory [⟨table.tokens, room⟩]
  space : table.bufsize * pointerSize ≤ room
  position : table.position = stored.length
  bounded : table.position ≤ table.bufsize
  entries : HoldsRuns memory table.tokens line stored
  saved : table.saved = resumeAt line text.length index
  cut : LineCut line text memory runs index
  others : ∀ place, Kept area begun [] place 1 → place < line ∨ line + text.length < place →
    memory place = initial place

namespace Filled

variable {initial : Memory} {stored runs : List (Nat × Nat)} {room : Nat} {table : TokenTable}

theorem enough (filled : Filled area begun initial line text stored runs index room memory table) :
    stored.length * pointerSize ≤ room := by
  rw [← filled.position]
  exact Nat.le_trans (Nat.mul_le_mul_right _ filled.bounded) filled.space

/-- What leaves the blocks in use alone leaves the line and the rest as they are. -/
theorem untouched {changed : Memory} (lineAt : LineAt area begun line text)
    (filled : Filled area begun initial line text stored runs index room memory table)
    (untouched : Untouched area begun [] memory changed) :
    LineCut line text changed runs index ∧ ∀ place, Kept area begun [] place 1 →
      place < line ∨ line + text.length < place → changed place = initial place := by
  constructor
  · exact filled.cut.congr fun place high => untouched.kept lineAt.kept (Nat.lt_succ_of_le high)
  · intro place kept beside
    exact (untouched.kept kept Nat.zero_lt_one).trans (filled.others place kept beside)

/-- The next entry lies in the table. -/
theorem entry_inside (filled : Filled area begun initial line text stored runs index room memory table)
    (free : table.position < table.bufsize) (value other : Nat)
    (beside : other < table.tokens ∨ table.tokens + room ≤ other) :
    memory.store32 (table.tokens + table.position * pointerSize) value other = memory other := by
  have space := filled.space
  unfold pointerSize at space ⊢
  exact Memory.store32_of_outside (by omega)

/-- The run found last is stored in the next entry. -/
theorem store {run : Nat × Nat} (lineAt : LineAt area begun line text)
    (filled : Filled area begun initial line text stored (stored ++ [run]) index room memory table)
    (free : table.position < table.bufsize) :
    Filled area begun initial line text (stored ++ [run]) (stored ++ [run]) index room
      (memory.store32 (table.tokens + table.position * pointerSize) (line + run.1))
      { table with position := table.position + 1 } := by
  have space := filled.space
  have position := filled.position
  have fits := lineAt.fits
  have maximal := ((filled.cut.before.complete run).mp (by simp)).1
  have inLine := maximal.bounded
  unfold pointerSize at space
  have owned := filled.owns.store (filled.entry_inside free (line + run.1))
  obtain ⟨cut, others⟩ := filled.untouched lineAt owned.2
  refine ⟨filled.notNull, owned.1, filled.space, ?_, free, ?_, filled.saved, cut, others⟩
  · rw [List.length_append, position]
    rfl
  · rw [position]
    exact filled.entries.snoc (by omega)

/-- The table grows, or it stays as it is. -/
theorem grow {token : Nat} (lineAt : LineAt area begun line text)
    (filled : Filled area begun initial line text stored runs index room memory table) :
    ∃ newtokens changed, Tokenising.grow area ⟨memory, table, token⟩ = some (newtokens, changed) ∧
      ((newtokens = nullPointer ∧ changed = memory) ∨
        newtokens ≠ nullPointer ∧ ∃ newRoom, Filled area begun initial line text stored runs index newRoom changed
          { table with tokens := newtokens, bufsize := table.bufsize + lshTokBufsize }) := by
  have inArea := filled.owns.inside (List.mem_singleton.mpr rfl)
  have fits := area.fits_literal
  have space := filled.space
  have position := filled.position
  have bounded := filled.bounded
  unfold pointerSize at space
  have small : (table.bufsize + lshTokBufsize) * pointerSize < 4294967296 := by
    unfold lshTokBufsize pointerSize
    simp only at inArea
    omega
  have positive : 0 < (table.bufsize + lshTokBufsize) * pointerSize := by
    unfold lshTokBufsize pointerSize
    omega
  obtain ⟨newtokens, changed, called, untouched, result⟩ := filled.owns.realloc positive small
  refine ⟨newtokens, changed, called, ?_⟩
  cases result with
  | inl refused => exact .inl refused
  | inr grown =>
      obtain ⟨notNull, newRoom, enough, _, moved, copied⟩ := grown
      obtain ⟨cut, others⟩ := filled.untouched lineAt untouched
      exact .inr ⟨notNull, newRoom, notNull, moved, enough, position, Nat.le_add_right_of_le bounded,
        filled.entries.moved filled.enough copied, filled.saved, cut, others⟩

end Filled

/-- The loop at its head: the runs found are stored, but for the last one, or they are all. -/
structure Splitting (area : Area) (begun : List Block) (initial : Memory) (line : Nat) (text : List UInt8)
    (stored runs : List (Nat × Nat)) (index room : Nat) (state : Tokenising) : Prop where
  filled : Filled area begun initial line text stored runs index room state.memory state.table
  free : state.table.position < state.table.bufsize
  bounded : index ≤ text.length + 1
  token : Pending line text stored runs state.token

/-- The turns that are left at most, the last one included. -/
def turnsLeft (text : List UInt8) (index : Nat) (state : Tokenising) : Nat :=
  if state.token = nullPointer then 1 else text.length + 3 - index

section

variable {initial : Memory} {stored runs : List (Nat × Nat)} {room : Nat} {table : TokenTable} {state : Tokenising}

/-- Other memory in which the table and what is beside the line are the same. -/
theorem Filled.nextCut {token saved : Nat} {changed : Memory} (lineAt : LineAt area begun line text)
    (filled : Filled area begun initial line text stored runs index room memory table)
    (nextCut : NextCut line text memory index token saved changed) :
    Owns area begun changed [⟨table.tokens, room⟩] ∧ HoldsRuns changed table.tokens line stored ∧
      ∀ place, Kept area begun [] place 1 → place < line ∨ line + text.length < place →
        changed place = initial place := by
  rcases nextCut.stores with rfl | ⟨stop, inLine, rfl⟩
  · exact ⟨filled.owns, filled.entries, filled.others⟩
  · have kept : Kept area begun [] (line + stop) 1 := lineAt.kept.within (by omega)
    obtain ⟨owned, same⟩ := @Owns.elsewhere _ _ _ _ filled.owns (line + stop) 0 kept
    refine ⟨owned, filled.entries.moved filled.enough (same ⟨table.tokens, room⟩ (List.mem_singleton.mpr rfl)),
      fun place inUse beside => ?_⟩
    exact (Memory.storeByte_of_ne (by omega)).trans (filled.others place inUse beside)

/-- A table with room, all of whose runs are stored, on its way to the next turn. -/
theorem Filled.nextToken (lineAt : LineAt area begun line text)
    (filled : Filled area begun initial line text stored stored index room memory table)
    (free : table.position < table.bufsize) (bounded : index ≤ text.length + 1) :
    ∃ next nextRuns nextIndex, Tokenising.nextToken memory table = some next ∧
      Splitting area begun initial line text stored nextRuns nextIndex room next ∧
      turnsLeft text nextIndex next + 1 ≤ text.length + 3 - index := by
  obtain ⟨token, saved, changed, called, nextCut⟩ :=
    filled.cut.ahead.strtok lineAt.proper lineAt.notNull lineAt.fits
  obtain ⟨owned, entries, others⟩ := filled.nextCut lineAt nextCut
  obtain ⟨nextRuns, nextIndex, cut, pending, resumes, nextBounded, further⟩ :=
    filled.cut.next lineAt.proper lineAt.notNull bounded nextCut
  rw [Tokenising.nextToken, filled.saved, called]
  refine ⟨_, nextRuns, nextIndex, rfl, ⟨⟨filled.notNull, owned, filled.space, filled.position, filled.bounded,
    entries, resumes, cut, others⟩, free, nextBounded, pending⟩, ?_⟩
  unfold turnsLeft
  split
  · omega
  · next goesOn =>
      have later := further.resolve_left goesOn
      omega

/-- A turn stores its token. -/
theorem Splitting.stores (lineAt : LineAt area begun line text)
    (splitting : Splitting area begun initial line text stored runs index room state)
    (goesOn : state.token ≠ nullPointer) :
    ∃ run, runs = stored ++ [run] ∧ Filled area begun initial line text (stored ++ [run]) (stored ++ [run]) index room
      state.store.memory state.store.table := by
  obtain ⟨_, run, rfl, token⟩ := splitting.token.resolve_left fun ended => goesOn ended.1
  refine ⟨run, rfl, ?_⟩
  have filled := splitting.filled.store lineAt splitting.free
  rw [← token] at filled
  exact filled

/-- A turn with a token goes on to the next one, unless the table does not grow. -/
theorem Splitting.turn (lineAt : LineAt area begun line text)
    (splitting : Splitting area begun initial line text stored runs index room state)
    (goesOn : state.token ≠ nullPointer) :
    (∃ next nextRuns nextIndex nextRoom, state.turn area = some next ∧
        Splitting area begun initial line text runs nextRuns nextIndex nextRoom next ∧
        turnsLeft text nextIndex next + 1 ≤ turnsLeft text index state) ∨ state.Refused area := by
  obtain ⟨run, rfl, filled⟩ := splitting.stores lineAt goesOn
  have left : turnsLeft text index state = text.length + 3 - index := if_neg goesOn
  rw [left, Tokenising.turn, if_neg goesOn]
  simp only
  by_cases full : state.store.table.bufsize ≤ state.store.table.position
  · rw [if_pos full]
    obtain ⟨newtokens, changed, called, result⟩ := @Filled.grow _ _ _ _ _ _ _ _ _ _ _ state.store.token lineAt filled
    have called : state.store.grow area = some (newtokens, changed) := called
    cases result with
    | inl refused => exact .inr ⟨goesOn, full, changed, by rw [called, refused.1]⟩
    | inr grown =>
        obtain ⟨notNull, newRoom, moved⟩ := grown
        have bounded := filled.bounded
        obtain ⟨next, nextRuns, nextIndex, found, nextSplitting, fewer⟩ :=
          moved.nextToken lineAt (by simp only [lshTokBufsize]; omega) splitting.bounded
        rw [called]
        simp only [if_neg notNull]
        exact .inl ⟨next, nextRuns, nextIndex, newRoom, found, nextSplitting, fewer⟩
  · rw [if_neg full]
    obtain ⟨next, nextRuns, nextIndex, found, nextSplitting, fewer⟩ :=
      filled.nextToken lineAt (Nat.lt_of_not_le full) splitting.bounded
    exact .inl ⟨next, nextRuns, nextIndex, room, found, nextSplitting, fewer⟩

/-- What a turn reaches from a good state is good. -/
theorem Splitting.turns {count : Nat} {final : Tokenising} (lineAt : LineAt area begun line text)
    (splitting : Splitting area begun initial line text stored runs index room state)
    (turned : Tokenising.turns area count state = some final) :
    ∃ stored runs index room, Splitting area begun initial line text stored runs index room final := by
  induction count generalizing state stored runs index room with
  | zero =>
      cases turned
      exact ⟨stored, runs, index, room, splitting⟩
  | succ count ih =>
      obtain ⟨next, first, others⟩ := Option.bind_eq_some_iff.mp turned
      by_cases ended : state.token = nullPointer
      · rw [Tokenising.turn, if_pos ended] at first
        cases first
      cases splitting.turn lineAt ended with
      | inl goesOn =>
          obtain ⟨_, _, _, _, also, nextSplitting, _⟩ := goesOn
          cases first.symm.trans also
          exact ih nextSplitting others
      | inr refused =>
          rw [refused.turn] at first
          cases first

/-- With turns enough, the loop comes to the turn that ends it. -/
theorem Splitting.rest {budget : Nat} (lineAt : LineAt area begun line text)
    (splitting : Splitting area begun initial line text stored runs index room state)
    (enough : turnsLeft text index state ≤ budget) (screen : TextScreen) :
    ∃ count final stored runs index room later, Tokenising.turns area count state = some final ∧
      Splitting area begun initial line text stored runs index room final ∧
      state.rest area budget screen = final.rest area (later + 1) screen ∧
      (final.token = nullPointer ∨ final.Refused area) := by
  induction budget generalizing state stored runs index room with
  | zero =>
      have bounded := splitting.bounded
      unfold turnsLeft at enough
      split at enough <;> omega
  | succ budget ih =>
      by_cases ended : state.token = nullPointer
      · exact ⟨0, state, stored, runs, index, room, budget, rfl, splitting, rfl, .inl ended⟩
      cases splitting.turn lineAt ended with
      | inr refused => exact ⟨0, state, stored, runs, index, room, budget, rfl, splitting, rfl, .inr refused⟩
      | inl goesOn =>
          obtain ⟨next, nextRuns, nextIndex, nextRoom, turned, nextSplitting, fewer⟩ := goesOn
          obtain ⟨count, final, stored, runs, index, room, later, reached, last, same, ends⟩ :=
            ih nextSplitting (by omega)
          refine ⟨count + 1, final, stored, runs, index, room, later, ?_, last, ?_, ends⟩
          · rw [Tokenising.turns, turned]
            exact reached
          · rw [Tokenising.rest_of_turn turned, same]

end

/-! The whole call. -/

/-- A table of all the runs, followed by null. -/
structure HoldsTokens (area : Area) (begun : List Block) (initial : Memory) (line : Nat) (text : List UInt8)
    (runs : List (Nat × Nat)) (tokens room : Nat) (memory : Memory) : Prop where
  notNull : tokens ≠ nullPointer
  owns : Owns area begun memory [⟨tokens, room⟩]
  all : AreRuns isWord text runs
  room : (runs.length + 1) * pointerSize ≤ room
  entries : HoldsRuns memory tokens line runs
  last : memory.load32 (tokens + runs.length * pointerSize) = nullPointer
  cut : ∀ run ∈ runs, memory.HoldsString (line + run.1) ((text.drop run.1).take run.2)
  others : ∀ place, Kept area begun [] place 1 → place < line ∨ line + text.length < place →
    memory place = initial place

section

variable {initial : Memory} {stored runs : List (Nat × Nat)} {room : Nat} {state : Tokenising}

/-- Without a token, null is stored behind the runs. -/
theorem Splitting.returns (lineAt : LineAt area begun line text)
    (splitting : Splitting area begun initial line text stored runs index room state)
    (ended : state.token = nullPointer) (later : Nat) (screen : TextScreen) :
    ∃ changed, state.rest area (later + 1) screen = some (state.table.tokens, changed, screen) ∧
      HoldsTokens area begun initial line text stored state.table.tokens room changed := by
  obtain ⟨filled, free, _, token⟩ := splitting
  obtain ⟨_, rfl, all⟩ := token.resolve_right fun goesOn => goesOn.1 ended
  have space := filled.space
  have position := filled.position
  unfold pointerSize at space
  have owned := filled.owns.store (filled.entry_inside free nullPointer)
  obtain ⟨cut, others⟩ := filled.untouched lineAt owned.2
  refine ⟨_, ?_, filled.notNull, owned.1, all, ?_, ?_, ?_, cut.cut, others⟩
  · rw [Tokenising.rest, splitTokens, if_pos ended]
  · unfold pointerSize
    omega
  · rw [position]
    exact filled.entries.store _
  · rw [← position]
    exact Memory.load32_store32_of_lt (by decide)

/-- A table that does not grow is freed. -/
theorem Splitting.refuses (lineAt : LineAt area begun line text)
    (splitting : Splitting area begun initial line text stored runs index room state)
    (refused : state.Refused area) (later : Nat) (screen : TextScreen) :
    ∃ changed shown, state.rest area (later + 1) screen = some (nullPointer, changed, shown) ∧
      Owns area begun changed [] ∧ ∀ place, Kept area begun [] place 1 →
        place < line ∨ line + text.length < place → changed place = initial place := by
  obtain ⟨memory, called, returned⟩ := refused.rest later screen
  obtain ⟨run, rfl, filled⟩ := splitting.stores lineAt refused.1
  obtain ⟨newtokens, changed, also, result⟩ := @Filled.grow _ _ _ _ _ _ _ _ _ _ _ state.store.token lineAt filled
  cases called.symm.trans also
  have same : memory = state.store.memory := by
    cases result with
    | inl kept => exact kept.2
    | inr grown => exact absurd rfl grown.1
  have freed := filled.owns.memFree
  rw [← same] at freed
  refine ⟨_, _, returned, freed.1, fun place inUse beside => ?_⟩
  exact (freed.2.kept inUse Nat.zero_lt_one).trans (same ▸ filled.others place inUse beside)

end

/-- The call ends up in the loop, or there is no table. -/
theorem beginTokenising_splitting (owns : Owns area begun memory []) (lineAt : LineAt area begun line text)
    (holds : memory.HoldsString line text) :
    (∃ state runs index room, beginTokenising area memory line = some state ∧
        Splitting area begun memory line text [] runs index room state ∧
        turnsLeft text index state ≤ addressSpace ∧
        ∀ screen, lshSplitLine area memory screen line = state.rest area addressSpace screen) ∨
      malloc area memory (lshTokBufsize * pointerSize) = some (nullPointer, memory) ∧
        beginTokenising area memory line = none ∧ ∀ screen, lshSplitLine area memory screen line =
          some (nullPointer, memory, kprintfText screen "allocation error\n") := by
  have small : lshTokBufsize * pointerSize < 4294967296 := by decide
  have fits := lineAt.fits
  have notNull := lineAt.notNull
  unfold nullPointer at notNull
  obtain ⟨tokens, changed, called, untouched, result⟩ := owns.malloc small
  unfold beginTokenising lshSplitLine
  rw [called]
  cases result with
  | inl refused =>
      obtain ⟨rfl, rfl⟩ := refused
      exact .inr ⟨rfl, if_pos rfl, fun screen => if_pos rfl⟩
  | inr granted =>
      obtain ⟨tableNotNull, room, enough, owned⟩ := granted
      refine .inl ?_
      simp only [if_neg tableNotNull]
      -- the first call takes up the line where it begins, as if it had been left there
      have first : strtok changed nullPointer line = strtok changed line nullPointer := by
        simp [strtok, lineAt.notNull]
      have ahead := ahead_of_holdsString holds
      have cut : LineCut line text changed [] 0 :=
        ⟨fun place low high => (untouched.kept lineAt.kept (Nat.lt_succ_of_le high)).trans (ahead place low high),
          .zero, .inl rfl, fun run member => absurd member List.not_mem_nil⟩
      have filled : Filled area begun memory line text [] [] 0 room changed ⟨tokens, lshTokBufsize, 0, line⟩ :=
        ⟨tableNotNull, owned, enough, rfl, Nat.zero_le _, fun place run found => absurd found (by simp),
          (if_pos (Nat.zero_le _)).symm, cut, fun place inUse _ => untouched.kept inUse Nat.zero_lt_one⟩
      obtain ⟨state, runs, index, found, splitting, turns⟩ :=
        filled.nextToken lineAt (Nat.succ_pos _) (Nat.zero_le _)
      unfold Tokenising.nextToken at found
      rw [first]
      split at found
      · cases found
      · next calledFirst =>
          cases found
          rw [calledFirst]
          have bounded : text.length + 2 ≤ addressSpace := by
            unfold addressSpace
            omega
          exact ⟨_, runs, index, room, rfl, splitting, Nat.le_trans (Nat.le_of_succ_le_succ turns) bounded,
            fun screen => rfl⟩

/-- The call returns the table, or null and nothing. -/
theorem lshSplitLine_returns (owns : Owns area begun memory []) (lineAt : LineAt area begun line text)
    (holds : memory.HoldsString line text) (screen : TextScreen) :
    (lshSplitLine area memory screen line =
          some (nullPointer, memory, kprintfText screen "allocation error\n") ∧
        malloc area memory (lshTokBufsize * pointerSize) = some (nullPointer, memory)) ∨
      ∃ count state, tokenisingAfter area memory line count = some state ∧
        ((state.token = nullPointer ∧ ∃ runs room changed,
            lshSplitLine area memory screen line = some (state.table.tokens, changed, screen) ∧
              HoldsTokens area begun memory line text runs state.table.tokens room changed) ∨
          (state.Refused area ∧ ∃ changed shown,
            lshSplitLine area memory screen line = some (nullPointer, changed, shown) ∧
              Owns area begun changed [] ∧ ∀ place, Kept area begun [] place 1 →
                place < line ∨ line + text.length < place → changed place = memory place)) := by
  rcases beginTokenising_splitting owns lineAt holds with
    ⟨first, runs, index, room, began, splitting, enough, called⟩ | ⟨refused, _, called⟩
  · obtain ⟨count, state, stored, runs, index, room, later, reached, last, same, ends⟩ :=
      splitting.rest lineAt enough screen
    refine .inr ⟨count, state, ?_, ?_⟩
    · rw [tokenisingAfter, began]
      exact reached
    rw [called, same]
    cases ends with
    | inl ended =>
        obtain ⟨changed, returned, tokens⟩ := last.returns lineAt ended later screen
        exact .inl ⟨ended, stored, room, changed, returned, tokens⟩
    | inr refused => exact .inr ⟨refused, last.refuses lineAt refused later screen⟩
  · exact .inl ⟨called screen, refused⟩

/-! For the shell, which has read the line into a block of its own. -/

/-- What `lsh_split_line` returns: null, or one more block. The line stays. -/
inductive LineSplit (area : Area) (begun : List Block) (line : Chunk) : Nat → Memory → Prop where
  | failed {memory : Memory} :
      Owns area begun memory [line] → LineSplit area begun line nullPointer memory
  | tokens {p room : Nat} {memory : Memory} :
      p ≠ nullPointer → Owns area begun memory [⟨p, room⟩, line] →
      LineSplit area begun line p memory

/-- The loop returns as it should. -/
def SplitsLine (area : Area) (begun : List Block) (line : Chunk)
    (result : Option (Nat × Memory × TextScreen)) : Prop :=
  ∃ p memory screen, result = some (p, memory, screen) ∧ LineSplit area begun line p memory

theorem lshSplitLine_splits {line : Chunk} {length : Nat} (screen : TextScreen)
    (owns : Owns area begun memory [line]) (inside : length < line.size)
    (terminated : memory (line.p + length) = 0) :
    SplitsLine area begun line (lshSplitLine area memory screen line.p) := by
  have inArea := owns.inside (List.mem_singleton.mpr rfl)
  have fits := area.fits_literal
  obtain ⟨text, holds, bounded⟩ := Memory.exists_holdsString terminated
  obtain ⟨blocks, represents, chunks⟩ := owns
  obtain ⟨place, payload, _⟩ := chunks.placed line (List.mem_singleton.mpr rfl)
  have inUse : (place, line.size) ∈ usedPlaces 16 area.base blocks :=
    (chunks.places place line.size).mpr (.inr (by rw [← payload]; exact List.mem_singleton.mpr rfl))
  have lineAt : LineAt area blocks line.p text :=
    ⟨holds.proper, by unfold nullPointer; omega, by omega, .begun inUse (Nat.le_of_eq payload.symm) (by omega)⟩
  rcases lshSplitLine_returns (.begin represents) lineAt holds screen with
    ⟨called, _⟩ | ⟨_, state, _, ⟨_, runs, room, changed, called, tokens⟩ | ⟨_, changed, shown, called, owned, _⟩⟩
  · exact ⟨_, _, _, called, .failed ⟨blocks, represents, chunks⟩⟩
  · exact ⟨_, _, _, called, .tokens tokens.notNull (tokens.owns.rebase chunks)⟩
  · exact ⟨_, _, _, called, .failed (owned.rebase chunks)⟩

/-! For any caller. -/

/-- The table has room for another entry. -/
structure HasRoom (area : Area) (state : Tokenising) : Prop where
  inUse : LiveBlock area state.memory state.table.tokens
  capacity : state.table.bufsize * pointerSize ≤ payloadSize state.memory state.table.tokens
  free : state.table.position < state.table.bufsize

/-- A table that points to the runs of the line, each of them now a string, and then holds null. -/
structure IsTokenTable (area : Area) (line : Nat) (text : List UInt8) (runs : List (Nat × Nat)) (tokens : Nat)
    (memory : Memory) : Prop where
  notNull : tokens ≠ nullPointer
  inUse : LiveBlock area memory tokens
  room : (runs.length + 1) * pointerSize ≤ payloadSize memory tokens
  all : AreRuns isWord text runs
  entries : HoldsRuns memory tokens line runs
  last : memory.load32 (tokens + runs.length * pointerSize) = nullPointer
  cut : ∀ run ∈ runs, memory.HoldsString (line + run.1) ((text.drop run.1).take run.2)

/-- What is in use besides the line stays as it is. -/
def KeepsBeside (area : Area) (line length : Nat) (memory changed : Memory) : Prop :=
  ∀ place, InUse area memory place 1 → place < line ∨ line + length < place → changed place = memory place

inductive ReturnsTokens (area : Area) (memory : Memory) (line : Nat) (text : List UInt8) :
    Option (Nat × Memory × TextScreen) → Prop where
  | noTable {shown : TextScreen} :
      malloc area memory (lshTokBufsize * pointerSize) = some (nullPointer, memory) →
      ReturnsTokens area memory line text (some (nullPointer, memory, shown))
  | table {count : Nat} {state : Tokenising} {runs : List (Nat × Nat)} {changed : Memory} {shown : TextScreen} :
      tokenisingAfter area memory line count = some state →
      state.token = nullPointer →
      IsTokenTable area line text runs state.table.tokens changed →
      KeepsBeside area line text.length memory changed →
      ReturnsTokens area memory line text (some (state.table.tokens, changed, shown))
  | refused {count : Nat} {state : Tokenising} {changed : Memory} {shown : TextScreen} :
      tokenisingAfter area memory line count = some state →
      state.Refused area →
      usedBlocks area changed = usedBlocks area memory →
      KeepsBeside area line text.length memory changed →
      ReturnsTokens area memory line text (some (nullPointer, changed, shown))

/-- `lsh_split_line` returns a table of the maximal runs of the line, and every entry that it
stores has room, unless an allocation fails. -/
theorem lsh_split_line_returns_tokens (area : Area) (memory : Memory) (calls : List HeapCall) (heap : HeapState)
    (reached : Run (HeapStep area) (initialHeap area memory) calls heap) (screen : TextScreen) (line : Nat)
    (text : List UInt8) (holds : heap.memory.HoldsString line text) (notNull : line ≠ nullPointer)
    (fits : line + text.length < 4294967296) (inUse : InUse area heap.memory line (text.length + 1)) :
    ReturnsTokens area heap.memory line text (lshSplitLine area heap.memory screen line) ∧
      ∀ count state, tokenisingAfter area heap.memory line count = some state → HasRoom area state := by
  obtain ⟨begun, invariant⟩ := heapInvariant_of_run reached
  have represents := invariant.represents
  have lineAt : LineAt area begun line text := ⟨holds.proper, notNull, fits, inUse.kept represents⟩
  constructor
  · rcases lshSplitLine_returns (.begin represents) lineAt holds screen with
      ⟨called, refused⟩ | ⟨count, state, after, result⟩
    · rw [called]
      exact .noTable refused
    rcases result with ⟨ended, runs, room, changed, called, tokens⟩ | ⟨refused, changed, shown, called, owned, others⟩
    · obtain ⟨live, size⟩ := tokens.owns.liveBlock (List.mem_singleton.mpr rfl)
      rw [called]
      exact .table after ended ⟨tokens.notNull, live, size ▸ tokens.room, tokens.all, tokens.entries, tokens.last,
        tokens.cut⟩ fun place used => tokens.others place (used.kept represents)
    · rw [called]
      exact .refused after refused ((owned.usedBlocks_iff represents).mpr rfl)
        fun place used => others place (used.kept represents)
  · intro count state after
    obtain ⟨first, began, turned⟩ := Option.bind_eq_some_iff.mp after
    rcases beginTokenising_splitting (.begin represents) lineAt holds with
      ⟨_, _, _, _, also, splitting, _, _⟩ | ⟨_, none, _⟩
    · cases began.symm.trans also
      obtain ⟨_, _, _, room, last⟩ := splitting.turns lineAt turned
      obtain ⟨live, size⟩ := last.filled.owns.liveBlock (List.mem_singleton.mpr rfl)
      exact ⟨live, size ▸ last.filled.space, last.free⟩
    · rw [none] at began
      cases began

/-- A line of two words outside the area. -/
def exampleLine : Memory := Memory.storeBytes (fun _ => 0) 2048 (literal " ls  -a")

/-- The table points to `ls` and to `-a` and ends with null. -/
theorem lsh_split_line_returns_tokens_ls : ∃ tokens changed shown,
    lshSplitLine exampleArea (initDynamicMem exampleArea exampleLine) ⟨fun _ => 0, 0, []⟩ 2048 =
      some (tokens, changed, shown) ∧
      changed.load32 tokens = 2048 + 1 ∧ changed.load32 (tokens + 4) = 2048 + 5 ∧
      changed.load32 (tokens + 8) = nullPointer ∧
      ReturnsTokens exampleArea (initDynamicMem exampleArea exampleLine) 2048 (literal " ls  -a")
        (some (tokens, changed, shown)) ∧
      ∀ count state, tokenisingAfter exampleArea (initDynamicMem exampleArea exampleLine) 2048 count = some state →
        HasRoom exampleArea state := by
  have evaluated : (lshSplitLine exampleArea (initDynamicMem exampleArea exampleLine) ⟨fun _ => 0, 0, []⟩ 2048).map
      (fun result => [result.2.1.load32 result.1, result.2.1.load32 (result.1 + 4),
        result.2.1.load32 (result.1 + 8)]) = some [2048 + 1, 2048 + 5, nullPointer] := by
    decide +kernel
  obtain ⟨⟨tokens, changed, shown⟩, called, entries⟩ := Option.map_eq_some_iff.mp evaluated
  simp only [List.cons.injEq, and_true] at entries
  obtain ⟨first, second, last⟩ := entries
  have returned := lsh_split_line_returns_tokens exampleArea exampleLine [] (initialHeap exampleArea exampleLine) .nil
    ⟨fun _ => 0, 0, []⟩ 2048 (literal " ls  -a") (by decide) (by decide) (by decide) (.inl (by decide))
  have table := returned.1
  rw [show (initialHeap exampleArea exampleLine).memory = initDynamicMem exampleArea exampleLine from rfl, called]
    at table
  exact ⟨tokens, changed, shown, called, first, second, last, table, returned.2⟩

end ShedKernel.Shell
