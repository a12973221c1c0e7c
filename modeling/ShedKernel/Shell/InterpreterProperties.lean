import Mathlib.Data.List.Find
import ShedKernel.FileSystem.Session
import ShedKernel.Shell.Interpreter
import ShedKernel.Shell.LoopProperties

/-! The loop of the kernel's shell interprets lines of words. -/

set_option autoImplicit false

namespace ShedKernel.Shell

open Foundation BlockList Heap FileSystem Console

/-! A command line. -/

private theorem readString_eq {memory : Memory} {pointer turns : Nat} {text : List UInt8}
    (holds : memory.HoldsString pointer text) (fits : pointer + text.length < 4294967296)
    (enough : text.length < turns) : readString memory pointer turns = text := by
  induction turns generalizing pointer text with
  | zero => exact absurd enough (Nat.not_lt_zero _)
  | succ turns ih =>
      cases text with
      | nil => exact if_pos holds
      | cons byte rest =>
          obtain ⟨here, nonzero, later⟩ := holds
          rw [List.length_cons] at fits enough
          have next : add32 pointer 1 = pointer + 1 := add32_of_lt (by omega)
          rw [readString, here, if_neg nonzero, next, ih later (by omega) (by omega)]

private theorem cString_bytes {text : List UInt8} (proper : 0 ∉ text) : (cString text).bytes = text := by
  refine List.takeWhile_eq_self_iff.mpr fun byte member => ?_
  simpa using fun (zero : byte = 0) => proper (zero ▸ member)

private theorem help_on (desk : Desk) (memory : Memory) : lshHelp (desk.on memory) = desk.help.on memory := by
  have listed (names : List (String × Builtin)) (desk : Desk) :
      names.foldl (fun state builtin => state.print "  %s\n" [.text (literal builtin.1)]) (desk.on memory) =
        (names.foldl (fun desk builtin => desk.print "  %s\n" [.text (literal builtin.1)]) desk).on memory := by
    induction names generalizing desk with
    | nil => rfl
    | cons name names ih =>
        rw [List.foldl_cons, List.foldl_cons, ← ih]
        rfl
  rw [Desk.help, ← listed]
  rfl

private theorem runBuiltin_on (desk : Desk) (memory : Memory) (args : Nat) (builtin : Builtin) :
    runBuiltin (desk.on memory) args builtin =
      (desk.command ((desk.on memory).filename args) builtin).map fun next => (1, next.on memory) := by
  cases builtin with
  | help => exact congrArg (fun state => some (1, state)) (help_on desk memory)
  | ls => rfl
  | touch =>
      simp only [runBuiltin, lshTouch, Desk.command]
      cases (desk.on memory).filename args <;> rfl
  | del =>
      simp only [runBuiltin, lshDel, Desk.command]
      cases (desk.on memory).filename args <;> rfl
  | edit =>
      simp only [runBuiltin, Desk.command]
      cases (desk.on memory).filename args <;> rfl
  | clear => rfl
  | cat => rfl
  | ring3 => rfl
  | ring3Shell => rfl
  | shutdown => rfl

/-- The table `args` points to the words, each a string, and then holds null. -/
structure HoldsWordTable (memory : Memory) (args : Nat) (words : List (List UInt8)) : Prop where
  entry : ∀ index word, words[index]? = some word → ∃ pointer, pointer ≠ nullPointer ∧
    pointer + word.length < 4294967296 ∧ memory.load32 (args + index * pointerSize) = pointer ∧
      memory.HoldsString pointer word
  last : memory.load32 (args + words.length * pointerSize) = nullPointer

section

variable {memory : Memory} {args : Nat} {words : List (List UInt8)}

theorem HoldsWordTable.text (table : HoldsWordTable memory args words) (desk : Desk) (index : Nat) {word : List UInt8}
    (found : words[index]? = some word) :
    (desk.on memory).arg args index ≠ nullPointer ∧
      (desk.on memory).text ((desk.on memory).arg args index) = cString word ∧
      memory.HoldsString ((desk.on memory).arg args index) word := by
  obtain ⟨pointer, notNull, fits, entry, holds⟩ := table.entry index word found
  have here : (desk.on memory).arg args index = pointer := entry
  rw [here]
  exact ⟨notNull, congrArg cString (readString_eq holds fits (by omega)), holds⟩

theorem HoldsWordTable.filename (table : HoldsWordTable memory args words) (desk : Desk) (nonempty : words ≠ []) :
    (desk.on memory).filename args = words.tail.head?.map cString := by
  cases words with
  | nil => exact absurd rfl nonempty
  | cons name arguments =>
      cases arguments with
      | nil => exact if_pos table.last
      | cons argument others =>
          obtain ⟨notNull, text, -⟩ := table.text desk 1 rfl
          exact (if_neg notNull).trans (congrArg some text)

private theorem builtins_proper : ∀ builtin ∈ builtins, 0 ∉ literal builtin.1 := by decide

/-- Dispatch by the words that the table points to. -/
theorem lshExecute_on (table : HoldsWordTable memory args words) (desk : Desk) :
    lshExecute (desk.on memory) args = (desk.perform words).map fun next => (1, next.on memory) := by
  cases words with
  | nil => exact if_pos table.last
  | cons name arguments =>
      obtain ⟨notNull, text, holds⟩ := table.text desk 0 rfl
      have filename := table.filename desk (List.cons_ne_nil _ _)
      have named : (builtins.find? fun builtin =>
          memory.strcmpEqual ((desk.on memory).arg args 0) (literal builtin.1)) =
          builtins.find? fun builtin => name = literal builtin.1 := by
        refine List.find?_congr fun builtin member => ?_
        rw [Bool.eq_iff_iff, Memory.strcmpEqual_iff (builtins_proper builtin member), decide_eq_true_iff]
        exact ⟨fun also => holds.unique also, fun same => same ▸ holds⟩
      unfold lshExecute Desk.perform
      rw [if_neg notNull, show (desk.on memory).memory = memory from rfl, named]
      dsimp only
      cases builtins.find? fun builtin => name = literal builtin.1 with
      | none =>
          show some (1, (desk.on memory).print "Unknown command: %s\n"
            [.text ((desk.on memory).text ((desk.on memory).arg args 0)).bytes]) = _
          rw [text, cString_bytes holds.proper]
          rfl
      | some builtin => exact (runBuiltin_on desk memory args builtin.2).trans (by rw [filename]; rfl)

end

/-! The heap. -/

variable {area : Area} {begun : List Block} {memory : Memory}

/-- A free node that one call could have whole serves two smaller calls, one after the other. -/
theorem malloc_twice (represents : Represents area memory begun) {first second p : Nat} {whole : Memory}
    (small : first + 16 + second < 4294967296) (called : malloc area memory (first + 16 + second) = some (p, whole))
    (granted : p ≠ nullPointer) :
    ∃ q changed, malloc area memory first = some (q, changed) ∧ q ≠ nullPointer ∧
      ∃ r later, malloc area changed second = some (r, later) ∧ r ≠ nullPointer := by
  obtain ⟨_, _, _, also, fits⟩ := malloc_spec represents small
  cases called.symm.trans also
  have roomy : ∃ block ∈ begun, block.used = false ∧ first + 16 + second ≤ block.size := by
    by_contra none
    exact granted (fits.null_iff.mpr fun block member free => Nat.lt_of_not_le fun large =>
      none ⟨block, member, free, large⟩)
  obtain ⟨⟨size, used⟩, member, free, large⟩ := roomy
  simp only at free large
  subst free
  obtain ⟨q, changed, after, calledFirst, result⟩ := malloc_spec represents (show first < 4294967296 by omega)
  have notNull : q ≠ nullPointer := fun null => absurd (result.null_iff.mp null _ member rfl) (by simp only; omega)
  refine ⟨q, changed, calledFirst, notNull, ?_⟩
  have left : Represents area changed after ∧ ∃ block ∈ after, block.used = false ∧ second ≤ block.size := by
    cases result with
    | refused => exact absurd rfl notNull
    | @carved front back found _ split fit room represents =>
        refine ⟨represents, ?_⟩
        subst split
        rcases List.mem_append.mp member with before | behind
        · exact ⟨_, List.mem_append_left _ before, rfl, by simp only; omega⟩
        · cases List.mem_cons.mp behind with
          | inl here =>
              cases here
              exact ⟨⟨size - (first + 16), false⟩, by simp, rfl, by simp only; omega⟩
          | inr behind => exact ⟨⟨size, false⟩, by simp [behind], rfl, by simp only; omega⟩
    | @whole front back found _ split fit room represents =>
        refine ⟨represents, ?_⟩
        subst split
        rcases List.mem_append.mp member with before | behind
        · exact ⟨_, List.mem_append_left _ before, rfl, by simp only; omega⟩
        · cases List.mem_cons.mp behind with
          | inl here =>
              cases here
              omega
          | inr behind => exact ⟨⟨size, false⟩, by simp [behind], rfl, by simp only; omega⟩
  obtain ⟨representsAfter, block, inAfter, free, enough⟩ := left
  obtain ⟨r, later, _, calledSecond, resultAfter⟩ := malloc_spec representsAfter (show second < 4294967296 by omega)
  exact ⟨r, later, calledSecond, fun null => absurd (resultAfter.null_iff.mp null block inAfter free) (by omega)⟩

/-! Reading a short line. -/

/-- The loop of `lsh_read_line` with its first buffer. -/
structure FirstBuffer (area : Area) (begun : List Block) (initial : Memory) (typed : Typed) (state : Reading)
    (buffer room : Nat) : Prop where
  holds : HoldsTyped area begun initial typed state room
  buffer : state.line.buffer = buffer
  bufsize : state.line.bufsize = lshRlBufsize

section

variable {initial : Memory} {typed : Typed} {state : Reading} {buffer room : Nat} {c : Int}

theorem FirstBuffer.turn (held : FirstBuffer area begun initial typed state buffer room) (key : IsKey c)
    (short : (typed.key c).longest < lshRlBufsize) :
    ∃ next, state.turn area c = some next ∧ FirstBuffer area begun initial (typed.key c) next buffer room ∧
      (next.screen, next.line.position) = echo (state.screen, state.line.position) c := by
  have position := held.holds.position
  by_cases back : c = backspaceCode
  · subst back
    rw [Reading.turn_backspace]
    unfold echo
    rw [if_pos rfl]
    by_cases nonempty : 0 < state.line.position
    · rw [if_pos nonempty, if_pos nonempty]
      exact ⟨_, rfl, ⟨held.holds.takeBack, held.buffer, held.bufsize⟩, rfl⟩
    · rw [if_neg nonempty, if_neg nonempty]
      have empty : typed.text = [] := List.eq_nil_of_length_eq_zero (by omega)
      have same : typed.key backspaceCode = typed := by
        obtain ⟨text, longest, bounded⟩ := typed
        simp only at empty
        subst empty
        rfl
      rw [same]
      exact ⟨_, rfl, held, rfl⟩
  · have longest := typed.longest_of_ne back
    have bufsize := held.bufsize
    have free : state.line.position < state.line.bufsize := by omega
    have more : ¬(state.typeChar c).line.bufsize ≤ (state.typeChar c).line.position := by
      show ¬state.line.bufsize ≤ state.line.position + 1
      omega
    rw [Reading.turn_of_ne area state back key, if_neg more]
    unfold echo
    rw [if_neg back]
    exact ⟨_, rfl, ⟨held.holds.typeChar back key.2.2 free, held.buffer, bufsize⟩, rfl⟩

theorem FirstBuffer.turns {codes : List Int} (held : FirstBuffer area begun initial typed state buffer room)
    (keys : ∀ c ∈ codes, IsKey c) (short : (codes.foldl Typed.key typed).longest < lshRlBufsize) :
    ∃ next, state.turns area codes = some next ∧
      FirstBuffer area begun initial (codes.foldl Typed.key typed) next buffer room ∧
      (next.screen, next.line.position) = codes.foldl echo (state.screen, state.line.position) := by
  induction codes generalizing typed state with
  | nil => exact ⟨state, rfl, held, rfl⟩
  | cons c codes ih =>
      have later := Typed.longest_le codes (typed.key c)
      simp only [List.foldl_cons] at short
      obtain ⟨middle, turned, heldMiddle, shown⟩ := held.turn (keys c List.mem_cons_self) (by omega)
      obtain ⟨next, others, heldNext, shownNext⟩ :=
        ih heldMiddle (fun c member => keys c (List.mem_cons_of_mem _ member)) short
      refine ⟨next, ?_, heldNext, ?_⟩
      · unfold Reading.turns
        rw [List.foldlM_cons, turned]
        exact others
      · rw [shownNext, shown]
        rfl

/-- The newline ends the string. -/
theorem FirstBuffer.returns (held : FirstBuffer area begun initial typed state buffer room)
    (short : typed.longest < lshRlBufsize) (codes : List Int) :
    ∃ changed, state.rest area (newlineCode :: codes) = some (buffer, changed, state.screen, codes) ∧
      changed.HoldsString buffer typed.text ∧ Owns area begun changed [⟨buffer, room⟩] := by
  have holds := held.holds
  have space := holds.space
  have position := holds.position
  have bounded := typed.bounded
  have bufsize := held.bufsize
  have here := held.buffer
  subst here
  have same : ∀ other, other < state.line.buffer ∨ state.line.buffer + room ≤ other →
      state.memory.storeByte (state.line.buffer + state.line.position) 0 other = state.memory other :=
    fun other outside => Memory.storeByte_of_ne (by omega)
  refine ⟨_, rfl, ?_, (holds.owns.store same).1⟩
  rw [position]
  refine Memory.HoldsString.bytes_iff.mpr ⟨holds.proper, fun index inside => ?_, Memory.storeByte_self ..⟩
  rw [Memory.storeByte_of_ne (by omega)]
  exact holds.bytes index inside

/-- `lsh_read_line` on a short line: its text in a block of the shell's own, next to which a
table would find room. -/
theorem lshReadLine_short (represents : Represents area memory begun) {p : Nat} {whole : Memory}
    (called : malloc area memory (lshRlBufsize + 16 + lshTokBufsize * pointerSize) = some (p, whole))
    (granted : p ≠ nullPointer) (screen : TextScreen) {codes : List Int} (keys : ∀ c ∈ codes, IsKey c)
    (short : (typedBy codes).longest < lshRlBufsize) (rest : List Int) :
    ∃ line room changed, lshReadLine area memory screen (codes ++ newlineCode :: rest) =
        some (line, changed, (codes.foldl echo (screen, 0)).1, rest) ∧ line ≠ nullPointer ∧
      changed.HoldsString line (typedBy codes).text ∧ Owns area begun changed [⟨line, room⟩] ∧
      (typedBy codes).text.length < room ∧
      malloc area changed (lshTokBufsize * pointerSize) ≠ some (nullPointer, changed) := by
  obtain ⟨q, first, calledFirst, notNull, r, later, calledSecond, tableNotNull⟩ :=
    malloc_twice represents (by decide) called granted
  rcases beginReading_typing (.begin represents) screen with ⟨state, began, typing, reads⟩ | ⟨refused, -, -⟩
  · have begins : state = ⟨first, screen, ⟨q, lshRlBufsize, 0⟩⟩ := by
      unfold beginReading at began
      rw [calledFirst] at began
      simp only [if_neg notNull, Option.some.injEq] at began
      exact began.symm
    obtain ⟨room, holds⟩ := typing.holds
    subst begins
    have held : FirstBuffer area begun memory (typedBy []) _ q room := ⟨holds, rfl, rfl⟩
    obtain ⟨next, turned, heldNext, shown⟩ := held.turns keys short
    obtain ⟨changed, returned, text, owned⟩ := heldNext.returns short rest
    have shownScreen : next.screen = (codes.foldl echo (screen, 0)).1 := congrArg Prod.fst shown
    have space := heldNext.holds.space
    have bounded := (typedBy codes).bounded
    refine ⟨q, room, changed, ?_, notNull, text, owned, ?_, ?_⟩
    · rw [reads, Reading.rest_of_turns turned, returned, shownScreen]
    · rw [heldNext.bufsize] at space
      omega
    · intro refused
      exact tableNotNull ((Owns.malloc_null_iff holds.owns owned (by decide) calledSecond refused).mpr rfl)
  · rw [calledFirst] at refused
    cases refused
    exact absurd rfl notNull

end

/-! Splitting a short line. -/

/-- The table has its first size as long as it is not full. -/
def FirstTable (state : Tokenising) : Prop :=
  state.table.bufsize = lshTokBufsize ∨ lshTokBufsize ≤ state.table.position

private theorem nextToken_table {table : TokenTable} {next : Tokenising}
    (found : Tokenising.nextToken memory table = some next) :
    next.table.bufsize = table.bufsize ∧ next.table.position = table.position := by
  unfold Tokenising.nextToken at found
  split at found
  · cases found
  · cases found
    exact ⟨rfl, rfl⟩

theorem FirstTable.turn {state next : Tokenising} (first : FirstTable state) (turned : state.turn area = some next) :
    FirstTable next := by
  unfold FirstTable at first ⊢
  unfold Tokenising.turn at turned
  split at turned
  · cases turned
  dsimp only at turned
  split at turned
  · next full =>
      split at turned
      · cases turned
      split at turned
      · cases turned
      obtain ⟨-, position⟩ := nextToken_table turned
      have full : state.table.bufsize ≤ state.table.position + 1 := full
      have position : next.table.position = state.table.position + 1 := position
      omega
  · obtain ⟨bufsize, position⟩ := nextToken_table turned
    have bufsize : next.table.bufsize = state.table.bufsize := bufsize
    have position : next.table.position = state.table.position + 1 := position
    omega

theorem FirstTable.turns {count : Nat} {state final : Tokenising} (first : FirstTable state)
    (turned : Tokenising.turns area count state = some final) : FirstTable final := by
  induction count generalizing state with
  | zero =>
      cases turned
      exact first
  | succ count ih =>
      obtain ⟨next, one, others⟩ := Option.bind_eq_some_iff.mp turned
      exact ih (first.turn one) others

private theorem beginTokenising_table
    {line : Nat} {state : Tokenising} (began : beginTokenising area memory line = some state) :
    FirstTable state := by
  unfold beginTokenising at began
  split at began
  · cases began
  split at began
  · cases began
  split at began
  · cases began
  · cases began
    exact .inl rfl

/-- The first table holds a short line. -/
theorem not_refused {line count : Nat} {text : List UInt8} {state : Tokenising}
    (owns : Owns area begun memory []) (lineAt : LineAt area begun line text) (holds : memory.HoldsString line text)
    (few : (wordsOf text).length < lshTokBufsize) (after : tokenisingAfter area memory line count = some state) :
    ¬state.Refused area := by
  rintro ⟨goesOn, full, -⟩
  obtain ⟨first, began, turned⟩ := Option.bind_eq_some_iff.mp after
  have table := (beginTokenising_table began).turns turned
  rcases beginTokenising_splitting owns lineAt holds with ⟨_, _, _, _, also, splitting, -, -⟩ | ⟨-, none, -⟩
  · cases began.symm.trans also
    obtain ⟨stored, runs, index, room, last⟩ := splitting.turns lineAt turned
    obtain ⟨run, rfl, filled⟩ := last.stores lineAt goesOn
    have counted := filled.cut.before.length_le (maximalRuns_areRuns isWord text)
    have position : state.table.position + 1 = (stored ++ [run]).length := filled.position
    have full : state.table.bufsize ≤ state.table.position + 1 := full
    unfold wordsOf at few
    rw [List.length_map] at few
    rw [funext isWord_eq] at counted
    unfold FirstTable at table
    omega
  · rw [began] at none
    cases none

private theorem HoldsTokens.wordTable
    {initial : Memory} {line tokens room : Nat} {text : List UInt8} {runs : List (Nat × Nat)}
    (lineAt : LineAt area begun line text)
    (holds : HoldsTokens area begun initial line text runs tokens room memory) :
    HoldsWordTable memory tokens (wordsOf text) := by
  have all : runs = maximalRuns (fun c => !isDelim c) text := by
    rw [← funext isWord_eq]
    exact holds.all.unique (maximalRuns_areRuns isWord text)
  have fits := lineAt.fits
  have notNull := lineAt.notNull
  subst all
  constructor
  · intro index word found
    unfold wordsOf at found
    rw [List.getElem?_map, Option.map_eq_some_iff] at found
    obtain ⟨run, here, rfl⟩ := found
    have member := List.mem_of_getElem? here
    have bounded := ((holds.all.complete run).mp member).bounded
    refine ⟨line + run.1, ?_, ?_, holds.entries index run here, holds.cut run member⟩
    · unfold nullPointer at notNull ⊢
      omega
    · rw [List.length_take, List.length_drop]
      omega
  · unfold wordsOf
    rw [List.length_map]
    exact holds.last

/-- `lsh_split_line` on a short line for which there is room. -/
theorem lshSplitLine_short {line : Chunk} {text : List UInt8} (owns : Owns area begun memory [line])
    (holds : memory.HoldsString line.p text) (inside : text.length < line.size)
    (few : (wordsOf text).length < lshTokBufsize)
    (roomy : malloc area memory (lshTokBufsize * pointerSize) ≠ some (nullPointer, memory)) (screen : TextScreen) :
    ∃ args room changed, lshSplitLine area memory screen line.p = some (args, changed, screen) ∧ args ≠ nullPointer ∧
      HoldsWordTable changed args (wordsOf text) ∧ Owns area begun changed [⟨args, room⟩, line] := by
  have inArea := owns.inside (List.mem_singleton.mpr rfl)
  have fits := area.fits_literal
  obtain ⟨blocks, represents, chunks⟩ := owns
  obtain ⟨place, payload, -⟩ := chunks.placed line (List.mem_singleton.mpr rfl)
  have inUse : (place, line.size) ∈ usedPlaces 16 area.base blocks :=
    (chunks.places place line.size).mpr (.inr (by rw [← payload]; exact List.mem_singleton.mpr rfl))
  have lineAt : LineAt area blocks line.p text :=
    ⟨holds.proper, by unfold nullPointer; omega, by omega, .begun inUse (Nat.le_of_eq payload.symm) (by omega)⟩
  rcases lshSplitLine_returns (.begin represents) lineAt holds screen with
    ⟨-, refused⟩ | ⟨_, state, after, ⟨-, runs, room, changed, called, tokens⟩ | ⟨refused, -⟩⟩
  · exact absurd refused roomy
  · exact ⟨_, room, changed, called, tokens.notNull, tokens.wordTable lineAt, tokens.owns.rebase chunks⟩
  · exact absurd refused (not_refused (.begin represents) lineAt holds few after)

/-! The loop. -/

/-- The heap could serve the buffer and the table of a line from one free node. -/
def Roomy (area : Area) (memory : Memory) : Prop :=
  ∃ p whole, malloc area memory (lshRlBufsize + 16 + lshTokBufsize * pointerSize) = some (p, whole) ∧ p ≠ nullPointer

theorem Roomy.congr {changed : Memory} (represents : Represents area memory begun)
    (also : Represents area changed begun) (roomy : Roomy area memory) : Roomy area changed := by
  obtain ⟨p, whole, called, granted⟩ := roomy
  obtain ⟨q, other, _, calledAlso, _⟩ := @malloc_spec _ _ _ also (lshRlBufsize + 16 + lshTokBufsize * pointerSize)
    (by decide)
  refine ⟨q, other, calledAlso, fun null => granted ?_⟩
  exact (Owns.malloc_null_iff (.begin represents) (.begin also) (by decide) called calledAlso).mpr null

/-- One turn on a short line: the command line is performed, and the heap is as before. -/
theorem lshLoopTurn_line (represents : Represents area memory begun) (roomy : Roomy area memory) (desk : Desk)
    {typed : List Int} (line : ShortLine typed) (rest : List Int) {final : Desk} (performs : desk.line typed = some final) :
    ∃ changed, lshLoopTurn area (desk.on memory) (typed ++ newlineCode :: rest) =
        some (.again (final.on changed) rest) ∧ Represents area changed begun := by
  obtain ⟨p, whole, called, granted⟩ := roomy
  obtain ⟨buffer, room, read, calledRead, notNull, holds, owns, inside, more⟩ :=
    lshReadLine_short represents called granted (desk.print "> " []).screen line.keys line.short rest
  obtain ⟨args, tableRoom, split, calledSplit, tableNotNull, table, ownsBoth⟩ :=
    lshSplitLine_short owns holds inside line.few more
      (showCall (typed.foldl echo ((desk.print "> " []).screen, 0)).1 ⟨"\n", []⟩)
  have executed := lshExecute_on table { desk with
    screen := showCall (typed.foldl echo ((desk.print "> " []).screen, 0)).1 ⟨"\n", []⟩ }
  have performed : ({ desk with
      screen := showCall (typed.foldl echo ((desk.print "> " []).screen, 0)).1 ⟨"\n", []⟩ } : Desk).perform
      (wordsOf (typedBy typed).text) = some final := performs
  rw [performed] at executed
  have freed := ownsBoth.memFree.1.memFree.1.restored represents
  refine ⟨_, ?_, freed⟩
  unfold lshLoopTurn
  simp only [Option.bind_eq_bind]
  rw [show ((desk.on memory).print "> " []).memory = memory from rfl,
    show ((desk.on memory).print "> " []).screen = (desk.print "> " []).screen from rfl, calledRead]
  simp only [Option.bind_some, if_neg notNull]
  simp only [ShellState.print]
  rw [calledSplit]
  simp only [Option.bind_some, if_neg tableNotNull]
  simp only [Desk.on, Option.map_some] at executed ⊢
  rw [executed]
  rfl

/-- Line after line, the loop does what the interpreter does, on the disk and on the screen, and
keeps the heap as it was. -/
theorem lshLoopTurns_session (represents : Represents area memory begun) (roomy : Roomy area memory) (desk : Desk)
    {lines : List (List Int)} (short : ∀ typed ∈ lines, ShortLine typed) (rest : List Int) {final : Desk}
    (performs : desk.session lines = some final) :
    ∃ changed, lshLoopTurns area lines.length (desk.on memory) (keysOf lines ++ rest) =
        some (final.on changed, rest) ∧ Represents area changed begun := by
  induction lines generalizing desk memory with
  | nil =>
      cases performs
      exact ⟨memory, rfl, represents⟩
  | cons typed lines ih =>
      obtain ⟨middle, first, others⟩ := Option.bind_eq_some_iff.mp performs
      obtain ⟨changed, turned, still⟩ := lshLoopTurn_line represents roomy desk
        (short typed List.mem_cons_self) (keysOf lines ++ rest) first
      obtain ⟨last, finished, kept⟩ := ih still (roomy.congr represents still) middle
        (fun typed member => short typed (List.mem_cons_of_mem _ member)) others
      have keys : keysOf (typed :: lines) ++ rest = typed ++ newlineCode :: (keysOf lines ++ rest) := by
        simp [keysOf]
      refine ⟨last, ?_, kept⟩
      rw [keys, List.length_cons, lshLoopTurns, turned]
      exact finished

/-! The table of the files. -/

private theorem fsListFiles_disk (state : FsState) : (fsListFiles state).disk = state.disk := by
  have listed (slots : List Nat) (listed : FsState) : (slots.foldl (fun listed slot =>
      listed.kprintf "  %s (%d bytes)\n" [.text (state.disk.stringAt (DirEntry.address slot) 4294967296),
        .number (DirEntry.fileSize state.disk slot)]) listed).disk = listed.disk := by
    induction slots generalizing listed with
    | nil => rfl
    | cons slot slots ih => exact ih _
  unfold fsListFiles
  dsimp only
  split
  · exact listed _ _
  · exact listed _ _

section

variable {desk final : Desk} {dir : Directory}

/-- What a command does to the table of the files. -/
def obeyCommand (dir : Directory) (argument : Option CString) : Builtin → Directory
  | .touch => (argument.map fun name => dir.create name.bytes).getD dir
  | .del => (argument.map fun name => dir.delete name.bytes).getD dir
  | _ => dir

private theorem command_represents (stored : FileSystem.Represents desk.disk dir) {argument : Option CString}
    {builtin : Builtin} (performed : desk.command argument builtin = some final) :
    FileSystem.Represents final.disk (obeyCommand dir argument builtin) := by
  have help (names : List (String × Builtin)) (desk : Desk) :
      (names.foldl (fun desk builtin => desk.print "  %s\n" [.text (literal builtin.1)]) desk).disk = desk.disk := by
    induction names generalizing desk with
    | nil => rfl
    | cons name names ih => exact ih _
  cases builtin with
  | help =>
      rw [← Option.some.inj performed, Desk.help, help]
      exact stored
  | ls =>
      rw [← Option.some.inj performed]
      have same : (desk.onDisk fsListFiles).disk = desk.disk := fsListFiles_disk _
      rw [same]
      exact stored
  | touch =>
      cases argument with
      | none =>
          rw [← Option.some.inj performed]
          exact stored
      | some name =>
          rw [← Option.some.inj performed]
          exact (@FileSystem.Represents.fsCreateFile_performed ⟨desk.disk, []⟩ dir stored name).1.represents
  | del =>
      cases argument with
      | none =>
          rw [← Option.some.inj performed]
          exact stored
      | some name =>
          rw [← Option.some.inj performed]
          exact (@FileSystem.Represents.fsDeleteFile_performed ⟨desk.disk, []⟩ dir stored name).1.represents
  | edit =>
      cases argument with
      | none =>
          rw [← Option.some.inj performed]
          exact stored
      | some name => cases performed
  | clear =>
      rw [← Option.some.inj performed]
      exact stored
  | cat =>
      rw [← Option.some.inj performed]
      exact stored
  | ring3 => cases performed
  | ring3Shell => cases performed
  | shutdown => cases performed

private theorem builtins_touch_del : ∀ builtin ∈ builtins,
    (literal builtin.1 = literal "touch" ↔ builtin.2 = .touch) ∧
      (literal builtin.1 = literal "del" ↔ builtin.2 = .del) := by decide

private theorem builtins_has :
    (∃ builtin ∈ builtins, builtin.1 = "touch") ∧ ∃ builtin ∈ builtins, builtin.1 = "del" := by decide

/-- The words decide what becomes of the table. -/
theorem obey_eq {name : List UInt8} {arguments : List (List UInt8)} (proper : ∀ word ∈ arguments, 0 ∉ word) :
    obey dir (name :: arguments) =
      match builtins.find? fun builtin => name = literal builtin.1 with
      | some builtin => obeyCommand dir (arguments.head?.map cString) builtin.2
      | none => dir := by
  cases arguments with
  | nil =>
      cases builtins.find? fun builtin => name = literal builtin.1 with
      | none => rfl
      | some builtin =>
          obtain ⟨text, command⟩ := builtin
          cases command <;> rfl
  | cons argument others =>
      have bytes := cString_bytes (proper argument List.mem_cons_self)
      cases found : builtins.find? fun builtin => name = literal builtin.1 with
      | none =>
          have different : ∀ builtin ∈ builtins, name ≠ literal builtin.1 := by simpa using found
          obtain ⟨⟨touch, inTouch, isTouch⟩, del, inDel, isDel⟩ := builtins_has
          rw [obey, if_neg (isTouch ▸ different touch inTouch), if_neg (isDel ▸ different del inDel)]
      | some builtin =>
          have member := List.mem_of_find?_eq_some found
          have named : name = literal builtin.1 := by simpa using List.find?_some found
          obtain ⟨isTouch, isDel⟩ := builtins_touch_del builtin member
          rw [obey, named, if_congr isTouch rfl rfl, if_congr isDel rfl rfl]
          obtain ⟨text, command⟩ := builtin
          cases command with
          | touch => exact congrArg dir.create bytes.symm
          | del => exact congrArg dir.delete bytes.symm
          | help | ls | edit | clear | cat | ring3 | ring3Shell | shutdown => rfl

private theorem perform_represents (stored : FileSystem.Represents desk.disk dir) {words : List (List UInt8)}
    (proper : ∀ word ∈ words, 0 ∉ word) (performs : desk.perform words = some final) :
    FileSystem.Represents final.disk (obey dir words) := by
  cases words with
  | nil =>
      cases performs
      exact stored
  | cons name arguments =>
      rw [obey_eq fun word member => proper word (List.mem_cons_of_mem _ member)]
      unfold Desk.perform at performs
      dsimp only at performs
      cases found : builtins.find? fun builtin => name = literal builtin.1 with
      | none =>
          rw [found] at performs
          cases performs
          exact stored
      | some builtin =>
          rw [found] at performs
          exact command_represents stored performs

private theorem wordsOf_proper {text : List UInt8} (proper : 0 ∉ text) : ∀ word ∈ wordsOf text, 0 ∉ word := by
  intro word member zero
  obtain ⟨run, -, rfl⟩ := List.mem_map.mp member
  exact proper (List.mem_of_mem_drop (List.mem_of_mem_take zero))

private theorem typedBy_proper {codes : List Int} (keys : ∀ c ∈ codes, IsKey c) : 0 ∉ (typedBy codes).text := by
  have folded (codes : List Int) (typed : Typed) (proper : 0 ∉ typed.text) (keys : ∀ c ∈ codes, IsKey c) :
      0 ∉ (codes.foldl Typed.key typed).text := by
    induction codes generalizing typed with
    | nil => exact proper
    | cons c codes ih =>
        refine ih _ ?_ fun c member => keys c (List.mem_cons_of_mem _ member)
        have key := keys c List.mem_cons_self
        unfold Typed.key
        dsimp only
        split
        · exact fun member => proper (List.dropLast_subset _ member)
        · simp [proper, Ne.symm key.2.2]
  exact folded codes _ List.not_mem_nil keys

theorem session_represents (stored : FileSystem.Represents desk.disk dir) {lines : List (List Int)}
    (short : ∀ typed ∈ lines, ShortLine typed) (performs : desk.session lines = some final) :
    FileSystem.Represents final.disk ((lines.map fun typed => wordsOf (typedBy typed).text).foldl obey dir) := by
  induction lines generalizing desk dir with
  | nil =>
      cases performs
      exact stored
  | cons typed lines ih =>
      obtain ⟨middle, first, others⟩ := Option.bind_eq_some_iff.mp performs
      have proper := wordsOf_proper (typedBy_proper (short typed List.mem_cons_self).keys)
      have next : FileSystem.Represents middle.disk (obey dir (wordsOf (typedBy typed).text)) := by
        refine perform_represents ?_ proper first
        exact stored
      exact ih next (fun typed member => short typed (List.mem_cons_of_mem _ member)) others

end

/-- From any heap with a free node of 1296 bytes and any file system, the shell's loop serves
short lines without end: it performs them one after the other, each on the words that were left
after the backspaces, and gives back what it took from the heap. -/
theorem lsh_loop_interprets (area : Area) (memory : Memory) (calls : List HeapCall) (heap : HeapState)
    (reached : Run (HeapStep area) (initialHeap area memory) calls heap) (roomy : Roomy area heap.memory)
    (fs : FsState) (fsCalls : List FsCall) (screen : TextScreen) (kernelStack : Memory) (buf : Nat)
    (lines : List (List Int)) (short : ∀ typed ∈ lines, ShortLine typed) (rest : List Int) (final : Desk)
    (performs : Desk.session ⟨(fsRun (fsInit fs) fsCalls).disk, screen, kernelStack, buf⟩ lines = some final) :
    ∃ changed list, lshLoopTurns area lines.length
        ⟨heap.memory, (fsRun (fsInit fs) fsCalls).disk, screen, kernelStack, buf⟩ (keysOf lines ++ rest) =
        some (final.on changed, rest) ∧
      NodeList area heap.memory list ∧ NodeList area changed list ∧
      FileSystem.Represents final.disk
        ((lines.map fun typed => wordsOf (typedBy typed).text).foldl obey (Directory.empty.afterAll fsCalls)) := by
  obtain ⟨begun, invariant⟩ := heapInvariant_of_run reached
  obtain ⟨changed, turned, kept⟩ := lshLoopTurns_session invariant.represents roomy
    ⟨(fsRun (fsInit fs) fsCalls).disk, screen, kernelStack, buf⟩ short rest performs
  exact ⟨changed, _, turned, invariant.nodeList, kept.nodeList,
    @session_represents ⟨(fsRun (fsInit fs) fsCalls).disk, screen, kernelStack, buf⟩ final _
      (reachable_represents fs fsCalls) lines short performs⟩

/-- `touch a`, then `del b` with a slip that is taken back, on an empty disk. -/
def exampleLines : List (List Int) := [[116, 111, 117, 99, 104, 32, 97], [100, 101, 120, 8, 108, 32, 98]]

private theorem exampleLines_words : exampleLines.map (fun typed => wordsOf (typedBy typed).text) =
    [[literal "touch", [97]], [literal "del", [98]]] := by decide

theorem exampleLines_short : ∀ typed ∈ exampleLines, ShortLine typed := by
  intro typed member
  simp only [exampleLines, List.mem_cons, List.not_mem_nil, or_false] at member
  rcases member with rfl | rfl <;> exact ⟨by decide, by decide, by decide⟩

theorem exampleLines_performs (desk : Desk) : ∃ final, desk.session exampleLines = some final := by
  have touch : builtins.find? (fun builtin => literal "touch" = literal builtin.1) = some ("touch", .touch) := by decide
  have del : builtins.find? (fun builtin => literal "del" = literal builtin.1) = some ("del", .del) := by decide
  have words := exampleLines_words
  simp only [exampleLines, List.map_cons, List.map_nil, List.cons.injEq, and_true] at words
  unfold Desk.session exampleLines
  simp only [List.foldlM_cons, List.foldlM_nil, Desk.line, words.1, words.2, Desk.perform, touch, del, Desk.command, List.head?_cons, Option.map_some,
    Option.bind_eq_bind, Option.bind_some]
  exact ⟨_, rfl⟩

theorem exampleLines_obey : (exampleLines.map fun typed => wordsOf (typedBy typed).text).foldl obey
    (Directory.empty.afterAll []) = (Directory.empty.create [97]).delete [98] := by
  rw [exampleLines_words, List.foldl_cons, List.foldl_cons, List.foldl_nil, obey, if_pos rfl, obey,
    if_neg (by decide), if_pos rfl]
  rfl

theorem exampleHeap_roomy : Roomy exampleArea exampleHeap.memory := by
  obtain ⟨p, whole, _, called, result⟩ := malloc_spec (initDynamicMem_represents exampleArea fun _ => 0)
    (show lshRlBufsize + 16 + lshTokBufsize * pointerSize < 4294967296 by decide)
  exact ⟨p, whole, called, fun null => absurd (result.null_iff.mp null _ List.mem_cons_self rfl) (by decide)⟩

theorem lsh_loop_interprets_touch : ∃ final changed list,
    lshLoopTurns exampleArea 2 ⟨exampleHeap.memory, (fsInit blankState).disk, ⟨fun _ => 0, 0, []⟩, fun _ => 0, 0⟩
        (keysOf exampleLines) = some (Desk.on final changed, []) ∧
      NodeList exampleArea exampleHeap.memory list ∧ NodeList exampleArea changed list ∧
      FileSystem.Represents final.disk ((Directory.empty.create [97]).delete [98]) := by
  obtain ⟨final, performs⟩ := exampleLines_performs
    ⟨(fsRun (fsInit blankState) []).disk, ⟨fun _ => 0, 0, []⟩, fun _ => 0, 0⟩
  obtain ⟨changed, list, turned, before, after, stored⟩ := lsh_loop_interprets exampleArea (fun _ => 0) [] exampleHeap
    .nil exampleHeap_roomy blankState [] ⟨fun _ => 0, 0, []⟩ (fun _ => 0) 0 exampleLines exampleLines_short [] final performs
  rw [List.append_nil] at turned
  rw [exampleLines_obey] at stored
  exact ⟨final, changed, list, turned, before, after, stored⟩

end ShedKernel.Shell
