import ShedKernel.Console.CellProperties
import ShedKernel.Shell.LineProperties

/-! What `lsh_read_line` makes of the codes in front of a newline: the string that it
returns, and the cells from the starting cursor on after every code. -/

set_option autoImplicit false

namespace ShedKernel.Shell

open Foundation BlockList Heap Console

/-! Line editing. -/

/-- The characters typed and not taken back, and the most that there have been so far. -/
structure Typed where
  text : List UInt8
  longest : Nat
  bounded : text.length ≤ longest

def Typed.key (typed : Typed) (c : Int) : Typed where
  text := if c = backspaceCode then typed.text.dropLast else typed.text ++ [charOf c]
  longest := if c = backspaceCode then typed.longest else max typed.longest (typed.text.length + 1)
  bounded := by
    have bounded := typed.bounded
    split
    · rw [List.length_dropLast]
      omega
    · rw [List.length_append, List.length_singleton]
      exact Nat.le_max_right ..

def typedBy (codes : List Int) : Typed := codes.foldl Typed.key ⟨[], 0, Nat.le_refl _⟩

/-- Neither a newline nor a code that the keyboard driver never pushes. -/
def IsKey (c : Int) : Prop := c ≠ newlineCode ∧ c ≠ eofCode ∧ charOf c ≠ 0

instance (c : Int) : Decidable (IsKey c) := inferInstanceAs (Decidable (_ ∧ _ ∧ _))

theorem Typed.longest_le (codes : List Int) (typed : Typed) :
    typed.longest ≤ (codes.foldl Typed.key typed).longest := by
  induction codes generalizing typed with
  | nil => exact Nat.le_refl _
  | cons c codes ih =>
      refine Nat.le_trans ?_ (ih (typed.key c))
      simp only [Typed.key]
      split
      · exact Nat.le_refl _
      · exact Nat.le_max_left ..

/-! The turns of the loop. -/

/-- The loop of `lsh_read_line` between two codes. -/
structure Reading where
  memory : Memory
  screen : TextScreen
  line : LineBuffer

/-- `malloc` and the local variables; `none` if there is no buffer. -/
def beginReading (area : Area) (memory : Memory) (screen : TextScreen) : Option Reading :=
  match malloc area memory lshRlBufsize with
  | none => none
  | some (buffer, memory) =>
      if buffer = nullPointer then none else some ⟨memory, screen, ⟨buffer, lshRlBufsize, 0⟩⟩

namespace Reading

def takeBack (state : Reading) : Reading :=
  { state with
    screen := syscallBackspace state.screen
    line := { state.line with position := state.line.position - 1 } }

/-- The echo, and `buffer[position++] = (char)c`. -/
def typeChar (state : Reading) (c : Int) : Reading where
  memory := state.memory.storeByte (state.line.buffer + state.line.position) (charOf c)
  screen := put state.screen (charOf c)
  line := { state.line with position := state.line.position + 1 }

def grow (area : Area) (state : Reading) : Option (Nat × Memory) :=
  realloc area state.memory state.line.buffer (state.line.bufsize + lshRlBufsize)

/-- One turn; `none` if the call returns. -/
def turn (area : Area) (state : Reading) (c : Int) : Option Reading :=
  if c = backspaceCode then
    if 0 < state.line.position then some state.takeBack else some state
  else if c = eofCode ∨ c = newlineCode then none
  else
    let typed := state.typeChar c
    if typed.line.bufsize ≤ typed.line.position then
      match typed.grow area with
      | none => none
      | some (newbuf, memory) =>
          if newbuf = nullPointer then none
          else some ⟨memory, typed.screen, ⟨newbuf, typed.line.bufsize + lshRlBufsize, typed.line.position⟩⟩
    else some typed

def turns (area : Area) (state : Reading) (codes : List Int) : Option Reading := codes.foldlM (turn area) state

/-- The rest of the loop. -/
def rest (area : Area) (state : Reading) (codes : List Int) : Option (Nat × Memory × TextScreen × List Int) :=
  readKeys area state.memory state.screen state.line codes

/-- The character fills the buffer, and the buffer does not grow. -/
def Refused (area : Area) (state : Reading) (c : Int) : Prop :=
  c ≠ backspaceCode ∧ (state.typeChar c).line.bufsize ≤ (state.typeChar c).line.position ∧
    ∃ memory, (state.typeChar c).grow area = some (nullPointer, memory)

end Reading

/-- The loop once it has read `codes`; `none` if an allocation failed before. -/
def readingAfter (area : Area) (memory : Memory) (screen : TextScreen) (codes : List Int) : Option Reading :=
  (beginReading area memory screen).bind fun state => state.turns area codes

namespace Reading

variable {area : Area} {state next : Reading} {c : Int} {codes : List Int}

theorem turn_backspace (area : Area) (state : Reading) : state.turn area backspaceCode =
    if 0 < state.line.position then some state.takeBack else some state := if_pos rfl

theorem turn_of_ne (area : Area) (state : Reading) (notBack : c ≠ backspaceCode) (key : IsKey c) :
    state.turn area c =
      if (state.typeChar c).line.bufsize ≤ (state.typeChar c).line.position then
        match (state.typeChar c).grow area with
        | none => none
        | some (newbuf, memory) =>
            if newbuf = nullPointer then none
            else some ⟨memory, (state.typeChar c).screen,
              ⟨newbuf, (state.typeChar c).line.bufsize + lshRlBufsize, (state.typeChar c).line.position⟩⟩
      else some (state.typeChar c) := by
  have goesOn : ¬(c = eofCode ∨ c = newlineCode) := not_or.mpr ⟨key.2.1, key.1⟩
  rw [turn, if_neg notBack, if_neg goesOn]

/-- After a turn that goes on, the loop reads the other codes. -/
theorem rest_of_turn (turned : state.turn area c = some next) (codes : List Int) :
    state.rest area (c :: codes) = next.rest area codes := by
  unfold turn at turned
  unfold rest
  rw [readKeys]
  by_cases back : c = backspaceCode
  · rw [if_pos back] at turned ⊢
    split at turned
    · next typed =>
        cases turned
        rw [if_pos typed]
        rfl
    · next empty =>
        cases turned
        rw [if_neg empty]
  rw [if_neg back] at turned ⊢
  by_cases ends : c = eofCode ∨ c = newlineCode
  · rw [if_pos ends] at turned
    cases turned
  rw [if_neg ends] at turned ⊢
  simp only at turned ⊢
  by_cases full : state.line.bufsize ≤ state.line.position + 1
  · rw [if_pos full]
    rw [if_pos (show (state.typeChar c).line.bufsize ≤ (state.typeChar c).line.position from full)] at turned
    cases called : (state.typeChar c).grow area with
    | none =>
        rw [called] at turned
        cases turned
    | some grown =>
        obtain ⟨newbuf, memory⟩ := grown
        rw [called] at turned
        unfold grow typeChar at called
        rw [called]
        by_cases null : newbuf = nullPointer
        · simp [null] at turned
        · simp only [if_neg null] at turned ⊢
          cases turned
          rfl
  · rw [if_neg full]
    rw [if_neg (show ¬(state.typeChar c).line.bufsize ≤ (state.typeChar c).line.position from full)] at turned
    cases turned
    rfl

theorem rest_of_turns (turned : state.turns area codes = some next) (later : List Int) :
    state.rest area (codes ++ later) = next.rest area later := by
  induction codes generalizing state with
  | nil =>
      cases turned
      rfl
  | cons c codes ih =>
      obtain ⟨middle, first, others⟩ := Option.bind_eq_some_iff.mp turned
      exact (rest_of_turn first (codes ++ later)).trans (ih others)

private theorem turns_append (done left : List Int) :
    state.turns area (done ++ left) = (state.turns area done).bind fun next => next.turns area left :=
  List.foldlM_append

theorem Refused.turn (refused : state.Refused area c) (key : IsKey c) : state.turn area c = none := by
  obtain ⟨notBack, full, memory, called⟩ := refused
  rw [turn_of_ne area state notBack key, if_pos full, called]
  exact if_pos rfl

theorem Refused.turns {done left : List Int} (refused : next.Refused area c) (key : IsKey c)
    (reached : state.turns area done = some next) : state.turns area (done ++ c :: left) = none := by
  rw [turns_append, reached]
  show (c :: left).foldlM (Reading.turn area) next = none
  rw [List.foldlM_cons, refused.turn key]
  rfl

/-- Then the buffer is freed. -/
theorem Refused.rest (refused : state.Refused area c) (key : IsKey c) (codes : List Int) :
    ∃ memory, (state.typeChar c).grow area = some (nullPointer, memory) ∧
      state.rest area (c :: codes) = some (nullPointer, memFree memory state.line.buffer,
        kprintfText (state.typeChar c).screen "allocation error: realloc failed\n", codes) := by
  obtain ⟨notBack, full, memory, called⟩ := refused
  have goesOn : ¬(c = eofCode ∨ c = newlineCode) := not_or.mpr ⟨key.2.1, key.1⟩
  refine ⟨memory, called, ?_⟩
  unfold typeChar grow at called
  unfold typeChar at full ⊢
  unfold Reading.rest
  rw [readKeys, if_neg notBack, if_neg goesOn]
  simp only at full called ⊢
  rw [if_pos full, called]
  exact if_pos rfl

end Reading

/-! The buffer and the screen at the beginning of a turn. -/

/-- The screen shows the text from the starting cursor on, and blanks where there has been
more of it. -/
structure ShowsTyped (start : TextScreen) (typed : Typed) (screen : TextScreen) : Prop where
  cursor : screen.currentLoc = start.currentLoc + 2 * typed.text.length
  cells : ∀ index, index < typed.longest →
    ShowsAt screen.video (start.currentLoc + 2 * index) (typed.text.getD index space)
  kept : ∀ place, place < start.currentLoc ∨ start.currentLoc + 2 * typed.longest ≤ place →
    screen.video place = start.video place

/-- The buffer is a block of the call's own, and its first bytes are the text. -/
structure HoldsTyped (area : Area) (begun : List Block) (initial : Memory) (typed : Typed) (state : Reading)
    (room : Nat) : Prop where
  owns : Owns area begun state.memory [⟨state.line.buffer, room⟩]
  space : state.line.bufsize ≤ room
  untouched : Untouched area begun [] initial state.memory
  position : state.line.position = typed.text.length
  bytes : ∀ index, index < typed.text.length → state.memory (state.line.buffer + index) = typed.text.getD index 0
  proper : 0 ∉ typed.text

variable {area : Area} {begun : List Block} {memory : Memory} {start : TextScreen} {typed : Typed} {state : Reading}
  {room : Nat} {c : Int}

private theorem Typed.text_of_ne (typed : Typed) (notBack : c ≠ backspaceCode) :
    (typed.key c).text = typed.text ++ [charOf c] := if_neg notBack

theorem Typed.longest_of_ne (typed : Typed) (notBack : c ≠ backspaceCode) :
    (typed.key c).longest = max typed.longest (typed.text.length + 1) := if_neg notBack

/-! A text with one character more or less, with a default behind it. -/

section Characters

variable {text : List UInt8} {index : Nat} {blank : UInt8}

private theorem getD_snoc_of_ne (c : UInt8) (different : index ≠ text.length) :
    (text ++ [c]).getD index blank = text.getD index blank := by
  cases Nat.lt_or_gt_of_ne different with
  | inl inside => exact List.getD_append _ _ _ _ inside
  | inr beyond =>
      rw [List.getD_eq_default _ _ (Nat.le_of_lt beyond), List.getD_eq_default]
      rw [List.length_append, List.length_singleton]
      exact beyond

private theorem getD_snoc_length (c : UInt8) : (text ++ [c]).getD text.length blank = c := by
  rw [List.getD_append_right _ _ _ _ (Nat.le_refl _), Nat.sub_self]
  rfl

private theorem getD_dropLast_of_ne (different : index ≠ text.length - 1) :
    text.dropLast.getD index blank = text.getD index blank := by
  have length := @List.length_dropLast _ text
  cases Nat.lt_or_gt_of_ne different with
  | inl inside =>
      rw [List.getD_eq_getElem _ _ (by omega), List.getD_eq_getElem _ _ (by omega), List.getElem_dropLast]
  | inr beyond => rw [List.getD_eq_default _ _ (by omega), List.getD_eq_default _ _ (by omega)]

end Characters

/-! The screen. -/

namespace ShowsTyped

variable {screen : TextScreen}

theorem put (shows : ShowsTyped start typed screen) (notBack : c ≠ backspaceCode)
    (fits : start.currentLoc + 2 * (typed.key c).longest < 4294967296) :
    ShowsTyped start (typed.key c) (Console.put screen (charOf c)) := by
  have bounded := typed.bounded
  have longest := typed.longest_of_ne notBack
  have text := typed.text_of_ne notBack
  have cursor := shows.cursor
  obtain ⟨moved, stored⟩ := @put_of_lt screen (by omega) (charOf c)
  refine ⟨?_, fun index inside => ?_, fun place outside => ?_⟩
  · rw [moved, text, List.length_append, List.length_singleton]
    omega
  · rw [stored, text, cursor]
    by_cases last : index = typed.text.length
    · rw [last, getD_snoc_length]
      exact storeCell_shows ..
    · rw [getD_snoc_of_ne _ last]
      exact (shows.cells index (by omega)).storeCell (by omega)
  · rw [stored, storeCell_of_outside (by omega)]
    exact shows.kept place (by omega)

theorem takeBack (shows : ShowsTyped start typed screen) (nonempty : 0 < typed.text.length)
    (fits : start.currentLoc + 2 * typed.longest < 4294967296) :
    ShowsTyped start (typed.key backspaceCode) (syscallBackspace screen) := by
  have bounded := typed.bounded
  have longest : (typed.key backspaceCode).longest = typed.longest := rfl
  have cursor := shows.cursor
  obtain ⟨moved, stored⟩ := @syscallBackspace_of_lt screen (by omega) (by omega)
  refine ⟨?_, fun index inside => ?_, fun place outside => ?_⟩
  · show _ = start.currentLoc + 2 * typed.text.dropLast.length
    rw [moved, List.length_dropLast]
    omega
  · show ShowsAt _ _ (typed.text.dropLast.getD index space)
    rw [stored]
    by_cases last : index = typed.text.length - 1
    · have place : screen.currentLoc - 2 = start.currentLoc + 2 * index := by omega
      rw [place, List.getD_eq_default _ _ (by rw [List.length_dropLast]; omega)]
      exact storeCell_shows ..
    · rw [getD_dropLast_of_ne last]
      exact (shows.cells index inside).storeCell (by omega)
  · rw [stored, storeCell_of_outside (by omega)]
    exact shows.kept place outside

end ShowsTyped

/-! The buffer. -/

namespace HoldsTyped

variable {initial : Memory} (holds : HoldsTyped area begun initial typed state room)

include holds

theorem takeBack : HoldsTyped area begun initial (typed.key backspaceCode) state.takeBack room := by
  have length := @List.length_dropLast _ typed.text
  refine ⟨holds.owns, holds.space, holds.untouched, ?_, ?_, ?_⟩
  · show state.line.position - 1 = typed.text.dropLast.length
    rw [holds.position, length]
  · intro index inside
    have inside : index < typed.text.dropLast.length := inside
    show state.memory _ = typed.text.dropLast.getD index 0
    rw [getD_dropLast_of_ne (by omega)]
    exact holds.bytes index (by omega)
  · exact fun member => holds.proper (List.dropLast_subset _ member)

theorem typeChar (notBack : c ≠ backspaceCode) (nonzero : charOf c ≠ 0)
    (free : state.line.position < state.line.bufsize) :
    HoldsTyped area begun initial (typed.key c) (state.typeChar c) room := by
  have text := typed.text_of_ne notBack
  have position := holds.position
  have space := holds.space
  have same : ∀ other, other < state.line.buffer ∨ state.line.buffer + room ≤ other →
      (state.typeChar c).memory other = state.memory other :=
    fun other outside => Memory.storeByte_of_ne (by omega)
  have owned := holds.owns.store same
  refine ⟨owned.1, holds.space, holds.untouched.trans owned.2, ?_, ?_, ?_⟩
  · show state.line.position + 1 = _
    rw [text, List.length_append, position]
    rfl
  · intro index inside
    rw [text, List.length_append, List.length_singleton] at inside
    rw [text]
    show (state.memory.storeByte (state.line.buffer + state.line.position) (charOf c))
      (state.line.buffer + index) = _
    by_cases last : index = typed.text.length
    · rw [last, getD_snoc_length, ← position]
      exact Memory.storeByte_self ..
    · rw [getD_snoc_of_ne _ last, Memory.storeByte_of_ne (by omega)]
      exact holds.bytes index (by omega)
  · rw [text]
    simp [holds.proper, Ne.symm nonzero]

/-- The buffer grows, or it stays as it is. -/
theorem grow (bounded : state.line.position ≤ state.line.bufsize) :
    ∃ newbuf memory, state.grow area = some (newbuf, memory) ∧
      ((newbuf = nullPointer ∧ memory = state.memory) ∨
        newbuf ≠ nullPointer ∧ ∃ newRoom, HoldsTyped area begun initial typed
          ⟨memory, state.screen, ⟨newbuf, state.line.bufsize + lshRlBufsize, state.line.position⟩⟩ newRoom) := by
  have inArea := holds.owns.inside (List.mem_singleton.mpr rfl)
  have fits := area.fits_literal
  have space := holds.space
  have position := holds.position
  have small : state.line.bufsize + lshRlBufsize < 4294967296 := by
    unfold lshRlBufsize
    simp only at inArea
    omega
  obtain ⟨newbuf, changed, called, untouched, result⟩ := holds.owns.realloc (Nat.succ_pos _) small
  refine ⟨newbuf, changed, called, ?_⟩
  cases result with
  | inl refused => exact .inl refused
  | inr grown =>
      obtain ⟨notNull, newRoom, enough, _, moved, copied⟩ := grown
      refine .inr ⟨notNull, newRoom, moved, enough, holds.untouched.trans untouched, position,
        fun index inside => ?_, holds.proper⟩
      exact (copied index (by simp only; omega)).trans (holds.bytes index inside)

end HoldsTyped

/-! The turns. -/

/-- What holds whenever the loop waits for a code. -/
structure Typing (area : Area) (begun : List Block) (initial : Memory) (start : TextScreen) (typed : Typed)
    (state : Reading) : Prop where
  holds : ∃ room, HoldsTyped area begun initial typed state room
  free : state.line.position < state.line.bufsize
  shows : ShowsTyped start typed state.screen

namespace Typing

variable {initial : Memory}

theorem turn_backspace (typing : Typing area begun initial start typed state)
    (fits : start.currentLoc + 2 * typed.longest < 4294967296) :
    ∃ next, state.turn area backspaceCode = some next ∧
      Typing area begun initial start (typed.key backspaceCode) next := by
  obtain ⟨room, holds⟩ := typing.holds
  have free := typing.free
  have position := holds.position
  rw [Reading.turn_backspace]
  by_cases nonempty : 0 < state.line.position
  · rw [if_pos nonempty]
    exact ⟨_, rfl, ⟨room, holds.takeBack⟩, Nat.lt_of_le_of_lt (Nat.sub_le ..) free,
      typing.shows.takeBack (by omega) fits⟩
  · rw [if_neg nonempty]
    have empty : typed.text = [] := List.eq_nil_of_length_eq_zero (by omega)
    have same : typed.key backspaceCode = typed := by
      obtain ⟨text, longest, bounded⟩ := typed
      simp only at empty
      subst empty
      rfl
    rw [same]
    exact ⟨_, rfl, typing⟩

private theorem turn_char (typing : Typing area begun initial start typed state) (key : IsKey c)
    (notBack : c ≠ backspaceCode) (fits : start.currentLoc + 2 * (typed.key c).longest < 4294967296) :
    (∃ next, state.turn area c = some next ∧ Typing area begun initial start (typed.key c) next) ∨
      state.Refused area c := by
  obtain ⟨room, holds⟩ := typing.holds
  have stored := holds.typeChar notBack key.2.2 typing.free
  have shows := typing.shows.put notBack fits
  rw [Reading.turn_of_ne area state notBack key]
  by_cases full : (state.typeChar c).line.bufsize ≤ (state.typeChar c).line.position
  · rw [if_pos full]
    obtain ⟨newbuf, memory, called, result⟩ := stored.grow typing.free
    rw [called]
    cases result with
    | inl refused => exact .inr ⟨notBack, full, memory, by rw [called, refused.1]⟩
    | inr grown =>
        obtain ⟨notNull, newRoom, moved⟩ := grown
        refine .inl ⟨_, if_neg notNull, ⟨newRoom, moved⟩, ?_, shows⟩
        have bounded : (state.typeChar c).line.position ≤ (state.typeChar c).line.bufsize := typing.free
        simp only [lshRlBufsize]
        omega
  · rw [if_neg full]
    exact .inl ⟨_, rfl, ⟨room, stored⟩, Nat.lt_of_not_le full, shows⟩

theorem turn (typing : Typing area begun initial start typed state) (key : IsKey c)
    (fits : start.currentLoc + 2 * (typed.key c).longest < 4294967296) :
    (∃ next, state.turn area c = some next ∧ Typing area begun initial start (typed.key c) next) ∨
      state.Refused area c := by
  by_cases back : c = backspaceCode
  · subst back
    exact .inl (typing.turn_backspace fits)
  · exact typing.turn_char key back fits

/-- The turns over all the codes, or those up to the one at which the buffer does not grow. -/
theorem turns {codes : List Int} (typing : Typing area begun initial start typed state)
    (keys : ∀ c ∈ codes, IsKey c)
    (fits : start.currentLoc + 2 * (codes.foldl Typed.key typed).longest < 4294967296) :
    (∃ final, state.turns area codes = some final ∧
        Typing area begun initial start (codes.foldl Typed.key typed) final) ∨
      ∃ done c left final, codes = done ++ c :: left ∧ state.turns area done = some final ∧
        Typing area begun initial start (done.foldl Typed.key typed) final ∧ final.Refused area c := by
  induction codes generalizing typed state with
  | nil => exact .inl ⟨state, rfl, typing⟩
  | cons c codes ih =>
      have key := keys c List.mem_cons_self
      have later := Typed.longest_le codes (typed.key c)
      simp only [List.foldl_cons] at fits
      cases typing.turn key (by omega) with
      | inr refused => exact .inr ⟨[], c, codes, state, rfl, rfl, typing, refused⟩
      | inl goesOn =>
          obtain ⟨next, turned, nextTyping⟩ := goesOn
          have first (more : List Int) : state.turns area (c :: more) = next.turns area more := by
            unfold Reading.turns
            rw [List.foldlM_cons, turned]
            rfl
          cases ih nextTyping (fun c member => keys c (List.mem_cons_of_mem _ member)) fits with
          | inl all =>
              rw [first]
              exact .inl all
          | inr some =>
              obtain ⟨done, other, left, final, split, reached, finalTyping, refused⟩ := some
              refine .inr ⟨c :: done, other, left, final, congrArg (c :: ·) split, ?_, finalTyping, refused⟩
              rwa [first]

end Typing

/-! The whole call. -/

/-- What is in use elsewhere stays as it is. -/
def KeepsInUse (area : Area) (memory changed : Memory) : Prop :=
  ∀ place, InUse area memory place 1 → changed place = memory place

private theorem keepsInUse_of_untouched
    {own : List Chunk} {changed : Memory} (represents : Represents area memory begun)
    (untouched : Untouched area begun own memory changed) : KeepsInUse area memory changed :=
  fun _ inUse => untouched.kept (inUse.kept represents) Nat.zero_lt_one

/-- What can be seen of the call whenever it waits for a code. -/
structure ReadsInto (area : Area) (initial : Memory) (start : TextScreen) (typed : Typed) (state : Reading) : Prop where
  inUse : LiveBlock area state.memory state.line.buffer
  room : state.line.bufsize ≤ payloadSize state.memory state.line.buffer
  position : state.line.position = typed.text.length
  free : state.line.position < state.line.bufsize
  bytes : ∀ index, index < typed.text.length → state.memory (state.line.buffer + index) = typed.text.getD index 0
  shows : ShowsTyped start typed state.screen
  others : KeepsInUse area initial state.memory

private theorem Typing.readsInto {initial : Memory} (represents : Represents area initial begun)
    (typing : Typing area begun initial start typed state) : ReadsInto area initial start typed state := by
  obtain ⟨room, holds⟩ := typing.holds
  obtain ⟨live, size⟩ := holds.owns.liveBlock (List.mem_singleton.mpr rfl)
  simp only at live size
  exact ⟨live, size ▸ holds.space, holds.position, typing.free, holds.bytes, typing.shows,
    keepsInUse_of_untouched represents holds.untouched⟩

/-- What `lsh_read_line` returns for `typed`, a newline and `rest`. -/
inductive ReturnsTyped (area : Area) (memory : Memory) (start : TextScreen) (typed rest : List Int) :
    Option (Nat × Memory × TextScreen × List Int) → Prop where
  | noBuffer {shown : TextScreen} :
      malloc area memory lshRlBufsize = some (nullPointer, memory) →
      ReturnsTyped area memory start typed rest (some (nullPointer, memory, shown, typed ++ newlineCode :: rest))
  | line {state : Reading} {changed : Memory} :
      readingAfter area memory start typed = some state →
      changed.HoldsString state.line.buffer (typedBy typed).text →
      LiveBlock area changed state.line.buffer →
      KeepsInUse area memory changed →
      ReturnsTyped area memory start typed rest (some (state.line.buffer, changed, state.screen, rest))
  | refused {done left : List Int} {c : Int} {state : Reading} {changed : Memory} {shown : TextScreen} :
      typed = done ++ c :: left →
      readingAfter area memory start done = some state →
      state.Refused area c →
      usedBlocks area changed = usedBlocks area memory →
      KeepsInUse area memory changed →
      ReturnsTyped area memory start typed rest (some (nullPointer, changed, shown, left ++ newlineCode :: rest))

/-- The call ends up in the loop, or there is no buffer. -/
theorem beginReading_typing (owns : Owns area begun memory []) (screen : TextScreen) :
    (∃ state, beginReading area memory screen = some state ∧
        Typing area begun memory screen (typedBy []) state ∧
        ∀ codes, lshReadLine area memory screen codes = state.rest area codes) ∨
      malloc area memory lshRlBufsize = some (nullPointer, memory) ∧ beginReading area memory screen = none ∧
        ∀ codes, lshReadLine area memory screen codes =
          some (nullPointer, memory, kprintfText screen "allocation error: no buffer\n", codes) := by
  have small : lshRlBufsize < 4294967296 := by decide
  obtain ⟨buffer, changed, called, untouched, result⟩ := owns.malloc small
  unfold beginReading lshReadLine
  rw [called]
  cases result with
  | inl refused =>
      obtain ⟨rfl, rfl⟩ := refused
      exact .inr ⟨rfl, if_pos rfl, fun codes => if_pos rfl⟩
  | inr granted =>
      obtain ⟨notNull, room, enough, owned⟩ := granted
      refine .inl ⟨_, if_neg notNull, ⟨⟨room, owned, enough, untouched, rfl, ?_, ?_⟩, Nat.succ_pos _, rfl, ?_, ?_⟩,
        fun codes => if_neg notNull⟩
      · exact fun index inside => absurd inside (Nat.not_lt_zero index)
      · exact List.not_mem_nil
      · exact fun index inside => absurd inside (Nat.not_lt_zero index)
      · exact fun place outside => rfl

/-- The newline ends the string. -/
theorem Typing.returns {initial : Memory} (typing : Typing area begun initial start typed state)
    (codes : List Int) : ∃ changed room, state.rest area (newlineCode :: codes) =
        some (state.line.buffer, changed, state.screen, codes) ∧
      changed.HoldsString state.line.buffer typed.text ∧ Owns area begun changed [⟨state.line.buffer, room⟩] ∧
      Untouched area begun [] initial changed := by
  obtain ⟨room, holds⟩ := typing.holds
  have free := typing.free
  have space := holds.space
  have position := holds.position
  have same : ∀ other, other < state.line.buffer ∨ state.line.buffer + room ≤ other →
      state.memory.storeByte (state.line.buffer + state.line.position) 0 other = state.memory other :=
    fun other outside => Memory.storeByte_of_ne (by omega)
  have owned := holds.owns.store same
  refine ⟨_, room, rfl, ?_, owned.1, holds.untouched.trans owned.2⟩
  rw [position]
  refine Memory.HoldsString.bytes_iff.mpr ⟨holds.proper, fun index inside => ?_, Memory.storeByte_self ..⟩
  rw [Memory.storeByte_of_ne (by omega)]
  exact holds.bytes index inside

/-- A buffer that does not grow is freed. -/
theorem Typing.refuses {initial : Memory} (typing : Typing area begun initial start typed state) (key : IsKey c)
    (refused : state.Refused area c) (codes : List Int) :
    ∃ changed shown, state.rest area (c :: codes) = some (nullPointer, changed, shown, codes) ∧
      Owns area begun changed [] ∧ Untouched area begun [] initial changed := by
  obtain ⟨memory, called, returned⟩ := refused.rest key codes
  obtain ⟨room, holds⟩ := typing.holds
  have stored := holds.typeChar refused.1 key.2.2 typing.free
  obtain ⟨newbuf, other, also, result⟩ := stored.grow typing.free
  cases called.symm.trans also
  have same : memory = (state.typeChar c).memory := by
    cases result with
    | inl kept => exact kept.2
    | inr grown => exact absurd rfl grown.1
  have freed := stored.owns.memFree
  rw [← same] at freed
  exact ⟨_, _, returned, freed.1, (same ▸ stored.untouched).trans freed.2⟩

/-- `lsh_read_line` edits a line as the keys say, in its own buffer and on the screen. -/
theorem lsh_read_line_returns_typed (area : Area) (memory : Memory) (calls : List HeapCall) (heap : HeapState)
    (reached : Run (HeapStep area) (initialHeap area memory) calls heap) (screen : TextScreen)
    (typed rest : List Int) (keys : ∀ c ∈ typed, IsKey c)
    (unbounded : screen.currentLoc + 2 * (typedBy typed).longest < 4294967296) :
    ReturnsTyped area heap.memory screen typed rest
        (lshReadLine area heap.memory screen (typed ++ newlineCode :: rest)) ∧
      ∀ done left state, typed = done ++ left → readingAfter area heap.memory screen done = some state →
        ReadsInto area heap.memory screen (typedBy done) state ∧
        lshReadLine area heap.memory screen (typed ++ newlineCode :: rest) =
          state.rest area (left ++ newlineCode :: rest) := by
  obtain ⟨begun, invariant⟩ := heapInvariant_of_run reached
  have represents := invariant.represents
  rcases beginReading_typing (.begin represents) screen with ⟨first, began, typing, reads⟩ | ⟨called, none, returns⟩
  · have after (codes : List Int) : readingAfter area heap.memory screen codes = first.turns area codes := by
      rw [readingAfter, began]
      rfl
    rw [reads]
    constructor
    · rcases typing.turns keys unbounded with
        ⟨state, turned, last⟩ | ⟨done, c, left, state, split, turned, last, refused⟩
      · obtain ⟨changed, room, returned, holds, owned, untouched⟩ := last.returns rest
        rw [Reading.rest_of_turns turned, returned]
        exact .line ((after typed).trans turned) holds (owned.liveBlock (List.mem_singleton.mpr rfl)).1
          (keepsInUse_of_untouched represents untouched)
      · have key : IsKey c := keys c (split ▸ by simp)
        obtain ⟨changed, shown, returned, owned, untouched⟩ := last.refuses key refused (left ++ newlineCode :: rest)
        have result : first.rest area (typed ++ newlineCode :: rest) =
            some (nullPointer, changed, shown, left ++ newlineCode :: rest) := by
          rw [split, List.append_assoc, Reading.rest_of_turns turned]
          exact returned
        rw [result]
        exact .refused split ((after done).trans turned) refused ((owned.usedBlocks_iff represents).mpr rfl)
          (keepsInUse_of_untouched represents untouched)
    · intro done left state split reached
      have turned := (after done).symm.trans reached
      have doneKeys : ∀ c ∈ done, IsKey c := fun c member => keys c (split ▸ List.mem_append_left _ member)
      have fewer : (typedBy done).longest ≤ (typedBy typed).longest := by
        rw [split, typedBy, typedBy, List.foldl_append]
        exact Typed.longest_le left _
      have doneFits : screen.currentLoc + 2 * (typedBy done).longest < 4294967296 := by omega
      refine ⟨?_, ?_⟩
      · rcases typing.turns doneKeys doneFits with
          ⟨final, also, last⟩ | ⟨before, c, after, final, doneSplit, also, last, refused⟩
        · cases turned.symm.trans also
          exact last.readsInto represents
        · have key : IsKey c := doneKeys c (doneSplit ▸ by simp)
          rw [doneSplit, refused.turns key also] at turned
          cases turned
      · rw [split, List.append_assoc]
        exact Reading.rest_of_turns turned _
  · constructor
    · rw [returns]
      exact .noBuffer called
    · intro done left state split reached
      rw [readingAfter, none] at reached
      cases reached

/-- `a`, a backspace, `b` and a newline on the empty heap. -/
theorem lsh_read_line_returns_typed_b :
    ReturnsTyped exampleArea (initDynamicMem exampleArea fun _ => 0) ⟨fun _ => 0, 0, []⟩ [97, 8, 98] []
        (lshReadLine exampleArea (initDynamicMem exampleArea fun _ => 0) ⟨fun _ => 0, 0, []⟩ [97, 8, 98, 10]) ∧
      ∀ done left state, [97, 8, 98] = done ++ left →
        readingAfter exampleArea (initDynamicMem exampleArea fun _ => 0) ⟨fun _ => 0, 0, []⟩ done = some state →
        ReadsInto exampleArea (initDynamicMem exampleArea fun _ => 0) ⟨fun _ => 0, 0, []⟩ (typedBy done) state ∧
        lshReadLine exampleArea (initDynamicMem exampleArea fun _ => 0) ⟨fun _ => 0, 0, []⟩ [97, 8, 98, 10] =
          state.rest exampleArea (left ++ [10]) :=
  lsh_read_line_returns_typed exampleArea (fun _ => 0) [] (initialHeap exampleArea fun _ => 0) .nil
    ⟨fun _ => 0, 0, []⟩ [97, 8, 98] [] (by decide) (by decide)

end ShedKernel.Shell
