import ShedKernel.Console.WriteProperties
import ShedKernel.Editor.CommandBufferProperties
import ShedKernel.Editor.CursorProperties
import ShedKernel.Editor.Refresh

/-! What `editorRefreshScreen` leaves on the screen. `kprintf` has no use for a precision, so
a row is not cut at the right edge, and a row that ends in front of the window is read behind
its end. -/

set_option autoImplicit false

namespace ShedKernel.Editor

open Foundation FileSystem Console

def Printable (text : List UInt8) : Prop := ∀ c ∈ text, 32 ≤ c ∧ c < 127

instance (text : List UInt8) : Decidable (Printable text) := inferInstanceAs (Decidable (∀ c ∈ text, _))

/-- The cursor is on the text, and nothing but printable characters can be drawn. -/
structure Displayable (E : EditorConfig) : Prop where
  cursor : E.CursorInRange
  screenrows : E.screenrows = 23
  screencols : E.screencols = 80
  rowoff : 0 ≤ E.rowoff
  coloff : 0 ≤ E.coloff
  printable : ∀ row ∈ E.rows, Printable row
  command : E.mode = .command → LineConsistent E ∧ Printable (commandText E)

/-- The character that belongs in a cell of the text area. -/
def cellText (E : EditorConfig) (y x : Nat) : UInt8 :=
  match E.rows[E.rowoff.toNat + y]? with
  | some row => row.getD (E.coloff.toNat + x) space
  | none => if x = 0 then byteOf '~' else space

def WelcomeLine (E : EditorConfig) (y : Nat) : Prop := E.rows = [] ∧ y = 7

/-- The screen shows the text. -/
structure Refreshed (E : EditorConfig) (before after : TextScreen) : Prop where
  onScreen : StoresOnly (Output.Within 0 screenSize) before after
  ownRow : ∀ y < 23, ∀ start stop, drawRows E before y = .ok start → editorDrawRow E start y = .ok stop →
    StoresOnly (Output.Within (lineSize * y) (lineSize * (y + 1))) start stop
  shows : ∀ y < 23, ∀ x < 80, ¬WelcomeLine E y →
    ShowsAt after.video (lineSize * y + bytesForEachElement * x) (cellText E y x)
  cursor : E.mode ≠ .command →
    0 ≤ E.cy - E.rowoff ∧ E.cy - E.rowoff < 23 ∧ 0 ≤ E.cx - E.coloff ∧ E.cx - E.coloff < 80 ∧
      after.currentLoc = cellOffset (E.cy - E.rowoff) (E.cx - E.coloff)

/-- Every row of a window reaches its left edge and ends at its right edge. -/
def RowsFit (rows : List (List UInt8)) (top left : Int) : Prop :=
  ∀ y < 23, ∀ row, rows[top.toNat + y]? = some row → left ≤ row.length ∧ row.length ≤ left + 80

/-- The start of a window of a size, moved no further than the cursor needs. -/
def windowStart (cursor start size : Int) : Int := max (min start cursor) (cursor - size + 1)

private theorem windowStart_eq {cursor start size : Int} (some : 0 < size) :
    windowStart cursor start size =
      if cursor < start then cursor else if start + size ≤ cursor then cursor - size + 1 else start := by
  unfold windowStart
  split_ifs <;> omega

/-- Where the window starts after the scroll. -/
theorem editorScroll_window {E : EditorConfig} (rows : 0 < E.screenrows) (cols : 0 < E.screencols) :
    editorScroll E = { E with
      rowoff := windowStart E.cy E.rowoff E.screenrows
      coloff := windowStart E.cx E.coloff E.screencols } := by
  rw [windowStart_eq rows, windowStart_eq cols]
  have taller : ¬E.cy + E.screenrows ≤ E.cy := by omega
  have wider : ¬E.cx + E.screencols ≤ E.cx := by omega
  by_cases up : E.cy < E.rowoff <;> by_cases down : E.rowoff + E.screenrows ≤ E.cy <;>
    by_cases left : E.cx < E.coloff <;> by_cases right : E.coloff + E.screencols ≤ E.cx <;>
    simp [editorScroll, up, down, left, right, taller, wider]

/-! Printing. -/

section Printing

variable {console : TextScreen} {text : CString} {bytes : List UInt8}

theorem Printable.drop (printable : Printable bytes) (count : Nat) : Printable (bytes.drop count) :=
  fun c member => printable c (List.mem_of_mem_drop member)

theorem Printable.stringOf (printable : Printable bytes) : (stringOf bytes).bytes = bytes := by
  apply List.takeWhile_eq_self_iff.mpr
  intro c member
  have low := (printable c member).1
  simp only [ne_eq, decide_eq_true_eq]
  rintro rfl
  exact absurd low (by decide)

theorem Printable.emits (printable : Printable text.bytes) (precision : Precision) :
    (Piece.string precision text).emits = puts text.bytes := by
  apply List.map_congr_left
  intro c member
  refine if_neg ?_
  rintro rfl
  exact absurd (printable _ member).1 (by decide)

/-- The precision changes nothing. -/
theorem kprintfFormat_string (printable : Printable text.bytes) (precision : Int) :
    kprintfFormat console "%.*s" [intArg precision, .string text] = (puts text.bytes).foldl emit console := by
  have emitted := kprintfEmits_pieces [.string (.star (UInt32.ofNat (precision % 4294967296).toNat)) text]
  have format : spell [.string (.star (UInt32.ofNat (precision % 4294967296).toNat)) text] = ascii "%.*s" := by
    rfl
  rw [format, List.flatMap_cons, List.flatMap_nil, List.append_nil, printable.emits] at emitted
  exact congrArg (fun emits => (Option.map (List.foldl emit console) emits).getD console) emitted

private theorem kprintfFormat_command (printable : Printable text.bytes) (precision : Int) :
    kprintfFormat console ":%.*s" [intArg precision, .string text] =
      (puts (byteOf ':' :: text.bytes)).foldl emit console := by
  have colon : byteOf ':' ≠ 0 ∧ byteOf ':' ≠ byteOf '%' := by decide
  have emitted := kprintfEmits_pieces
    [.literal (byteOf ':') colon, .string (.star (UInt32.ofNat (precision % 4294967296).toNat)) text]
  have format : spell [.literal (byteOf ':') colon,
      .string (.star (UInt32.ofNat (precision % 4294967296).toNat)) text] = ascii ":%.*s" := rfl
  rw [format, List.flatMap_cons, List.flatMap_cons, List.flatMap_nil, List.append_nil, printable.emits] at emitted
  exact congrArg (fun emits => (Option.map (List.foldl emit console) emits).getD console) emitted

end Printing

/-! A row of the file. -/

section FileRow

variable {E : EditorConfig} {console : TextScreen} {y : Nat} {row : List UInt8}

/-- A row of the window, printed up to its end. -/
def printedRow (E : EditorConfig) (console : TextScreen) (y : Nat) (row : List UInt8) : TextScreen :=
  kvgaClearToEol ((puts (row.drop E.coloff.toNat)).foldl emit (kvgaSetCursor console y 0)) y
    (min (row.length - E.coloff.toNat) 80 : Nat)

private theorem rowAt_of_some (displayable : Displayable E) (found : E.rows[E.rowoff.toNat + y]? = some row) :
    ¬E.numrows ≤ y + E.rowoff ∧ E.row (y + E.rowoff) = .ok row := by
  have top := displayable.rowoff
  obtain ⟨inside, rfl⟩ := List.getElem?_eq_some_iff.mp found
  have place : ((y : Int) + E.rowoff).toNat = E.rowoff.toNat + y := by omega
  have below : (y : Int) + E.rowoff < E.numrows := by
    unfold EditorConfig.numrows
    omega
  refine ⟨Int.not_le.mpr below, ?_⟩
  rw [EditorConfig.row, if_pos ⟨by omega, below⟩, place, List.getD_eq_getElem _ _ inside]

private theorem printable_of_some (displayable : Displayable E) (found : E.rows[E.rowoff.toNat + y]? = some row) :
    Printable row :=
  displayable.printable row (List.mem_of_getElem? found)

private theorem charsFrom_of_le (printable : Printable row) {start : Int} (nonneg : 0 ≤ start)
    (reaches : start ≤ row.length) :
    ∃ text : CString, charsFrom row start = .ok text ∧ text.bytes = row.drop start.toNat :=
  ⟨_, if_pos ⟨nonneg, reaches⟩, (printable.drop _).stringOf⟩

private theorem editorDrawRow_printed (displayable : Displayable E) (found : E.rows[E.rowoff.toNat + y]? = some row)
    (reaches : E.coloff ≤ row.length) : editorDrawRow E console y = .ok (printedRow E console y row) := by
  have left := displayable.coloff
  obtain ⟨inside, read⟩ := rowAt_of_some displayable found
  have printable := printable_of_some displayable found
  obtain ⟨text, chars, bytes⟩ := charsFrom_of_le printable left reaches
  have len : (if (80 : Int) < if (row.length : Int) - E.coloff < 0 then 0 else row.length - E.coloff then (80 : Int)
      else if (row.length : Int) - E.coloff < 0 then 0 else row.length - E.coloff) =
      (min (row.length - E.coloff.toNat) 80 : Nat) := by
    split_ifs <;> omega
  simp only [editorDrawRow, if_neg inside, read, chars, bind, Except.bind, pure, Except.pure,
    displayable.screencols, len]
  rw [kprintfFormat_string (bytes ▸ printable.drop _), bytes]
  rfl

/-- A row that ends in front of the window is read behind its end. -/
theorem editorDrawRow_behind (displayable : Displayable E) (found : E.rows[E.rowoff.toNat + y]? = some row)
    (short : row.length < E.coloff) : editorDrawRow E console y = .error (.characterOutOfRange E.coloff) := by
  obtain ⟨inside, read⟩ := rowAt_of_some displayable found
  have chars : charsFrom row E.coloff = _ := if_neg fun within => Int.not_le.mpr short within.2
  simp only [editorDrawRow, if_neg inside, read, chars, bind, Except.bind]

private theorem printedRow_writes (visible : y < 23) (reaches : E.coloff.toNat ≤ row.length)
    (fits : row.length ≤ E.coloff.toNat + 80) :
    Writes (160 * y) (row.drop E.coloff.toNat ++ List.replicate (80 - (row.length - E.coloff.toNat)) space)
      console (printedRow E console y row) := by
  have length := @List.length_drop _ E.coloff.toNat row
  have line : min (row.length - E.coloff.toNat) 80 = row.length - E.coloff.toNat := by omega
  have printed := @puts_writes_at console y 0 (row.drop E.coloff.toNat) (by omega) (by omega) (by omega)
  rw [Nat.mul_zero, Nat.add_zero] at printed
  refine printed.append ?_
  rw [length, printedRow, line]
  exact kvgaClearToEol_writes (by omega) (by omega)

/-- The character behind the right edge is stored in the next row. -/
theorem printedRow_overflows (visible : y < 23) (wide : E.coloff.toNat + 80 < row.length) :
    StoresSome (fun store => ∃ c, store = .character (160 * y + 160) c) console (printedRow E console y row) := by
  have length := @List.length_drop _ E.coloff.toNat row
  have start : (kvgaSetCursor console y 0).currentLoc = 160 * y := by
    have offset := @cellOffset_of_lt y 0 (by omega) (by omega)
    exact offset
  have stored := @puts_stores (kvgaSetCursor console y 0) (row.drop E.coloff.toNat) 80 (by omega) (by omega)
  rw [start] at stored
  have line : min (row.length - E.coloff.toNat) 80 = 80 := by omega
  rw [printedRow, line]
  exact stored.followed (kvgaClearToEol_writes (by omega) (Nat.le_refl _)).draws.stores.any

end FileRow

/-! Single characters, one column after the other. -/

section Columns

variable {console : TextScreen} {y x : Nat} {text : List UInt8}

private theorem writeChars_writes (row : y < 25) (fits : x + text.length ≤ 80) :
    Writes (160 * y + 2 * x) text console (writeChars console y x lightGrey text) := by
  induction text generalizing console x with
  | nil => exact .nil _ _
  | cons c text ih =>
      rw [List.length_cons] at fits
      have first := @kvgaWriteChar_writes console y x row (by omega) c
      have rest := @ih (kvgaWriteChar console y x c lightGrey) (x + 1) (by omega)
      exact first.append rest

private theorem writeChars_draws (row : y < 25) (fits : x + text.length ≤ 80) (attr : UInt8) :
    Draws (160 * y + 2 * x) (160 * y + 2 * x + 2 * text.length) console (writeChars console y x attr text) := by
  induction text generalizing console x with
  | nil => exact .refl _ _ _
  | cons c text ih =>
      rw [List.length_cons] at fits ⊢
      have first := @kvgaWriteChar_draws console y x row (by omega) c attr
      have rest := @ih (kvgaWriteChar console y x c attr) (x + 1) (by omega)
      exact (first.mono (Nat.le_refl _) (by omega)).trans (rest.mono (by omega) (by omega))

end Columns

/-! A row past the end of the file. -/

section PastEnd

variable {E : EditorConfig} {console : TextScreen} {y : Nat}

private theorem row_none (displayable : Displayable E) (missing : E.rows[E.rowoff.toNat + y]? = none) :
    E.numrows ≤ y + E.rowoff := by
  have top := displayable.rowoff
  have past := List.getElem?_eq_none_iff.mp missing
  unfold EditorConfig.numrows
  omega

/-- A line past the end. -/
def tildeRow : List UInt8 := byteOf '~' :: List.replicate 79 space

private theorem tildeRow_length : tildeRow.length = 80 := by simp [tildeRow]

private theorem tildeRow_getD (x : Nat) : tildeRow.getD x space = if x = 0 then byteOf '~' else space := by
  cases x with
  | zero => rfl
  | succ x =>
      simp only [tildeRow, List.getD_eq_getElem?_getD, List.getElem?_cons_succ, List.getElem?_replicate]
      split <;> rfl

def welcomeText : List UInt8 := ascii "Shed v0.0.1  --  i=insert  :w=save  :q=quit"

private theorem welcomeText_eq :
    formatted "Shed v%s  --  i=insert  :w=save  :q=quit" [.string shedVersion] = welcomeText := by
  decide +kernel

private theorem welcomeText_length : welcomeText.length = 43 := by decide +kernel

private theorem welcomeText_printable : Printable welcomeText := by decide +kernel

private theorem drawWelcome_eq (displayable : Displayable E) :
    drawWelcome E console y = kvgaClearToEol ((puts welcomeText).foldl emit (kvgaSetCursor
      (writeChars (kvgaWriteChar console y 0 (byteOf '~') lightGrey) y 1 lightGrey (List.replicate 17 space))
      y 18)) y 61 := by
  have text := welcomeText_printable.stringOf
  simp only [drawWelcome, welcomeText_eq, displayable.screencols, welcomeText_length]
  rw [kprintfFormat_string (text.symm ▸ welcomeText_printable), text]
  rfl

private theorem drawWelcome_draws (displayable : Displayable E) (row : y < 25) :
    Draws (160 * y) (160 * y + 160) console (drawWelcome E console y) := by
  have length := welcomeText_length
  rw [drawWelcome_eq displayable]
  refine Draws.trans ?_ ((@kvgaClearToEol_writes _ y 61 row (by decide)).inRow (by decide))
  refine Draws.trans ?_ ((@puts_writes_at _ y 18 welcomeText row (by decide) (by omega)).inRow (by omega))
  refine Draws.trans ?_ ((@writeChars_writes _ y 1 (List.replicate 17 space) row (by decide)).inRow (by decide))
  exact (@kvgaWriteChar_writes _ y 0 row (by decide) _).inRow (by decide)

private theorem editorDrawRow_past (displayable : Displayable E) (visible : y < 23)
    (missing : E.rows[E.rowoff.toNat + y]? = none) (plain : ¬WelcomeLine E y) :
    ∃ after, editorDrawRow E console y = .ok after ∧
      Writes (160 * y) tildeRow console after := by
  have past := row_none displayable missing
  have notWelcome : ¬(E.numrows = 0 ∧ (y : Int) = E.screenrows.tdiv 3) := by
    rintro ⟨empty, line⟩
    rw [displayable.screenrows] at line
    have third : Int.tdiv 23 3 = 7 := rfl
    refine plain ⟨List.length_eq_zero_iff.mp ?_, by omega⟩
    unfold EditorConfig.numrows at empty
    omega
  have drawn : editorDrawRow E console y = .ok (kvgaClearToEol
      (kvgaWriteChar (kvgaSetCursor console y 0) y 0 (byteOf '~') lightGrey) y 1) := by
    simp only [editorDrawRow, if_pos past, if_neg notWelcome]
  refine ⟨_, drawn, ?_⟩
  have first := @kvgaWriteChar_writes (kvgaSetCursor console y 0) y 0 (by omega) (by omega) (byteOf '~')
  have rest := @kvgaClearToEol_writes (kvgaWriteChar (kvgaSetCursor console y 0) y 0 (byteOf '~') lightGrey) y 1
    (by omega) (by omega)
  exact (first.append rest).congr rfl rfl rfl rfl

private theorem editorDrawRow_welcome (displayable : Displayable E) (welcome : WelcomeLine E y) :
    editorDrawRow E console y = .ok (drawWelcome E (kvgaSetCursor console y 0) y) := by
  have top := displayable.rowoff
  obtain ⟨empty, rfl⟩ := welcome
  have numrows : E.numrows = 0 := by simp [EditorConfig.numrows, empty]
  have line : ((7 : Nat) : Int) = E.screenrows.tdiv 3 := by
    rw [displayable.screenrows]
    rfl
  simp only [editorDrawRow]
  rw [if_pos (by omega), if_pos ⟨numrows, line⟩]

end PastEnd

/-! Rows whose window fits. -/

section Window

variable {E : EditorConfig} {console after : TextScreen} {y : Nat}

/-- Padding with the default adds no character. -/
theorem getD_padded {α : Type} (row : List α) (start count index : Nat) (blank : α) :
    (row.drop start ++ List.replicate count blank).getD index blank = row.getD (start + index) blank := by
  have length := @List.length_drop _ start row
  simp only [List.getD_eq_getElem?_getD, List.getElem?_append, List.getElem?_drop, List.getElem?_replicate]
  split
  · rfl
  · rw [List.getElem?_eq_none (show row.length ≤ start + index by omega)]
    split <;> rfl

/-- A turn of the loop stays in its row and shows the row's characters. -/
theorem editorDrawRow_draws (displayable : Displayable E) (fit : RowsFit E.rows E.rowoff E.coloff)
    (visible : y < 23) : ∃ after, editorDrawRow E console y = .ok after ∧
      Draws (160 * y) (160 * y + 160) console after ∧
      ∀ x < 80, ¬WelcomeLine E y → ShowsAt after.video (160 * y + 2 * x) (cellText E y x) := by
  have left := displayable.coloff
  cases found : E.rows[E.rowoff.toNat + y]? with
  | some row =>
      obtain ⟨reaches, ends⟩ := fit y visible row found
      have length := @List.length_drop _ E.coloff.toNat row
      have writes := @printedRow_writes E console y row visible (by omega) (by omega)
      have whole : (row.drop E.coloff.toNat ++ List.replicate (80 - (row.length - E.coloff.toNat)) space).length =
          80 := by
        rw [List.length_append, List.length_replicate, length]
        omega
      refine ⟨_, editorDrawRow_printed displayable found reaches, writes.draws.mono (Nat.le_refl _) (by omega),
        fun x inside _ => ?_⟩
      have shown := writes.shows x (by omega)
      rw [getD_padded] at shown
      rwa [cellText, found]
  | none =>
      by_cases welcome : WelcomeLine E y
      · refine ⟨_, editorDrawRow_welcome displayable welcome, ?_, fun _ _ plain => absurd welcome plain⟩
        have draws := @drawWelcome_draws E (kvgaSetCursor console y 0) y displayable (by omega)
        exact ⟨draws.stores, draws.kept⟩
      · obtain ⟨after, drawn, writes⟩ := @editorDrawRow_past E console y displayable visible found welcome
        have whole := tildeRow_length
        refine ⟨after, drawn, writes.draws.mono (Nat.le_refl _) (by omega), fun x inside _ => ?_⟩
        have shown := writes.shows x (by omega)
        rw [tildeRow_getD] at shown
        rwa [cellText, found]

/-- The first turns of the loop. -/
theorem drawRows_draws (displayable : Displayable E) (fit : RowsFit E.rows E.rowoff E.coloff) {turns : Nat}
    (visible : turns ≤ 23) : ∃ after, drawRows E console turns = .ok after ∧ Draws 0 (160 * turns) console after ∧
      ∀ y < turns, ∀ x < 80, ¬WelcomeLine E y → ShowsAt after.video (160 * y + 2 * x) (cellText E y x) := by
  induction turns with
  | zero => exact ⟨console, rfl, .refl _ _ _, fun _ early => absurd early (Nat.not_lt_zero _)⟩
  | succ turns ih =>
      obtain ⟨middle, drawn, draws, shows⟩ := ih (by omega)
      obtain ⟨after, row, drawsRow, showsRow⟩ := @editorDrawRow_draws E middle turns displayable fit (by omega)
      refine ⟨after, ?_, (draws.mono (Nat.le_refl _) (by omega)).trans (drawsRow.mono (by omega) (by omega)), ?_⟩
      · simp only [drawRows, drawn, bind, Except.bind, row]
      intro y early x inside plain
      by_cases last : y = turns
      · subst last
        exact showsRow x inside plain
      · exact drawsRow.shows (shows y (by omega) x inside plain) (by omega)

end Window

/-! Typing keeps the command line printable. -/

section CommandLine

variable {s : EditorSession} {text : List UInt8} {c : Int} {turns : List Typed} {typed : List Int}

theorem Printable.typeKey (printable : Printable text) (c : Int) : Printable (typeKey text c) := by
  unfold ShedKernel.Editor.typeKey
  split
  · exact fun byte member => printable byte (List.dropLast_subset text member)
  split
  case isTrue accepted =>
    intro byte member
    cases List.mem_append.mp member with
    | inl early => exact printable byte early
    | inr last =>
        obtain rfl := List.mem_singleton.mp last
        have value : (charOf c).toNat = c.toNat := by
          rw [charOf, UInt8.toNat_ofNat']
          omega
        rw [UInt8.le_iff_toNat_le, UInt8.lt_iff_toNat_lt, value]
        exact ⟨show 32 ≤ c.toNat by omega, show c.toNat < 127 by omega⟩
  case isFalse => exact printable

private theorem Printable.typeKeys (printable : Printable text) (typed : List Int) :
    Printable (typed.foldl ShedKernel.Editor.typeKey text) := by
  induction typed generalizing text with
  | nil => exact printable
  | cons c typed ih => exact ih (printable.typeKey c)

/-- After a colon and any keys, the command line can be drawn. -/
theorem command_run_drawable (normal : s.E.mode = .normal) (running : s.E.dirty ≠ -9999)
    (keys : turns.map Typed.keys = (keyOf ':' :: typed).map fun c => [c])
    (stays : ∀ c ∈ typed, c ≠ escapeKey ∧ c ≠ enterKey) :
    ∃ entered, Run Turn s turns entered ∧ LineConsistent entered.E ∧ Printable (commandText entered.E) := by
  obtain ⟨entered, ran, entering⟩ := command_run normal running keys stays
  have short := entering.short
  have read : commandText entered.E = typed.foldl ShedKernel.Editor.typeKey [] := entering.holds.stringAt_eq (by omega)
  have printable : Printable [] := fun _ member => absurd member List.not_mem_nil
  refine ⟨entered, ran, ⟨_, entering.holds, entering.length, ?_⟩, read ▸ printable.typeKeys typed⟩
  exact Nat.lt_of_le_of_lt short (by decide)

end CommandLine

/-! Below the text. -/

section Below

variable {E : EditorConfig} {console : TextScreen}

/-- The status bar, without the command line. -/
def drawBar (console : TextScreen) (status : List UInt8) : TextScreen :=
  writeChars (writeChars console 23 0 0x70 (status.take (min status.length 80)))
    23 (min status.length 80 : Nat) 0x70 (List.replicate (80 - min status.length 80) space)

private theorem drawBar_draws (console : TextScreen) (status : List UInt8) :
    Draws 3680 3840 console (drawBar console status) := by
  have taken := @List.length_take _ (min status.length 80) status
  have blanks := @List.length_replicate _ (80 - min status.length 80) space
  have first := @writeChars_draws console 23 0 (status.take (min status.length 80)) (by omega) (by omega) 0x70
  refine Draws.trans (first.mono (by omega) (by omega)) ?_
  have rest := @writeChars_draws (writeChars console 23 0 0x70 (status.take (min status.length 80))) 23
    (min status.length 80) (List.replicate (80 - min status.length 80) space) (by omega) (by omega) 0x70
  exact rest.mono (by omega) (by omega)

/-- What is printed on the command line. -/
def drawCommand (E : EditorConfig) (console : TextScreen) : TextScreen :=
  if E.mode = .command then
    kvgaClearToEol (kprintfFormat (kvgaSetCursor console 24 0) ":%.*s" [intArg E.cmdlen, .string (commandString E)])
      24 (E.cmdlen + 1)
  else kvgaClearToEol (kvgaSetCursor console 24 0) 24 0

private theorem editorDrawStatusBar_eq (displayable : Displayable E) (console : TextScreen) :
    ∃ status, editorDrawStatusBar E console = drawCommand E (drawBar console status) := by
  simp only [editorDrawStatusBar, displayable.screenrows, displayable.screencols]
  generalize formatted " %s | %.20s %s" _ = status
  have len : (if (80 : Int) < status.length then (80 : Int) else status.length) = (min status.length 80 : Nat) := by
    split_ifs <;> omega
  have rest : (80 - ((min status.length 80 : Nat) : Int)).toNat = 80 - min status.length 80 := by omega
  rw [len, rest, Int.toNat_natCast]
  exact ⟨status, rfl⟩

theorem LineConsistent.text (consistent : LineConsistent E) :
    (commandText E).length < cmdbufSize ∧ E.cmdlen = (commandText E).length := by
  obtain ⟨text, holds, cmdlen, short⟩ := consistent
  have read : commandText E = text := holds.stringAt_eq (Nat.lt_trans short (by decide))
  rw [read]
  exact ⟨short, cmdlen⟩

private theorem drawCommand_draws (displayable : Displayable E) (console : TextScreen) :
    Draws 3840 4000 console (drawCommand E console) := by
  have size : cmdbufSize = 80 := rfl
  unfold drawCommand
  split
  case isTrue command =>
    obtain ⟨consistent, printable⟩ := displayable.command command
    obtain ⟨short, cmdlen⟩ := consistent.text
    have length : (byteOf ':' :: commandText E).length = E.cmdlen + 1 := congrArg (· + 1) cmdlen.symm
    rw [kprintfFormat_command printable]
    have text := @puts_writes_at console 24 0 (byteOf ':' :: commandText E) (by decide) (by decide) (by omega)
    refine Draws.trans (text.draws.mono (by decide) (by omega)) ?_
    have blanks := @List.length_replicate _ (80 - (E.cmdlen + 1)) space
    exact (@kvgaClearToEol_writes _ 24 (E.cmdlen + 1) (by decide) (by omega)).inRow (by omega)
  case isFalse =>
    have blank := (@kvgaClearToEol_writes (kvgaSetCursor console 24 0) 24 0 (by decide) (by decide)).inRow (by decide)
    exact ⟨blank.stores, blank.kept⟩

end Below

/-! The whole screen. -/

section Screen

variable {E : EditorConfig} {console after : TextScreen}

theorem windowStart_spec {cursor start size : Int} (some : 0 < size) (nonneg : 0 ≤ start) (inside : 0 ≤ cursor) :
    0 ≤ windowStart cursor start size ∧ windowStart cursor start size ≤ cursor ∧
      cursor < windowStart cursor start size + size := by
  unfold windowStart
  omega

/-- The rows that the screen shows after the scroll fit. -/
def WindowFits (E : EditorConfig) : Prop :=
  RowsFit E.rows (windowStart E.cy E.rowoff E.screenrows) (windowStart E.cx E.coloff E.screencols)

private theorem Displayable.scrolls (displayable : Displayable E) :
    editorScroll E = { E with
      rowoff := windowStart E.cy E.rowoff E.screenrows
      coloff := windowStart E.cx E.coloff E.screencols } :=
  editorScroll_window (displayable.screenrows ▸ by decide) (displayable.screencols ▸ by decide)

/-- The window contains the cursor after the scroll. -/
theorem Displayable.window (displayable : Displayable E) :
    0 ≤ (editorScroll E).rowoff ∧ (editorScroll E).rowoff ≤ (editorScroll E).cy ∧
      (editorScroll E).cy < (editorScroll E).rowoff + 23 ∧ 0 ≤ (editorScroll E).coloff ∧
      (editorScroll E).coloff ≤ (editorScroll E).cx ∧ (editorScroll E).cx < (editorScroll E).coloff + 80 := by
  have rows := @windowStart_spec E.cy E.rowoff 23 (by decide) displayable.rowoff displayable.cursor.cy_nonneg
  have cols := @windowStart_spec E.cx E.coloff 80 (by decide) displayable.coloff displayable.cursor.cx_nonneg
  rw [displayable.scrolls, displayable.screenrows, displayable.screencols]
  exact ⟨rows.1, rows.2.1, rows.2.2, cols⟩

theorem Displayable.scroll (displayable : Displayable E) : Displayable (editorScroll E) := by
  have window := displayable.window
  rw [displayable.scrolls] at window ⊢
  obtain ⟨⟨cyNonneg, cyLe, cxNonneg, cxLe⟩, screenrows, screencols, _, _, printable, command⟩ := displayable
  exact ⟨⟨cyNonneg, cyLe, cxNonneg, cxLe⟩, screenrows, screencols, window.1, window.2.2.2.1, printable, command⟩

theorem WindowFits.rows (displayable : Displayable E) :
    RowsFit (editorScroll E).rows (editorScroll E).rowoff (editorScroll E).coloff ↔ WindowFits E := by
  rw [displayable.scrolls]
  rfl

/-- The end of `editorRefreshScreen`, after the rows. -/
def finishScreen (E : EditorConfig) (console : TextScreen) : TextScreen :=
  let console := editorDrawStatusBar E console
  if E.mode = .command then kvgaSetCursor console (E.screenrows + 1) (E.cmdlen + 1)
  else kvgaSetCursor console (E.cy - E.rowoff) (E.cx - E.coloff)

private theorem editorRefreshScreen_eq (displayable : Displayable E) (console : TextScreen) :
    editorRefreshScreen E console =
      (drawRows (editorScroll E) console 23).map fun console => (editorScroll E, finishScreen (editorScroll E) console) := by
  have rows : (editorScroll E).screenrows.toNat = 23 := by
    rw [displayable.scroll.screenrows]
    rfl
  rw [editorRefreshScreen, editorDrawRows, rows]
  cases drawRows (editorScroll E) console 23 with
  | error stop => rfl
  | ok middle =>
      simp only [finishScreen, bind, Except.bind, Except.map, pure, Except.pure]
      split <;> rfl

private theorem finishScreen_draws (displayable : Displayable E) (console : TextScreen) :
    Draws 3680 4000 console (finishScreen E console) := by
  obtain ⟨status, drawn⟩ := editorDrawStatusBar_eq displayable console
  have bar := (drawBar_draws console status).mono (Nat.le_refl _) (show 3840 ≤ 4000 by decide)
  have draws := bar.trans ((drawCommand_draws displayable _).mono (show 3680 ≤ 3840 by decide) (Nat.le_refl _))
  rw [← drawn] at draws
  unfold finishScreen
  split <;> exact ⟨draws.stores, draws.kept⟩

private theorem finishScreen_currentLoc (mode : E.mode ≠ .command) :
    (finishScreen E console).currentLoc = cellOffset (E.cy - E.rowoff) (E.cx - E.coloff) := by
  rw [finishScreen, if_neg mode]
  rfl

/-- A turn that the loop took. -/
theorem drawRows_turn {turns y : Nat} (drawn : drawRows E console turns = .ok after) (early : y < turns) :
    ∃ start stop, drawRows E console y = .ok start ∧ editorDrawRow E start y = .ok stop := by
  induction turns generalizing after with
  | zero => exact absurd early (Nat.not_lt_zero _)
  | succ turns ih =>
      cases before : drawRows E console turns with
      | error stop => simp [drawRows, before, bind, Except.bind] at drawn
      | ok middle =>
          by_cases last : y = turns
          · subst last
            simp only [drawRows, before, bind, Except.bind] at drawn
            exact ⟨middle, after, before, drawn⟩
          · exact ih before (by omega)

end Screen

/-- The refresh reads nothing behind a row's end, and the screen shows the text after it. -/
def RefreshShows (E : EditorConfig) (console : TextScreen) : Prop :=
  ∃ after, editorRefreshScreen E console = .ok (editorScroll E, after) ∧ Refreshed (editorScroll E) console after

section

variable {E : EditorConfig} {console : TextScreen}

private theorem refreshShows_of_fits (displayable : Displayable E) (fits : WindowFits E) : RefreshShows E console := by
  have scrolled := displayable.scroll
  have fit := (WindowFits.rows displayable).mpr fits
  have window := displayable.window
  obtain ⟨middle, drawn, draws, shows⟩ := @drawRows_draws _ console scrolled fit 23 (Nat.le_refl _)
  have finish := finishScreen_draws scrolled middle
  have width : lineSize = 160 := rfl
  have element : bytesForEachElement = 2 := rfl
  refine ⟨_, by rw [editorRefreshScreen_eq displayable, drawn]; rfl, ?_, ?_, ?_, ?_⟩
  · have whole := (draws.mono (Nat.le_refl _) (show 160 * 23 ≤ 4000 by decide)).trans
      (finish.mono (Nat.zero_le _) (Nat.le_refl _))
    exact whole.stores
  · intro y visible start stop _ row
    obtain ⟨_, again, drawsRow, _⟩ := @editorDrawRow_draws _ start y scrolled fit visible
    cases row.symm.trans again
    rw [width]
    exact drawsRow.stores
  · intro y visible x inside plain
    rw [width, element]
    exact finish.shows (shows y visible x inside plain) (by omega)
  · intro mode
    exact ⟨by omega, by omega, by omega, by omega, finishScreen_currentLoc mode⟩

private theorem fits_of_refreshShows (displayable : Displayable E) (refreshes : RefreshShows E console) :
    WindowFits E := by
  obtain ⟨after, ran, refreshed⟩ := refreshes
  have scrolled := displayable.scroll
  have left := scrolled.coloff
  rw [editorRefreshScreen_eq displayable] at ran
  rw [← WindowFits.rows displayable]
  intro y visible row found
  cases rows : drawRows (editorScroll E) console 23 with
  | error stop =>
      rw [rows] at ran
      cases ran
  | ok middle =>
      obtain ⟨start, stop, before, drawn⟩ := drawRows_turn rows visible
      by_cases short : (row.length : Int) < (editorScroll E).coloff
      · rw [editorDrawRow_behind scrolled found short] at drawn
        cases drawn
      refine ⟨Int.not_lt.mp short, ?_⟩
      by_contra wide
      have own := refreshed.ownRow y visible start stop before drawn
      rw [editorDrawRow_printed scrolled found (Int.not_lt.mp short)] at drawn
      cases drawn
      have behind := @printedRow_overflows (editorScroll E) start y row visible (by omega)
      obtain ⟨_, within, c, rfl⟩ := own.meets behind
      have below := within.2.1
      have next : lineSize * (y + 1) = 160 * y + 160 := by
        unfold lineSize columnsInLine bytesForEachElement
        omega
      omega

end

/-- One row, with the cursor at its start. -/
def oneRow (row : List UInt8) : EditorConfig where
  cx := 0
  cy := 0
  rowoff := 0
  coloff := 0
  screenrows := 23
  screencols := 80
  dirty := 0
  mode := .normal
  rows := [row]
  filename := emptyName
  cmdbuf := constantMemory 0
  cmdlen := 0

private theorem oneRow_displayable {row : List UInt8} (printable : Printable row) : Displayable (oneRow row) := by
  refine ⟨⟨Int.le_refl 0, Int.natCast_nonneg 1, Int.le_refl 0, EditorConfig.rowSize_nonneg⟩, rfl, rfl,
    Int.le_refl 0, Int.le_refl 0, ?_, ?_⟩
  · intro only member
    cases List.mem_singleton.mp member
    exact printable
  · intro command
    cases command

private theorem oneRow_fits_iff (row : List UInt8) : WindowFits (oneRow row) ↔ row.length ≤ 80 := by
  constructor
  · intro fits
    have ends := (fits 0 (by decide) row rfl).2
    exact Int.ofNat_le.mp ends
  · intro ends y _ other found
    cases y with
    | zero =>
        cases found
        exact ⟨Int.natCast_nonneg _, Int.ofNat_le.mpr ends⟩
    | succ y => cases found

/-- The refresh shows the text exactly when every row in the window reaches the window's left
edge and ends at its right edge. -/
theorem refresh_shows_text_iff (E : EditorConfig) (console : TextScreen) (displayable : Displayable E) :
    RefreshShows E console ↔ WindowFits E :=
  ⟨fits_of_refreshShows displayable, refreshShows_of_fits displayable⟩

theorem refresh_shows_text_greeting : RefreshShows (oneRow (ascii "hello")) ⟨constantMemory 0, 0, []⟩ :=
  (refresh_shows_text_iff _ _ (oneRow_displayable (by decide +kernel))).mpr
    ((oneRow_fits_iff _).mpr (by decide +kernel))

/-- The end of a row of 81 characters is drawn into the next row of the screen. -/
theorem wide_row_overflows : Displayable (oneRow (List.replicate 81 (byteOf 'x'))) ∧
    ¬RefreshShows (oneRow (List.replicate 81 (byteOf 'x'))) ⟨constantMemory 0, 0, []⟩ := by
  have displayable := @oneRow_displayable (List.replicate 81 (byteOf 'x')) (by decide +kernel)
  refine ⟨displayable, fun refreshes => ?_⟩
  have fits := (oneRow_fits_iff _).mp (fits_of_refreshShows displayable refreshes)
  rw [List.length_replicate] at fits
  exact absurd fits (by decide)

end ShedKernel.Editor
