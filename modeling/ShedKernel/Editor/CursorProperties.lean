import ShedKernel.Editor.Keypress
import ShedKernel.FileSystem.Session
import ShedKernel.Foundation.Run

/-! The cursor of the editor stays on the text: one lemma for each operation, then
runs of the main loop. -/

set_option autoImplicit false

namespace ShedKernel.Editor

open Foundation FileSystem

namespace EditorConfig

/-- The size of the row at `index`, 0 past the last row. -/
def rowSize (E : EditorConfig) (index : Int) : Int :=
  if 0 ≤ index ∧ index < E.numrows then (E.rows.getD index.toNat []).length else 0

structure CursorInRange (E : EditorConfig) : Prop where
  cy_nonneg : 0 ≤ E.cy
  cy_le : E.cy ≤ E.numrows
  cx_nonneg : 0 ≤ E.cx
  cx_le : E.cx ≤ E.rowSize E.cy

variable {E other : EditorConfig} {index position : Int} {s : List UInt8}

theorem rowSize_nonneg : 0 ≤ E.rowSize index := by
  unfold rowSize
  split
  · exact Int.natCast_nonneg _
  · exact Int.le_refl 0

private theorem rowSize_past (past : E.numrows ≤ index) : E.rowSize index = 0 := by
  apply if_neg
  intro inside
  exact Int.not_le.mpr inside.2 past

private theorem row_ok (nonneg : 0 ≤ index) (below : index < E.numrows) :
    ∃ row, E.row index = .ok row ∧ (row.length : Int) = E.rowSize index :=
  ⟨E.rows.getD index.toNat [], if_pos ⟨nonneg, below⟩, (if_pos ⟨nonneg, below⟩).symm⟩

theorem CursorInRange.congr (inRange : CursorInRange E) (rows : other.rows = E.rows)
    (cx : other.cx = E.cx) (cy : other.cy = E.cy) : CursorInRange other := by
  obtain ⟨cy_nonneg, cy_le, cx_nonneg, cx_le⟩ := inRange
  constructor <;> simpa only [numrows, rowSize, rows, cx, cy]

/-- Column 0 exists on every line, also on the one past the end. -/
theorem cursorInRange_of_cx_zero (cx : E.cx = 0) (nonneg : 0 ≤ E.cy) (below : E.cy ≤ E.numrows) :
    CursorInRange E :=
  ⟨nonneg, below, cx ▸ Int.le_refl 0, cx ▸ rowSize_nonneg⟩

theorem CursorInRange.below (inRange : CursorInRange E) (cx : 0 < E.cx) : E.cy < E.numrows := by
  by_contra past
  have empty := rowSize_past (Int.not_lt.mp past)
  have fits := inRange.cx_le
  omega

private theorem CursorInRange.cx_zero (inRange : CursorInRange E) (past : E.cy = E.numrows) : E.cx = 0 := by
  have fits := inRange.cx_le
  rw [rowSize_past (Int.le_of_eq past.symm)] at fits
  exact Int.le_antisymm fits inRange.cx_nonneg

/-! Rows. -/

theorem insertRow_eq (nonneg : 0 ≤ position) (fits : position ≤ E.numrows) :
    editorInsertRow E position s = { E with rows := E.rows.insertIdx position.toNat s } := by
  apply if_neg
  intro outside
  cases outside with
  | inl negative => exact Int.not_le.mpr negative nonneg
  | inr past => exact Int.not_le.mpr past fits

theorem numrows_insertRow (nonneg : 0 ≤ position) (fits : position ≤ E.numrows) :
    (editorInsertRow E position s).numrows = E.numrows + 1 := by
  have inside : position.toNat ≤ E.rows.length := by simp only [numrows] at fits; omega
  simp [insertRow_eq nonneg fits, numrows, List.length_insertIdx_of_le_length inside]

theorem delRow_eq (nonneg : 0 ≤ position) (below : position < E.numrows) :
    editorDelRow E position = { E with rows := E.rows.eraseIdx position.toNat, dirty := 1 } := by
  apply if_neg
  intro outside
  cases outside with
  | inl negative => exact Int.not_le.mpr negative nonneg
  | inr past => exact Int.not_le.mpr below past

theorem numrows_delRow (nonneg : 0 ≤ position) (below : position < E.numrows) :
    (editorDelRow E position).numrows = E.numrows - 1 := by
  have inside : position.toNat < E.rows.length := by simp only [numrows] at below; omega
  rw [delRow_eq nonneg below]
  simp only [numrows, List.length_eraseIdx_of_lt inside]
  omega

private theorem rowSize_delRow_of_lt (below : position < E.numrows) (nonneg : 0 ≤ index)
    (before : index < position) : (editorDelRow E position).rowSize index = E.rowSize index := by
  have placed : 0 ≤ position := by omega
  have present : index < E.numrows := by omega
  have stillBelow : index < (editorDelRow E position).numrows := by
    rw [numrows_delRow placed below]
    omega
  have earlier : index.toNat < position.toNat := by omega
  rw [rowSize, rowSize, if_pos ⟨nonneg, stillBelow⟩, if_pos ⟨nonneg, present⟩,
    delRow_eq placed below]
  simp [List.getD_eq_getElem?_getD, List.getElem?_eraseIdx_of_lt earlier]

private theorem numrows_setRow : (E.setRow index s).numrows = E.numrows := by
  simp [setRow, numrows]

private theorem rowSize_setRow_self (nonneg : 0 ≤ index) (below : index < E.numrows) :
    (E.setRow index s).rowSize index = s.length := by
  have inside : index.toNat < E.rows.length := by simp only [numrows] at below; omega
  rw [rowSize, numrows_setRow, if_pos ⟨nonneg, below⟩]
  simp [setRow, inside]

end EditorConfig

open EditorConfig

/-! Operations. -/

/-- The operation reads no row or character that does not exist, and the cursor is on
the text after it. -/
def Lands (result : Except EditorStop EditorConfig) : Prop :=
  ∃ E, result = .ok E ∧ CursorInRange E

section Operations

variable {E : EditorConfig} {index position c : Int} {s : List UInt8}

theorem editorRowInsertChar_spec (nonneg : 0 ≤ index) (below : index < E.numrows)
    (start : 0 ≤ position) (fits : position ≤ E.rowSize index) :
    ∃ next, editorRowInsertChar E index position c = .ok next ∧ next.cx = E.cx ∧ next.cy = E.cy ∧
      next.numrows = E.numrows ∧ next.rowSize index = E.rowSize index + 1 := by
  obtain ⟨row, read, size⟩ := row_ok nonneg below
  have within : ¬(position < 0 ∨ (row.length : Int) < position) := by omega
  have inside : position.toNat ≤ row.length := by omega
  refine ⟨{ E.setRow index (row.insertIdx position.toNat (charOf c)) with dirty := 1 }, ?_, rfl, rfl,
    numrows_setRow, ?_⟩
  · simp only [editorRowInsertChar, read, bind, Except.bind, pure, Except.pure, if_neg within]
  · apply (rowSize_setRow_self nonneg below).trans
    rw [List.length_insertIdx_of_le_length inside, ← size]
    rfl

theorem editorRowDelChar_spec (nonneg : 0 ≤ index) (below : index < E.numrows)
    (start : 0 ≤ position) (fits : position < E.rowSize index) :
    ∃ next, editorRowDelChar E index position = .ok next ∧ next.cx = E.cx ∧ next.cy = E.cy ∧
      next.numrows = E.numrows ∧ next.rowSize index = E.rowSize index - 1 := by
  obtain ⟨row, read, size⟩ := row_ok nonneg below
  have within : ¬(position < 0 ∨ (row.length : Int) ≤ position) := by omega
  have inside : position.toNat < row.length := by omega
  refine ⟨{ E.setRow index (row.eraseIdx position.toNat) with dirty := 1 }, ?_, rfl, rfl,
    numrows_setRow, ?_⟩
  · simp only [editorRowDelChar, read, bind, Except.bind, pure, Except.pure, if_neg within]
  · apply (rowSize_setRow_self nonneg below).trans
    rw [List.length_eraseIdx_of_lt inside]
    omega

theorem editorRowAppendString_spec (nonneg : 0 ≤ index) (below : index < E.numrows) :
    ∃ next, editorRowAppendString E index s = .ok next ∧ next.cx = E.cx ∧ next.cy = E.cy ∧
      next.numrows = E.numrows ∧ next.rowSize index = E.rowSize index + s.length := by
  obtain ⟨row, read, size⟩ := row_ok nonneg below
  refine ⟨{ E.setRow index (row ++ s) with dirty := 1 }, ?_, rfl, rfl, numrows_setRow, ?_⟩
  · simp only [editorRowAppendString, read, bind, Except.bind, pure, Except.pure]
  · apply (rowSize_setRow_self nonneg below).trans
    rw [List.length_append, ← size]
    rfl

private theorem editorInsertChar_lands (inRange : CursorInRange E) : Lands (editorInsertChar E c) := by
  -- on the line past the end a row is added first
  have opened : ∃ start, (if E.cy = E.numrows then editorInsertRow E E.numrows [] else E) = start ∧
      start.cx = E.cx ∧ start.cy = E.cy ∧ E.cy < start.numrows ∧ E.cx ≤ start.rowSize E.cy := by
    by_cases past : E.cy = E.numrows
    · rw [if_pos past, ← past]
      refine ⟨_, rfl, ?_, ?_, ?_, ?_⟩
      · rw [insertRow_eq inRange.cy_nonneg inRange.cy_le]
      · rw [insertRow_eq inRange.cy_nonneg inRange.cy_le]
      · rw [numrows_insertRow inRange.cy_nonneg inRange.cy_le]
        exact Int.lt_add_one_of_le inRange.cy_le
      · rw [inRange.cx_zero past]
        exact rowSize_nonneg
    · rw [if_neg past]
      exact ⟨E, rfl, rfl, rfl, Int.lt_iff_le_and_ne.mpr ⟨inRange.cy_le, past⟩, inRange.cx_le⟩
  obtain ⟨start, opened, cx, cy, below, fits⟩ := opened
  obtain ⟨next, inserted, nextCx, nextCy, numrows, size⟩ :=
    @editorRowInsertChar_spec start E.cy E.cx c inRange.cy_nonneg below inRange.cx_nonneg fits
  refine ⟨{ next with cx := next.cx + 1, dirty := 1 }, ?_, ?_⟩
  · simp only [editorInsertChar, opened, cx, cy, inserted, bind, Except.bind, pure, Except.pure]
  · have nonneg := inRange.cy_nonneg
    have column := inRange.cx_nonneg
    constructor
    · exact nextCy.trans cy ▸ nonneg
    · show next.cy ≤ next.numrows
      omega
    · show 0 ≤ next.cx + 1
      omega
    · show next.cx + 1 ≤ next.rowSize next.cy
      rw [nextCy, cy, size]
      omega

private theorem editorInsertNewline_lands (inRange : CursorInRange E) : Lands (editorInsertNewline E) := by
  have nonneg := inRange.cy_nonneg
  by_cases column : E.cx = 0
  · refine ⟨{ editorInsertRow E E.cy [] with cy := E.cy + 1, cx := 0 }, ?_, ?_⟩
    · simp only [editorInsertNewline, if_pos column, pure, Except.pure,
        insertRow_eq nonneg inRange.cy_le]
    · apply cursorInRange_of_cx_zero rfl
      · exact Int.le_add_one nonneg
      · show E.cy + 1 ≤ (editorInsertRow E E.cy []).numrows
        rw [numrows_insertRow nonneg inRange.cy_le]
        exact Int.add_le_add_right inRange.cy_le 1
  · have positive : 0 < E.cx := Int.lt_iff_le_and_ne.mpr ⟨inRange.cx_nonneg, Ne.symm column⟩
    have below := inRange.below positive
    have fits := inRange.cx_le
    obtain ⟨row, read, size⟩ := row_ok nonneg below
    have within : ¬(E.cx < 0 ∨ (row.length : Int) < E.cx) := by omega
    have placed : (0 : Int) ≤ E.cy + 1 := Int.le_add_one nonneg
    have split := @insertRow_eq E (E.cy + 1) (row.drop E.cx.toNat) placed below
    have numrows := @numrows_insertRow E (E.cy + 1) (row.drop E.cx.toNat) placed below
    obtain ⟨front, readFront, _⟩ :=
      @row_ok (editorInsertRow E (E.cy + 1) (row.drop E.cx.toNat)) E.cy nonneg (by omega)
    refine ⟨{ (editorInsertRow E (E.cy + 1) (row.drop E.cx.toNat)).setRow E.cy (front.take E.cx.toNat)
      with cy := E.cy + 1, cx := 0 }, ?_, ?_⟩
    · rw [split] at readFront ⊢
      simp only [editorInsertNewline, if_neg column, read, if_neg within, split, readFront, bind,
        Except.bind, pure, Except.pure, setRow]
    · apply cursorInRange_of_cx_zero rfl placed
      show E.cy + 1 ≤ EditorConfig.numrows (EditorConfig.setRow _ _ _)
      rw [numrows_setRow, numrows]
      omega

private theorem editorDelChar_lands (inRange : CursorInRange E) : Lands (editorDelChar E) := by
  have nonneg := inRange.cy_nonneg
  by_cases past : E.cy = E.numrows
  · exact ⟨E, if_pos past, inRange⟩
  have below : E.cy < E.numrows := Int.lt_iff_le_and_ne.mpr ⟨inRange.cy_le, past⟩
  by_cases origin : E.cx = 0 ∧ E.cy = 0
  · refine ⟨E, ?_, inRange⟩
    simp only [editorDelChar, if_neg past, if_pos origin, pure, Except.pure]
  by_cases column : 0 < E.cx
  · have start : 0 ≤ E.cx - 1 := by omega
    have fits : E.cx - 1 < E.rowSize E.cy := Int.sub_one_lt_of_le inRange.cx_le
    obtain ⟨next, deleted, nextCx, nextCy, numrows, size⟩ :=
      editorRowDelChar_spec nonneg below start fits
    refine ⟨{ next with cx := next.cx - 1, dirty := 1 }, ?_, ?_⟩
    · simp only [editorDelChar, if_neg past, if_neg origin, if_pos column, deleted, bind, Except.bind,
        pure, Except.pure]
    · constructor
      · exact nextCy ▸ nonneg
      · exact nextCy ▸ numrows ▸ inRange.cy_le
      · exact nextCx ▸ start
      · show next.cx - 1 ≤ next.rowSize next.cy
        rw [nextCx, nextCy, size]
        exact Int.sub_le_sub_right inRange.cx_le 1
  · -- the row is joined to the one above, whose old end becomes the cursor's column
    have above : 0 ≤ E.cy - 1 := by
      have column := inRange.cx_nonneg
      omega
    have aboveBelow : E.cy - 1 < E.numrows := by omega
    obtain ⟨upper, readUpper, upperSize⟩ := row_ok above aboveBelow
    obtain ⟨row, read, size⟩ := row_ok nonneg below
    obtain ⟨next, appended, nextCx, nextCy, numrows, nextSize⟩ :=
      @editorRowAppendString_spec { E with cx := upper.length } (E.cy - 1) row above aboveBelow
    have joined : E.cy - 1 < E.cy := Int.sub_one_lt_of_le (Int.le_refl _)
    have inside : E.cy < next.numrows := numrows ▸ below
    have removed := numrows_delRow nonneg inside
    have kept := rowSize_delRow_of_lt inside above joined
    rw [delRow_eq nonneg inside] at removed kept
    have readBelow : EditorConfig.row { E with cx := upper.length } E.cy = .ok row := read
    refine ⟨{ next with rows := next.rows.eraseIdx E.cy.toNat, cy := E.cy - 1, dirty := 1 }, ?_, ?_⟩
    · have nextCy : next.cy = E.cy := nextCy
      simp only [editorDelChar, if_neg past, if_neg origin, if_neg column, readUpper, readBelow, appended,
        bind, Except.bind, pure, Except.pure, nextCy, delRow_eq nonneg inside]
    · have wider : (upper.length : Int) ≤ upper.length + row.length :=
        Int.le_add_of_nonneg_right (Int.natCast_nonneg _)
      constructor
      · exact above
      · apply Int.le_trans (Int.sub_le_sub_right (Int.le_of_lt inside) 1)
        exact Int.le_of_eq removed.symm
      · exact nextCx ▸ Int.natCast_nonneg upper.length
      · apply Int.le_trans (Int.le_of_eq nextCx)
        apply Int.le_trans wider
        apply Int.le_of_eq
        apply Eq.trans _ kept.symm
        rw [nextSize, upperSize]
        rfl

private theorem editorYankLine_ok (nonneg : 0 ≤ E.cy) (yank : List UInt8) :
    ∃ next, editorYankLine E yank = .ok next := by
  by_cases past : E.numrows ≤ E.cy
  · exact ⟨yank, if_pos past⟩
  · obtain ⟨row, read, _⟩ := row_ok nonneg (Int.not_le.mp past)
    refine ⟨row.take (blockSize - 1), ?_⟩
    simp only [editorYankLine, if_neg past, read, bind, Except.bind, pure, Except.pure]

/-- Pasting keeps the cursor on the text, except on the line past the end: there the row
is refused, and the cursor moves down all the same. -/
theorem editorPasteLine_inRange_iff (inRange : CursorInRange E) (yank : List UInt8) :
    CursorInRange (editorPasteLine E yank) ↔ ¬(yank ≠ [] ∧ E.cy = E.numrows) := by
  have placed : 0 ≤ E.cy + 1 := Int.le_add_one inRange.cy_nonneg
  by_cases empty : yank = []
  · rw [editorPasteLine, if_pos (List.length_eq_zero_iff.mpr empty)]
    exact iff_of_true inRange fun pasted => pasted.1 empty
  rw [editorPasteLine, if_neg (mt List.length_eq_zero_iff.mp empty)]
  by_cases past : E.cy = E.numrows
  · apply iff_of_false
    · intro pasted
      have refused : editorInsertRow E (E.cy + 1) yank = E :=
        if_pos (.inr (Int.lt_add_one_of_le (Int.le_of_eq past.symm)))
      have below : E.cy + 1 ≤ EditorConfig.numrows _ := pasted.cy_le
      rw [refused] at below
      exact Int.not_le.mpr (Int.lt_add_one_of_le (Int.le_of_eq past.symm)) below
    · exact fun kept => kept ⟨empty, past⟩
  · apply iff_of_true
    · have below : E.cy + 1 ≤ E.numrows := Int.lt_iff_le_and_ne.mpr ⟨inRange.cy_le, past⟩
      apply cursorInRange_of_cx_zero rfl placed
      show E.cy + 1 ≤ (editorInsertRow E (E.cy + 1) yank).numrows
      rw [numrows_insertRow placed below]
      exact Int.le_add_one below
    · exact fun pasted => past pasted.2

private theorem editorDeleteLine_lands (inRange : CursorInRange E) (yank : List UInt8) :
    ∃ next nextYank, editorDeleteLine E yank = .ok (next, nextYank) ∧ CursorInRange next := by
  have nonneg := inRange.cy_nonneg
  by_cases none : E.numrows = 0
  · exact ⟨E, yank, if_pos none, inRange⟩
  obtain ⟨nextYank, yanked⟩ := editorYankLine_ok nonneg yank
  have deleted : ∃ shorter, editorDelRow E E.cy = shorter ∧ shorter.cy = E.cy ∧
      (shorter.numrows = E.numrows - 1 ∨ shorter.numrows = E.numrows ∧ E.cy = E.numrows) := by
    by_cases past : E.cy = E.numrows
    · exact ⟨E, if_pos (.inr (Int.le_of_eq past.symm)), rfl, .inr ⟨rfl, past⟩⟩
    · have below : E.cy < E.numrows := Int.lt_iff_le_and_ne.mpr ⟨inRange.cy_le, past⟩
      refine ⟨_, rfl, ?_, .inl (numrows_delRow nonneg below)⟩
      rw [delRow_eq nonneg below]
  obtain ⟨shorter, deleted, cy, rows⟩ := deleted
  have some : 0 ≤ E.numrows := Int.natCast_nonneg _
  have within := inRange.cy_le
  by_cases last : shorter.numrows ≤ shorter.cy ∧ 0 < shorter.cy
  · refine ⟨{ shorter with cy := shorter.cy - 1, cx := 0 }, nextYank, ?_, ?_⟩
    · simp only [editorDeleteLine, if_neg none, yanked, deleted, if_pos last, bind, Except.bind, pure,
        Except.pure]
    · apply cursorInRange_of_cx_zero rfl
      · exact Int.sub_nonneg_of_le last.2
      · show shorter.cy - 1 ≤ shorter.numrows
        omega
  · refine ⟨{ shorter with cx := 0 }, nextYank, ?_, ?_⟩
    · simp only [editorDeleteLine, if_neg none, yanked, deleted, if_neg last, bind, Except.bind, pure,
        Except.pure]
    · apply cursorInRange_of_cx_zero rfl
      · exact cy ▸ nonneg
      · show shorter.cy ≤ shorter.numrows
        omega

/-! Input. -/

/-- Whatever the column, the last step of `editorMoveCursor` brings it back onto the row. -/
theorem clampColumn_lands (nonneg : 0 ≤ E.cy) (fits : E.cy ≤ E.numrows) (column : 0 ≤ E.cx) :
    Lands (clampColumn E) := by
  have clamped : clampColumn E =
      .ok (if E.rowSize E.cy < E.cx then { E with cx := E.rowSize E.cy } else E) := by
    by_cases below : E.cy < E.numrows
    · obtain ⟨row, read, size⟩ := row_ok nonneg below
      simp only [clampColumn, if_pos below, read, size, bind, Except.bind, pure, Except.pure]
    · simp only [clampColumn, if_neg below, rowSize_past (Int.not_lt.mp below), bind, Except.bind, pure,
        Except.pure]
  refine ⟨_, clamped, ?_⟩
  by_cases wide : E.rowSize E.cy < E.cx
  · rw [if_pos wide]
    exact ⟨nonneg, fits, rowSize_nonneg, Int.le_refl _⟩
  · rw [if_neg wide]
    exact ⟨nonneg, fits, column, Int.not_lt.mp wide⟩

private theorem editorMoveCursor_lands (inRange : CursorInRange E) (key : Int) :
    Lands (editorMoveCursor E key) := by
  obtain ⟨nonneg, fits, column, _⟩ := inRange
  have stays : Lands (clampColumn E) := clampColumn_lands nonneg fits column
  unfold editorMoveCursor
  by_cases left : key = keyOf 'h' ∨ key = arrowLeft
  · rw [if_pos left]
    by_cases room : 0 < E.cx
    · rw [if_pos room]
      exact clampColumn_lands nonneg fits (Int.sub_nonneg_of_le room)
    rw [if_neg room]
    by_cases above : 0 < E.cy
    · rw [if_pos above]
      have nonneg : 0 ≤ E.cy - 1 := Int.sub_nonneg_of_le above
      have below : E.cy - 1 < E.numrows := Int.sub_one_lt_of_le fits
      obtain ⟨row, read, _⟩ := row_ok nonneg below
      rw [read]
      exact clampColumn_lands nonneg (Int.le_of_lt below) (Int.natCast_nonneg _)
    · rw [if_neg above]
      exact stays
  rw [if_neg left]
  by_cases right : key = keyOf 'l' ∨ key = arrowRight
  · rw [if_pos right]
    by_cases below : E.cy < E.numrows
    · rw [if_pos below]
      obtain ⟨row, read, _⟩ := row_ok nonneg below
      rw [read]
      by_cases room : E.cx < (row.length : Int)
      · simp only [if_pos room, bind, Except.bind]
        exact clampColumn_lands nonneg fits (Int.le_add_one column)
      · simp only [if_neg room, bind, Except.bind]
        exact stays
    · rw [if_neg below]
      exact stays
  rw [if_neg right]
  by_cases up : key = keyOf 'k' ∨ key = arrowUp
  · rw [if_pos up]
    by_cases above : 0 < E.cy
    · rw [if_pos above]
      exact clampColumn_lands (Int.sub_nonneg_of_le above) (Int.le_of_lt (Int.sub_one_lt_of_le fits)) column
    · rw [if_neg above]
      exact stays
  rw [if_neg up]
  by_cases down : key = keyOf 'j' ∨ key = arrowDown
  · rw [if_pos down]
    by_cases below : E.cy < E.numrows - 1
    · rw [if_pos below]
      exact clampColumn_lands (Int.le_add_one nonneg) (Int.le_of_lt (Int.add_lt_of_lt_sub_right below)) column
    · rw [if_neg below]
      exact stays
  · rw [if_neg down]
    exact stays

private theorem insertKeypress_lands (inRange : CursorInRange E) (c : Int) : Lands (insertKeypress E c) := by
  unfold insertKeypress
  by_cases escape : c = escapeKey
  · rw [if_pos escape]
    by_cases column : 0 < E.cx
    · refine ⟨{ E with mode := .normal, cx := E.cx - 1 }, ?_, inRange.cy_nonneg, inRange.cy_le,
        Int.sub_nonneg_of_le column, ?_⟩
      · simp only [if_pos column, pure, Except.pure]
      · exact Int.le_trans (Int.sub_le_self _ (by decide)) inRange.cx_le
    · refine ⟨{ E with mode := .normal }, ?_, inRange.congr rfl rfl rfl⟩
      simp only [if_neg column, pure, Except.pure]
  rw [if_neg escape]
  by_cases enter : c = enterKey
  · rw [if_pos enter]
    obtain ⟨next, split, nextInRange⟩ := editorInsertNewline_lands inRange
    rw [split]
    exact ⟨_, rfl, nextInRange.congr rfl rfl rfl⟩
  rw [if_neg enter]
  by_cases backspace : c = backspaceKey ∨ c = deleteKey
  · rw [if_pos backspace]
    exact editorDelChar_lands inRange
  rw [if_neg backspace]
  by_cases printable : 32 ≤ c ∧ c < 127
  · rw [if_pos printable]
    exact editorInsertChar_lands inRange
  · rw [if_neg printable]
    exact ⟨E, rfl, inRange⟩

/-! Normal mode. -/

private theorem appendKey_lands (inRange : CursorInRange E) : Lands (appendKey E) := by
  by_cases below : E.cy < E.numrows
  · obtain ⟨row, read, size⟩ := row_ok inRange.cy_nonneg below
    have readInsert : EditorConfig.row { E with mode := .insert } E.cy = .ok row := read
    have appended : appendKey E = .ok (if E.cx < row.length then
        { E with mode := .insert, cx := E.cx + 1 } else { E with mode := .insert }) := by
      apply (if_pos below).trans
      simp only [readInsert, bind, Except.bind, pure, Except.pure]
    refine ⟨_, appended, ?_⟩
    by_cases room : E.cx < (row.length : Int)
    · rw [if_pos room]
      exact ⟨inRange.cy_nonneg, inRange.cy_le, Int.le_add_one inRange.cx_nonneg, size ▸ room⟩
    · rw [if_neg room]
      exact inRange.congr rfl rfl rfl
  · exact ⟨{ E with mode := .insert }, if_neg below, inRange.congr rfl rfl rfl⟩

private theorem openBelowKey_lands (inRange : CursorInRange E) : Lands (openBelowKey E) := by
  by_cases below : E.cy < E.numrows
  · obtain ⟨row, read, size⟩ := row_ok inRange.cy_nonneg below
    have atEnd : CursorInRange { E with cx := row.length } :=
      ⟨inRange.cy_nonneg, inRange.cy_le, Int.natCast_nonneg _, Int.le_of_eq size⟩
    obtain ⟨next, split, nextInRange⟩ := editorInsertNewline_lands atEnd
    refine ⟨{ next with mode := .insert }, ?_, nextInRange.congr rfl rfl rfl⟩
    simp only [openBelowKey, if_pos below, read, split, bind, Except.bind, pure, Except.pure]
  · obtain ⟨next, split, nextInRange⟩ := editorInsertNewline_lands inRange
    refine ⟨{ next with mode := .insert }, ?_, nextInRange.congr rfl rfl rfl⟩
    simp only [openBelowKey, if_neg below, split, bind, Except.bind, pure, Except.pure]

private theorem openAboveKey_inRange (inRange : CursorInRange E) : CursorInRange (openAboveKey E) := by
  have opened := @insertRow_eq { E with cx := 0 } E.cy [] inRange.cy_nonneg inRange.cy_le
  have numrows := @numrows_insertRow { E with cx := 0 } E.cy [] inRange.cy_nonneg inRange.cy_le
  have cx : (openAboveKey E).cx = 0 := by simp only [openAboveKey, opened]
  have cy : (openAboveKey E).cy = E.cy := by simp only [openAboveKey, opened]
  apply cursorInRange_of_cx_zero cx
  · exact cy ▸ inRange.cy_nonneg
  · apply Int.le_trans (Int.le_of_eq cy)
    apply Int.le_trans (Int.le_add_one inRange.cy_le)
    exact Int.le_of_eq numrows.symm

private theorem deleteCharKey_lands (inRange : CursorInRange E) : Lands (deleteCharKey E) := by
  by_cases below : E.cy < E.numrows
  · obtain ⟨row, read, size⟩ := row_ok inRange.cy_nonneg below
    by_cases room : E.cx < (row.length : Int)
    · obtain ⟨next, deleted, nextCx, nextCy, numrows, nextSize⟩ :=
        editorRowDelChar_spec inRange.cy_nonneg below inRange.cx_nonneg (size ▸ room)
      have nonneg : 0 ≤ next.cy := nextCy ▸ inRange.cy_nonneg
      have nextBelow : next.cy < next.numrows := by
        rw [nextCy, numrows]
        exact below
      obtain ⟨nextRow, readNext, nextRowSize⟩ := row_ok nonneg nextBelow
      have column : 0 ≤ next.cx := nextCx ▸ inRange.cx_nonneg
      have shorter : next.cx ≤ next.rowSize next.cy := by
        rw [nextCx, nextCy, nextSize, ← size]
        exact Int.le_sub_one_of_lt room
      have finished : deleteCharKey E = .ok (if (nextRow.length : Int) ≤ next.cx ∧ 0 < next.cx then
          { next with cx := next.cx - 1 } else next) := by
        simp only [deleteCharKey, if_pos below, read, if_pos room, deleted, readNext, bind, Except.bind,
          pure, Except.pure]
      refine ⟨_, finished, ?_⟩
      by_cases last : (nextRow.length : Int) ≤ next.cx ∧ 0 < next.cx
      · rw [if_pos last]
        exact ⟨nonneg, Int.le_of_lt nextBelow, Int.sub_nonneg_of_le last.2,
          Int.le_trans (Int.sub_le_self _ (by decide)) shorter⟩
      · rw [if_neg last]
        exact ⟨nonneg, Int.le_of_lt nextBelow, column, shorter⟩
    · refine ⟨E, ?_, inRange⟩
      simp only [deleteCharKey, if_pos below, read, if_neg room, bind, Except.bind, pure, Except.pure]
  · exact ⟨E, if_neg below, inRange⟩

private theorem normalKeypress_lands (inRange : CursorInRange E) (yank : List UInt8) (other : c ≠ keyOf 'p') :
    Lands (normalKeypress E yank c) := by
  unfold normalKeypress
  split
  · exact editorMoveCursor_lands inRange c
  split
  · exact ⟨_, rfl, inRange.congr rfl rfl rfl⟩
  split
  · exact appendKey_lands inRange
  split
  · exact openBelowKey_lands inRange
  split
  · exact ⟨_, rfl, openAboveKey_inRange inRange⟩
  split
  · exact deleteCharKey_lands inRange
  split
  · exact ⟨_, rfl, inRange.congr rfl rfl rfl⟩
  · exact ⟨E, rfl, inRange⟩

private theorem normalKeypress_paste (yank : List UInt8) :
    normalKeypress E yank (keyOf 'p') = .ok (editorPasteLine E yank) :=
  rfl

end Operations

/-- Saving moves neither the rows nor the cursor. -/
theorem editorSave_inRange {E : EditorConfig} (inRange : CursorInRange E) (fs : FsState) (stack : Memory) :
    CursorInRange (editorSave E fs stack).1 := by
  unfold editorSave
  by_cases unnamed : E.filename.bytes = []
  · rw [if_pos unnamed]
    exact inRange
  rw [if_neg unnamed]
  dsimp only
  split
  · exact inRange
  · exact inRange.congr rfl rfl rfl

section Sessions

variable {s : EditorSession}

private theorem editorExecCommand_lands (inRange : CursorInRange s.E) (stack : Memory) :
    (∃ quit next, editorExecCommand s stack = .ok (quit, next) ∧ CursorInRange next.E) ∨
      editorExecCommand s stack = .error .bufferOverrun := by
  have saved := editorSave_inRange inRange s.fs stack
  unfold editorExecCommand
  dsimp only
  split
  · split
    · exact .inl ⟨_, _, rfl, inRange.congr rfl rfl rfl⟩
    · exact .inl ⟨_, _, rfl, inRange⟩
  split
  · exact .inl ⟨_, _, rfl, inRange⟩
  split
  · exact .inl ⟨_, _, rfl, saved⟩
  split
  · exact .inl ⟨_, _, rfl, saved⟩
  split
  · exact .inr rfl
  · exact .inl ⟨_, _, rfl, inRange.congr rfl rfl rfl⟩

private theorem commandKeypress_lands (inRange : CursorInRange s.E) (c : Int) (stack : Memory) :
    (∃ next, commandKeypress s c stack = .ok next ∧ CursorInRange next.E) ∨
      commandKeypress s c stack = .error .bufferOverrun := by
  unfold commandKeypress
  by_cases escape : c = escapeKey
  · rw [if_pos escape]
    exact .inl ⟨_, rfl, inRange.congr rfl rfl rfl⟩
  rw [if_neg escape]
  by_cases enter : c = enterKey
  · rw [if_pos enter]
    have ended : CursorInRange { s.E with cmdbuf := s.E.cmdbuf.storeByte s.E.cmdlen 0 } :=
      inRange.congr rfl rfl rfl
    cases @editorExecCommand_lands
        { s with E := { s.E with cmdbuf := s.E.cmdbuf.storeByte s.E.cmdlen 0 } } ended stack with
    | inl finished =>
      obtain ⟨quit, next, executed, nextInRange⟩ := finished
      simp only [executed, bind, Except.bind]
      cases quit with
      | true => exact .inl ⟨_, rfl, nextInRange.congr rfl rfl rfl⟩
      | false => exact .inl ⟨_, rfl, nextInRange.congr rfl rfl rfl⟩
    | inr overrun =>
      apply Or.inr
      simp only [overrun, bind, Except.bind]
  rw [if_neg enter]
  by_cases backspace : c = backspaceKey ∨ c = deleteKey
  · rw [if_pos backspace]
    split
    · exact .inl ⟨_, rfl, inRange.congr rfl rfl rfl⟩
    · exact .inl ⟨_, rfl, inRange⟩
  rw [if_neg backspace]
  split
  · exact .inl ⟨_, rfl, inRange.congr rfl rfl rfl⟩
  · exact .inl ⟨_, rfl, inRange⟩

end Sessions

/-! Turns of the main loop. -/

/-- `p` in normal mode, with a yanked line, on the line past the end. -/
def PastesPastEnd (s : EditorSession) (keys : List Int) : Prop :=
  s.E.mode = .normal ∧ keys.head? = some (keyOf 'p') ∧ s.yank ≠ [] ∧ s.E.cy = s.E.numrows

/-- A turn either finishes, with the cursor on the text unless it pasted past the end, or
waits for a key, or overruns `tmp`; it reads no row or character that does not exist. -/
def TurnResult (s : EditorSession) (keys : List Int) :
    Except EditorStop (EditorSession × List Int) → Prop
  | .ok (next, _) => CursorInRange next.E ↔ ¬PastesPastEnd s keys
  | .error stop => stop = .waitingForKey ∨ stop = .bufferOverrun

section Turns

variable {s : EditorSession} {keys : List Int}

theorem Lands.turn {result : Except EditorStop EditorConfig} (lands : Lands result) (rest : List Int)
    (elsewhere : ¬PastesPastEnd s keys) :
    TurnResult s keys (do let E ← result; pure ({ s with E }, rest)) := by
  obtain ⟨E, rfl, inRange⟩ := lands
  exact iff_of_true inRange elsewhere

private theorem not_pastesPastEnd_of_key {c : Int} (other : c ≠ keyOf 'p') : ¬PastesPastEnd s (c :: keys) := by
  intro pastes
  exact other (Option.some.inj pastes.2.1)

private theorem not_pastesPastEnd_of_mode (mode : s.E.mode ≠ .normal) : ¬PastesPastEnd s keys :=
  fun pastes => mode pastes.1

theorem editorProcessKeypress_spec (inRange : CursorInRange s.E) (keys : List Int) (stack : Memory) :
    TurnResult s keys (editorProcessKeypress s keys stack) := by
  cases keys with
  | nil => exact .inl rfl
  | cons c keys =>
    cases mode : s.E.mode with
    | insert =>
      simp only [editorProcessKeypress, mode]
      apply (insertKeypress_lands inRange c).turn
      exact not_pastesPastEnd_of_mode (by simp [mode])
    | command =>
      have elsewhere : ¬PastesPastEnd s (c :: keys) := not_pastesPastEnd_of_mode (by simp [mode])
      cases commandKeypress_lands inRange c stack with
      | inl finished =>
        obtain ⟨next, processed, nextInRange⟩ := finished
        simp only [editorProcessKeypress, mode, processed]
        exact iff_of_true nextInRange elsewhere
      | inr overrun =>
        have stopped : editorProcessKeypress s (c :: keys) stack = .error .bufferOverrun := by
          simp only [editorProcessKeypress, mode, overrun]
          rfl
        rw [stopped]
        exact .inr rfl
    | normal =>
      by_cases twoKeys : c = keyOf 'd' ∨ c = keyOf 'y'
      · have elsewhere : ¬PastesPastEnd s (c :: keys) := by
          apply not_pastesPastEnd_of_key
          intro paste
          subst paste
          revert twoKeys
          decide
        cases keys with
        | nil =>
          simp only [editorProcessKeypress, mode, if_pos twoKeys]
          exact .inl rfl
        | cons second rest =>
          simp only [editorProcessKeypress, mode, if_pos twoKeys]
          split
          · obtain ⟨next, yank, deleted, nextInRange⟩ := editorDeleteLine_lands inRange s.yank
            rw [deleted]
            exact iff_of_true nextInRange elsewhere
          split
          · obtain ⟨yank, yanked⟩ := editorYankLine_ok inRange.cy_nonneg s.yank
            rw [yanked]
            exact iff_of_true inRange elsewhere
          · exact iff_of_true inRange elsewhere
      · simp only [editorProcessKeypress, mode, if_neg twoKeys]
        by_cases paste : c = keyOf 'p'
        · subst paste
          rw [normalKeypress_paste]
          apply (editorPasteLine_inRange_iff inRange s.yank).trans
          apply not_congr
          exact ⟨fun past => ⟨mode, rfl, past⟩, fun pastes => pastes.2.2⟩
        · exact (normalKeypress_lands inRange s.yank paste).turn keys (not_pastesPastEnd_of_key paste)

private theorem editorScroll_cursor (E : EditorConfig) : (editorScroll E).rows = E.rows ∧
    (editorScroll E).cx = E.cx ∧ (editorScroll E).cy = E.cy ∧ (editorScroll E).mode = E.mode := by
  unfold editorScroll
  dsimp only
  split <;> split <;> split <;> split <;> exact ⟨rfl, rfl, rfl, rfl⟩

theorem editorTurn_spec (inRange : CursorInRange s.E) (keys : List Int) (stack : Memory) :
    TurnResult s keys (editorTurn s keys stack) := by
  obtain ⟨rows, cx, cy, mode⟩ := editorScroll_cursor s.E
  have scrolled : CursorInRange (editorScroll s.E) := inRange.congr rows cx cy
  have same : PastesPastEnd { s with E := editorScroll s.E } keys ↔ PastesPastEnd s keys := by
    simp only [PastesPastEnd, EditorConfig.numrows, mode, cy, rows]
  have turned := @editorProcessKeypress_spec { s with E := editorScroll s.E } scrolled keys stack
  unfold editorTurn
  cases result : editorProcessKeypress { s with E := editorScroll s.E } keys stack with
  | error stop =>
    rw [result] at turned
    exact turned
  | ok outcome =>
    rw [result] at turned
    exact turned.trans (not_congr same)

/-! Opening a file leaves the cursor where `initEditor` puts it. -/

private theorem openRows_cursor (buf : Nat → UInt8) (remaining index start : Nat) (E : EditorConfig) :
    (openRows buf remaining index start E).cx = E.cx ∧ (openRows buf remaining index start E).cy = E.cy := by
  induction remaining generalizing index start E with
  | zero => exact ⟨rfl, rfl⟩
  | succ remaining ih =>
    unfold openRows
    split
    · obtain ⟨cx, cy⟩ := ih (index + 1) (index + 1)
        (editorInsertRow E E.numrows (slice buf start (index - start)))
      have appended := @insertRow_eq E E.numrows (slice buf start (index - start)) (Int.natCast_nonneg _)
        (Int.le_refl _)
      rw [cx, cy, appended]
      exact ⟨rfl, rfl⟩
    · exact ih (index + 1) start E

private theorem editorOpen_cursor (E : EditorConfig) (disk : Memory) (filename : Option CString) :
    (editorOpen E disk filename).cx = E.cx ∧ (editorOpen E disk filename).cy = E.cy := by
  cases filename with
  | none => exact ⟨rfl, rfl⟩
  | some name =>
    unfold editorOpen
    dsimp only
    split
    · exact ⟨rfl, rfl⟩
    split
    · exact ⟨rfl, rfl⟩
    · exact openRows_cursor _ _ _ _ _

private theorem editorStart_inRange (E : EditorConfig) (yank : List UInt8) (fs : FsState)
    (filename : Option CString) : CursorInRange (editorStart E yank fs filename).E := by
  obtain ⟨cx, cy⟩ :=
    editorOpen_cursor { initEditor E with screenrows := 25 - 2, screencols := 80 } fs.disk filename
  apply cursorInRange_of_cx_zero cx
  · exact Int.le_of_eq cy.symm
  · exact Int.le_trans (Int.le_of_eq cy) (Int.natCast_nonneg _)

/-- The keys read by one turn, and the stack below it. -/
structure Typed where
  keys : List Int
  stack : Memory

/-- A turn of the main loop. -/
def Turn (s : EditorSession) (typed : Typed) (next : EditorSession) : Prop :=
  s.E.dirty ≠ -9999 ∧ editorTurn s typed.keys typed.stack = .ok (next, [])

/-- A turn that does not paste past the end. -/
def GoodTurn (s : EditorSession) (typed : Typed) (next : EditorSession) : Prop :=
  Turn s typed next ∧ ¬PastesPastEnd s typed.keys

theorem cursor_stays_on_text (E : EditorConfig) (yank : List UInt8) (fs : FsState)
    (filename : Option CString) (turns : List Typed) (s : EditorSession)
    (run : Run GoodTurn (editorStart E yank fs filename) turns s) :
    CursorInRange s.E ∧ ∀ keys stack, TurnResult s keys (editorTurn s keys stack) := by
  have inRange : CursorInRange s.E := by
    apply run.invariant (editorStart_inRange E yank fs filename)
    intro current typed next currentInRange turn
    have turned := editorTurn_spec currentInRange typed.keys typed.stack
    rw [turn.1.2] at turned
    exact turned.mpr turn.2
  exact ⟨inRange, editorTurn_spec inRange⟩

/-- The editor before its first run, and keys with the stack below them. -/
def blankEditor : EditorConfig where
  cx := 0
  cy := 0
  rowoff := 0
  coloff := 0
  screenrows := 0
  screencols := 0
  dirty := 0
  mode := .normal
  rows := []
  filename := emptyName
  cmdbuf := constantMemory 0
  cmdlen := 0

def typedKey (character : Char) : Typed := ⟨[keyOf character], constantMemory 0⟩

theorem cursor_stays_on_text_typing :
    ∃ s, Run GoodTurn (editorStart blankEditor [65] blankState none) [typedKey 'i', typedKey 'a'] s ∧
      s.E.rows = [[97]] ∧ CursorInRange s.E ∧
      ∀ keys stack, TurnResult s keys (editorTurn s keys stack) := by
  have insert : Run GoodTurn (editorStart blankEditor [65] blankState none) [typedKey 'i'] _ :=
    .single ⟨⟨by decide, rfl⟩, not_pastesPastEnd_of_key (by decide)⟩
  have typed := @Run.snoc _ _ _ _ _ _ _ (typedKey 'a') insert
    ⟨⟨by decide, rfl⟩, not_pastesPastEnd_of_mode (by decide)⟩
  exact ⟨_, typed, rfl, cursor_stays_on_text _ _ _ _ _ _ typed⟩

/-- With a line in the yank buffer, `p` in an empty buffer moves the cursor to line 1 of
none, and the next character typed goes to a row that does not exist. -/
theorem paste_past_end_leaves_text :
    ∃ s, Run Turn (editorStart blankEditor [65] blankState none) [typedKey 'p', typedKey 'i'] s ∧
      ¬CursorInRange s.E ∧
      editorTurn s (typedKey 'a').keys (typedKey 'a').stack = .error (.rowOutOfRange 1) := by
  have pasted : Run Turn (editorStart blankEditor [65] blankState none) [typedKey 'p'] _ :=
    .single ⟨by decide, rfl⟩
  have insert := @Run.snoc _ _ _ _ _ _ _ (typedKey 'i') pasted ⟨by decide, rfl⟩
  refine ⟨_, insert, ?_, rfl⟩
  intro inRange
  exact absurd inRange.cy_le (by decide)

end Turns

end ShedKernel.Editor
