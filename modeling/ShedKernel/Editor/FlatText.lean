import ShedKernel.Editor.CursorProperties
import ShedKernel.Foundation.TextCursor

/-! Insert mode edits the rows as it would edit one flat text: the rows cut open at the
cursor take the same edits, and joining them with newlines gives the text. -/

set_option autoImplicit false

namespace ShedKernel.Editor

open Foundation FileSystem EditorConfig

/-- The rows joined with newlines, and the cursor's offset in them. -/
def EditorConfig.flat (E : EditorConfig) : FlatText UInt8 where
  text := [10].intercalate E.rows
  offset := ((E.rows.take E.cy.toNat).map fun row => row.length + 1).sum + E.cx.toNat

/-- The cursor is on an existing row. -/
structure OnRow (E : EditorConfig) : Prop where
  cy_nonneg : 0 ≤ E.cy
  cy_lt : E.cy < E.numrows
  cx_nonneg : 0 ≤ E.cx
  cx_le : E.cx ≤ E.rowSize E.cy

/-- The rows and the cursor cut the text open at `split`. -/
structure SplitAt (E : EditorConfig) (split : LineSplit UInt8) : Prop where
  rows : E.rows = split.lines
  cy : E.cy = split.above.length
  cx : E.cx = split.left.length

variable {E : EditorConfig} {split : LineSplit UInt8} {c : Int}

private theorem OnRow.splitAt (onRow : OnRow E) : ∃ split, SplitAt E split := by
  have nonneg := onRow.cy_nonneg
  have below := onRow.cy_lt
  have column := onRow.cx_nonneg
  have fits := onRow.cx_le
  have inside : E.cy.toNat < E.rows.length := by
    unfold EditorConfig.numrows at below
    omega
  have size : E.rowSize E.cy = E.rows[E.cy.toNat].length := by
    unfold EditorConfig.rowSize
    rw [if_pos ⟨nonneg, below⟩, List.getD_eq_getElem _ _ inside]
  have cut := @LineSplit.lines_cut _ E.rows E.cy.toNat E.cx.toNat inside
  refine ⟨_, cut, ?_, ?_⟩
  · simp only [List.length_take]
    omega
  · simp only [List.length_take]
    omega

theorem SplitAt.onRow (at_split : SplitAt E split) : OnRow E := by
  obtain ⟨rows, cy, cx⟩ := at_split
  have count : E.numrows = split.above.length + (split.below.length + 1) := by
    simp only [EditorConfig.numrows, rows, LineSplit.lines, List.length_append, List.length_cons]
    omega
  constructor
  · omega
  · rw [count, cy]
    omega
  · omega
  · have row : split.lines.getD (split.above.length : Int).toNat [] = split.left ++ split.right := by
      simp [LineSplit.lines]
    rw [EditorConfig.rowSize, if_pos (by omega), rows, cy, cx, row, List.length_append]
    omega

theorem SplitAt.flat (at_split : SplitAt E split) : E.flat = split.flat 10 := by
  obtain ⟨rows, cy, cx⟩ := at_split
  unfold EditorConfig.flat LineSplit.flat FlatText.between
  rw [rows, LineSplit.intercalate_lines, cy, cx]
  simp [LineSplit.lines, LineSplit.before, List.length_flatten, Function.comp_def]

/-! The operations of insert mode on the cut. -/

/-- The operation reads nothing that does not exist, and leaves the text cut at `split`
and the mode as it is. -/
def Reaches (E : EditorConfig) (result : Except EditorStop EditorConfig) (split : LineSplit UInt8) :
    Prop :=
  ∃ next, result = .ok next ∧ SplitAt next split ∧ next.mode = E.mode

theorem SplitAt.row (at_split : SplitAt E split) : E.row E.cy = .ok (split.left ++ split.right) := by
  have onRow := at_split.onRow
  rw [EditorConfig.row, if_pos ⟨onRow.cy_nonneg, onRow.cy_lt⟩, at_split.rows, at_split.cy]
  simp [LineSplit.lines]

private theorem editorInsertChar_reaches (at_split : SplitAt E split) :
    Reaches E (editorInsertChar E c) (split.insert (charOf c)) := by
  have onRow := at_split.onRow
  have read := at_split.row
  obtain ⟨rows, cy, cx⟩ := at_split
  have inside : ¬E.cy = E.numrows := Int.ne_of_lt onRow.cy_lt
  have within : ¬(E.cx < 0 ∨ ((split.left ++ split.right).length : Int) < E.cx) := by
    simp only [List.length_append]
    omega
  refine ⟨{ E.setRow E.cy ((split.left ++ split.right).insertIdx E.cx.toNat (charOf c)) with
    cx := E.cx + 1, dirty := 1 }, ?_, ?_, rfl⟩
  · simp only [editorInsertChar, if_neg inside, editorRowInsertChar, read, if_neg within, bind,
      Except.bind, pure, Except.pure, EditorConfig.setRow]
  · constructor
    · simp only [EditorConfig.setRow, rows, cy, cx, Int.toNat_natCast, insertIdx_append]
      simp [LineSplit.lines, LineSplit.insert]
    · exact cy
    · simp [LineSplit.insert, cx]

private theorem editorInsertNewline_reaches (at_split : SplitAt E split) :
    Reaches E (editorInsertNewline E) split.breakLine := by
  have onRow := at_split.onRow
  have read := at_split.row
  obtain ⟨rows, cy, cx⟩ := at_split
  have nonneg := onRow.cy_nonneg
  have below := onRow.cy_lt
  by_cases start : E.cx = 0
  · have left : split.left = [] := by
      apply List.eq_nil_of_length_eq_zero
      omega
    refine ⟨{ editorInsertRow E E.cy [] with cy := E.cy + 1, cx := 0 }, ?_, ?_, ?_⟩
    · simp only [editorInsertNewline, if_pos start, pure, Except.pure,
        insertRow_eq nonneg (Int.le_of_lt below)]
    · rw [insertRow_eq nonneg (Int.le_of_lt below)]
      constructor
      · simp only [rows, cy, Int.toNat_natCast, LineSplit.lines, insertIdx_append]
        simp [LineSplit.breakLine, left]
      · simp [LineSplit.breakLine, cy]
      · rfl
    · rw [insertRow_eq nonneg (Int.le_of_lt below)]
  · have within : ¬(E.cx < 0 ∨ ((split.left ++ split.right).length : Int) < E.cx) := by
      simp only [List.length_append]
      omega
    have place : (0 : Int) ≤ E.cy + 1 := Int.le_add_one nonneg
    have cut : (split.left ++ split.right).drop E.cx.toNat = split.right := by simp [cx]
    have kept : (split.left ++ split.right).take E.cx.toNat = split.left := by simp [cx]
    have after : E.rows.insertIdx (E.cy + 1).toNat split.right =
        split.above ++ (split.left ++ split.right) :: split.right :: split.below := by
      have front := insertIdx_append (split.above ++ [split.left ++ split.right]) split.below
        split.right
      simp only [List.length_append, List.length_cons, List.length_nil, List.append_assoc,
        List.singleton_append] at front
      have position : (E.cy + 1).toNat = split.above.length + (0 + 1) := by omega
      rw [rows, position]
      exact front
    have readAgain : EditorConfig.row
        { E with rows := split.above ++ (split.left ++ split.right) :: split.right :: split.below } E.cy =
        .ok (split.left ++ split.right) := by
      rw [EditorConfig.row, if_pos]
      · simp [cy]
      · refine ⟨nonneg, ?_⟩
        simp only [EditorConfig.numrows, List.length_append, List.length_cons]
        omega
    refine ⟨{ E with
      rows := (split.above ++ (split.left ++ split.right) :: split.right :: split.below).set
        E.cy.toNat split.left
      cy := E.cy + 1
      cx := 0 }, ?_, ?_, rfl⟩
    · simp only [editorInsertNewline, if_neg start, read, if_neg within, cut,
        insertRow_eq place (Int.add_one_le_of_lt below), after, readAgain, kept, bind, Except.bind, pure,
        Except.pure, EditorConfig.setRow]
    · constructor
      · simp [cy, LineSplit.lines, LineSplit.breakLine]
      · simp [LineSplit.breakLine, cy]
      · rfl

section DelChar

variable {above below : List (List UInt8)} {rest right line : List UInt8}

private theorem editorDelChar_inLine {last : UInt8}
    (at_split : SplitAt E ⟨above, rest ++ [last], right, below⟩) :
    Reaches E (editorDelChar E) ⟨above, rest, right, below⟩ := by
  have onRow := at_split.onRow
  have read := at_split.row
  obtain ⟨rows, cy, cx⟩ := at_split
  have inside : ¬E.cy = E.numrows := Int.ne_of_lt onRow.cy_lt
  simp only [List.length_append, List.length_cons, List.length_nil] at cy cx read
  have column : 0 < E.cx := by omega
  have origin : ¬(E.cx = 0 ∧ E.cy = 0) := by omega
  have within : ¬(E.cx - 1 < 0 ∨ ((rest ++ [last] ++ right).length : Int) ≤ E.cx - 1) := by
    simp only [List.length_append, List.length_cons, List.length_nil]
    omega
  have position : (E.cx - 1).toNat = rest.length := by omega
  have erased : (rest ++ [last] ++ right).eraseIdx (E.cx - 1).toNat = rest ++ right := by
    rw [position, List.append_assoc]
    exact eraseIdx_append rest right last
  refine ⟨{ E.setRow E.cy (rest ++ right) with cx := E.cx - 1, dirty := 1 }, ?_, ?_, rfl⟩
  · simp only [editorDelChar, if_neg inside, if_neg origin, if_pos column, editorRowDelChar, read,
      if_neg within, erased, bind, Except.bind, pure, Except.pure, EditorConfig.setRow]
  · constructor
    · simp [EditorConfig.setRow, rows, cy, LineSplit.lines]
    · exact cy
    · show E.cx - 1 = rest.length
      omega

/-- The row is joined to the one above, whose old end becomes the cursor's column. -/
theorem editorDelChar_joins (at_split : SplitAt E ⟨above ++ [line], [], right, below⟩) :
    Reaches E (editorDelChar E) ⟨above, line, right, below⟩ := by
  have onRow := at_split.onRow
  have read := at_split.row
  obtain ⟨rows, cy, cx⟩ := at_split
  have inside : ¬E.cy = E.numrows := Int.ne_of_lt onRow.cy_lt
  simp only [List.length_append, List.length_cons, List.length_nil, List.nil_append] at cy cx read
  have origin : ¬(E.cx = 0 ∧ E.cy = 0) := by omega
  have column : ¬0 < E.cx := by omega
  have place : (E.cy - 1).toNat = above.length := by omega
  have upper (cx : Int) : EditorConfig.row { E with cx } (E.cy - 1) = .ok line := by
    have inRange : 0 ≤ E.cy - 1 ∧ E.cy - 1 < E.numrows := by
      have last := onRow.cy_lt
      omega
    refine (if_pos inRange).trans ?_
    rw [place]
    simp [rows, LineSplit.lines]
  have unchanged : EditorConfig.row E (E.cy - 1) = .ok line := upper E.cx
  have lower : EditorConfig.row { E with cx := line.length } E.cy = .ok right := read
  have joined : (E.rows.set (E.cy - 1).toNat (line ++ right)).eraseIdx E.cy.toNat =
      above ++ (line ++ right) :: below := by
    have next : E.cy.toNat = (above ++ [line ++ right]).length := by
      simp only [List.length_append, List.length_cons, List.length_nil]
      omega
    have stored : E.rows.set (E.cy - 1).toNat (line ++ right) =
        above ++ [line ++ right] ++ right :: below := by
      rw [place]
      simp [rows, LineSplit.lines]
    rw [stored, next, eraseIdx_append]
    simp
  have deleted : editorDelRow { E with
        cx := line.length, rows := E.rows.set (E.cy - 1).toNat (line ++ right), dirty := 1 } E.cy =
      { E with cx := line.length, rows := above ++ (line ++ right) :: below, dirty := 1 } := by
    rw [delRow_eq onRow.cy_nonneg]
    · simp only [joined]
    · simp only [EditorConfig.numrows, List.length_set]
      exact onRow.cy_lt
  refine ⟨{ E with
    rows := above ++ (line ++ right) :: below
    cx := line.length
    cy := E.cy - 1
    dirty := 1 }, ?_, ?_, rfl⟩
  · simp only [editorDelChar, if_neg inside, if_neg origin, if_neg column, unchanged, lower,
      editorRowAppendString, upper, bind, Except.bind, pure, Except.pure, EditorConfig.setRow, deleted]
  · constructor
    · rfl
    · show E.cy - 1 = above.length
      omega
    · rfl

end DelChar

private theorem editorDelChar_reaches (at_split : SplitAt E split) :
    Reaches E (editorDelChar E) split.backspace := by
  obtain ⟨above, left, right, below⟩ := split
  cases List.eq_nil_or_concat' left with
  | inr later =>
    obtain ⟨rest, last, rfl⟩ := later
    rw [LineSplit.backspace_inLine]
    exact editorDelChar_inLine at_split
  | inl start =>
    subst start
    cases List.eq_nil_or_concat' above with
    | inl first =>
      subst first
      have inside : ¬E.cy = E.numrows := Int.ne_of_lt at_split.onRow.cy_lt
      have origin : E.cx = 0 ∧ E.cy = 0 := ⟨at_split.cx, at_split.cy⟩
      refine ⟨E, ?_, at_split, rfl⟩
      simp only [editorDelChar, if_neg inside, if_pos origin, pure, Except.pure]
    | inr later =>
      obtain ⟨rest, line, rfl⟩ := later
      rw [LineSplit.backspace_joins]
      exact editorDelChar_joins at_split

/-! Keys typed in insert mode. -/

/-- Enter, Backspace or a printable character. -/
def TextKey (c : Int) : Prop := c = enterKey ∨ c = backspaceKey ∨ c = deleteKey ∨ 32 ≤ c ∧ c ≤ 126

/-- What a key does to a flat text. -/
def typeFlat (flat : FlatText UInt8) (c : Int) : FlatText UInt8 :=
  if c = enterKey then flat.insert 10
  else if c = backspaceKey ∨ c = deleteKey then flat.backspace
  else flat.insert (charOf c)

def typeSplit (split : LineSplit UInt8) (c : Int) : LineSplit UInt8 :=
  if c = enterKey then split.breakLine
  else if c = backspaceKey ∨ c = deleteKey then split.backspace
  else split.insert (charOf c)

private theorem typeSplit_flat (split : LineSplit UInt8) (c : Int) :
    (typeSplit split c).flat 10 = typeFlat (split.flat 10) c := by
  unfold typeSplit typeFlat
  split
  · exact split.flat_breakLine 10
  split
  · exact split.flat_backspace 10
  · exact split.flat_insert 10 (charOf c)

private theorem Reaches.withDirty {result : Except EditorStop EditorConfig} (reaches : Reaches E result split)
    (dirty : Int) : Reaches E (do let E ← result; pure { E with dirty }) split := by
  obtain ⟨next, rfl, ⟨rows, cy, cx⟩, mode⟩ := reaches
  exact ⟨_, rfl, ⟨rows, cy, cx⟩, mode⟩

private theorem insertKeypress_reaches (at_split : SplitAt E split) (key : TextKey c) :
    Reaches E (insertKeypress E c) (typeSplit split c) := by
  have visible : c ≠ escapeKey := by
    intro escape
    subst escape
    unfold TextKey at key
    revert key
    decide
  unfold insertKeypress typeSplit
  rw [if_neg visible]
  split
  · exact (editorInsertNewline_reaches at_split).withDirty 1
  · next notEnter =>
    split
    · exact editorDelChar_reaches at_split
    · next notErase =>
      have printable : 32 ≤ c ∧ c < 127 := by
        cases key with
        | inl enter => exact absurd enter notEnter
        | inr rest =>
          omega
      rw [if_pos printable]
      exact editorInsertChar_reaches at_split

/-- The editor after each of the keys was processed. -/
def processKeys (s : EditorSession) (stack : Memory) : List Int → Except EditorStop EditorSession
  | [] => .ok s
  | c :: rest => do
      let (s, _) ← editorProcessKeypress s [c] stack
      processKeys s stack rest

private theorem processKeys_splitAt {s : EditorSession} (keys : List Int) (stack : Memory)
    (textKeys : ∀ c ∈ keys, TextKey c) (mode : s.E.mode = .insert) (at_split : SplitAt s.E split) :
    ∃ next, processKeys s stack keys = .ok next ∧ SplitAt next.E (keys.foldl typeSplit split) := by
  induction keys generalizing s split with
  | nil => exact ⟨s, rfl, at_split⟩
  | cons c rest ih =>
    obtain ⟨E, processed, landed, kept⟩ := insertKeypress_reaches at_split (textKeys c List.mem_cons_self)
    obtain ⟨next, ran, nextAt⟩ := @ih _ { s with E }
      (fun other member => textKeys other (List.mem_cons_of_mem _ member)) (kept.trans mode) landed
    refine ⟨next, ?_, nextAt⟩
    have pressed : editorProcessKeypress s [c] stack = .ok ({ s with E }, []) := by
      simp only [editorProcessKeypress, mode, processed, bind, Except.bind, pure, Except.pure]
    simp only [processKeys, pressed, bind, Except.bind]
    exact ran

/-- Insert mode refines the flat text, and the cursor stays on an existing row. -/
theorem insert_mode_refines_flat (s : EditorSession) (mode : s.E.mode = .insert) (onRow : OnRow s.E)
    (keys : List Int) (textKeys : ∀ c ∈ keys, TextKey c) (stack : Memory) :
    ∃ next, processKeys s stack keys = .ok next ∧ next.E.flat = keys.foldl typeFlat s.E.flat ∧
      OnRow next.E := by
  obtain ⟨split, at_split⟩ := onRow.splitAt
  obtain ⟨next, ran, nextAt⟩ := processKeys_splitAt keys stack textKeys mode at_split
  refine ⟨next, ran, ?_, nextAt.onRow⟩
  rw [nextAt.flat, at_split.flat]
  have carried : ∀ (keys : List Int) (split : LineSplit UInt8),
      (keys.foldl typeSplit split).flat 10 = keys.foldl typeFlat (split.flat 10) := by
    intro keys
    induction keys with
    | nil => exact fun _ => rfl
    | cons c rest ih =>
      intro split
      rw [List.foldl_cons, List.foldl_cons, ih, typeSplit_flat]
  exact carried keys split

/-- Typing `a`, Enter and Backspace twice behind the `x` of an only row `xy`. -/
theorem insert_mode_refines_flat_example :
    ∃ next, processKeys ⟨{ blankEditor with mode := .insert, rows := [[120, 121]], cx := 1 }, [], blankState⟩
        (constantMemory 0) [97, 10, 8, 8] = .ok next ∧
      next.E.flat = ⟨[120, 121], 1⟩ ∧ OnRow next.E :=
  insert_mode_refines_flat
    ⟨{ blankEditor with mode := .insert, rows := [[120, 121]], cx := 1 }, [], blankState⟩ rfl
    ⟨by decide, by decide, by decide, by decide⟩ [97, 10, 8, 8] (by unfold TextKey; decide) _

end ShedKernel.Editor
