import Mathlib.Data.List.Perm.Basic
import Mathlib.Data.List.TakeDrop
import Mathlib.Data.Multiset.ZeroCons
import ShedKernel.Editor.QuitProperties

/-! Yank, delete and paste: `yy` and `dd` keep the current row in the yank buffer, as far as
it fits there, and `p` puts the buffer behind the current row. -/

set_option autoImplicit false

namespace ShedKernel.Editor

open Foundation FileSystem EditorConfig

/-- The row under the cursor. -/
def currentRow (E : EditorConfig) : List UInt8 := E.rows.getD E.cy.toNat []

def CursorOnRow (E : EditorConfig) : Prop := 0 ≤ E.cy ∧ E.cy < E.numrows

/-- The key typed twice and then `p`, in three turns of which the first reads two keys. -/
def thenPaste (s : EditorSession) (key : Char) (stack : Memory) :
    Except EditorStop EditorSession := do
  let (s, _) ← editorTurn s [keyOf key, keyOf key] stack
  let (s, _) ← editorTurn s [keyOf 'p'] stack
  pure s

/-- A copy of the current row directly behind it, and the cursor there. -/
structure PastesCopy (E next : EditorConfig) : Prop where
  rows : next.rows = E.rows.insertIdx (E.cy + 1).toNat (currentRow E)
  cursor : next.cy = E.cy + 1

/-- The same rows in some order, and the cursor on the one that was current. -/
structure PastesBack (E next : EditorConfig) : Prop where
  rows : next.rows.Perm E.rows
  cursor : CursorOnRow next
  current : currentRow next = currentRow E

/-- What `editorYankLine` keeps of the current row. -/
def yankedRow (E : EditorConfig) : List UInt8 := (currentRow E).take (blockSize - 1)

/-- What `editorDeleteLine` leaves when there is a current row. -/
def withoutRow (E : EditorConfig) : EditorConfig :=
  { E with
    rows := E.rows.eraseIdx E.cy.toNat
    dirty := 1
    cy := if E.numrows - 1 ≤ E.cy ∧ 0 < E.cy then E.cy - 1 else E.cy
    cx := 0 }

section Lines

variable {E : EditorConfig} {yank : List UInt8}

theorem CursorOnRow.inside (onRow : CursorOnRow E) : E.cy.toNat < E.rows.length := by
  obtain ⟨nonneg, below⟩ := onRow
  unfold numrows at below
  omega

private theorem editorYankLine_eq (onRow : CursorOnRow E) :
    editorYankLine E yank = .ok (yankedRow E) := by
  have read : E.row E.cy = .ok (currentRow E) := if_pos onRow
  unfold editorYankLine
  rw [if_neg (Int.not_le.mpr onRow.2), read]
  rfl

private theorem editorDeleteLine_eq (onRow : CursorOnRow E) :
    editorDeleteLine E yank = .ok (withoutRow E, yankedRow E) := by
  have someRow : ¬E.numrows = 0 := by
    obtain ⟨nonneg, below⟩ := onRow
    omega
  have shorter := numrows_delRow onRow.1 onRow.2
  have deleted := delRow_eq onRow.1 onRow.2
  unfold editorDeleteLine
  rw [if_neg someRow, editorYankLine_eq onRow]
  simp only [bind, Except.bind, shorter]
  rw [deleted]
  unfold withoutRow
  by_cases last : E.numrows - 1 ≤ E.cy ∧ 0 < E.cy
  · simp only [if_pos last]
    rfl
  · simp only [if_neg last]
    rfl

private theorem editorPasteLine_eq (filled : yank ≠ []) (nonneg : 0 ≤ E.cy) (below : E.cy < E.numrows) :
    (editorPasteLine E yank).rows = E.rows.insertIdx (E.cy + 1).toNat yank ∧
      (editorPasteLine E yank).cy = E.cy + 1 := by
  have some : ¬yank.length = 0 := mt List.length_eq_zero_iff.mp filled
  unfold editorPasteLine
  rw [if_neg some, insertRow_eq (by omega) (by omega)]
  exact ⟨rfl, rfl⟩

/-- An empty buffer pastes nothing. -/
theorem editorPasteLine_empty : editorPasteLine E [] = E := rfl

/-- Behind the last line there is no place for a row. -/
theorem editorPasteLine_refused (past : E.numrows ≤ E.cy) :
    (editorPasteLine E yank).rows = E.rows := by
  unfold editorPasteLine
  split
  · rfl
  · exact editorInsertRow_rows_iff.mpr (by omega)

private theorem yankedRow_eq_iff : yankedRow E = currentRow E ↔ (currentRow E).length ≤ 4095 :=
  List.take_eq_self_iff _

/-- The row fits the yank buffer, and there is something to paste. -/
theorem yankedRow_whole_iff :
    (yankedRow E ≠ [] ∧ yankedRow E = currentRow E) ↔
      0 < (currentRow E).length ∧ (currentRow E).length ≤ 4095 := by
  rw [yankedRow_eq_iff]
  constructor
  · intro ⟨filled, fits⟩
    rw [yankedRow_eq_iff.mpr fits] at filled
    exact ⟨List.length_pos_iff.mpr filled, fits⟩
  · intro ⟨positive, fits⟩
    rw [yankedRow_eq_iff.mpr fits]
    exact ⟨List.length_pos_iff.mp positive, fits⟩

/-- Pasting what `editorYankLine` kept copies the row exactly if it was kept whole. -/
theorem pastesCopy_iff (onRow : CursorOnRow E) :
    PastesCopy E (editorPasteLine E (yankedRow E)) ↔
      0 < (currentRow E).length ∧ (currentRow E).length ≤ 4095 := by
  have place : (E.cy + 1).toNat ≤ E.rows.length := by
    have inside := onRow.inside
    have nonneg := onRow.1
    omega
  rw [← yankedRow_whole_iff]
  constructor
  · intro copied
    have rows := copied.rows
    cases kept : yankedRow E with
    | nil =>
        rw [kept, editorPasteLine_empty] at rows
        have lengths := congrArg List.length rows
        rw [List.length_insertIdx_of_le_length place] at lengths
        omega
    | cons byte rest =>
        rw [← kept]
        have filled : yankedRow E ≠ [] := kept ▸ List.cons_ne_nil byte rest
        rw [(editorPasteLine_eq filled onRow.1 onRow.2).1] at rows
        have here := congrArg (·[(E.cy + 1).toNat]?) rows
        simp only [List.getElem?_insertIdx_self, if_pos place] at here
        exact ⟨filled, Option.some.inj here⟩
  · intro ⟨filled, whole⟩
    obtain ⟨rows, cursor⟩ := editorPasteLine_eq filled onRow.1 onRow.2
    exact ⟨whole ▸ rows, cursor⟩

/-! Deleting and pasting. -/

private theorem withoutRow_rows : (withoutRow E).rows = E.rows.eraseIdx E.cy.toNat := rfl

private theorem length_withoutRow (onRow : CursorOnRow E) :
    (withoutRow E).rows.length + 1 = E.rows.length := by
  have inside := onRow.inside
  rw [withoutRow_rows, List.length_eraseIdx_of_lt inside]
  omega

/-- The cursor is left on a row unless there was just one. -/
theorem withoutRow_onRow_iff (onRow : CursorOnRow E) :
    CursorOnRow (withoutRow E) ↔ 2 ≤ E.numrows := by
  obtain ⟨nonneg, below⟩ := onRow
  have fewer : (withoutRow E).numrows = E.numrows - 1 := by
    have lengths := length_withoutRow ⟨nonneg, below⟩
    unfold numrows
    omega
  have moved : (withoutRow E).cy = if E.numrows - 1 ≤ E.cy ∧ 0 < E.cy then E.cy - 1 else E.cy := rfl
  unfold CursorOnRow
  rw [fewer, moved]
  split
  · omega
  · omega

private theorem perm_cons_withoutRow (onRow : CursorOnRow E) :
    (currentRow E :: (withoutRow E).rows).Perm E.rows := by
  have inside := onRow.inside
  have current : currentRow E = E.rows[E.cy.toNat] := List.getD_eq_getElem _ _ inside
  rw [current]
  exact List.getElem_cons_eraseIdx_perm inside

/-- The rows without the current one and one other row in its place. -/
theorem perm_insert_iff (onRow : CursorOnRow E) {row : List UInt8} {place : Nat}
    (inside : place ≤ (withoutRow E).rows.length) :
    ((withoutRow E).rows.insertIdx place row).Perm E.rows ↔ row = currentRow E := by
  have inserted := List.perm_insertIdx row (withoutRow E).rows inside
  constructor
  · intro perm
    have same := (inserted.symm.trans perm).trans (perm_cons_withoutRow onRow).symm
    rw [← Multiset.coe_eq_coe, ← Multiset.cons_coe, ← Multiset.cons_coe] at same
    exact (Multiset.cons_inj_left _).mp same
  · intro same
    rw [same] at inserted ⊢
    exact inserted.trans (perm_cons_withoutRow onRow)

/-- Pasting the row that was deleted gives it back exactly if it was kept whole and another
row is left for the cursor. -/
theorem pastesBack_iff (onRow : CursorOnRow E) :
    PastesBack E (editorPasteLine (withoutRow E) (yankedRow E)) ↔
      0 < (currentRow E).length ∧ (currentRow E).length ≤ 4095 ∧ 2 ≤ E.numrows := by
  have lengths := length_withoutRow onRow
  -- with one row less there is no permutation
  have lost : (editorPasteLine (withoutRow E) (yankedRow E)).rows = (withoutRow E).rows →
      ¬PastesBack E (editorPasteLine (withoutRow E) (yankedRow E)) := by
    intro fewer back
    have same := back.rows.length_eq
    rw [fewer] at same
    omega
  rw [← and_assoc, ← yankedRow_whole_iff, ← withoutRow_onRow_iff onRow]
  by_cases filled : yankedRow E = []
  · refine iff_of_false (lost ?_) fun kept => kept.1.1 filled
    rw [filled, editorPasteLine_empty]
  by_cases left : CursorOnRow (withoutRow E)
  · obtain ⟨rows, cursor⟩ := editorPasteLine_eq filled left.1 left.2
    have place : ((withoutRow E).cy + 1).toNat ≤ (withoutRow E).rows.length := by
      have inside := left.inside
      have nonneg := left.1
      omega
    have permIff := @perm_insert_iff E onRow (yankedRow E) _ place
    rw [← rows] at permIff
    constructor
    · intro back
      exact ⟨⟨filled, permIff.mp back.rows⟩, left⟩
    · intro ⟨⟨_, whole⟩, _⟩
      have count : (editorPasteLine (withoutRow E) (yankedRow E)).rows.length =
          (withoutRow E).rows.length + 1 := by
        rw [rows, List.length_insertIdx_of_le_length place]
      refine ⟨permIff.mpr whole, ?_, ?_⟩
      · have nonneg := left.1
        have below := left.2
        unfold CursorOnRow numrows at *
        rw [cursor, count]
        omega
      · unfold currentRow
        rw [cursor, rows, List.getD_eq_getElem?_getD, List.getElem?_insertIdx_self, if_pos place]
        exact whole
  · refine iff_of_false (lost (editorPasteLine_refused ?_)) fun kept => left kept.2
    have count : (withoutRow E).numrows = E.numrows - 1 := by
      unfold numrows
      omega
    have alone := mt (withoutRow_onRow_iff onRow).mpr left
    have nonneg := onRow.1
    have below := onRow.2
    have moved : (withoutRow E).cy = if E.numrows - 1 ≤ E.cy ∧ 0 < E.cy then E.cy - 1 else E.cy := rfl
    rw [count, moved]
    split
    · omega
    · omega

end Lines

/-! Keys. -/

section Keys

variable {s : EditorSession} {stack : Memory}

private theorem editorScroll_eq (E : EditorConfig) : ∃ rowoff coloff,
    editorScroll E = { E with rowoff, coloff } := by
  unfold editorScroll
  dsimp only
  split <;> split <;> split <;> split <;> exact ⟨_, _, rfl⟩

private theorem yank_turn (mode : s.E.mode = .normal) (onRow : CursorOnRow s.E) :
    editorTurn s [keyOf 'y', keyOf 'y'] stack =
      .ok (⟨editorScroll s.E, yankedRow s.E, s.fs⟩, []) := by
  obtain ⟨rowoff, coloff, scrolled⟩ := editorScroll_eq s.E
  have yanked : editorYankLine (editorScroll s.E) s.yank = .ok (yankedRow s.E) := by
    rw [scrolled]
    exact @editorYankLine_eq { s.E with rowoff, coloff } s.yank onRow
  have normal : (editorScroll s.E).mode = .normal := by
    rw [scrolled]
    exact mode
  simp only [editorTurn, editorProcessKeypress, normal]
  rw [if_pos (.inr trivial), if_neg (by decide), if_pos (by decide), yanked]
  rfl

private theorem delete_turn (mode : s.E.mode = .normal) (onRow : CursorOnRow s.E) :
    editorTurn s [keyOf 'd', keyOf 'd'] stack =
      .ok (⟨withoutRow (editorScroll s.E), yankedRow s.E, s.fs⟩, []) := by
  obtain ⟨rowoff, coloff, scrolled⟩ := editorScroll_eq s.E
  have deleted : editorDeleteLine (editorScroll s.E) s.yank =
      .ok (withoutRow (editorScroll s.E), yankedRow s.E) := by
    rw [scrolled]
    exact @editorDeleteLine_eq { s.E with rowoff, coloff } s.yank onRow
  have normal : (editorScroll s.E).mode = .normal := by
    rw [scrolled]
    exact mode
  simp only [editorTurn, editorProcessKeypress, normal]
  rw [if_pos (.inl trivial), if_pos (by decide), deleted]
  rfl

private theorem paste_turn (mode : s.E.mode = .normal) :
    editorTurn s [keyOf 'p'] stack =
      .ok ({ s with E := editorPasteLine (editorScroll s.E) s.yank }, []) := by
  have normal : (editorScroll s.E).mode = .normal := (editorScroll_same s.E).2.2.1.trans mode
  simp only [editorTurn, editorProcessKeypress, normal]
  rw [if_neg (by decide)]
  rfl

/-- Only the rows and the line of the cursor count for a paste. -/
theorem editorPasteLine_congr {E other : EditorConfig} (rows : other.rows = E.rows)
    (cy : other.cy = E.cy) (yank : List UInt8) :
    (editorPasteLine other yank).rows = (editorPasteLine E yank).rows ∧
      (editorPasteLine other yank).cy = (editorPasteLine E yank).cy := by
  unfold editorPasteLine editorInsertRow numrows
  rw [rows, cy]
  split
  · exact ⟨rows, cy⟩
  split
  · exact ⟨rows, rfl⟩
  · exact ⟨rfl, rfl⟩

private theorem PastesCopy.congr_iff {E next other : EditorConfig} (rows : other.rows = next.rows)
    (cy : other.cy = next.cy) : PastesCopy E other ↔ PastesCopy E next := by
  constructor
  · intro copied
    exact ⟨rows.symm.trans copied.rows, cy.symm.trans copied.cursor⟩
  · intro copied
    exact ⟨rows.trans copied.rows, cy.trans copied.cursor⟩

private theorem PastesBack.congr_iff {E next other : EditorConfig} (rows : other.rows = next.rows)
    (cy : other.cy = next.cy) : PastesBack E other ↔ PastesBack E next := by
  have sameCursor : CursorOnRow other ↔ CursorOnRow next := by
    unfold CursorOnRow numrows
    rw [rows, cy]
  have sameRow : currentRow other = currentRow next := by
    unfold currentRow
    rw [rows, cy]
  constructor
  · intro back
    exact ⟨rows ▸ back.rows, sameCursor.mp back.cursor, sameRow.symm.trans back.current⟩
  · intro back
    exact ⟨rows ▸ back.rows, sameCursor.mpr back.cursor, sameRow.trans back.current⟩

private theorem yank_thenPaste (mode : s.E.mode = .normal) (onRow : CursorOnRow s.E) :
    ∃ next, thenPaste s 'y' stack = .ok next ∧
      next.E.rows = (editorPasteLine s.E (yankedRow s.E)).rows ∧
      next.E.cy = (editorPasteLine s.E (yankedRow s.E)).cy := by
  have first := @yank_turn s stack mode onRow
  obtain ⟨rows, _, sameMode, cy, _⟩ := editorScroll_same s.E
  obtain ⟨rowsAgain, _, _, cyAgain, _⟩ := editorScroll_same (editorScroll s.E)
  have second := @paste_turn ⟨editorScroll s.E, yankedRow s.E, s.fs⟩ stack (sameMode.trans mode)
  have ran : thenPaste s 'y' stack =
      .ok ⟨editorPasteLine (editorScroll (editorScroll s.E)) (yankedRow s.E), yankedRow s.E, s.fs⟩ := by
    simp only [thenPaste, first, bind, Except.bind, second]
    rfl
  exact ⟨_, ran, editorPasteLine_congr (rowsAgain.trans rows) (cyAgain.trans cy) _⟩

private theorem delete_thenPaste (mode : s.E.mode = .normal) (onRow : CursorOnRow s.E) :
    ∃ next, thenPaste s 'd' stack = .ok next ∧
      next.E.rows = (editorPasteLine (withoutRow s.E) (yankedRow s.E)).rows ∧
      next.E.cy = (editorPasteLine (withoutRow s.E) (yankedRow s.E)).cy := by
  have first := @delete_turn s stack mode onRow
  obtain ⟨rowoff, coloff, scrolled⟩ := editorScroll_eq s.E
  obtain ⟨rows, _, sameMode, cy, _⟩ := editorScroll_same (withoutRow (editorScroll s.E))
  have normal : (withoutRow (editorScroll s.E)).mode = .normal := by
    rw [scrolled]
    exact mode
  have second := @paste_turn ⟨withoutRow (editorScroll s.E), yankedRow s.E, s.fs⟩ stack normal
  have ran : thenPaste s 'd' stack =
      .ok ⟨editorPasteLine (editorScroll (withoutRow (editorScroll s.E))) (yankedRow s.E),
        yankedRow s.E, s.fs⟩ := by
    simp only [thenPaste, first, bind, Except.bind, second]
    rfl
  refine ⟨_, ran, editorPasteLine_congr (rows.trans ?_) (cy.trans ?_) _⟩
  · rw [scrolled]
    rfl
  · rw [scrolled]
    rfl

end Keys

/-- With the cursor on a row, `yy` `p` copies it exactly if it has from 1 to 4095 bytes, and
`dd` `p` gives it back exactly if there is another row besides. -/
theorem yank_delete_paste_iff (s : EditorSession) (stack : Memory) (mode : s.E.mode = .normal)
    (onRow : CursorOnRow s.E) :
    ∃ copied back, thenPaste s 'y' stack = .ok copied ∧ thenPaste s 'd' stack = .ok back ∧
      (PastesCopy s.E copied.E ↔
        0 < (currentRow s.E).length ∧ (currentRow s.E).length ≤ 4095) ∧
      (PastesBack s.E back.E ↔
        0 < (currentRow s.E).length ∧ (currentRow s.E).length ≤ 4095 ∧ 2 ≤ s.E.numrows) := by
  obtain ⟨copied, yanks, copiedRows, copiedCy⟩ := @yank_thenPaste s stack mode onRow
  obtain ⟨back, deletes, backRows, backCy⟩ := @delete_thenPaste s stack mode onRow
  refine ⟨copied, back, yanks, deletes, ?_, ?_⟩
  · exact (PastesCopy.congr_iff copiedRows copiedCy).trans (pastesCopy_iff onRow)
  · exact (PastesBack.congr_iff backRows backCy).trans (pastesBack_iff onRow)

/-- Two rows, the cursor on the second. -/
def twoRows : EditorSession where
  E := { blankEditor with rows := [[97], [98]], cy := 1 }
  yank := []
  fs := blankState

theorem yank_delete_paste_iff_twoRows :
    ∃ copied back, thenPaste twoRows 'y' (constantMemory 0) = .ok copied ∧
      thenPaste twoRows 'd' (constantMemory 0) = .ok back ∧
      (PastesCopy twoRows.E copied.E ↔
        0 < (currentRow twoRows.E).length ∧ (currentRow twoRows.E).length ≤ 4095) ∧
      (PastesBack twoRows.E back.E ↔
        0 < (currentRow twoRows.E).length ∧ (currentRow twoRows.E).length ≤ 4095 ∧
          2 ≤ twoRows.E.numrows) :=
  yank_delete_paste_iff twoRows (constantMemory 0) rfl ⟨by decide, by decide⟩

/-- The only row, deleted with `dd`, does not come back with `p`. -/
theorem paste_loses_only_row : ¬∀ (s : EditorSession) (stack : Memory), s.E.mode = .normal →
    CursorOnRow s.E → ∃ copied back, thenPaste s 'y' stack = .ok copied ∧
      thenPaste s 'd' stack = .ok back ∧ PastesCopy s.E copied.E ∧ PastesBack s.E back.E := by
  intro claimed
  obtain ⟨_, back, _, deletes, _, kept⟩ := claimed
    ⟨{ blankEditor with rows := [[97]] }, [], blankState⟩ (constantMemory 0) rfl
    ⟨by decide, by decide⟩
  cases deletes
  have same := kept.rows.length_eq
  revert same
  decide

end ShedKernel.Editor
