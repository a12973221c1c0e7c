import ShedKernel.Editor.CursorProperties

/-! Which operations of the editor set `E.dirty` when they change the rows, and what that
means for leaving with `q`. -/

set_option autoImplicit false

namespace ShedKernel.Editor

open Foundation FileSystem EditorConfig

theorem ok_of_bind {Stop Value Result : Type} {computation : Except Stop Value}
    {next : Value → Except Stop Result} {result : Result}
    (ran : (computation >>= next) = .ok result) :
    ∃ value, computation = .ok value ∧ next value = .ok result := by
  cases computation with
  | error stop => cases ran
  | ok value => exact ⟨value, rfl, ran⟩

variable {E next : EditorConfig} {index position c : Int} {s : List UInt8}

private theorem row_inside {row : List UInt8} (read : E.row index = .ok row) :
    0 ≤ index ∧ index < E.numrows := by
  unfold EditorConfig.row at read
  split at read
  · next inside => exact inside
  · cases read

def Unchanged (E next : EditorConfig) : Prop := next.rows = E.rows ∧ next.dirty = E.dirty

/-- The rows did not change, or `E.dirty` says that they did. -/
def Flagged (E next : EditorConfig) : Prop := next.dirty = 1 ∨ Unchanged E next

/-! Operations that flag their changes. -/

private theorem editorRowDelChar_flagged (ran : editorRowDelChar E index position = .ok next) :
    Flagged E next := by
  obtain ⟨row, _, done⟩ := ok_of_bind ran
  split at done
  · cases done
    exact .inr ⟨rfl, rfl⟩
  · cases done
    exact .inl rfl

private theorem editorInsertChar_flagged (ran : editorInsertChar E c = .ok next) : next.dirty = 1 := by
  obtain ⟨inserted, _, done⟩ := ok_of_bind ran
  cases done
  rfl

private theorem editorDelRow_flagged (E : EditorConfig) (position : Int) :
    Flagged E (editorDelRow E position) := by
  unfold editorDelRow
  split
  · exact .inr ⟨rfl, rfl⟩
  · exact .inl rfl

private theorem editorDelChar_flagged (ran : editorDelChar E = .ok next) : Flagged E next := by
  unfold editorDelChar at ran
  split at ran
  · cases ran
    exact .inr ⟨rfl, rfl⟩
  split at ran
  · cases ran
    exact .inr ⟨rfl, rfl⟩
  split at ran
  · obtain ⟨deleted, _, done⟩ := ok_of_bind ran
    cases done
    exact .inl rfl
  · obtain ⟨above, _, rest⟩ := ok_of_bind ran
    obtain ⟨row, _, rest⟩ := ok_of_bind rest
    obtain ⟨appended, _, done⟩ := ok_of_bind rest
    cases done
    exact .inl rfl

theorem editorDeleteLine_flagged {yank yanked : List UInt8}
    (ran : editorDeleteLine E yank = .ok (next, yanked)) : Flagged E next := by
  unfold editorDeleteLine at ran
  split at ran
  · cases ran
    exact .inr ⟨rfl, rfl⟩
  · obtain ⟨kept, _, done⟩ := ok_of_bind ran
    have deleted := editorDelRow_flagged E E.cy
    cases done
    split
    · exact deleted
    · exact deleted

/-! Moving the cursor. -/

private theorem clampColumn_unchanged (ran : clampColumn E = .ok next) : Unchanged E next := by
  have clamped : ∀ rowlen : Int, .ok (if rowlen < E.cx then { E with cx := rowlen } else E) =
      (.ok next : Except EditorStop EditorConfig) → Unchanged E next := by
    intro rowlen done
    cases done
    split
    · exact ⟨rfl, rfl⟩
    · exact ⟨rfl, rfl⟩
  unfold clampColumn at ran
  split at ran
  · obtain ⟨row, _, done⟩ := ok_of_bind ran
    exact clamped _ done
  · exact clamped _ ran

theorem editorMoveCursor_unchanged {key : Int} (ran : editorMoveCursor E key = .ok next) :
    Unchanged E next := by
  unfold editorMoveCursor at ran
  split at ran
  · split at ran
    · have unchanged := clampColumn_unchanged ran
      exact unchanged
    split at ran
    · obtain ⟨row, _, moved⟩ := ok_of_bind ran
      have unchanged := clampColumn_unchanged moved
      exact unchanged
    · exact clampColumn_unchanged ran
  split at ran
  · split at ran
    · obtain ⟨row, _, moved⟩ := ok_of_bind ran
      have unchanged := clampColumn_unchanged moved
      split at unchanged
      · exact unchanged
      · exact unchanged
    · exact clampColumn_unchanged ran
  split at ran
  · have unchanged := clampColumn_unchanged ran
    split at unchanged
    · exact unchanged
    · exact unchanged
  split at ran
  · have unchanged := clampColumn_unchanged ran
    split at unchanged
    · exact unchanged
    · exact unchanged
  · exact clampColumn_unchanged ran

theorem appendKey_unchanged (ran : appendKey E = .ok next) : Unchanged E next := by
  unfold appendKey at ran
  dsimp only at ran
  split at ran
  · obtain ⟨row, _, done⟩ := ok_of_bind ran
    cases done
    split
    · exact ⟨rfl, rfl⟩
    · exact ⟨rfl, rfl⟩
  · cases ran
    exact ⟨rfl, rfl⟩

private theorem deleteCharKey_flagged (ran : deleteCharKey E = .ok next) : Flagged E next := by
  unfold deleteCharKey at ran
  split at ran
  · obtain ⟨row, _, rest⟩ := ok_of_bind ran
    split at rest
    · obtain ⟨deleted, erased, rest⟩ := ok_of_bind rest
      obtain ⟨left, _, done⟩ := ok_of_bind rest
      have flagged := editorRowDelChar_flagged erased
      cases done
      split
      · exact flagged
      · exact flagged
    · cases rest
      exact .inr ⟨rfl, rfl⟩
  · cases ran
    exact .inr ⟨rfl, rfl⟩

theorem insertKeypress_flagged (ran : insertKeypress E c = .ok next) : Flagged E next := by
  unfold insertKeypress at ran
  split at ran
  · cases ran
    split
    · exact .inr ⟨rfl, rfl⟩
    · exact .inr ⟨rfl, rfl⟩
  split at ran
  · obtain ⟨broken, _, done⟩ := ok_of_bind ran
    cases done
    exact .inl rfl
  split at ran
  · exact editorDelChar_flagged ran
  split at ran
  · exact .inl (editorInsertChar_flagged ran)
  · cases ran
    exact .inr ⟨rfl, rfl⟩

/-! Insertions of a row, which leave the flag alone. -/

theorem editorInsertRow_rows_iff :
    (editorInsertRow E position s).rows = E.rows ↔ ¬(0 ≤ position ∧ position ≤ E.numrows) := by
  constructor
  · intro same ⟨nonneg, fits⟩
    have inside : position.toNat ≤ E.rows.length := by
      unfold numrows at fits
      omega
    rw [insertRow_eq nonneg fits] at same
    have lengths := congrArg List.length same
    rw [List.length_insertIdx_of_le_length inside] at lengths
    omega
  · intro outside
    rw [editorInsertRow, if_pos (by omega)]

theorem editorInsertRow_dirty : (editorInsertRow E position s).dirty = E.dirty := by
  unfold editorInsertRow
  split
  · rfl
  · rfl

/-- The insertion left the flag alone, and changed the rows exactly if it happened. -/
structure Silent (inserts : Prop) (E next : EditorConfig) : Prop where
  dirty : next.dirty = E.dirty
  rows : next.rows = E.rows ↔ ¬inserts

private theorem openAboveKey_silent : Silent (0 ≤ E.cy ∧ E.cy ≤ E.numrows) E (openAboveKey E) :=
  ⟨editorInsertRow_dirty, @editorInsertRow_rows_iff { E with cx := 0 } E.cy []⟩

private theorem editorPasteLine_silent (yank : List UInt8) :
    Silent (yank ≠ [] ∧ 0 ≤ E.cy + 1 ∧ E.cy + 1 ≤ E.numrows) E (editorPasteLine E yank) := by
  unfold editorPasteLine
  split
  · next empty =>
    have nothing := List.eq_nil_of_length_eq_zero empty
    exact ⟨rfl, iff_of_true rfl fun inserts => inserts.1 nothing⟩
  · next filled =>
    have something : yank ≠ [] := fun empty => filled (by simp [empty])
    refine ⟨editorInsertRow_dirty, ?_⟩
    exact editorInsertRow_rows_iff.trans (not_congr (by simp [something]))

private theorem editorInsertNewline_silent (ran : editorInsertNewline E = .ok next) :
    Silent (0 ≤ E.cy ∧ E.cy ≤ E.numrows) E next := by
  unfold editorInsertNewline at ran
  split at ran
  · cases ran
    exact ⟨editorInsertRow_dirty, editorInsertRow_rows_iff⟩
  · obtain ⟨row, read, rest⟩ := ok_of_bind ran
    obtain ⟨nonneg, below⟩ := row_inside read
    split at rest
    · cases rest
    · obtain ⟨front, _, done⟩ := ok_of_bind rest
      have placed : (0 : Int) ≤ E.cy + 1 := Int.le_add_one nonneg
      have longer := @numrows_insertRow E (E.cy + 1) (row.drop E.cx.toNat) placed
        (Int.add_one_le_of_lt below)
      cases done
      refine ⟨editorInsertRow_dirty, ?_⟩
      apply iff_of_false
      · intro same
        have lengths := congrArg List.length same
        simp only [EditorConfig.setRow, List.length_set] at lengths
        unfold EditorConfig.numrows at longer
        omega
      · intro refused
        exact refused ⟨nonneg, Int.le_of_lt below⟩

private theorem openBelowKey_silent (ran : openBelowKey E = .ok next) :
    Silent (0 ≤ E.cy ∧ E.cy ≤ E.numrows) E next := by
  unfold openBelowKey at ran
  split at ran
  · obtain ⟨moved, first, rest⟩ := ok_of_bind ran
    obtain ⟨row, _, placed⟩ := ok_of_bind first
    obtain ⟨opened, broke, done⟩ := ok_of_bind rest
    have silent := editorInsertNewline_silent broke
    cases placed
    cases done
    exact ⟨silent.dirty, silent.rows⟩
  · obtain ⟨moved, first, rest⟩ := ok_of_bind ran
    cases first
    obtain ⟨opened, broke, done⟩ := ok_of_bind rest
    have silent := editorInsertNewline_silent broke
    cases done
    exact ⟨silent.dirty, silent.rows⟩

/-! Keys of normal mode. -/

/-- The key inserts a row and leaves the flag alone. -/
def Inserts (E : EditorConfig) (yank : List UInt8) (c : Int) : Prop :=
  (c = keyOf 'o' ∨ c = keyOf 'O') ∧ 0 ≤ E.cy ∧ E.cy ≤ E.numrows ∨
    c = keyOf 'p' ∧ yank ≠ [] ∧ 0 ≤ E.cy + 1 ∧ E.cy + 1 ≤ E.numrows

/-- Either the key inserted a row behind the flag's back, or a change is flagged. -/
structure Accounted (inserts : Prop) (E next : EditorConfig) : Prop where
  silent : inserts → next.dirty = E.dirty ∧ next.rows ≠ E.rows
  flagged : ¬inserts → Flagged E next

theorem Flagged.accounted {inserts : Prop} (flagged : Flagged E next) (never : ¬inserts) :
    Accounted inserts E next :=
  ⟨fun holds => absurd holds never, fun _ => flagged⟩

theorem Silent.accounted {inserts other : Prop} (silent : Silent inserts E next) (same : other ↔ inserts) :
    Accounted other E next :=
  ⟨fun holds => ⟨silent.dirty, fun rows => silent.rows.mp rows (same.mp holds)⟩,
    fun refused => .inr ⟨silent.rows.mpr (fun holds => refused (same.mpr holds)), silent.dirty⟩⟩

theorem normalKeypress_accounted {yank : List UInt8} (ran : normalKeypress E yank c = .ok next) :
    Accounted (Inserts E yank c) E next := by
  have never : c ≠ keyOf 'o' → c ≠ keyOf 'O' → c ≠ keyOf 'p' → ¬Inserts E yank c := by
    intro below above paste inserts
    cases inserts with
    | inl opens => exact opens.1.elim below above
    | inr pastes => exact paste pastes.1
  unfold normalKeypress at ran
  split at ran
  · next moves =>
    have unchanged := editorMoveCursor_unchanged ran
    apply Flagged.accounted (.inr unchanged)
    apply never
    all_goals
      intro same
      subst same
      revert moves
      decide
  split at ran
  · next key =>
    cases ran
    subst key
    exact Flagged.accounted (.inr ⟨rfl, rfl⟩) (never (by decide) (by decide) (by decide))
  split at ran
  · next key =>
    subst key
    exact Flagged.accounted (.inr (appendKey_unchanged ran)) (never (by decide) (by decide) (by decide))
  split at ran
  · next key =>
    subst key
    apply (openBelowKey_silent ran).accounted
    simp [Inserts, keyOf]
  split at ran
  · next key =>
    cases ran
    subst key
    apply openAboveKey_silent.accounted
    simp [Inserts, keyOf]
  split at ran
  · next key =>
    subst key
    exact (deleteCharKey_flagged ran).accounted (never (by decide) (by decide) (by decide))
  split at ran
  · next key =>
    cases ran
    subst key
    apply (editorPasteLine_silent yank).accounted
    simp [Inserts, keyOf]
  split at ran
  · next key =>
    cases ran
    subst key
    exact Flagged.accounted (.inr ⟨rfl, rfl⟩) (never (by decide) (by decide) (by decide))
  · next below above _ paste _ =>
    cases ran
    exact Flagged.accounted (.inr ⟨rfl, rfl⟩) (never below above paste)

end ShedKernel.Editor
