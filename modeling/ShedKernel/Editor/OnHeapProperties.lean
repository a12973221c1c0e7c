import ShedKernel.Editor.OnHeap
import ShedKernel.Editor.QuitProperties
import ShedKernel.Editor.RowRefinement

/-! The blocks of an editing session. Every operation keeps the rows in blocks of their own;
the array of the rows, taken with the first one, is never given back. -/

set_option autoImplicit false

namespace ShedKernel.Editor

open Foundation FileSystem Heap

/-- The rows are in blocks of their own, and `inserted` tells whether there ever was one. -/
def Tracks (area : Area) (begun : List Block) (h : HeapEditor) (inserted : Prop) : Prop :=
  ∃ text, Keeps area begun h.store text ∧ (text.inserted = true ↔ inserted)

variable {area : Area} {begun : List Block} {buffers : Buffers area} {h next : HeapEditor}
  {inserted : Prop} {result : Except RowStop RowStore}

private theorem existing_inside {index : Int} {row : Nat} (read : h.existing index = .ok row) :
    0 ≤ index ∧ index.toNat < h.store.numrows ∧ row = h.store.row index.toNat := by
  unfold HeapEditor.existing at read
  split at read
  · next inside =>
      cases read
      unfold HeapEditor.numrows at inside
      exact ⟨inside.1, by omega, rfl⟩
  · cases read

private theorem withStore_ok (ran : h.withStore result = .ok next) :
    ∃ store, result = .ok store ∧ next = { h with store } := by
  cases result with
  | error stop => cases ran
  | ok store =>
      cases ran
      exact ⟨store, rfl, rfl⟩

private theorem reading_ok {read : Except EditorStop EditorConfig} (ran : h.reading read = .ok next) :
    ∃ E, read = .ok E ∧ next = h.put E := by
  cases read with
  | error stop => cases ran
  | ok E =>
      cases ran
      exact ⟨E, rfl, rfl⟩

/-- A row may be appended to the one in front of it. -/
theorem Keeps.appendRow_allowed {store : RowStore} {text : TextLines} {index : Int}
    (keeps : Keeps area begun store text) (positive : 0 < index) (existing : index.toNat < store.numrows) :
    (RowCall.rowAppendString (index - 1).toNat (store.chars index.toNat)
      (Erow.size store.memory (store.row index.toNat))).Allowed area store := by
  have size := keeps.size_lt existing
  have apart : store.chars index.toNat ∉ [store.rows, store.chars (index - 1).toNat] := by
    simp only [List.mem_cons, List.not_mem_nil, or_false, not_or]
    exact ⟨keeps.chars_ne_rows existing, keeps.chars_ne existing (by omega)⟩
  have elsewhere := keeps.row_elsewhere existing le_rfl le_rfl apart
  exact ⟨by omega, by omega, .inr elsewhere⟩

/-- The end of a row may become a row of its own. -/
theorem Keeps.splitRow_allowed {store : RowStore} {text : TextLines} {index place : Nat} {position : Int}
    (keeps : Keeps area begun store text) (existing : index < store.numrows)
    (inside : place ≤ Erow.size store.memory (store.row index)) :
    (RowCall.insertRow position (store.chars index + place)
      (Erow.size store.memory (store.row index) - place)).Allowed area store := by
  have size := keeps.size_lt existing
  have different : store.chars index ∉ [store.rows] := by
    simpa using keeps.chars_ne_rows existing
  have fits : store.chars index + place + (Erow.size store.memory (store.row index) - place) ≤
      store.chars index + Erow.size store.memory (store.row index) := by
    omega
  exact ⟨by omega, .inr (keeps.row_elsewhere existing (Nat.le_add_right _ place) fits different)⟩

namespace Tracks

theorem iff {other : Prop} (tracks : Tracks area begun h inserted) (same : inserted ↔ other) :
    Tracks area begun h other := by
  obtain ⟨text, keeps, told⟩ := tracks
  exact ⟨text, keeps, told.trans same⟩

theorem put (tracks : Tracks area begun h inserted) (E : EditorConfig) :
    Tracks area begun (h.put E) inserted := by
  obtain ⟨text, keeps, told⟩ := tracks
  exact ⟨text, keeps.congr rfl rfl rfl, told⟩

/-! Row operations. -/

theorem insertRow {position : Int} {s len : Nat} (tracks : Tracks area begun h inserted)
    (allowed : (RowCall.insertRow position s len).Allowed area h.store)
    (ran : h.withStore (h.store.editorInsertRow area position s len) = .ok next) :
    Tracks area begun next (inserted ∨ (0 ≤ position ∧ position ≤ h.numrows)) := by
  obtain ⟨text, keeps, told⟩ := tracks
  obtain ⟨store, inserts, rfl⟩ := withStore_ok ran
  have call : h.store.exec area (.insertRow position s len) = .ok store := inserts
  refine ⟨_, keeps.exec_ok call allowed, ?_⟩
  simp only [TextLines.edit, HeapEditor.numrows, keeps.numrows]
  split
  · next outside =>
      rw [told, or_iff_left]
      omega
  · next inside =>
      refine iff_of_true rfl (.inr ?_)
      omega

theorem delRow (tracks : Tracks area begun h inserted) (position : Int) :
    Tracks area begun { h with store := h.store.editorDelRow position } inserted := by
  obtain ⟨text, keeps, told⟩ := tracks
  refine ⟨_, (keeps.delRow position).2, ?_⟩
  simp only [TextLines.edit]
  split
  · exact told
  · exact told

theorem rowInsertChar {index position c : Int} {row : Nat} (tracks : Tracks area begun h inserted)
    (read : h.existing index = .ok row)
    (ran : h.withStore (h.store.editorRowInsertChar area row position c) = .ok next) :
    Tracks area begun next inserted := by
  obtain ⟨text, keeps, told⟩ := tracks
  obtain ⟨_, existing, rfl⟩ := existing_inside read
  obtain ⟨store, inserts, rfl⟩ := withStore_ok ran
  have call : h.store.exec area (.rowInsertChar index.toNat position c) = .ok store := inserts
  exact ⟨_, keeps.exec_ok call existing, told⟩

theorem rowDelChar {index position : Int} {row : Nat} (tracks : Tracks area begun h inserted)
    (read : h.existing index = .ok row) :
    Tracks area begun { h with store := h.store.editorRowDelChar row position } inserted := by
  obtain ⟨text, keeps, told⟩ := tracks
  obtain ⟨_, existing, rfl⟩ := existing_inside read
  refine ⟨_, (keeps.rowDelChar existing).2, ?_⟩
  simp only [TextLines.edit]
  split
  · exact told
  · exact told

/-- The last row of two is appended to the first. -/
theorem rowAppendRow {index : Int} {above row : Nat} (tracks : Tracks area begun h inserted)
    (readAbove : h.existing (index - 1) = .ok above) (read : h.existing index = .ok row)
    (ran : h.withStore (h.store.editorRowAppendString area above
      (Erow.chars h.store.memory row) (Erow.size h.store.memory row)) = .ok next) :
    Tracks area begun next inserted := by
  obtain ⟨text, keeps, told⟩ := tracks
  obtain ⟨nonneg, existingAbove, rfl⟩ := existing_inside readAbove
  obtain ⟨_, existing, rfl⟩ := existing_inside read
  obtain ⟨store, appends, rfl⟩ := withStore_ok ran
  have call : h.store.exec area (.rowAppendString (index - 1).toNat
    (h.store.chars index.toNat) (Erow.size h.store.memory (h.store.row index.toNat))) = .ok store :=
    appends
  exact ⟨_, keeps.exec_ok call (keeps.appendRow_allowed (by omega) existing), told⟩

theorem outside {memory : Memory} (tracks : Tracks area begun h inserted)
    (same : ∀ other, area.base ≤ other → other < area.base + 1048576 →
      memory other = h.store.memory other) (yankLen : Fin blockSize) :
    Tracks area begun { h with yankLen, store := { h.store with memory } } inserted := by
  obtain ⟨text, keeps, told⟩ := tracks
  exact ⟨text, keeps.outside same, told⟩

/-- The end of a row becomes a row of its own, and is cut off. -/
theorem splitRow {index : Int} {row again place : Nat} (tracks : Tracks area begun h inserted)
    (read : h.existing index = .ok row) (inside : place ≤ Erow.size h.store.memory row)
    (ran : h.withStore (h.store.editorInsertRow area (index + 1)
      (Erow.chars h.store.memory row + place) (Erow.size h.store.memory row - place)) = .ok next)
    (readAgain : next.existing index = .ok again) :
    let sized := Erow.setSize next.store.memory again place
    let memory := sized.storeByte (Erow.chars sized again + Erow.size sized again) 0
    Tracks area begun { next with store := { next.store with memory } } True := by
  obtain ⟨text, keeps, told⟩ := tracks
  obtain ⟨nonneg, existing, rfl⟩ := existing_inside read
  obtain ⟨store, inserts, rfl⟩ := withStore_ok ran
  obtain ⟨_, existingAgain, rfl⟩ := existing_inside readAgain
  have call : h.store.exec area (.insertRow (index + 1) (h.store.chars index.toNat + place)
      (Erow.size h.store.memory (h.store.row index.toNat) - place)) = .ok store := inserts
  have kept := keeps.exec_ok call (keeps.splitRow_allowed existing inside)
  -- the row in front of the new one has not changed
  have inText : index.toNat < text.lines.length := keeps.numrows ▸ existing
  have found := List.getElem?_eq_getElem inText
  have inRange : ¬(index + 1 < 0 ∨ (text.lines.length : Int) < index + 1) := by omega
  rw [TextLines.edit, if_neg inRange] at kept
  generalize Memory.bytesAt h.store.memory _ _ = tail at kept
  have sameSize : Erow.size store.memory (store.row index.toNat) =
      Erow.size h.store.memory (h.store.row index.toNat) := by
    have before := (keeps.storesLines.contents _ _ found).1
    have stillFound : (text.lines.insertIdx (index + 1).toNat tail)[index.toNat]? = some _ :=
      (List.getElem?_insertIdx_of_lt (by omega)).trans found
    have after := (kept.storesLines.contents _ _ stillFound).1
    exact after.trans before.symm
  refine ⟨_, (kept.truncate existingAgain (sameSize ▸ inside)).2, ?_⟩
  exact iff_of_true rfl trivial

end Tracks

/-! Editor operations. -/

private theorem editorInsertChar_tracks {c : Int} (tracks : Tracks area begun h inserted)
    (ran : h.editorInsertChar buffers c = .ok next) :
    Tracks area begun next (inserted ∨ h.E.cy = h.numrows) := by
  unfold HeapEditor.editorInsertChar at ran
  dsimp only at ran
  split at ran
  · next atEnd =>
      obtain ⟨placed, first, rest⟩ := ok_of_bind ran
      obtain ⟨row, read, rest⟩ := ok_of_bind rest
      obtain ⟨typed, inserts, done⟩ := ok_of_bind rest
      cases done
      have now := tracks.insertRow ⟨by decide, .inl rfl⟩ first
      refine ((now.rowInsertChar read inserts).put _).iff (or_congr Iff.rfl ?_)
      exact iff_of_true ⟨Int.natCast_nonneg _, le_rfl⟩ atEnd
  · next notAtEnd =>
      obtain ⟨same, unchanged, rest⟩ := ok_of_bind ran
      cases unchanged
      obtain ⟨row, read, rest⟩ := ok_of_bind rest
      obtain ⟨typed, inserts, done⟩ := ok_of_bind rest
      cases done
      exact ((tracks.rowInsertChar read inserts).put _).iff (by simp [notAtEnd])

private theorem editorInsertNewline_tracks (tracks : Tracks area begun h inserted)
    (ran : h.editorInsertNewline buffers = .ok next) :
    Tracks area begun next (inserted ∨ (0 ≤ h.E.cy ∧ h.E.cy ≤ h.numrows)) := by
  unfold HeapEditor.editorInsertNewline at ran
  split at ran
  · obtain ⟨placed, inserts, done⟩ := ok_of_bind ran
    cases done
    exact (tracks.insertRow ⟨by decide, .inl rfl⟩ inserts).put _
  · obtain ⟨row, read, rest⟩ := ok_of_bind ran
    obtain ⟨nonneg, existing, _⟩ := existing_inside read
    dsimp only at rest
    split at rest
    · cases rest
    · next inside =>
        obtain ⟨placed, inserts, rest⟩ := ok_of_bind rest
        obtain ⟨again, readAgain, done⟩ := ok_of_bind rest
        cases done
        have kept : placed.E = h.E := by
          obtain ⟨store, _, rfl⟩ := withStore_ok inserts
          rfl
        rw [kept] at readAgain
        have split := tracks.splitRow read (by omega) inserts readAgain
        refine (split.put _).iff (iff_of_true trivial (.inr ⟨nonneg, ?_⟩))
        unfold HeapEditor.numrows
        omega

private theorem editorDelChar_tracks (tracks : Tracks area begun h inserted)
    (ran : h.editorDelChar area = .ok next) : Tracks area begun next inserted := by
  unfold HeapEditor.editorDelChar at ran
  split at ran
  · cases ran
    exact tracks
  split at ran
  · cases ran
    exact tracks
  split at ran
  · obtain ⟨row, read, done⟩ := ok_of_bind ran
    cases done
    exact (tracks.rowDelChar read).put _
  · obtain ⟨above, readAbove, rest⟩ := ok_of_bind ran
    obtain ⟨row, read, rest⟩ := ok_of_bind rest
    obtain ⟨joined, appends, done⟩ := ok_of_bind rest
    cases done
    have moved := tracks.put { h.view with cx := Erow.size h.store.memory above }
    exact ((moved.rowAppendRow readAbove read appends).delRow _).put _

private theorem editorYankLine_tracks (tracks : Tracks area begun h inserted)
    (ran : h.editorYankLine buffers = .ok next) : Tracks area begun next inserted := by
  unfold HeapEditor.editorYankLine at ran
  split at ran
  · cases ran
    exact tracks
  · obtain ⟨row, read, done⟩ := ok_of_bind ran
    cases done
    apply tracks.outside
    intro other low high
    have outside := buffers.yank_outside
    have short := (HeapEditor.yankLength (Erow.size h.store.memory row)).isLt
    unfold dynamicMemTotalSize at outside
    rw [Memory.storeByte_of_ne (by omega), Strings.memcpy_outside (by omega)]

private theorem editorPasteLine_tracks (tracks : Tracks area begun h inserted)
    (ran : h.editorPasteLine buffers = .ok next) :
    Tracks area begun next
      (inserted ∨ (h.yankLen.val ≠ 0 ∧ 0 ≤ h.E.cy + 1 ∧ h.E.cy + 1 ≤ h.numrows)) := by
  unfold HeapEditor.editorPasteLine at ran
  split at ran
  · next empty =>
      cases ran
      exact tracks.iff (by simp [empty])
  · next filled =>
      obtain ⟨placed, inserts, done⟩ := ok_of_bind ran
      cases done
      have short := h.yankLen.isLt
      have outside := buffers.yank_outside
      have readable : Elsewhere area h.store.memory [h.store.rows] buffers.yankBuf h.yankLen := by
        cases outside with
        | inl below => exact .inl (by omega)
        | inr above => exact .inr (.inl above)
      have small : h.yankLen.val < 2147483648 := by
        unfold blockSize at short
        omega
      refine ((tracks.insertRow ⟨small, .inr readable⟩ inserts).put _).iff ?_
      simp [filled]

private theorem editorDeleteLine_tracks (tracks : Tracks area begun h inserted)
    (ran : h.editorDeleteLine buffers = .ok next) : Tracks area begun next inserted := by
  unfold HeapEditor.editorDeleteLine at ran
  split at ran
  · cases ran
    exact tracks
  · obtain ⟨yanked, yanks, done⟩ := ok_of_bind ran
    cases done
    have deleted := (editorYankLine_tracks tracks yanks).delRow yanked.E.cy
    split
    · exact (deleted.put _).put _
    · exact deleted.put _

/-! Keys. -/

private theorem insertKeypress_tracks {c : Int} (tracks : Tracks area begun h inserted)
    (ran : h.insertKeypress buffers c = .ok next) :
    Tracks area begun next (inserted ∨
      (c = enterKey ∧ 0 ≤ h.E.cy ∧ h.E.cy ≤ h.numrows ∨ 32 ≤ c ∧ c < 127 ∧ h.E.cy = h.numrows)) := by
  have adds : c ≠ enterKey → ¬(32 ≤ c ∧ c < 127) →
      (inserted ↔ inserted ∨ (c = enterKey ∧ 0 ≤ h.E.cy ∧ h.E.cy ≤ h.numrows ∨
        32 ≤ c ∧ c < 127 ∧ h.E.cy = h.numrows)) := by
    intro notEnter unprintable
    rw [or_iff_left]
    intro added
    cases added with
    | inl enters => exact notEnter enters.1
    | inr types => exact unprintable ⟨types.1, types.2.1⟩
  unfold HeapEditor.insertKeypress at ran
  split at ran
  · next escape =>
      subst escape
      cases ran
      refine Tracks.iff ?_ (adds (by decide) (by decide))
      split
      · exact (tracks.put _).put _
      · exact tracks.put _
  split at ran
  · next enter =>
      subst enter
      obtain ⟨broken, breaks, done⟩ := ok_of_bind ran
      cases done
      refine ((editorInsertNewline_tracks tracks breaks).put _).iff (or_congr Iff.rfl ?_)
      simp [enterKey]
  split at ran
  · next notEnter erases =>
      refine (editorDelChar_tracks tracks ran).iff (adds notEnter ?_)
      rcases erases with rfl | rfl
      · decide
      · decide
  split at ran
  · next notEnter _ printable =>
      refine (editorInsertChar_tracks tracks ran).iff (or_congr Iff.rfl ?_)
      simp [notEnter, printable.1, printable.2]
  · next notEnter _ unprintable =>
      cases ran
      exact tracks.iff (adds notEnter unprintable)

private theorem openBelowKey_tracks (tracks : Tracks area begun h inserted)
    (ran : h.openBelowKey buffers = .ok next) :
    Tracks area begun next (inserted ∨ (0 ≤ h.E.cy ∧ h.E.cy ≤ h.numrows)) := by
  unfold HeapEditor.openBelowKey at ran
  dsimp only at ran
  split at ran
  · obtain ⟨moved, first, rest⟩ := ok_of_bind ran
    obtain ⟨row, _, placed⟩ := ok_of_bind first
    cases placed
    obtain ⟨opened, breaks, done⟩ := ok_of_bind rest
    cases done
    exact (editorInsertNewline_tracks (tracks.put _) breaks).put _
  · obtain ⟨same, unchanged, rest⟩ := ok_of_bind ran
    cases unchanged
    obtain ⟨opened, breaks, done⟩ := ok_of_bind rest
    cases done
    exact (editorInsertNewline_tracks tracks breaks).put _

private theorem openAboveKey_tracks (tracks : Tracks area begun h inserted)
    (ran : h.openAboveKey buffers = .ok next) :
    Tracks area begun next (inserted ∨ (0 ≤ h.E.cy ∧ h.E.cy ≤ h.numrows)) := by
  obtain ⟨placed, inserts, done⟩ := ok_of_bind ran
  cases done
  exact ((tracks.put _).insertRow ⟨by decide, .inl rfl⟩ inserts).put _

private theorem deleteCharKey_tracks (tracks : Tracks area begun h inserted)
    (ran : h.deleteCharKey = .ok next) : Tracks area begun next inserted := by
  unfold HeapEditor.deleteCharKey at ran
  split at ran
  · obtain ⟨row, read, rest⟩ := ok_of_bind ran
    split at rest
    · cases rest
      have deleted : Tracks area begun
          { h with store := h.store.editorRowDelChar row h.E.cx } inserted :=
        tracks.rowDelChar read
      split
      · exact deleted.put _
      · exact deleted
    · cases rest
      exact tracks
  · cases ran
    exact tracks

@[simp] theorem view_numrows (h : HeapEditor) : h.view.numrows = h.numrows := by
  simp [EditorConfig.numrows, HeapEditor.view, RowStore.lines, HeapEditor.numrows]

private theorem session_yank_ne_nil : (h.session buffers).yank ≠ [] ↔ h.yankLen.val ≠ 0 := by
  rw [ne_eq, ← List.length_eq_zero_iff]
  simp [HeapEditor.session]

private theorem normalKeypress_tracks {c : Int} (tracks : Tracks area begun h inserted)
    (ran : h.normalKeypress buffers c = .ok next) :
    Tracks area begun next (inserted ∨ Inserts h.view (h.session buffers).yank c) := by
  have row : h.view.cy = h.E.cy := rfl
  unfold Inserts
  rw [view_numrows, session_yank_ne_nil, row]
  unfold HeapEditor.normalKeypress at ran
  split at ran
  · next key =>
      subst key
      refine (openBelowKey_tracks tracks ran).iff (or_congr Iff.rfl ?_)
      simp [keyOf]
  split at ran
  · next key =>
      subst key
      refine (openAboveKey_tracks tracks ran).iff (or_congr Iff.rfl ?_)
      simp [keyOf]
  split at ran
  · next key =>
      subst key
      refine (deleteCharKey_tracks tracks ran).iff ?_
      simp [keyOf]
  split at ran
  · next key =>
      subst key
      refine (editorPasteLine_tracks tracks ran).iff (or_congr Iff.rfl ?_)
      simp [keyOf]
  · next below above erase paste =>
      obtain ⟨E, _, rfl⟩ := reading_ok ran
      refine (tracks.put E).iff ?_
      simp [below, above, paste]

/-- The turn inserts a row. -/
def AddsRow (s : EditorSession) (keys : List Int) : Prop :=
  InsertsRow s keys ∨ s.E.mode = .insert ∧ ∃ c, keys.head? = some c ∧
    (c = enterKey ∧ 0 ≤ s.E.cy ∧ s.E.cy ≤ s.E.numrows ∨ 32 ≤ c ∧ c < 127 ∧ s.E.cy = s.E.numrows)

private theorem editorProcessKeypress_tracks {keys rest : List Int} {stack : Memory}
    (tracks : Tracks area begun h inserted)
    (ran : h.editorProcessKeypress buffers keys stack = .ok (next, rest)) :
    Tracks area begun next (inserted ∨ AddsRow (h.session buffers) keys) := by
  have mode : (h.session buffers).E.mode = h.E.mode := rfl
  have cy : (h.session buffers).E.cy = h.E.cy := rfl
  have numrows : (h.session buffers).E.numrows = h.numrows := view_numrows h
  unfold AddsRow InsertsRow
  rw [mode, cy, numrows]
  cases keys with
  | nil => cases ran
  | cons c keys =>
      cases is : h.E.mode with
      | insert =>
          simp only [HeapEditor.editorProcessKeypress, is] at ran
          obtain ⟨pressed, presses, done⟩ := ok_of_bind ran
          cases done
          refine (insertKeypress_tracks tracks presses).iff (or_congr Iff.rfl ?_)
          simp
      | command =>
          simp only [HeapEditor.editorProcessKeypress, is] at ran
          split at ran
          · cases ran
          · next s _ =>
              cases ran
              have kept : Tracks area begun { h.put s.E with fs := s.fs } inserted := tracks.put s.E
              exact kept.iff (by simp)
      | normal =>
          simp only [HeapEditor.editorProcessKeypress, is] at ran
          split at ran
          · next twoKeys =>
              have never : ¬Inserts h.view (h.session buffers).yank c := by
                rcases twoKeys with rfl | rfl
                · simp [Inserts, keyOf]
                · simp [Inserts, keyOf]
              have same : inserted ↔ inserted ∨ (Mode.normal = .normal ∧ ∃ key,
                  (c :: keys).head? = some key ∧
                    Inserts (h.session buffers).E (h.session buffers).yank key) ∨
                  Mode.normal = .insert ∧ ∃ key, (c :: keys).head? = some key ∧
                    (key = enterKey ∧ 0 ≤ h.E.cy ∧ h.E.cy ≤ h.numrows ∨
                      32 ≤ key ∧ key < 127 ∧ h.E.cy = h.numrows) := by
                simpa [HeapEditor.session] using fun inserts => absurd inserts never
              refine Tracks.iff ?_ same
              cases keys with
              | nil => cases ran
              | cons second keys =>
                  simp only at ran
                  split at ran
                  · obtain ⟨deleted, deletes, done⟩ := ok_of_bind ran
                    cases done
                    exact editorDeleteLine_tracks tracks deletes
                  split at ran
                  · obtain ⟨yanked, yanks, done⟩ := ok_of_bind ran
                    cases done
                    exact editorYankLine_tracks tracks yanks
                  · cases ran
                    exact tracks
          · obtain ⟨pressed, presses, done⟩ := ok_of_bind ran
            cases done
            refine (normalKeypress_tracks tracks presses).iff (or_congr Iff.rfl ?_)
            simp [HeapEditor.session]

private theorem addsRow_scrolled (keys : List Int) :
    AddsRow ((h.put (editorScroll h.view)).session buffers) keys ↔
      AddsRow (h.session buffers) keys := by
  obtain ⟨_, _, mode, cy, _⟩ := editorScroll_same h.view
  have sameMode : ((h.put (editorScroll h.view)).session buffers).E.mode =
      (h.session buffers).E.mode := mode
  have sameRow : ((h.put (editorScroll h.view)).session buffers).E.cy =
      (h.session buffers).E.cy := cy
  have sameRows : ((h.put (editorScroll h.view)).session buffers).E.numrows =
      (h.session buffers).E.numrows :=
    (view_numrows _).trans (view_numrows h).symm
  have sameYank : ((h.put (editorScroll h.view)).session buffers).yank =
      (h.session buffers).yank := rfl
  simp only [AddsRow, InsertsRow, Inserts, sameMode, sameRow, sameRows, sameYank]

private theorem HeapTurn.tracks {typed : Typed} (turn : HeapTurn buffers h typed next)
    (tracks : Tracks area begun h inserted) :
    Tracks area begun next (inserted ∨ AddsRow (h.session buffers) typed.keys) :=
  (editorProcessKeypress_tracks (tracks.put _) turn.2).iff
    (or_congr Iff.rfl (addsRow_scrolled typed.keys))

/-! Opening a file. -/

/-- A piece of the buffer may become a row. -/
theorem openRow_allowed (buffers : Buffers area) (store : RowStore) {start len : Nat}
    (small : start + len ≤ blockSize) (position : Int) :
    (RowCall.insertRow position (buffers.openBuf + start) len).Allowed area store := by
  have outside := buffers.open_outside
  unfold blockSize at small outside
  refine ⟨by omega, .inr ?_⟩
  cases outside with
  | inl below => exact .inl (by omega)
  | inr above => exact .inr (.inl (by omega))

private theorem openRow_tracks {index start : Nat} (tracks : Tracks area begun h inserted)
    (ahead : start ≤ index) (small : index ≤ blockSize)
    (ran : h.withStore (h.store.editorInsertRow area h.numrows (buffers.openBuf + start)
      (index - start)) = .ok next) : Tracks area begun next True := by
  have allowed := openRow_allowed buffers h.store (by omega : start + (index - start) ≤ blockSize)
    h.numrows
  have inRange : 0 ≤ h.numrows ∧ h.numrows ≤ h.numrows := ⟨Int.natCast_nonneg _, le_rfl⟩
  exact (tracks.insertRow allowed ran).iff (iff_of_true (.inr inRange) trivial)

private theorem openRows_keeps {remaining index start : Nat} (tracks : Tracks area begun h True)
    (ahead : start ≤ index) (small : index + remaining ≤ blockSize)
    (ran : HeapEditor.openRows buffers remaining index start h = .ok next) :
    Tracks area begun next True := by
  induction remaining generalizing h index start with
  | zero =>
      cases ran
      exact tracks
  | succ remaining ih =>
      unfold HeapEditor.openRows at ran
      split at ran
      · obtain ⟨placed, inserts, rest⟩ := ok_of_bind ran
        exact ih (openRow_tracks tracks ahead (by omega) inserts) le_rfl (by omega) rest
      · exact ih tracks (by omega) (by omega) ran

/-- The loop reaches a terminator, and then there is a row. -/
theorem openRows_tracks {remaining index start stop : Nat} (tracks : Tracks area begun h inserted)
    (begun_before : start ≤ index) (small : index + remaining ≤ blockSize) (ahead : index ≤ stop)
    (reached : stop < index + remaining)
    (terminator : h.store.memory (buffers.openBuf + stop) = 0)
    (ran : HeapEditor.openRows buffers remaining index start h = .ok next) :
    Tracks area begun next True := by
  induction remaining generalizing index start with
  | zero => omega
  | succ remaining ih =>
      unfold HeapEditor.openRows at ran
      split at ran
      · obtain ⟨placed, inserts, rest⟩ := ok_of_bind ran
        exact openRows_keeps (openRow_tracks tracks begun_before (by omega) inserts) le_rfl (by omega)
          rest
      · next other =>
          have notHere : index ≠ stop := by
            intro here
            exact other (.inr (here ▸ terminator))
          exact ih (by omega) (by omega) (by omega) (by omega) ran

/-- The file exists and is not empty. -/
def OpensRows (disk : Memory) (filename : Option CString) : Prop :=
  ∃ name slot, filename = some name ∧ fsFindFile disk name = some slot ∧
    DirEntry.fileSize disk slot ≠ 0

private theorem editorOpen_tracks {filename : Option CString} (tracks : Tracks area begun h inserted)
    (ran : h.editorOpen buffers filename = .ok next) :
    Tracks area begun next (inserted ∨ OpensRows h.fs.disk filename) := by
  unfold HeapEditor.editorOpen at ran
  split at ran
  · cases ran
    exact tracks.iff (by simp [OpensRows])
  · next name =>
      dsimp only at ran
      have renamed := tracks.put { h.view with filename := truncatedName name }
      have disk : (h.put { h.view with filename := truncatedName name }).fs.disk = h.fs.disk := rfl
      generalize h.put { h.view with filename := truncatedName name } = named at ran renamed disk
      rw [← disk]
      split at ran
      · next missing =>
          cases ran
          exact renamed.iff (by simp [OpensRows, missing])
      · next slot found =>
          split at ran
          · next empty =>
              cases ran
              exact renamed.iff (by simp [OpensRows, found, empty])
          · next filled =>
              have opens : OpensRows named.fs.disk (some name) := ⟨name, slot, rfl, found, filled⟩
              generalize length : (if (blockSize : Int) - 1 < toInt _ then (blockSize : Int) - 1 else
                toInt _) = len at ran
              have bounded : len ≤ 4095 := by
                rw [← length]
                unfold blockSize
                split
                · exact le_rfl
                · omega
              split at ran
              · cases ran
              · next nonneg =>
                  obtain ⟨opened, reads, done⟩ := ok_of_bind ran
                  cases done
                  have outside := buffers.open_outside
                  unfold blockSize dynamicMemTotalSize at outside
                  have same : ∀ other, area.base ≤ other → other < area.base + 1048576 →
                      (named.store.memory.blit buffers.openBuf (fsReadBlock named.fs.disk
                        (DirEntry.firstDataBlock named.fs.disk slot)) blockSize).storeByte
                          (buffers.openBuf + len.toNat) 0 other = named.store.memory other := by
                    intro other low high
                    rw [Memory.storeByte_of_ne (by omega),
                      Memory.blit_of_outside (by unfold blockSize; omega)]
                  have loaded := renamed.outside same named.yankLen
                  have rows := openRows_tracks loaded le_rfl (by unfold blockSize; omega) (Nat.zero_le _)
                    (by omega : len.toNat < 0 + (len + 1).toNat) (Memory.storeByte_self _ _ _) reads
                  exact (rows.put _).iff (iff_of_true trivial (.inr opens))

private theorem editorStart_tracks {memory : Memory} {E : EditorConfig} {yankLen : Fin blockSize} {fs : FsState}
    {filename : Option CString} (represents : Represents area memory begun)
    (ran : HeapEditor.editorStart buffers memory E yankLen fs filename = .ok next) :
    Tracks area begun next (OpensRows fs.disk filename) := by
  have nothing : Tracks area begun ⟨initEditor E, initRows memory, yankLen, fs⟩ False :=
    ⟨_, initRows_keeps represents, by simp⟩
  exact (editorOpen_tracks (nothing.put _) ran).iff (by simp [HeapEditor.put])

/-! Whole sessions. -/

/-- A turn that inserts no row. -/
def QuietTurn {area : Area} (buffers : Buffers area) (h : HeapEditor) (typed : Typed)
    (next : HeapEditor) : Prop :=
  HeapTurn buffers h typed next ∧ ¬AddsRow (h.session buffers) typed.keys

theorem HeapTurn.unique {typed : Typed} {left right : HeapEditor}
    (first : HeapTurn buffers h typed left) (second : HeapTurn buffers h typed right) :
    left = right := by
  have same := first.2.symm.trans second.2
  cases same
  rfl

/-- There has been a row exactly if the file gave one or a turn was not quiet. -/
theorem session_tracks {start : HeapEditor} {turns : List Typed} {opens : Prop}
    (run : Run (HeapTurn buffers) start turns h) (tracks : Tracks area begun start opens) :
    Tracks area begun h (opens ∨ ¬Run (QuietTurn buffers) start turns h) := by
  induction run with
  | nil => exact tracks.iff (by simp [Run.nil])
  | @snoc turns current next typed run turn ih =>
      have quiet_iff : Run (QuietTurn buffers) start (turns ++ [typed]) next ↔
          Run (QuietTurn buffers) start turns current ∧
            ¬AddsRow (current.session buffers) typed.keys := by
        constructor
        · intro quiet
          obtain ⟨before, first, last⟩ := quiet.last
          have same := run.unique (fun _ _ _ _ left right => left.unique right)
            (first.weaken fun _ _ _ step => step.1)
          rw [same] at first last
          exact ⟨first, last.2⟩
        · intro ⟨first, noRow⟩
          exact first.snoc ⟨turn, noRow⟩
      refine (turn.tracks ih).iff ?_
      rw [quiet_iff, not_and_or, not_not, or_assoc]

theorem Tracks.usedBlocks_iff {memory : Memory} (represents : Represents area memory begun)
    (tracks : Tracks area begun h inserted) :
    usedBlocks area h.store.memory = usedBlocks area memory ↔ ¬inserted := by
  obtain ⟨text, ⟨array, rows, held, rfl⟩, told⟩ := tracks
  rw [held.owns.usedBlocks_iff represents, ← told]
  cases array with
  | none =>
      have none : rows = [] := by
        have space := held.space
        simpa using space
      simp [none]
  | some chunk => simp

/-- A session leaves the blocks in use as it found them exactly if the file is missing or
empty and no turn inserts a row. -/
theorem editorRun_returns_memory_iff (area : Area) (buffers : Buffers area) (memory : Memory)
    (heapCalls : List HeapCall) (heap : HeapState)
    (reached : Run (HeapStep area) (initialHeap area memory) heapCalls heap)
    (E : EditorConfig) (yankLen : Fin blockSize) (fs : FsState) (filename : Option CString)
    (start : HeapEditor)
    (started : HeapEditor.editorStart buffers heap.memory E yankLen fs filename = .ok start)
    (turns : List Typed) (final : HeapEditor) (run : Run (HeapTurn buffers) start turns final) :
    usedBlocks area final.store.memory = usedBlocks area heap.memory ↔
      ¬OpensRows fs.disk filename ∧ Run (QuietTurn buffers) start turns final := by
  obtain ⟨begun, invariant⟩ := heapInvariant_of_run reached
  have opened := editorStart_tracks invariant.represents started
  have tracks := session_tracks run opened
  rw [tracks.usedBlocks_iff invariant.represents, not_or, not_not]

/-! Sessions in the area of the examples, without a file. -/

/-- The buffers of the kernel, behind the area. -/
def exampleBuffers : Buffers exampleArea where
  yankBuf := 2097152
  openBuf := 2105344
  emptyString := 2113536
  yank_outside := by decide
  open_outside := by decide

/-- `editorRun(NULL)` up to its loop. -/
def exampleSession : Except HeapStop HeapEditor :=
  HeapEditor.editorStart exampleBuffers exampleHeap.memory blankEditor ⟨0, by decide⟩ blankState none

/-- The turns one after another, as long as none of them ends the loop. -/
def performTurns (buffers : Buffers area) : HeapEditor → List Typed → Option HeapEditor
  | h, [] => some h
  | h, typed :: turns =>
      if h.store.dirty = -9999 then none
      else
        match h.editorTurn buffers typed.keys typed.stack with
        | .ok (next, []) => performTurns buffers next turns
        | _ => none

private theorem performTurns_run {final : HeapEditor} {turns : List Typed}
    (performed : performTurns buffers h turns = some final) :
    Run (HeapTurn buffers) h turns final := by
  induction turns generalizing h with
  | nil =>
      cases performed
      exact .nil
  | cons typed turns ih =>
      simp only [performTurns] at performed
      split at performed
      · cases performed
      · next inLoop =>
          split at performed
          · next turned => exact (Run.single ⟨inLoop, turned⟩).append (ih performed)
          · cases performed

/-- What a session leaves behind, once it is known to end. -/
private theorem session_of_evaluated {turns : List Typed} {test : HeapEditor → Bool}
    (evaluated : exampleSession.toOption.any (fun start =>
      (performTurns exampleBuffers start turns).any test) = true) :
    ∃ start final, exampleSession = .ok start ∧ Run (HeapTurn exampleBuffers) start turns final ∧
      test final = true := by
  obtain ⟨start, returned, performs⟩ := (Option.any_eq_true _ _).mp evaluated
  obtain ⟨final, performed, tested⟩ := (Option.any_eq_true _ _).mp performs
  cases begun : exampleSession with
  | error stop =>
      rw [begun] at returned
      cases returned
  | ok opened =>
      rw [begun] at returned
      cases returned
      exact ⟨start, final, rfl, performTurns_run performed, tested⟩

def quitKeys : List Typed := [typedKey ':', typedKey 'q', typedKey '\n']

/-- Quitting at once leaves nothing behind. -/
theorem editorRun_returns_memory_quit : ∃ start final, exampleSession = .ok start ∧
    Run (HeapTurn exampleBuffers) start quitKeys final ∧ final.store.dirty = -9999 ∧
    (usedBlocks exampleArea final.store.memory = usedBlocks exampleArea exampleHeap.memory ↔
      ¬OpensRows blankState.disk none ∧ Run (QuietTurn exampleBuffers) start quitKeys final) := by
  obtain ⟨start, final, started, run, left⟩ := @session_of_evaluated quitKeys
    (fun final => final.store.dirty == -9999) (by decide +kernel)
  exact ⟨start, final, started, run, beq_iff_eq.mp left,
    editorRun_returns_memory_iff exampleArea exampleBuffers _ [] exampleHeap .nil _ _ _ _ _ started
      _ _ run⟩

/-- A line opened with `O` and left empty: the session ends, and the array of the rows and
the block of the line stay in use. -/
theorem editorRun_leaks_rows : ∃ start final, exampleSession = .ok start ∧
    Run (HeapTurn exampleBuffers) start
      (typedKey 'O' :: ⟨[escapeKey], constantMemory 0⟩ :: quitKeys) final ∧
    final.store.dirty = -9999 ∧
    usedBlocks exampleArea final.store.memory ≠ usedBlocks exampleArea exampleHeap.memory := by
  obtain ⟨start, final, started, run, left⟩ := @session_of_evaluated
    (typedKey 'O' :: ⟨[escapeKey], constantMemory 0⟩ :: quitKeys)
    (fun final => final.store.dirty == -9999 && final.store.rows != nullPointer) (by decide +kernel)
  obtain ⟨quit, rows⟩ := Bool.and_eq_true_iff.mp left
  refine ⟨start, final, started, run, beq_iff_eq.mp quit, ?_⟩
  have represents := (initialHeap_invariant exampleArea fun _ => 0).represents
  obtain ⟨text, ⟨array, blocks, held, _⟩, _⟩ :=
    session_tracks run (editorStart_tracks represents started)
  intro same
  have none := (held.owns.usedBlocks_iff represents).mp same
  cases array with
  | none => exact bne_iff_ne.mp rows held.pointer
  | some chunk => cases none

end ShedKernel.Editor
