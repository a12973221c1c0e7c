import ShedKernel.Editor.CursorProperties
import ShedKernel.FileSystem.Session
import ShedKernel.Foundation.Bytes

/-! Saving the rows and opening the file again. `editorSave` ends every row with a newline
and `editorOpen` takes the newlines for separators, so an empty row joins at the end. -/

set_option autoImplicit false

namespace ShedKernel.Editor

open Foundation FileSystem Memory

/-- The bytes that `editorSave` writes for the rows. -/
def encodeRows (rows : List (List UInt8)) : List UInt8 := (rows.map (· ++ [10])).flatten

/-- No newline and no NUL. -/
def PlainRow (row : List UInt8) : Prop := 10 ∉ row ∧ 0 ∉ row

private theorem length_encodeRows (rows : List (List UInt8)) :
    (encodeRows rows).length = (rows.map fun row => row.length + 1).sum := by
  simp [encodeRows, List.length_flatten, Function.comp_def]

private theorem encodeRows_cons (row : List UInt8) (rest : List (List UInt8)) :
    encodeRows (row :: rest) = row ++ 10 :: encodeRows rest := by
  simp [encodeRows]

/-! Writing the buffer. -/

private theorem saveRows_full (rows : List (List UInt8)) (buf : Memory) :
    saveRows rows 4095 buf = (4095, buf) := by
  cases rows with
  | nil => rfl
  | cons row rest => exact if_neg (Nat.lt_irrefl 4095)

private theorem blit_row {buf : Memory} {pos count : Nat} {row : List UInt8} (fits : count ≤ row.length) :
    bytesAt (buf.blit pos (fun index => row.getD index 0) count) pos (row.take count).length =
      row.take count := by
  rw [List.length_take, Nat.min_eq_left fits, bytesAt_eq_iff (List.length_take_of_le fits)]
  intro index inside
  rw [blit_of_inside inside]
  simp [List.getD_eq_getElem?_getD, inside]

/-- From `pos` on the loop writes the rows, each with a newline behind it, up to byte 4094. -/
theorem saveRows_spec {rows : List (List UInt8)} {pos : Nat} {buf : Memory} (low : pos ≤ 4095) :
    let text := (encodeRows rows).take (4095 - pos)
    (saveRows rows pos buf).1 = pos + text.length ∧
      bytesAt (saveRows rows pos buf).2 pos text.length = text ∧
      ∀ other, other < pos ∨ 4095 ≤ other → (saveRows rows pos buf).2 other = buf other := by
  induction rows generalizing pos buf with
  | nil => simp [encodeRows, saveRows]
  | cons row rest ih =>
      rw [encodeRows_cons]
      rcases Nat.lt_or_ge pos 4095 with below | full
      · have inBlock : pos < blockSize - 1 := below
        by_cases whole : pos + row.length < 4095
        · -- the row and its newline fit
          have saved : saveRows (row :: rest) pos buf = saveRows rest (pos + row.length + 1)
              ((buf.blit pos (fun index => row.getD index 0) row.length).storeByte
                (pos + row.length) 10) := by
            have shorter : row.length < blockSize - 1 - pos := by
              unfold blockSize
              omega
            rw [saveRows, if_pos inBlock]
            simp only [if_pos shorter]
            exact if_pos whole
          obtain ⟨ended, held, kept⟩ := @ih (pos + row.length + 1)
            ((buf.blit pos (fun index => row.getD index 0) row.length).storeByte (pos + row.length) 10)
            (by omega)
          have cut : (row ++ 10 :: encodeRows rest).take (4095 - pos) =
              row ++ 10 :: (encodeRows rest).take (4095 - (pos + row.length + 1)) := by
            rw [List.take_append, List.take_of_length_le (by omega)]
            have more : 4095 - pos - row.length = 4095 - (pos + row.length + 1) + 1 := by omega
            rw [more, List.take_succ_cons]
          rw [saved, cut]
          refine ⟨?_, ?_, fun other outside => ?_⟩
          · rw [ended, List.length_append, List.length_cons]
            omega
          · apply bytesAt_append_iff.mpr
            constructor
            · have copied := @blit_row buf pos row.length row le_rfl
              rw [List.take_length] at copied
              refine (bytesAt_congr fun index inside => ?_).trans copied
              rw [kept _ (by omega), storeByte_of_ne (by omega)]
            · rw [List.length_cons, bytesAt_succ, held, kept _ (by omega), storeByte_self]
          · rw [kept _ (by omega), storeByte_of_ne (by omega), blit_of_outside (by omega)]
        · -- the row is cut off, or its newline is
          have saved : saveRows (row :: rest) pos buf =
              (4095, buf.blit pos (fun index => row.getD index 0) (4095 - pos)) := by
            have copy : (if row.length < blockSize - 1 - pos then row.length
                else blockSize - 1 - pos) = 4095 - pos := by
              unfold blockSize
              split
              · omega
              · rfl
            have ended : pos + (4095 - pos) = 4095 := by omega
            rw [saveRows, if_pos inBlock]
            simp only [copy, ended]
            rw [if_neg (by unfold blockSize; omega), saveRows_full]
          have cut : (row ++ 10 :: encodeRows rest).take (4095 - pos) = row.take (4095 - pos) :=
            List.take_append_of_le_length (by omega)
          rw [saved, cut]
          refine ⟨?_, blit_row (by omega), fun other outside => ?_⟩
          · rw [List.length_take]
            omega
          · exact @blit_of_outside buf pos (4095 - pos) other (fun index => row.getD index 0) (by omega)
      · have here : pos = 4095 := by omega
        subst here
        rw [saveRows_full]
        simp

/-! Reading it back. -/

section Open

variable {buf : Nat → UInt8} {E : EditorConfig} {start : Nat}

private theorem openRows_skip {line : List UInt8} (plain : PlainRow line) (remaining : Nat) {index : Nat}
    (held : bytesAt buf index line.length = line) :
    openRows buf (line.length + remaining) index start E =
      openRows buf remaining (index + line.length) start E := by
  induction line generalizing index with
  | nil => simp
  | cons byte rest ih =>
    rw [List.length_cons, bytesAt_succ, List.cons.injEq] at held
    obtain ⟨here, later⟩ := held
    have ordinary : ¬(buf index = 10 ∨ buf index = 0) := by
      rw [here]
      intro special
      cases special with
      | inl newline => exact plain.1 (newline ▸ List.mem_cons_self)
      | inr null => exact plain.2 (null ▸ List.mem_cons_self)
    have count : (byte :: rest).length + remaining = rest.length + remaining + 1 := by
      simp only [List.length_cons]
      omega
    have restPlain : PlainRow rest :=
      ⟨fun member => plain.1 (List.mem_cons_of_mem _ member),
        fun member => plain.2 (List.mem_cons_of_mem _ member)⟩
    have next : index + (byte :: rest).length = index + 1 + rest.length := by
      simp only [List.length_cons]
      omega
    rw [count, next, openRows, if_neg ordinary]
    exact ih restPlain later

/-- A line with its terminator becomes one more row. -/
theorem openRows_line {line : List UInt8} (plain : PlainRow line) (remaining : Nat)
    (held : bytesAt buf start line.length = line)
    (terminated : buf (start + line.length) = 10 ∨ buf (start + line.length) = 0) :
    openRows buf (line.length + (remaining + 1)) start start E =
      openRows buf remaining (start + line.length + 1) (start + line.length + 1)
        { E with rows := E.rows ++ [line] } := by
  have sliced : slice buf start (start + line.length - start) = line := by
    rw [Nat.add_sub_cancel_left]
    exact held
  have appended : editorInsertRow E E.numrows line = { E with rows := E.rows ++ [line] } := by
    have nonneg : 0 ≤ E.numrows := Int.natCast_nonneg _
    rw [EditorConfig.insertRow_eq nonneg (Int.le_refl _)]
    simp [EditorConfig.numrows]
  rw [openRows_skip plain _ held, openRows, if_pos terminated, sliced, appended]

private theorem openRows_encoded {rows : List (List UInt8)} (plain : ∀ row ∈ rows, PlainRow row)
    (held : bytesAt buf start (encodeRows rows).length = encodeRows rows)
    (ended : buf (start + (encodeRows rows).length) = 0) :
    (openRows buf ((encodeRows rows).length + 1) start start E).rows = E.rows ++ rows ++ [[]] := by
  induction rows generalizing start E with
  | nil =>
    have emptyLine := @openRows_line buf E start [] ⟨by simp, by simp⟩ 0 rfl (.inr ended)
    simp only [encodeRows, List.map_nil, List.flatten_nil, List.length_nil, Nat.zero_add] at emptyLine ⊢
    rw [emptyLine]
    simp [openRows]
  | cons row rest ih =>
    have rowPlain := plain row List.mem_cons_self
    rw [encodeRows_cons] at held ended ⊢
    obtain ⟨rowHeld, tailHeld⟩ := bytesAt_append_iff.mp held
    rw [List.length_cons, bytesAt_succ, List.cons.injEq] at tailHeld
    obtain ⟨newline, restHeld⟩ := tailHeld
    have count : (row ++ 10 :: encodeRows rest).length + 1 =
        row.length + ((encodeRows rest).length + 1 + 1) := by
      simp only [List.length_append, List.length_cons]
      omega
    have place : start + (row ++ 10 :: encodeRows rest).length =
        start + row.length + 1 + (encodeRows rest).length := by
      simp only [List.length_append, List.length_cons]
      omega
    rw [place] at ended
    have further := @ih { E with rows := E.rows ++ [row] } (start + row.length + 1)
      (fun other member => plain other (List.mem_cons_of_mem _ member)) restHeld ended
    rw [count, openRows_line rowPlain _ rowHeld (.inl newline), further]
    simp

end Open

/-! The file after saving. -/

/-- The file exists or `fs_create_file` makes it. -/
def Saveable (state : FsState) (name : CString) : Prop :=
  fsFindFile state.disk name ≠ none ∨ (fsCreateFile state name).1 = 0

theorem find_directoryToSave {state : FsState} {dir : Directory} (represents : Represents state.disk dir)
    {name : CString} (short : name.bytes.length ≤ 15) (saveable : Saveable state name) :
    ∃ slot, (directoryToSave dir name.bytes).find name.bytes = some slot := by
  unfold directoryToSave
  cases found : dir.find name.bytes with
  | some slot => exact ⟨slot, found⟩
  | none =>
    rw [if_pos rfl]
    have created : (fsCreateFile state name).1 = 0 := by
      cases saveable with
      | inl exist => exact absurd (represents.fsFindFile_eq name ▸ found) exist
      | inr made => exact made
    rw [(represents.fsCreateFile_performed name).2.1] at created
    cases room : dir.room name.bytes with
    | none =>
      rw [room] at created
      cases created
    | some place =>
      obtain ⟨slot, block⟩ := place
      have made : dir.create name.bytes = dir.set slot (some ⟨name.bytes, 0, block⟩) := by
        unfold Directory.create
        simp only [room, List.take_of_length_le short]
      have valid := represents.valid.create name.bytes
      cases again : (dir.create name.bytes).find name.bytes with
      | some other => exact ⟨other, rfl⟩
      | none =>
        have nowhere := (Directory.find_eq_none_iff valid).mp again slot ⟨name.bytes, 0, block⟩
        rw [made, Directory.set_self] at nowhere
        exact absurd rfl (nowhere rfl)

/-- A saved file has the size and the bytes that `editorSave` gave it. -/
theorem editorSave_saved {state : FsState} {dir : Directory} (represents : Represents state.disk dir)
    (E : EditorConfig) (stack : Memory) (named : E.filename.bytes ≠ [])
    (short : E.filename.bytes.length ≤ 15) (saveable : Saveable state E.filename) :
    ∃ slot, fsFindFile (editorSave E state stack).2.disk E.filename = some slot ∧
      DirEntry.fileSize (editorSave E state stack).2.disk slot = (saveRows E.rows 0 stack).1 ∧
      ∀ index, index < 4096 → fsReadBlock (editorSave E state stack).2.disk
        (DirEntry.firstDataBlock (editorSave E state stack).2.disk slot) index =
          savedBlock E stack index := by
  obtain ⟨slot, found⟩ := find_directoryToSave represents short saveable
  obtain ⟨entry, stored, _, looked⟩ := Directory.lookup_of_find found
  have performed := editorSave_performed represents E stack
  have resized := Directory.resize_eq found stored (saveRows E.rows 0 stack).1
  have after : directoryAfterSave dir E stack slot =
      some { entry with size := (saveRows E.rows 0 stack).1 } := by
    rw [directoryAfterSave, if_neg named, resized, Directory.set_self]
  have writes : writesOfSave dir E stack = [(entry.block, savedBlock E stack)] := by
    rw [writesOfSave, if_neg named, looked]
  have holds := performed.represents.entries slot _ after
  have placed : 3 ≤ entry.block ∧ entry.block < 1024 := performed.represents.valid.placed slot
    { entry with size := (saveRows E.rows 0 stack).1 } after
  refine ⟨slot, ?_, holds.size, ?_⟩
  · rw [performed.represents.fsFindFile_eq, directoryAfterSave, if_neg named, Directory.find_resize, found]
  · intro index inside
    have small : entry.block * 4096 < 4294967296 := by omega
    have offset : entry.block * blockSize % 4294967296 = entry.block * 4096 := Nat.mod_eq_of_lt small
    rw [fsReadBlock, holds.block, offset, performed.data _ (by omega), writes]
    exact applyWrites_covered inside ⟨_, List.mem_singleton_self _, rfl⟩ (by simp)

/-- Opening a saved file whose rows fit the block gives the rows and one more, empty row. -/
theorem editorOpen_saved {disk : Memory} {name : CString} {slot : Nat} (E : EditorConfig)
    {saved : EditorConfig} {stack : Memory} (found : fsFindFile disk name = some slot)
    (size : DirEntry.fileSize disk slot = (saveRows saved.rows 0 stack).1)
    (held : ∀ index, index < 4096 → fsReadBlock disk (DirEntry.firstDataBlock disk slot) index =
      savedBlock saved stack index)
    (some_row : saved.rows ≠ []) (plain : ∀ row ∈ saved.rows, PlainRow row)
    (fits : (saved.rows.map fun row => row.length + 1).sum ≤ blockSize - 1) :
    (editorOpen E disk (some name)).rows = E.rows ++ saved.rows ++ [[]] := by
  rw [← length_encodeRows] at fits
  have bound : (encodeRows saved.rows).length ≤ 4095 := fits
  have positive : 0 < (encodeRows saved.rows).length := by
    obtain ⟨row, rest, rows⟩ := List.exists_cons_of_ne_nil some_row
    rw [rows, encodeRows_cons, List.length_append, List.length_cons]
    omega
  have whole : (encodeRows saved.rows).take 4095 = encodeRows saved.rows :=
    List.take_of_length_le bound
  obtain ⟨ended, written, _⟩ := @saveRows_spec saved.rows 0 stack (Nat.zero_le 4095)
  rw [Nat.sub_zero, whole, Nat.zero_add] at ended
  rw [Nat.sub_zero, whole] at written
  rw [ended] at size
  generalize total : (encodeRows saved.rows).length = len at *
  have signed : toInt len = len := toInt_of_lt (by omega)
  have unclipped : ¬((blockSize : Int) - 1 < len) := by
    unfold blockSize
    omega
  have nonempty : ¬len = 0 := by omega
  have notNegative : ¬((len : Int) < 0) := by omega
  have turns : ((len : Int) + 1).toNat = len + 1 := by omega
  simp only [editorOpen, found, size, if_neg nonempty, signed, if_neg unclipped, if_neg notNegative, turns]
  rw [← total]
  apply openRows_encoded plain
  · rw [total, ← written]
    apply bytesAt_congr
    intro index inside
    have before : ¬((0 + index : Nat) : Int) = len := by omega
    have unended : 0 + index ≠ (saveRows saved.rows 0 stack).1 := by omega
    simp only [if_neg before]
    rw [held _ (by omega), savedBlock, storeByte_of_ne unended]
  · simp [total]

/-- The editor after `editorSave`, `initEditor` and `editorOpen` of the same name. -/
def reopen (E : EditorConfig) (state : FsState) (stack : Memory) : EditorConfig :=
  let saved := editorSave E state stack
  editorOpen (initEditor saved.1) saved.2.disk (some E.filename)

private theorem reopen_rows {state : FsState} {dir : Directory} (represents : Represents state.disk dir)
    {E : EditorConfig} (stack : Memory) (named : E.filename.bytes ≠ [])
    (short : E.filename.bytes.length ≤ 15) (saveable : Saveable state E.filename)
    (some_row : E.rows ≠ []) (plain : ∀ row ∈ E.rows, PlainRow row)
    (fits : (E.rows.map fun row => row.length + 1).sum ≤ blockSize - 1) :
    (reopen E state stack).rows = E.rows ++ [[]] := by
  obtain ⟨slot, found, size, held⟩ := editorSave_saved represents E stack named short saveable
  exact editorOpen_saved _ found size held some_row plain fits

/-- Saving and reopening never gives back the text: an empty row has joined it. -/
theorem save_reopen_adds_row (state : FsState) (calls : List FsCall) (E : EditorConfig) (stack : Memory)
    (named : E.filename.bytes ≠ []) (short : E.filename.bytes.length ≤ 15)
    (saveable : Saveable (fsRun (fsInit state) calls) E.filename)
    (some_row : E.rows ≠ []) (plain : ∀ row ∈ E.rows, PlainRow row)
    (fits : (E.rows.map fun row => row.length + 1).sum ≤ blockSize - 1) :
    (reopen E (fsRun (fsInit state) calls) stack).rows = E.rows ++ [[]] ∧
      (reopen E (fsRun (fsInit state) calls) stack).rows ≠ E.rows := by
  have rows := reopen_rows (reachable_represents state calls) stack named short saveable some_row plain
    fits
  refine ⟨rows, ?_⟩
  rw [rows]
  intro same
  have lengths := congrArg List.length same
  simp at lengths

/-- The row `a` under the file name `a`. -/
def oneRowEditor : EditorConfig := { blankEditor with rows := [[97]], filename := nameA }

theorem oneRowEditor_saveable : Saveable (fsRun (fsInit blankState) []) oneRowEditor.filename := by
  right
  rw [((reachable_represents blankState []).fsCreateFile_performed _).2.1]
  decide +kernel

theorem save_reopen_adds_row_example :
    (reopen oneRowEditor (fsRun (fsInit blankState) []) (constantMemory 0)).rows =
        oneRowEditor.rows ++ [[]] ∧
      (reopen oneRowEditor (fsRun (fsInit blankState) []) (constantMemory 0)).rows ≠ oneRowEditor.rows :=
  save_reopen_adds_row blankState [] oneRowEditor (constantMemory 0) (by decide) (by decide)
    oneRowEditor_saveable (by decide) (by unfold PlainRow; decide) (by decide)

/-- The row `a` comes back with an empty row behind it. -/
theorem saved_row_not_given_back : ¬∀ (calls : List FsCall) (E : EditorConfig) (stack : Memory),
    E.filename.bytes ≠ [] → E.filename.bytes.length ≤ 15 →
    Saveable (fsRun (fsInit blankState) calls) E.filename → E.rows ≠ [] →
    (∀ row ∈ E.rows, PlainRow row) → (E.rows.map fun row => row.length + 1).sum ≤ blockSize - 1 →
    (reopen E (fsRun (fsInit blankState) calls) stack).rows = E.rows := by
  intro claimed
  have plain : ∀ row ∈ oneRowEditor.rows, PlainRow row := by
    unfold PlainRow
    decide
  have given := claimed [] oneRowEditor (constantMemory 0) (by decide) (by decide)
    oneRowEditor_saveable (by decide) plain (by decide)
  have rows := @reopen_rows (fsRun (fsInit blankState) []) _ (reachable_represents blankState [])
    oneRowEditor (constantMemory 0) (by decide) (by decide) oneRowEditor_saveable (by decide) plain
    (by decide)
  rw [rows] at given
  revert given
  decide

end ShedKernel.Editor
