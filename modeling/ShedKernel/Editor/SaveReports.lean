import ShedKernel.Editor.SavedText
import ShedKernel.FileSystem.Names
import ShedKernel.FileSystem.ReadProperties

/-! The commands `w` and `wq`, and when what they report is true: text that does not fit the
block is dropped in silence, and `wq` leaves whether or not there is a file. -/

set_option autoImplicit false

namespace ShedKernel.Editor

open Foundation FileSystem Memory

/-- A directory slot and a data block are free. -/
def HasRoom (disk : Memory) : Prop :=
  (∃ slot, slot < maxDirEntries ∧ DirEntry.isUsed disk slot = false) ∧
    ∃ block, block < numDataBlocks ∧ fsBlockIsFree disk block = true

/-- The name fits a directory entry, and has one or can have one. -/
def NameStorable (disk : Memory) (name : CString) : Prop :=
  name.bytes.length < maxFilenameLen ∧ (fsFindFile disk name ≠ none ∨ HasRoom disk)

/-- The file of that name holds every row with a newline behind it. -/
def HoldsAllRows (disk : Memory) (name : CString) (rows : List (List UInt8)) : Prop :=
  ∃ slot, fsFindFile disk name = some slot ∧
    DirEntry.fileSize disk slot = (encodeRows rows).length ∧
    bytesAt (fileByte disk slot) 0 (encodeRows rows).length = encodeRows rows

/-- The flag is down, or the editor leaves its loop. -/
def ReportsSuccess (s : EditorSession) : Prop := s.E.dirty = 0 ∨ s.E.dirty = -9999

section Room

variable {disk : Memory} {state : FsState} {dir : Directory} {name : CString}

private theorem freeBlock_isSome_iff (represents : Represents disk dir) :
    dir.freeBlock ≠ none ↔ ∃ block, block < numDataBlocks ∧ fsBlockIsFree disk block = true := by
  rw [← represents.freeBlock_eq, ne_eq, List.find?_range_eq_none]
  simp [numDataBlocks, totalBlocks]

private theorem freeSlot_isSome_iff (represents : Represents disk dir) :
    dir.freeSlot ≠ none ↔ ∃ slot, slot < maxDirEntries ∧ DirEntry.isUsed disk slot = false := by
  rw [← represents.freeSlot_eq, ne_eq, findSlot, List.find?_range_eq_none]
  simp

private theorem hasRoom_iff (represents : Represents disk dir) (missing : dir.find name.bytes = none) :
    HasRoom disk ↔ dir.room name.bytes ≠ none := by
  unfold HasRoom
  rw [← freeSlot_isSome_iff represents, ← freeBlock_isSome_iff represents]
  unfold Directory.room
  rw [missing]
  cases dir.freeSlot with
  | none => simp
  | some slot =>
      cases dir.freeBlock with
      | none => simp
      | some block => simp

private theorem saveable_of_storable (represents : Represents state.disk dir)
    (storable : NameStorable state.disk name) : Saveable state name := by
  cases storable.2 with
  | inl exist => exact .inl exist
  | inr hasRoom =>
      cases missing : dir.find name.bytes with
      | some other =>
          left
          rw [represents.fsFindFile_eq, missing]
          exact Option.some_ne_none other
      | none =>
          right
          have room := (hasRoom_iff represents missing).mp hasRoom
          obtain ⟨place, isRoom⟩ := Option.ne_none_iff_exists'.mp room
          rw [(represents.fsCreateFile_performed name).2.1, isRoom]
          rfl

/-- `editorSave` writes the file exactly if its name can be stored. -/
theorem saveStores_iff {E : EditorConfig} (represents : Represents state.disk dir)
    (named : E.filename.bytes ≠ []) :
    SaveStores E state ↔ NameStorable state.disk E.filename := by
  have prepared := prepared_performed represents E.filename
  unfold SaveStores
  rw [prepared.represents.fsFindFile_eq]
  constructor
  · intro ⟨_, stored⟩
    obtain ⟨slot, found⟩ := Option.ne_none_iff_exists'.mp stored
    obtain ⟨entry, inSlot, same, _⟩ := Directory.lookup_of_find found
    have short := prepared.represents.valid.named slot entry inSlot
    refine ⟨by rw [← same]; unfold maxFilenameLen; omega, ?_⟩
    cases missing : dir.find E.filename.bytes with
    | some other =>
        left
        rw [represents.fsFindFile_eq, missing]
        exact Option.some_ne_none other
    | none =>
        refine .inr ((hasRoom_iff represents missing).mpr fun room => ?_)
        unfold directoryToSave at found
        rw [if_pos missing, Directory.create, room] at found
        rw [missing] at found
        cases found
  · intro storable
    obtain ⟨slot, found⟩ := find_directoryToSave represents
      (Nat.le_of_lt_succ storable.1) (saveable_of_storable represents storable)
    exact ⟨named, by rw [found]; exact Option.some_ne_none slot⟩

end Room

section Commands

variable {s : EditorSession} {keys : List Int} {stack : Memory}

/-- What `w` and `wq` leave: the session after the save, in normal mode or out of the loop. -/
def savedSession (s : EditorSession) (stack : Memory) (quit : Bool) : EditorSession :=
  let saved := editorSave (atCommand s).E s.fs stack
  { s with
    E := if quit then { saved.1 with dirty := -9999 } else { saved.1 with mode := .normal }
    fs := saved.2 }

/-- A command that is typed is none that differs from it. -/
theorem Enters.not_equal {text : String} (entered : Enters s keys text) (other : String)
    (proper : 0 ∉ ascii text) (otherProper : 0 ∉ ascii other) (different : ascii text ≠ ascii other) :
    ¬(atCommand s).E.cmdbuf.strcmpEqual 0 (ascii other) = true :=
  fun equal => different (entered.unique ⟨entered.1, entered.2.1, equal⟩ proper otherProper)

/-- Enter runs the command; one that saves leaves the session after the save. -/
theorem press_enter (mode : s.E.mode = .command) {quit : Bool} {rest : List Int}
    (ran : editorExecCommand (atCommand s) stack = .ok (quit,
      { atCommand s with
        E := (editorSave (atCommand s).E s.fs stack).1
        fs := (editorSave (atCommand s).E s.fs stack).2 })) :
    editorProcessKeypress s (enterKey :: rest) stack = .ok (savedSession s stack quit, rest) := by
  have pressed : commandKeypress s enterKey stack = .ok (savedSession s stack quit) := by
    unfold commandKeypress
    rw [if_neg (by decide), if_pos rfl]
    refine (congrArg (· >>= _) ran).trans ?_
    cases quit with
    | false => rfl
    | true => rfl
  simp only [editorProcessKeypress, mode, pressed]
  rfl

private theorem exec_w (entered : Enters s keys "w") (rest : List Int) :
    editorProcessKeypress s (enterKey :: rest) stack = .ok (savedSession s stack false, rest) := by
  have notQuit := entered.not_equal "q" (by decide) (by decide) (by decide)
  have notForced := entered.not_equal "q!" (by decide) (by decide) (by decide)
  have isWrite : (atCommand s).E.cmdbuf.strcmpEqual 0 (ascii "w") = true := entered.2.2
  apply press_enter entered.1
  unfold editorExecCommand
  rw [if_neg notQuit, if_neg notForced, if_pos isWrite]
  rfl

private theorem exec_wq (entered : Enters s keys "wq") (rest : List Int) :
    editorProcessKeypress s (enterKey :: rest) stack = .ok (savedSession s stack true, rest) := by
  have notQuit := entered.not_equal "q" (by decide) (by decide) (by decide)
  have notForced := entered.not_equal "q!" (by decide) (by decide) (by decide)
  have notWrite := entered.not_equal "w" (by decide) (by decide) (by decide)
  have isBoth : (atCommand s).E.cmdbuf.strcmpEqual 0 (ascii "wq") = true := entered.2.2
  apply press_enter entered.1
  unfold editorExecCommand
  rw [if_neg notQuit, if_neg notForced, if_neg notWrite, if_pos isBoth]
  rfl

end Commands

/-! What the file holds. -/

section File

variable {E : EditorConfig} {state : FsState} {dir : Directory}

private theorem fileByte_small {disk : Memory} {slot index : Nat} (inBlock : index < 4096)
    (placed : DirEntry.firstDataBlock disk slot < 4294967296) :
    fileByte disk slot index = fsReadBlock disk (DirEntry.firstDataBlock disk slot) index := by
  have first : index / blockSize = 0 := Nat.div_eq_of_lt inBlock
  have offset : index % blockSize = index := Nat.mod_eq_of_lt inBlock
  unfold fileByte
  rw [first, offset, @add32_of_lt (DirEntry.firstDataBlock disk slot) 0 placed, Nat.add_zero]

/-- A file that was written holds every row exactly if the text fits in front of a terminator. -/
theorem holdsAllRows_iff (represents : Represents state.disk dir) (stores : SaveStores E state)
    (stack : Memory) :
    HoldsAllRows (editorSave E state stack).2.disk E.filename E.rows ↔
      (encodeRows E.rows).length ≤ 4095 := by
  have storable := (saveStores_iff represents stores.1).mp stores
  have short : E.filename.bytes.length ≤ 15 := Nat.le_of_lt_succ storable.1
  obtain ⟨slot, found, size, held⟩ :=
    editorSave_saved represents E stack stores.1 short (saveable_of_storable represents storable)
  rw [saveRows_length, savedText_length] at size
  constructor
  · intro ⟨other, foundAgain, whole, _⟩
    obtain rfl : slot = other := Option.some.inj (found.symm.trans foundAgain)
    omega
  · intro fits
    have performed := editorSave_performed represents E stack
    have search := found
    rw [performed.represents.fsFindFile_eq] at search
    obtain ⟨entry, stored, _⟩ := Directory.lookup_of_find search
    have placed := performed.represents.valid.placed slot entry stored
    have block := (performed.represents.entries slot entry stored).block
    have whole : savedText E.rows = encodeRows E.rows := List.take_of_length_le fits
    have text := (savedBlock_spec E stack).1
    rw [whole] at text
    refine ⟨slot, found, by omega, (bytesAt_congr fun index inside => ?_).trans text⟩
    rw [Nat.zero_add, fileByte_small (by omega) (by omega)]
    exact held index (by omega)

/-- A file that was not written is not there. -/
theorem not_holdsAllRows (named : E.filename.bytes ≠ []) (fails : ¬SaveStores E state)
    (stack : Memory) : ¬HoldsAllRows (editorSave E state stack).2.disk E.filename E.rows := by
  intro ⟨slot, found, _⟩
  unfold SaveStores at fails
  have missing := not_not.mp (not_and.mp fails named)
  unfold editorSave at found
  rw [if_neg named] at found
  simp only [missing] at found
  cases found

end File

section Reports

variable {s : EditorSession}

private theorem reportsSuccess_of_stores (stores : SaveStores (atCommand s).E s.fs) (stack : Memory)
    (quit : Bool) : ReportsSuccess (savedSession s stack quit) := by
  cases quit with
  | false =>
      have cleared := congrArg (·.dirty) (editorSave_of_stores stores stack)
      exact .inl cleared
  | true => exact .inr rfl

private theorem reportsSuccess_of_not_stores (fails : ¬SaveStores (atCommand s).E s.fs) (stack : Memory)
    (quit : Bool) :
    ReportsSuccess (savedSession s stack quit) ↔
      quit = true ∨ s.E.dirty = 0 ∨ s.E.dirty = -9999 := by
  cases quit with
  | false =>
      have kept : (savedSession s stack false).E.dirty = s.E.dirty :=
        congrArg (·.dirty) (editorSave_of_not_stores fails stack)
      unfold ReportsSuccess
      rw [kept]
      simp
  | true => exact iff_of_true (.inr rfl) (.inl rfl)

/-- What a finished `w` or `wq` reports is true exactly if the text was stored whole, or if it
was not stored and the flag says so. -/
theorem saved_reports_iff {dir : Directory} (represents : Represents s.fs.disk dir)
    (named : s.E.filename.bytes ≠ []) (stack : Memory) (quit : Bool) :
    (ReportsSuccess (savedSession s stack quit) →
        HoldsAllRows (savedSession s stack quit).fs.disk s.E.filename s.E.rows) ↔
      NameStorable s.fs.disk s.E.filename ∧ (encodeRows s.E.rows).length ≤ 4095 ∨
        ¬NameStorable s.fs.disk s.E.filename ∧ quit = false ∧ s.E.dirty ≠ 0 ∧
          s.E.dirty ≠ -9999 := by
  have storesIff := @saveStores_iff _ _ (atCommand s).E represents named
  by_cases storable : NameStorable s.fs.disk s.E.filename
  · have stores := storesIff.mpr storable
    have reports := reportsSuccess_of_stores stores stack quit
    have holds := holdsAllRows_iff represents stores stack
    simp only [reports, storable, true_imp_iff, true_and, not_true_eq_false, false_and, or_false]
    exact holds
  · have fails := mt storesIff.mp storable
    have reports := reportsSuccess_of_not_stores fails stack quit
    have lost : ¬HoldsAllRows (savedSession s stack quit).fs.disk s.E.filename s.E.rows :=
      @not_holdsAllRows (atCommand s).E s.fs named fails stack
    rw [reports, imp_iff_not lost]
    simp [storable]

end Reports

/-- In normal mode after `w`, and out of the loop after `wq`, the file holds the whole text
exactly if it fits a block and its name could be stored. Where the file was not written, only
a `w` that leaves the flag up does not report success. -/
theorem save_success_iff (state : FsState) (calls : List FsCall) (s : EditorSession)
    (rest : List Int) (stack : Memory) (reachable : s.fs = fsRun (fsInit state) calls)
    (named : s.E.filename.bytes ≠ [])
    (entered : Enters s (enterKey :: rest) "w" ∨ Enters s (enterKey :: rest) "wq") :
    ∃ next, editorProcessKeypress s (enterKey :: rest) stack = .ok (next, rest) ∧
      ((ReportsSuccess next → HoldsAllRows next.fs.disk s.E.filename s.E.rows) ↔
        NameStorable s.fs.disk s.E.filename ∧ (encodeRows s.E.rows).length ≤ 4095 ∨
          ¬NameStorable s.fs.disk s.E.filename ∧ Enters s (enterKey :: rest) "w" ∧
            s.E.dirty ≠ 0 ∧ s.E.dirty ≠ -9999) := by
  have represents := reachable_represents state calls
  rw [← reachable] at represents
  cases entered with
  | inl writes =>
      refine ⟨_, exec_w writes rest, ?_⟩
      simpa only [writes, true_and] using saved_reports_iff represents named stack false
  | inr leaves =>
      have notWrites : ¬Enters s (enterKey :: rest) "w" := by
        intro writes
        have same := leaves.unique writes (by decide) (by decide)
        revert same
        decide
      refine ⟨_, exec_wq leaves rest, ?_⟩
      simpa only [notWrites, false_and, and_false, reduceCtorEq] using
        saved_reports_iff represents named stack true

/-- A changed row `a`, and a command typed up to its Enter. -/
def typedCommand (text : String) (filename : CString) : EditorSession where
  E := { oneRowEditor with
    mode := .command, cmdbuf := (constantMemory 0).storeBytes 0 (ascii text), cmdlen := text.length,
    filename, dirty := 1 }
  yank := []
  fs := fsRun (fsInit blankState) []

theorem save_success_iff_oneRow : ∃ next,
    editorProcessKeypress (typedCommand "w" nameA) [enterKey] (constantMemory 0) = .ok (next, []) ∧
      ((ReportsSuccess next → HoldsAllRows next.fs.disk nameA [[97]]) ↔
        NameStorable (typedCommand "w" nameA).fs.disk nameA ∧ (encodeRows [[97]]).length ≤ 4095 ∨
          ¬NameStorable (typedCommand "w" nameA).fs.disk nameA ∧
            Enters (typedCommand "w" nameA) [enterKey] "w" ∧
            (typedCommand "w" nameA).E.dirty ≠ 0 ∧ (typedCommand "w" nameA).E.dirty ≠ -9999) :=
  save_success_iff blankState [] (typedCommand "w" nameA) [] (constantMemory 0) rfl (by decide)
    (.inl ⟨rfl, rfl, by decide⟩)

/-- `wq` under a name of sixteen characters leaves the editor, and the row is nowhere. -/
theorem save_success_loses_text : ¬∀ (calls : List FsCall) (s next : EditorSession)
    (rest : List Int) (stack : Memory), s.fs = fsRun (fsInit blankState) calls →
    1 ≤ s.E.filename.bytes.length → s.E.filename.bytes.length ≤ 63 →
    (Enters s (enterKey :: rest) "w" ∨ Enters s (enterKey :: rest) "wq") →
    editorProcessKeypress s (enterKey :: rest) stack = .ok (next, rest) → ReportsSuccess next →
    HoldsAllRows next.fs.disk s.E.filename s.E.rows := by
  intro claimed
  have leaves : Enters (typedCommand "wq" longName) [enterKey] "wq" := ⟨rfl, rfl, by decide⟩
  have tooLong : ¬NameStorable (typedCommand "wq" longName).fs.disk longName :=
    fun storable => absurd storable.1 (by decide)
  have represents : Represents (typedCommand "wq" longName).fs.disk _ :=
    reachable_represents blankState []
  have notStored := (@saved_reports_iff (typedCommand "wq" longName) _ represents (by decide)
    (constantMemory 0) true).mp
    (claimed [] _ _ [] (constantMemory 0) rfl (by decide) (by decide) (.inr leaves)
      (exec_wq leaves []))
  cases notStored with
  | inl stored => exact tooLong stored.1
  | inr refused => exact Bool.noConfusion refused.2.1

end ShedKernel.Editor
