import ShedKernel.Editor.DirtyProperties

/-! Runs of the editor together with the rows that were last read from or written to the
file, and what is lost when the editor is left with `q`. -/

set_option autoImplicit false

namespace ShedKernel.Editor

open Foundation FileSystem EditorConfig

/-! Saving. -/

/-- `editorSave` gets as far as writing the file. -/
def SaveStores (E : EditorConfig) (fs : FsState) : Prop :=
  E.filename.bytes ≠ [] ∧
    fsFindFile (if fsFindFile fs.disk E.filename = none then (fsCreateFile fs E.filename).2
      else fs).disk E.filename ≠ none

theorem editorSave_of_stores {E : EditorConfig} {fs : FsState} (stores : SaveStores E fs) (stack : Memory) :
    (editorSave E fs stack).1 = { E with dirty := 0 } := by
  unfold editorSave
  rw [if_neg stores.1]
  dsimp only
  split
  · next missing => exact absurd missing stores.2
  · rfl

theorem editorSave_of_not_stores {E : EditorConfig} {fs : FsState} (fails : ¬SaveStores E fs)
    (stack : Memory) : (editorSave E fs stack).1 = E := by
  unfold editorSave
  split
  · rfl
  · next named =>
    dsimp only
    split
    · rfl
    · next slot found =>
      have stores : SaveStores E fs := ⟨named, by rw [found]; exact Option.some_ne_none slot⟩
      exact absurd stores fails

variable {s next : EditorSession} {keys : List Int} {stack : Memory}

/-! Commands. -/

/-- Enter finishes the command `text`. -/
def Enters (s : EditorSession) (keys : List Int) (text : String) : Prop :=
  s.E.mode = .command ∧ keys.head? = some enterKey ∧
    (s.E.cmdbuf.storeByte s.E.cmdlen 0).strcmpEqual 0 (ascii text) = true

/-- The turn writes the rows to the file. -/
def SavesFile (s : EditorSession) (keys : List Int) : Prop :=
  (Enters s keys "w" ∨ Enters s keys "wq") ∧ SaveStores s.E s.fs

theorem Enters.unique {first second : String} (left : Enters s keys first) (right : Enters s keys second)
    (leftProper : 0 ∉ ascii first) (rightProper : 0 ∉ ascii second) : ascii first = ascii second :=
  ((Memory.strcmpEqual_iff leftProper).mp left.2.2).unique
    ((Memory.strcmpEqual_iff rightProper).mp right.2.2)

private theorem Enters.not_saves (quits : Enters s keys "q") : ¬SavesFile s keys := by
  intro saves
  cases saves.1 with
  | inl written =>
    have same := quits.unique written (by decide) (by decide)
    revert same
    decide
  | inr written =>
    have same := quits.unique written (by decide) (by decide)
    revert same
    decide

private theorem SavesFile.atEnter (saves : SavesFile s keys) :
    s.E.mode = .command ∧ keys.head? = some enterKey := by
  cases saves.1 with
  | inl writes => exact ⟨writes.1, writes.2.1⟩
  | inr writes => exact ⟨writes.1, writes.2.1⟩

private theorem not_saves_of_mode (mode : s.E.mode ≠ .command) : ¬SavesFile s keys :=
  fun saves => mode saves.atEnter.1

private theorem not_saves_of_key (other : keys.head? ≠ some enterKey) : ¬SavesFile s keys :=
  fun saves => other saves.atEnter.2

/-- What a key in command mode does to the rows and the flag. -/
inductive CommandEffect (s : EditorSession) (keys : List Int) (next : EditorSession) : Prop where
  | kept (unsaved : ¬SavesFile s keys) (unchanged : Unchanged s.E next.E)
  | saved (saves : SavesFile s keys) (rows : next.E.rows = s.E.rows) (dirty : next.E.dirty = 0)
  | left (rows : next.E.rows = s.E.rows) (dirty : next.E.dirty = -9999)
      (clean : Enters s keys "q" → s.E.dirty ≤ 0)

section Commands

variable {entered : EditorSession} {quit : Bool}

/-- The session in which `editorExecCommand` runs. -/
def atCommand (s : EditorSession) : EditorSession :=
  { s with E := { s.E with cmdbuf := s.E.cmdbuf.storeByte s.E.cmdlen 0 } }

private theorem editorExecCommand_effect (mode : s.E.mode = .command) (rest : List Int)
    (ran : editorExecCommand (atCommand s) stack = .ok (quit, entered)) :
    entered.E.rows = s.E.rows ∧
      (quit = false ∧ ¬SavesFile s (enterKey :: rest) ∧ entered.E.dirty = s.E.dirty ∨
        quit = false ∧ SavesFile s (enterKey :: rest) ∧ entered.E.dirty = 0 ∨
        quit = true ∧ (Enters s (enterKey :: rest) "q" → s.E.dirty ≤ 0)) := by
  have storesIff : SaveStores (atCommand s).E (atCommand s).fs ↔ SaveStores s.E s.fs := Iff.rfl
  have saved : (editorSave (atCommand s).E (atCommand s).fs stack).1.rows = s.E.rows ∧
      (SaveStores s.E s.fs →
        (editorSave (atCommand s).E (atCommand s).fs stack).1.dirty = 0) ∧
      (¬SaveStores s.E s.fs →
        (editorSave (atCommand s).E (atCommand s).fs stack).1.dirty = s.E.dirty) := by
    by_cases stores : SaveStores s.E s.fs
    · rw [editorSave_of_stores (storesIff.mpr stores)]
      exact ⟨rfl, fun _ => rfl, fun fails => absurd stores fails⟩
    · rw [editorSave_of_not_stores (mt storesIff.mp stores)]
      exact ⟨rfl, fun holds => absurd holds stores, fun _ => rfl⟩
  have enters : ∀ text, (atCommand s).E.cmdbuf.strcmpEqual 0 (ascii text) = true ↔
      Enters s (enterKey :: rest) text := fun text =>
    ⟨fun equal => ⟨mode, rfl, equal⟩, fun entersText => entersText.2.2⟩
  unfold editorExecCommand at ran
  dsimp only at ran
  split at ran
  · next command =>
    have quits := (enters "q").mp command
    split at ran
    · cases ran
      exact ⟨rfl, .inl ⟨rfl, quits.not_saves, rfl⟩⟩
    · next clean =>
      cases ran
      exact ⟨rfl, .inr (.inr ⟨rfl, fun _ => Int.not_lt.mp clean⟩)⟩
  · next notQuit =>
    have elsewhere : ¬Enters s (enterKey :: rest) "q" := fun quits => notQuit quits.2.2
    split at ran
    · cases ran
      exact ⟨rfl, .inr (.inr ⟨rfl, fun quits => absurd quits elsewhere⟩)⟩
    split at ran
    · next command =>
      have writes := (enters "w").mp command
      cases ran
      refine ⟨saved.1, ?_⟩
      by_cases stores : SaveStores s.E s.fs
      · exact .inr (.inl ⟨rfl, ⟨.inl writes, stores⟩, saved.2.1 stores⟩)
      · exact .inl ⟨rfl, fun saves => stores saves.2, saved.2.2 stores⟩
    · next notWrite =>
      split at ran
      · cases ran
        exact ⟨saved.1, .inr (.inr ⟨rfl, fun quits => absurd quits elsewhere⟩)⟩
      · next notBoth =>
        have unsaved : ¬SavesFile s (enterKey :: rest) := by
          intro saves
          cases saves.1 with
          | inl writes => exact notWrite writes.2.2
          | inr writes => exact notBoth writes.2.2
        split at ran
        · cases ran
        · cases ran
          exact ⟨rfl, .inl ⟨rfl, unsaved, rfl⟩⟩

theorem commandKeypress_effect (mode : s.E.mode = .command) {c : Int} (rest : List Int)
    (ran : commandKeypress s c stack = .ok next) : CommandEffect s (c :: rest) next := by
  have unsaved (other : c ≠ enterKey) : ¬SavesFile s (c :: rest) :=
    not_saves_of_key fun same => other (Option.some.inj same)
  unfold commandKeypress at ran
  split at ran
  · next escape =>
    cases ran
    subst escape
    exact .kept (unsaved (by decide)) ⟨rfl, rfl⟩
  split at ran
  · next enter =>
    subst enter
    obtain ⟨⟨quit, entered⟩, executed, done⟩ := ok_of_bind ran
    obtain ⟨rows, effect⟩ := editorExecCommand_effect mode rest executed
    rcases effect with ⟨rfl, unsaved, dirty⟩ | ⟨rfl, saves, dirty⟩ | ⟨rfl, clean⟩
    · cases done
      exact .kept unsaved ⟨rows, dirty⟩
    · cases done
      exact .saved saves rows dirty
    · cases done
      exact .left rows rfl clean
  · next notEnter =>
    split at ran
    · split at ran
      · cases ran
        exact .kept (unsaved notEnter) ⟨rfl, rfl⟩
      · cases ran
        exact .kept (unsaved notEnter) ⟨rfl, rfl⟩
    split at ran
    · cases ran
      exact .kept (unsaved notEnter) ⟨rfl, rfl⟩
    · cases ran
      exact .kept (unsaved notEnter) ⟨rfl, rfl⟩

end Commands

/-! Turns. -/

/-- The turn inserts a row and leaves the flag alone. -/
def InsertsRow (s : EditorSession) (keys : List Int) : Prop :=
  s.E.mode = .normal ∧ ∃ c, keys.head? = some c ∧ Inserts s.E s.yank c

inductive TurnEffect (s : EditorSession) (keys : List Int) (next : EditorSession) : Prop where
  | command (effect : CommandEffect s keys next) (elsewhere : ¬InsertsRow s keys)
  | edit (accounted : Accounted (InsertsRow s keys) s.E next.E) (unsaved : ¬SavesFile s keys)
      (unquit : ¬Enters s keys "q")

private theorem TurnEffect.of_edit (mode : s.E.mode ≠ .command)
    (accounted : Accounted (InsertsRow s keys) s.E next.E) : TurnEffect s keys next := by
  apply TurnEffect.edit accounted
  · exact not_saves_of_mode mode
  · exact fun quits => mode quits.1

private theorem editorProcessKeypress_effect {rest : List Int}
    (ran : editorProcessKeypress s keys stack = .ok (next, rest)) : TurnEffect s keys next := by
  cases keys with
  | nil => cases ran
  | cons c keys =>
    cases mode : s.E.mode with
    | insert =>
      simp only [editorProcessKeypress, mode] at ran
      obtain ⟨E, processed, done⟩ := ok_of_bind ran
      have flagged := insertKeypress_flagged processed
      cases done
      apply TurnEffect.of_edit (by simp [mode])
      exact flagged.accounted fun inserts => absurd (mode.symm.trans inserts.1) (by decide)
    | command =>
      simp only [editorProcessKeypress, mode] at ran
      obtain ⟨finished, processed, done⟩ := ok_of_bind ran
      have effect := commandKeypress_effect mode keys processed
      cases done
      exact .command effect fun inserts => absurd (mode.symm.trans inserts.1) (by decide)
    | normal =>
      simp only [editorProcessKeypress, mode] at ran
      apply TurnEffect.of_edit (by simp [mode])
      split at ran
      · next twoKeys =>
        have never : ¬InsertsRow s (c :: keys) := by
          rintro ⟨_, key, first, inserts⟩
          cases Option.some.inj first
          rcases twoKeys with rfl | rfl
          · simp [Inserts, keyOf] at inserts
          · simp [Inserts, keyOf] at inserts
        cases keys with
        | nil => cases ran
        | cons second keys =>
          simp only at ran
          split at ran
          · obtain ⟨⟨E, yank⟩, deleted, done⟩ := ok_of_bind ran
            have flagged := editorDeleteLine_flagged deleted
            cases done
            exact flagged.accounted never
          split at ran
          · obtain ⟨yank, _, done⟩ := ok_of_bind ran
            cases done
            exact Flagged.accounted (.inr ⟨rfl, rfl⟩) never
          · cases ran
            exact Flagged.accounted (.inr ⟨rfl, rfl⟩) never
      · obtain ⟨E, processed, done⟩ := ok_of_bind ran
        have accounted := normalKeypress_accounted processed
        have same : InsertsRow s (c :: keys) ↔ Inserts s.E s.yank c := by
          simp [InsertsRow, mode]
        cases done
        exact ⟨fun inserts => accounted.silent (same.mp inserts),
          fun refused => accounted.flagged fun inserts => refused (same.mpr inserts)⟩

/-- Scrolling changes nothing that an edit or a command depends on. -/
theorem editorScroll_same (E : EditorConfig) : (editorScroll E).rows = E.rows ∧
    (editorScroll E).dirty = E.dirty ∧ (editorScroll E).mode = E.mode ∧ (editorScroll E).cy = E.cy ∧
    (editorScroll E).filename = E.filename ∧ (editorScroll E).cmdbuf = E.cmdbuf ∧
    (editorScroll E).cmdlen = E.cmdlen := by
  unfold editorScroll
  dsimp only
  split <;> split <;> split <;> split <;> exact ⟨rfl, rfl, rfl, rfl, rfl, rfl, rfl⟩

section Scrolled

variable (s : EditorSession) (keys : List Int)

private theorem enters_scrolled (text : String) :
    Enters { s with E := editorScroll s.E } keys text ↔ Enters s keys text := by
  obtain ⟨_, _, mode, _, _, cmdbuf, cmdlen⟩ := editorScroll_same s.E
  simp only [Enters, mode, cmdbuf, cmdlen]

private theorem savesFile_scrolled : SavesFile { s with E := editorScroll s.E } keys ↔ SavesFile s keys := by
  obtain ⟨_, _, _, _, filename, _, _⟩ := editorScroll_same s.E
  simp only [SavesFile, enters_scrolled, SaveStores, filename]

private theorem insertsRow_scrolled : InsertsRow { s with E := editorScroll s.E } keys ↔ InsertsRow s keys := by
  obtain ⟨rows, _, mode, cy, _, _, _⟩ := editorScroll_same s.E
  simp only [InsertsRow, Inserts, mode, cy, EditorConfig.numrows, rows]

end Scrolled

private theorem editorTurn_effect {rest : List Int} (ran : editorTurn s keys stack = .ok (next, rest)) :
    TurnEffect s keys next := by
  obtain ⟨rows, dirty, _⟩ := editorScroll_same s.E
  have effect := editorProcessKeypress_effect ran
  cases effect with
  | command effect elsewhere =>
    apply TurnEffect.command _ (mt (insertsRow_scrolled s keys).mpr elsewhere)
    cases effect with
    | kept unsaved unchanged =>
      exact .kept (mt (savesFile_scrolled s keys).mpr unsaved)
        ⟨unchanged.1.trans rows, unchanged.2.trans dirty⟩
    | saved saves same clear => exact .saved ((savesFile_scrolled s keys).mp saves) (same.trans rows) clear
    | left same ended clean =>
      refine .left (same.trans rows) ended ?_
      intro quits
      have clear := clean ((enters_scrolled s keys "q").mpr quits)
      rwa [dirty] at clear
  | edit accounted unsaved unquit =>
    apply TurnEffect.edit _ (mt (savesFile_scrolled s keys).mpr unsaved)
      (mt (enters_scrolled s keys "q").mpr unquit)
    constructor
    · intro inserts
      obtain ⟨sameDirty, changed⟩ := accounted.silent ((insertsRow_scrolled s keys).mpr inserts)
      exact ⟨sameDirty.trans dirty, fun same => changed (same.trans rows.symm)⟩
    · intro refused
      cases accounted.flagged (mt (insertsRow_scrolled s keys).mp refused) with
      | inl flagged => exact .inl flagged
      | inr unchanged => exact .inr ⟨unchanged.1.trans rows, unchanged.2.trans dirty⟩

/-! Runs with the rows of the file. -/

/-- A session and the rows right after the file was opened or last saved. -/
structure Tracked where
  s : EditorSession
  reference : List (List UInt8)

def trackedStart (E : EditorConfig) (yank : List UInt8) (fs : FsState) (filename : Option CString) :
    Tracked :=
  let s := editorStart E yank fs filename
  ⟨s, s.E.rows⟩

def TrackedTurn (t : Tracked) (typed : Typed) (next : Tracked) : Prop :=
  Turn t.s typed next.s ∧
    (SavesFile t.s typed.keys → next.reference = next.s.E.rows) ∧
    (¬SavesFile t.s typed.keys → next.reference = t.reference)

/-- A row is inserted while the flag is clear. -/
def InsertsUnflagged (s : EditorSession) (keys : List Int) : Prop :=
  s.E.dirty ≤ 0 ∧ InsertsRow s keys

/-- While the loop goes on, `E.dirty` tells whether the rows differ from the file's. -/
def FlagTells (t : Tracked) : Prop :=
  t.s.E.dirty ≠ -9999 → t.s.E.rows ≠ t.reference → 0 < t.s.E.dirty

def FlaggedTurn (t : Tracked) (typed : Typed) (next : Tracked) : Prop :=
  TrackedTurn t typed next ∧ ¬InsertsUnflagged t.s typed.keys

section Tracking

variable {t after : Tracked} {typed : Typed}

theorem FlagTells.clean (tells : FlagTells t) (running : t.s.E.dirty ≠ -9999)
    (clear : t.s.E.dirty ≤ 0) : t.s.E.rows = t.reference := by
  apply Classical.byContradiction
  intro differ
  exact Int.not_lt.mpr clear (tells running differ)

private theorem FlagTells.turn_iff (tells : FlagTells t) (turn : TrackedTurn t typed after) :
    FlagTells after ↔ ¬InsertsUnflagged t.s typed.keys := by
  obtain ⟨⟨running, ran⟩, saves, keeps⟩ := turn
  cases editorTurn_effect ran with
  | command effect elsewhere =>
    apply iff_of_true _ fun inserts => elsewhere inserts.2
    intro goesOn differ
    cases effect with
    | kept unsaved unchanged =>
      rw [unchanged.1, keeps unsaved] at differ
      rw [unchanged.2]
      exact tells running differ
    | saved stored _ _ => exact absurd (saves stored).symm differ
    | left _ ended _ => exact absurd ended goesOn
  | edit accounted unsaved _ =>
    by_cases inserts : InsertsRow t.s typed.keys
    · obtain ⟨dirty, changed⟩ := accounted.silent inserts
      constructor
      · intro afterTells unflagged
        have same := tells.clean running unflagged.1
        have flagged := afterTells (dirty ▸ running) fun equal =>
          changed (equal.trans ((keeps unsaved).trans same.symm))
        rw [dirty] at flagged
        exact Int.not_lt.mpr unflagged.1 flagged
      · intro flagged _ _
        rw [dirty]
        exact Int.not_le.mp fun clear => flagged ⟨clear, inserts⟩
    · apply iff_of_true _ fun unflagged => inserts unflagged.2
      intro goesOn differ
      cases accounted.flagged inserts with
      | inl flagged =>
        rw [flagged]
        decide
      | inr unchanged =>
        rw [unchanged.1, keeps unsaved] at differ
        rw [unchanged.2]
        exact tells running differ

/-- Leaving with `q` loses nothing as long as the flag tells. -/
theorem FlagTells.quit (tells : FlagTells t) (turn : TrackedTurn t typed after)
    (quits : Enters t.s typed.keys "q") (left : after.s.E.dirty = -9999) :
    after.s.E.rows = after.reference := by
  obtain ⟨⟨running, ran⟩, _, keeps⟩ := turn
  have kept := keeps quits.not_saves
  cases editorTurn_effect ran with
  | edit _ _ unquit => exact absurd quits unquit
  | command effect _ =>
    cases effect with
    | kept _ unchanged => exact absurd (unchanged.2.symm.trans left) running
    | saved saves _ _ => exact absurd saves quits.not_saves
    | left rows _ clean => rw [rows, kept, tells.clean running (clean quits)]

end Tracking

/-- As long as no row is inserted while the flag is clear, the flag tells whether the rows
differ from the file's, and `q` leaves only when they do not. -/
theorem quit_loses_nothing (E : EditorConfig) (yank : List UInt8) (fs : FsState)
    (filename : Option CString) (turns : List Typed) (t : Tracked)
    (run : Run FlaggedTurn (trackedStart E yank fs filename) turns t) :
    FlagTells t ∧ ∀ typed after, TrackedTurn t typed after →
      (FlagTells after ↔ ¬InsertsUnflagged t.s typed.keys) ∧
        (Enters t.s typed.keys "q" → after.s.E.dirty = -9999 → after.s.E.rows = after.reference) := by
  have tells : FlagTells t := by
    apply run.invariant
    · intro _ differ
      exact absurd rfl differ
    · intro current typed after currentTells turn
      exact (currentTells.turn_iff turn.1).mpr turn.2
  exact ⟨tells, fun typed after turn => ⟨tells.turn_iff turn, tells.quit turn⟩⟩

theorem Turn.tracked {typed : Typed} (turn : Turn s typed next) (unsaved : ¬SavesFile s typed.keys)
    (reference : List (List UInt8)) : TrackedTurn ⟨s, reference⟩ typed ⟨next, reference⟩ :=
  ⟨turn, fun saves => absurd saves unsaved, fun _ => rfl⟩

theorem quit_loses_nothing_typing : ∃ t,
    Run FlaggedTurn (trackedStart blankEditor [] blankState none) [typedKey 'i', typedKey 'a'] t ∧
      t.s.E.rows = [[97]] ∧ t.s.E.dirty = 1 ∧ FlagTells t ∧ ∀ typed after, TrackedTurn t typed after →
        (FlagTells after ↔ ¬InsertsUnflagged t.s typed.keys) ∧
          (Enters t.s typed.keys "q" → after.s.E.dirty = -9999 → after.s.E.rows = after.reference) := by
  have insert : Turn (editorStart blankEditor [] blankState none) (typedKey 'i') _ := ⟨by decide, rfl⟩
  have quiet : ¬InsertsUnflagged (editorStart blankEditor [] blankState none) (typedKey 'i').keys := by
    intro inserts
    obtain ⟨_, _, c, key, inserted⟩ := inserts
    cases Option.some.inj key
    revert inserted
    simp [Inserts, keyOf]
  have first : Run FlaggedTurn (trackedStart blankEditor [] blankState none) [typedKey 'i'] _ :=
    .single ⟨insert.tracked (not_saves_of_mode (by decide)) [], quiet⟩
  have run := @Run.snoc _ _ _ _ _ _ _ (typedKey 'a') first
    ⟨Turn.tracked ⟨by decide, rfl⟩ (not_saves_of_mode (by decide)) [],
      fun inserts => absurd inserts.2.1 (by decide)⟩
  exact ⟨_, run, rfl, rfl, quit_loses_nothing _ _ _ _ _ _ run⟩

/-- `O` adds a row, and `q` leaves without a word. -/
theorem quit_loses_opened_row : ∃ t after,
    Run TrackedTurn (trackedStart blankEditor [] blankState none)
      [typedKey 'O', ⟨[escapeKey], constantMemory 0⟩, typedKey ':', typedKey 'q'] t ∧
      TrackedTurn t ⟨[enterKey], constantMemory 0⟩ after ∧ Enters t.s [enterKey] "q" ∧
      after.s.E.dirty = -9999 ∧ after.s.E.rows ≠ after.reference := by
  have opened : Turn (editorStart blankEditor [] blankState none) (typedKey 'O') _ := ⟨by decide, rfl⟩
  have first := Run.single (opened.tracked (not_saves_of_mode (by decide)) [])
  have escaped := @Run.snoc _ _ _ _ _ _ _ ⟨[escapeKey], constantMemory 0⟩ first
    (Turn.tracked ⟨by decide, rfl⟩ (not_saves_of_mode (by decide)) [])
  have colon := @Run.snoc _ _ _ _ _ _ _ (typedKey ':') escaped
    (Turn.tracked ⟨by decide, rfl⟩ (not_saves_of_mode (by decide)) [])
  have command := @Run.snoc _ _ _ _ _ _ _ (typedKey 'q') colon
    (Turn.tracked ⟨by decide, rfl⟩ (not_saves_of_key (by decide)) [])
  refine ⟨_, _, command, Turn.tracked ⟨by decide, rfl⟩ (Enters.not_saves ⟨rfl, rfl, by decide⟩) [],
    ⟨rfl, rfl, by decide⟩, rfl, by decide⟩

end ShedKernel.Editor
