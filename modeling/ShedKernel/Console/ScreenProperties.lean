import ShedKernel.Console.Format
import ShedKernel.Foundation.Run

/-! Where the console writes. Nothing bounds `current_loc`: a call stays on the screen
exactly when each of its characters still finds a cell there. -/

set_option autoImplicit false

namespace ShedKernel.Console

open Foundation

/-- A cell that the editor may name. -/
structure Cell where
  row : Int
  col : Int
  inside : 0 ≤ row ∧ row < lines ∧ 0 ≤ col ∧ col < columnsInLine

inductive ConsoleCall where
  | kprint (str : CString)
  | kprintNewline
  | kprintf (format : List UInt8) (args : List VarArg)
  | clearScreen
  | backspace
  | setCursor (cell : Cell)
  | writeChar (cell : Cell) (c attr : UInt8)
  | clearToEol (cell : Cell)

namespace ConsoleCall

def run (console : TextScreen) : ConsoleCall → Option TextScreen
  | kprint str => some (Console.kprint console str)
  | kprintNewline => some (Console.kprintNewline console)
  | kprintf format args => Console.kprintf console format args
  | clearScreen => some (Console.clearScreen console)
  | backspace => some (syscallBackspace console)
  | setCursor cell => some (kvgaSetCursor console cell.row cell.col)
  | writeChar cell c attr => some (kvgaWriteChar console cell.row cell.col c attr)
  | clearToEol cell => some (kvgaClearToEol console cell.row cell.col)

end ConsoleCall

/-- The offset and the parity that a store must have. -/
def Output.OnScreen : Output → Prop
  | .character offset _ => offset < screenSize ∧ offset % 2 = 0
  | .attribute offset _ => offset < screenSize ∧ offset % 2 = 1
  | .newline => True

def OnScreen (console : TextScreen) : Prop := ∀ store ∈ console.output, store.OnScreen

/-- `current_loc` is the offset of a character. -/
def AtCell (console : TextScreen) : Prop :=
  console.currentLoc % 2 = 0 ∧ console.currentLoc < 4294967296

/-- From `loc` on, every character finds a cell. -/
def Finds : Nat → List Emit → Prop
  | _, [] => True
  | loc, .put _ :: emits => loc < screenSize ∧ Finds (add32 loc 2) emits
  | loc, .newline :: emits => Finds (add32 loc (lineSize - loc % lineSize)) emits

instance decidableFinds : (loc : Nat) → (emits : List Emit) → Decidable (Finds loc emits)
  | _, [] => inferInstanceAs (Decidable True)
  | loc, .put _ :: emits =>
      have := decidableFinds (add32 loc 2) emits
      inferInstanceAs (Decidable (_ ∧ _))
  | loc, .newline :: emits => decidableFinds (add32 loc (lineSize - loc % lineSize)) emits

/-- The call leaves no character without a cell. -/
def ConsoleCall.Fits (loc : Nat) : ConsoleCall → Prop
  | kprint str => Finds loc (puts str.bytes)
  | kprintf format args => ∀ emits ∈ kprintfEmits format args, Finds loc emits
  | backspace => loc ≤ screenSize
  | _ => True

variable {console : TextScreen}

/-! Single stores. -/

private theorem onScreen_character (offset : Nat) (value : UInt8) :
    OnScreen (console.storeCharacter offset value) ↔
      OnScreen console ∧ offset < screenSize ∧ offset % 2 = 0 := by
  simp [OnScreen, TextScreen.storeCharacter, Output.OnScreen, or_imp, forall_and]

private theorem onScreen_attribute (offset : Nat) (value : UInt8) :
    OnScreen (console.storeAttribute offset value) ↔
      OnScreen console ∧ offset < screenSize ∧ offset % 2 = 1 := by
  simp [OnScreen, TextScreen.storeAttribute, Output.OnScreen, or_imp, forall_and]

/-- A character and its attribute share a cell. -/
theorem onScreen_cell {offset : Nat} (even : offset % 2 = 0) (value attr : UInt8) :
    OnScreen ((console.storeCharacter offset value).storeAttribute (offset + 1) attr) ↔
      OnScreen console ∧ offset < screenSize := by
  rw [onScreen_attribute, onScreen_character]
  have half : screenSize % 2 = 0 := rfl
  constructor
  · intro ⟨⟨kept, low, _⟩, _⟩
    exact ⟨kept, low⟩
  · intro ⟨kept, low⟩
    exact ⟨⟨kept, low, even⟩, by omega, by omega⟩

private theorem AtCell.add32_one (atCell : AtCell console) :
    add32 console.currentLoc 1 = console.currentLoc + 1 := by
  have even := atCell.1
  have small := atCell.2
  exact add32_of_lt (by omega)

/-! Characters and new lines. -/

private theorem put_currentLoc (atCell : AtCell console) (c : UInt8) :
    (put console c).currentLoc = add32 console.currentLoc 2 := by
  have next := atCell.add32_one
  simp only [put, TextScreen.storeCharacter, TextScreen.storeAttribute, next]
  rfl

private theorem put_onScreen_iff (atCell : AtCell console) (c : UInt8) :
    OnScreen (put console c) ↔ OnScreen console ∧ console.currentLoc < screenSize := by
  have next := atCell.add32_one
  rw [← onScreen_cell atCell.1 c lightGrey]
  simp only [put, OnScreen, TextScreen.storeCharacter, TextScreen.storeAttribute, next]

private theorem put_atCell (atCell : AtCell console) (c : UInt8) : AtCell (put console c) := by
  have even := atCell.1
  refine ⟨?_, ?_⟩ <;> rw [put_currentLoc atCell]
  · unfold add32
    omega
  · exact add32_lt _ _

private theorem kprintNewline_onScreen_iff : OnScreen (kprintNewline console) ↔ OnScreen console := by
  simp [OnScreen, kprintNewline, Output.OnScreen, or_imp, forall_and]

private theorem kprintNewline_atCell (atCell : AtCell console) : AtCell (kprintNewline console) := by
  have even := atCell.1
  have width : lineSize = 160 := rfl
  refine ⟨?_, add32_lt _ _⟩
  simp only [kprintNewline, width, add32]
  omega

private theorem emit_atCell (atCell : AtCell console) (step : Emit) : AtCell (emit console step) := by
  cases step with
  | put c => exact put_atCell atCell c
  | newline => exact kprintNewline_atCell atCell

private theorem emits_atCell (atCell : AtCell console) (emits : List Emit) :
    AtCell (emits.foldl emit console) := by
  induction emits generalizing console with
  | nil => exact atCell
  | cons step emits ih => exact ih (emit_atCell atCell step)

private theorem emits_onScreen_iff (atCell : AtCell console) (emits : List Emit) :
    OnScreen (emits.foldl emit console) ↔ OnScreen console ∧ Finds console.currentLoc emits := by
  induction emits generalizing console with
  | nil => simp [Finds]
  | cons step emits ih =>
      have rest := ih (emit_atCell atCell step)
      rw [List.foldl_cons, rest]
      cases step with
      | put c =>
          simp only [emit, Finds, put_onScreen_iff atCell, put_currentLoc atCell]
          exact and_assoc
      | newline =>
          simp only [emit, Finds, kprintNewline_onScreen_iff]
          rfl

private theorem kprint_eq_emits (str : CString) : kprint console str = (puts str.bytes).foldl emit console := by
  simp only [kprint, puts, List.foldl_map]
  rfl

/-! Loops that blank cells. -/

private theorem blankCells_currentLoc (console : TextScreen) (loc turns : Nat) :
    (blankCells console loc turns).currentLoc = console.currentLoc := by
  induction turns generalizing console loc with
  | zero => rfl
  | succ turns ih =>
      unfold blankCells
      rw [ih]
      rfl

private theorem blankCells_onScreen {loc turns : Nat} (even : loc % 2 = 0)
    (inside : loc + 2 * turns ≤ screenSize) (kept : OnScreen console) :
    OnScreen (blankCells console loc turns) := by
  induction turns generalizing console loc with
  | zero => exact kept
  | succ turns ih =>
      refine ih (by omega) (by omega) ?_
      exact (onScreen_cell even space lightGrey).mpr ⟨kept, by omega⟩

/-- Moving `current_loc` stores nothing. -/
theorem onScreen_move (kept : OnScreen console) (loc : Nat) :
    OnScreen { console with currentLoc := loc } := kept

private theorem clearScreen_onScreen (kept : OnScreen console) : OnScreen (clearScreen console) := by
  have whole : 0 + 2 * (screenSize / 2) ≤ screenSize := by decide
  exact onScreen_move (blankCells_onScreen rfl whole kept) 0

private theorem clearScreen_currentLoc (console : TextScreen) : (clearScreen console).currentLoc = 0 := by
  simp only [clearScreen]

private theorem clearScreen_atCell (console : TextScreen) : AtCell (clearScreen console) := by
  rw [AtCell, clearScreen_currentLoc]
  decide

/-! Cells of the editor. -/

theorem cellOffset_eq (row col : Int) (inside : 0 ≤ row ∧ row < 25 ∧ 0 ≤ col ∧ col ≤ 80) :
    (cellOffset row col : Int) = (row * 80 + col) * 2 := by
  have low : 0 ≤ (row * 80 + col) * 2 := by omega
  have high : (row * 80 + col) * 2 < 4294967296 := by omega
  have offset : (row * (columnsInLine : Nat) + col) * (bytesForEachElement : Nat) =
      (row * 80 + col) * 2 := rfl
  rw [cellOffset, offset, Int.emod_eq_of_lt low high, Int.toNat_of_nonneg low]

private theorem cellOffset_cell (cell : Cell) :
    cellOffset cell.row cell.col % 2 = 0 ∧ cellOffset cell.row cell.col + 2 ≤ screenSize ∧
      cellOffset cell.row cell.col ≤ cellOffset cell.row columnsInLine ∧
      cellOffset cell.row columnsInLine ≤ screenSize := by
  have inside := cell.inside
  have width : (columnsInLine : Int) = 80 := rfl
  have height : (lines : Int) = 25 := rfl
  have size : screenSize = 4000 := rfl
  rw [width, height] at inside
  rw [width]
  have here := cellOffset_eq cell.row cell.col (by omega)
  have stop := cellOffset_eq cell.row 80 (by omega)
  omega

private theorem kvgaSetCursor_atCell (cell : Cell) : AtCell (kvgaSetCursor console cell.row cell.col) := by
  have offset := cellOffset_cell cell
  have size : screenSize = 4000 := rfl
  exact ⟨offset.1, by simp only [kvgaSetCursor]; omega⟩

private theorem kvgaWriteChar_onScreen (cell : Cell) (c attr : UInt8) (kept : OnScreen console) :
    OnScreen (kvgaWriteChar console cell.row cell.col c attr) := by
  have offset := cellOffset_cell cell
  have size : screenSize = 4000 := rfl
  unfold kvgaWriteChar
  simp only
  rw [add32_of_lt (by omega), onScreen_cell offset.1]
  exact ⟨kept, by omega⟩

private theorem kvgaClearToEol_onScreen (cell : Cell) (kept : OnScreen console) :
    OnScreen (kvgaClearToEol console cell.row cell.col) := by
  have offset := cellOffset_cell cell
  exact blankCells_onScreen offset.1 (by omega) kept

/-! The backspace. -/

private theorem syscallBackspace_atCell (atCell : AtCell console) : AtCell (syscallBackspace console) := by
  have even := atCell.1
  have small := atCell.2
  unfold syscallBackspace
  split
  · refine ⟨?_, ?_⟩ <;> simp only [TextScreen.storeCharacter, TextScreen.storeAttribute] <;> omega
  · exact atCell

private theorem syscallBackspace_onScreen_iff (atCell : AtCell console) :
    OnScreen (syscallBackspace console) ↔ OnScreen console ∧ console.currentLoc ≤ screenSize := by
  have even := atCell.1
  have small := atCell.2
  have size : screenSize = 4000 := rfl
  unfold syscallBackspace
  split
  · have shorter : OnScreen { console with currentLoc := console.currentLoc - 2 } ↔
        OnScreen console := Iff.rfl
    simp only [TextScreen.storeCharacter] at *
    have next : add32 (console.currentLoc - 2) 1 = console.currentLoc - 2 + 1 := add32_of_lt (by omega)
    have back : (console.currentLoc - 2) % 2 = 0 := by omega
    have cell := @onScreen_cell { console with currentLoc := console.currentLoc - 2 } _ back space
      lightGrey
    simp only [TextScreen.storeCharacter, shorter] at cell
    rw [next, cell]
    constructor
    · intro ⟨kept, low⟩
      exact ⟨kept, by omega⟩
    · intro ⟨kept, low⟩
      exact ⟨kept, by omega⟩
  · constructor
    · intro kept
      exact ⟨kept, by omega⟩
    · intro kept
      exact kept.1

/-! One call. -/

private theorem ConsoleCall.run_atCell {call : ConsoleCall} {next : TextScreen} (atCell : AtCell console)
    (ran : call.run console = some next) : AtCell next := by
  cases call with
  | kprint str =>
      cases ran
      rw [kprint_eq_emits]
      exact emits_atCell atCell _
  | kprintNewline =>
      cases ran
      exact kprintNewline_atCell atCell
  | kprintf format args =>
      obtain ⟨emits, _, rfl⟩ := Option.map_eq_some_iff.mp ran
      exact emits_atCell atCell emits
  | clearScreen =>
      obtain rfl := Option.some.inj ran
      exact clearScreen_atCell console
  | backspace =>
      cases ran
      exact syscallBackspace_atCell atCell
  | setCursor cell =>
      cases ran
      exact kvgaSetCursor_atCell cell
  | writeChar cell c attr =>
      cases ran
      exact atCell
  | clearToEol cell =>
      cases ran
      simp only [AtCell, kvgaClearToEol, blankCells_currentLoc]
      exact atCell

/-- A call keeps to the screen exactly when each of its characters finds a cell. -/
theorem ConsoleCall.run_onScreen_iff {call : ConsoleCall} {next : TextScreen} (atCell : AtCell console)
    (kept : OnScreen console) (ran : call.run console = some next) :
    OnScreen next ↔ call.Fits console.currentLoc := by
  cases call with
  | kprint str =>
      cases ran
      rw [kprint_eq_emits, emits_onScreen_iff atCell]
      exact and_iff_right kept
  | kprintNewline =>
      cases ran
      exact iff_of_true (kprintNewline_onScreen_iff.mpr kept) trivial
  | kprintf format args =>
      obtain ⟨emits, emitted, rfl⟩ := Option.map_eq_some_iff.mp ran
      rw [emits_onScreen_iff atCell]
      simp [ConsoleCall.Fits, emitted, kept]
  | clearScreen =>
      obtain rfl := Option.some.inj ran
      exact iff_of_true (clearScreen_onScreen kept) trivial
  | backspace =>
      cases ran
      rw [syscallBackspace_onScreen_iff atCell]
      exact and_iff_right kept
  | setCursor cell =>
      cases ran
      exact iff_of_true kept trivial
  | writeChar cell c attr =>
      cases ran
      exact iff_of_true (kvgaWriteChar_onScreen cell c attr kept) trivial
  | clearToEol cell =>
      cases ran
      exact iff_of_true (kvgaClearToEol_onScreen cell kept) trivial

/-! Runs. -/

/-- The console after the first `clear_screen`. -/
def clearedScreen (video : Memory) (currentLoc : Nat) : TextScreen :=
  clearScreen ⟨video, currentLoc, []⟩

def ConsoleStep (console : TextScreen) (call : ConsoleCall) (next : TextScreen) : Prop :=
  call.run console = some next

def FittingStep (console : TextScreen) (call : ConsoleCall) (next : TextScreen) : Prop :=
  ConsoleStep console call next ∧ call.Fits console.currentLoc

private theorem fittingRun_onScreen {video : Memory} {currentLoc : Nat} {calls : List ConsoleCall}
    (run : Run FittingStep (clearedScreen video currentLoc) calls console) :
    AtCell console ∧ OnScreen console := by
  apply run.invariant
  · exact ⟨clearScreen_atCell _, clearScreen_onScreen (fun _ member => nomatch member)⟩
  · intro current call next held step
    have atCell := call.run_atCell held.1 step.1
    have kept := (call.run_onScreen_iff held.1 held.2 step.1).mpr step.2
    exact ⟨atCell, kept⟩

/-- While every character finds a cell, all stores are on the screen, and the first call
with a character that finds none leaves it. -/
theorem console_stays_on_screen (video : Memory) (currentLoc : Nat) (calls : List ConsoleCall)
    (console : TextScreen) (run : Run FittingStep (clearedScreen video currentLoc) calls console) :
    OnScreen console ∧ ∀ call next, ConsoleStep console call next →
      (OnScreen next ↔ call.Fits console.currentLoc) := by
  obtain ⟨atCell, kept⟩ := fittingRun_onScreen run
  exact ⟨kept, fun call next step => call.run_onScreen_iff atCell kept step⟩

theorem console_stays_on_screen_kprint : ∃ console,
    Run FittingStep (clearedScreen (fun _ => 0) 0) [.kprint ⟨[byteOf 'a'], by decide⟩] console ∧
      OnScreen console ∧ ∀ call next, ConsoleStep console call next →
        (OnScreen next ↔ call.Fits console.currentLoc) := by
  have fits : (ConsoleCall.kprint ⟨[byteOf 'a'], by decide⟩).Fits
      (clearedScreen (fun _ => 0) 0).currentLoc := by
    rw [clearedScreen, clearScreen_currentLoc]
    exact ⟨by decide, trivial⟩
  have run : Run FittingStep (clearedScreen (fun _ => 0) 0) [.kprint _] _ := .single ⟨rfl, fits⟩
  exact ⟨_, run, console_stays_on_screen _ _ _ _ run⟩

/-- 25 new lines and a letter: the letter is stored behind the last line. -/
theorem console_leaves_screen : ∃ console,
    Run ConsoleStep (clearedScreen (fun _ => 0) 0)
      [.kprintf (List.replicate 25 newlineByte ++ [byteOf 'a']) []] console ∧
      ¬OnScreen console := by
  let emits : List Emit := List.replicate 25 .newline ++ [.put (byteOf 'a')]
  have emitted : kprintfEmits (List.replicate 25 newlineByte ++ [byteOf 'a']) [] = some emits := by
    decide
  have ran : ConsoleStep (clearedScreen (fun _ => 0) 0)
      (.kprintf (List.replicate 25 newlineByte ++ [byteOf 'a']) [])
      (emits.foldl emit (clearedScreen (fun _ => 0) 0)) := by
    rw [ConsoleStep, ConsoleCall.run, kprintf, emitted]
    rfl
  refine ⟨_, .single ran, ?_⟩
  have unstarted : Run FittingStep (clearedScreen (fun _ => 0) 0) [] _ := .nil
  have started := fittingRun_onScreen unstarted
  rw [emits_onScreen_iff started.1, clearedScreen, clearScreen_currentLoc]
  intro stays
  exact absurd stays.2 (by decide)

end ShedKernel.Console
