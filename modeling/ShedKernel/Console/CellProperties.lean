import ShedKernel.Console.Screen

/-! The cells of the text memory, which is taken as unbounded, after characters are put
there or taken back. -/

set_option autoImplicit false

namespace ShedKernel.Console

open Foundation

/-- The cell at an offset shows a character in light grey. -/
def ShowsAt (video : Memory) (offset : Nat) (c : UInt8) : Prop :=
  video offset = c ∧ video (offset + 1) = lightGrey

/-- A character and its attribute in a memory. -/
def storeCell (video : Memory) (offset : Nat) (c : UInt8) : Memory :=
  (video.storeByte offset c).storeByte (offset + 1) lightGrey

variable {video changed : Memory} {console : TextScreen} {offset other place : Nat} {c : UInt8}

theorem ShowsAt.congr (shows : ShowsAt video offset c) (first : changed offset = video offset)
    (second : changed (offset + 1) = video (offset + 1)) : ShowsAt changed offset c :=
  ⟨first.trans shows.1, second.trans shows.2⟩

theorem storeCell_shows (video : Memory) (offset : Nat) (c : UInt8) :
    ShowsAt (storeCell video offset c) offset c :=
  ⟨(Memory.storeByte_of_ne (by omega)).trans (Memory.storeByte_self ..), Memory.storeByte_self ..⟩

theorem storeCell_of_outside (outside : place < offset ∨ offset + 2 ≤ place) :
    storeCell video offset c place = video place :=
  (Memory.storeByte_of_ne (by omega)).trans (Memory.storeByte_of_ne (by omega))

/-- Another cell is left as it is. -/
theorem ShowsAt.storeCell {shown : UInt8} (shows : ShowsAt video other shown)
    (apart : other + 2 ≤ offset ∨ offset + 2 ≤ other) : ShowsAt (storeCell video offset c) other shown :=
  shows.congr (storeCell_of_outside (by omega)) (storeCell_of_outside (by omega))

theorem put_of_lt (room : console.currentLoc + 2 < 4294967296) (c : UInt8) :
    (put console c).currentLoc = console.currentLoc + 2 ∧
      (put console c).video = storeCell console.video console.currentLoc c := by
  have next : add32 console.currentLoc 1 = console.currentLoc + 1 := add32_of_lt (by omega)
  have after : add32 (console.currentLoc + 1) 1 = console.currentLoc + 2 := add32_of_lt (by omega)
  simp only [put, TextScreen.storeCharacter, TextScreen.storeAttribute, next, after, storeCell, and_self]

theorem syscallBackspace_of_lt (typed : 2 ≤ console.currentLoc) (fits : console.currentLoc < 4294967296) :
    (syscallBackspace console).currentLoc = console.currentLoc - 2 ∧
      (syscallBackspace console).video = storeCell console.video (console.currentLoc - 2) space := by
  have next : add32 (console.currentLoc - 2) 1 = console.currentLoc - 2 + 1 := add32_of_lt (by omega)
  simp only [syscallBackspace, if_pos typed, TextScreen.storeCharacter, TextScreen.storeAttribute, next, storeCell,
    and_self]

end ShedKernel.Console
