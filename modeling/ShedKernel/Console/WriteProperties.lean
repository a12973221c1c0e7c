import ShedKernel.Console.CellProperties
import ShedKernel.Console.FormatProperties
import ShedKernel.Console.ScreenProperties

/-! What a call writes on the screen: the text that it shows from an offset on, the bytes that
its stores keep to, and the bytes that it leaves as they are. -/

set_option autoImplicit false

namespace ShedKernel.Console

open Foundation

/-- A store between two offsets, of a character or an attribute where one belongs. -/
def Output.Within (low high : Nat) : Output → Prop
  | .character offset _ => low ≤ offset ∧ offset < high ∧ offset % 2 = 0
  | .attribute offset _ => low ≤ offset ∧ offset < high ∧ offset % 2 = 1
  | .newline => True

/-- The new stores all satisfy a predicate. -/
def StoresOnly (holds : Output → Prop) (before after : TextScreen) : Prop :=
  ∃ stores, after.output = before.output ++ stores ∧ ∀ store ∈ stores, holds store

/-- Some new store satisfies a predicate. -/
def StoresSome (holds : Output → Prop) (before after : TextScreen) : Prop :=
  ∃ stores, after.output = before.output ++ stores ∧ ∃ store ∈ stores, holds store

variable {before middle after : TextScreen} {holds also : Output → Prop} {low high other : Nat}

theorem Output.Within.mono {store : Output} {bottom top : Nat} (within : store.Within low high)
    (lower : bottom ≤ low) (higher : high ≤ top) : store.Within bottom top := by
  cases store with
  | newline => trivial
  | _ => exact ⟨Nat.le_trans lower within.1, Nat.lt_of_lt_of_le within.2.1 higher, within.2.2⟩

namespace StoresOnly

theorem refl (holds : Output → Prop) (console : TextScreen) : StoresOnly holds console console :=
  ⟨[], (List.append_nil _).symm, fun _ member => absurd member List.not_mem_nil⟩

theorem trans (first : StoresOnly holds before middle) (second : StoresOnly holds middle after) :
    StoresOnly holds before after := by
  obtain ⟨stores, output, all⟩ := first
  obtain ⟨more, outputMore, allMore⟩ := second
  refine ⟨stores ++ more, by rw [outputMore, output, List.append_assoc], fun store member => ?_⟩
  cases List.mem_append.mp member with
  | inl early => exact all store early
  | inr late => exact allMore store late

theorem mono (only : StoresOnly holds before after) (weaker : ∀ store, holds store → also store) :
    StoresOnly also before after := by
  obtain ⟨stores, output, all⟩ := only
  exact ⟨stores, output, fun store member => weaker store (all store member)⟩

theorem any (only : StoresOnly holds before after) : StoresOnly (fun _ => True) before after :=
  only.mono fun _ _ => trivial

theorem meets (only : StoresOnly holds before after) (some : StoresSome also before after) :
    ∃ store, holds store ∧ also store := by
  obtain ⟨stores, output, all⟩ := only
  obtain ⟨others, outputAlso, store, member, found⟩ := some
  cases List.append_cancel_left (output.symm.trans outputAlso)
  exact ⟨store, all store member, found⟩

end StoresOnly

namespace StoresSome

theorem followed {later : TextScreen} (some : StoresSome holds before middle)
    (grows : StoresOnly (fun _ => True) middle later) : StoresSome holds before later := by
  obtain ⟨stores, output, store, member, found⟩ := some
  obtain ⟨more, outputMore, _⟩ := grows
  exact ⟨stores ++ more, by rw [outputMore, output, List.append_assoc], store, List.mem_append_left _ member, found⟩

private theorem preceded {earlier : TextScreen} (some : StoresSome holds middle after)
    (grows : StoresOnly (fun _ => True) earlier middle) : StoresSome holds earlier after := by
  obtain ⟨stores, output, store, member, found⟩ := some
  obtain ⟨more, outputMore, _⟩ := grows
  exact ⟨more ++ stores, by rw [output, outputMore, List.append_assoc], store, List.mem_append_right _ member, found⟩

end StoresSome

/-- Stores between two offsets, and nothing else. -/
structure Draws (low high : Nat) (before after : TextScreen) : Prop where
  stores : StoresOnly (Output.Within low high) before after
  kept : ∀ place, place < low ∨ high ≤ place → after.video place = before.video place

namespace Draws

theorem refl (low high : Nat) (console : TextScreen) : Draws low high console console :=
  ⟨.refl _ _, fun _ _ => rfl⟩

theorem mono {bottom top : Nat} (draws : Draws low high before after) (lower : bottom ≤ low) (higher : high ≤ top) :
    Draws bottom top before after :=
  ⟨draws.stores.mono fun _ within => within.mono lower higher, fun place outside => draws.kept place (by omega)⟩

theorem trans (first : Draws low high before middle) (second : Draws low high middle after) :
    Draws low high before after :=
  ⟨first.stores.trans second.stores, fun place outside => (second.kept place outside).trans (first.kept place outside)⟩

theorem shows {offset : Nat} {c : UInt8} (draws : Draws low high before after)
    (shown : ShowsAt before.video offset c) (apart : offset + 2 ≤ low ∨ high ≤ offset) :
    ShowsAt after.video offset c :=
  shown.congr (draws.kept _ (by omega)) (draws.kept _ (by omega))

end Draws

/-- The text is shown from an offset on, and nothing else is stored. -/
structure Writes (offset : Nat) (text : List UInt8) (before after : TextScreen) : Prop where
  draws : Draws offset (offset + 2 * text.length) before after
  shows : ∀ index, index < text.length → ShowsAt after.video (offset + 2 * index) (text.getD index space)

namespace Writes

variable {offset : Nat} {text more : List UInt8}

theorem nil (offset : Nat) (console : TextScreen) : Writes offset [] console console :=
  ⟨.refl _ _ _, fun _ inside => absurd inside (Nat.not_lt_zero _)⟩

theorem append (first : Writes offset text before middle)
    (second : Writes (offset + 2 * text.length) more middle after) : Writes offset (text ++ more) before after := by
  have length := @List.length_append _ text more
  refine ⟨(first.draws.mono (Nat.le_refl _) (by omega)).trans (second.draws.mono (by omega) (by omega)),
    fun index inside => ?_⟩
  by_cases early : index < text.length
  · rw [List.getD_append _ _ _ _ early]
    exact second.draws.shows (first.shows index early) (by omega)
  · rw [List.getD_append_right _ _ _ _ (by omega)]
    have shown := second.shows (index - text.length) (by omega)
    rwa [show offset + 2 * text.length + 2 * (index - text.length) = offset + 2 * index by omega] at shown

/-- Moving the cursor before or after. -/
theorem congr {start stop : TextScreen} (writes : Writes offset text before after)
    (sameOutput : start.output = before.output) (sameVideo : start.video = before.video)
    (outputAfter : stop.output = after.output) (videoAfter : stop.video = after.video) :
    Writes offset text start stop := by
  obtain ⟨⟨⟨stores, output, within⟩, kept⟩, shows⟩ := writes
  refine ⟨⟨⟨stores, by rw [outputAfter, output, sameOutput], within⟩, fun place outside => ?_⟩, fun index inside => ?_⟩
  · rw [videoAfter, sameVideo]
    exact kept place outside
  · rw [videoAfter]
    exact shows index inside

end Writes

/-! One cell. -/

section

variable {console : TextScreen} {offset : Nat}

private theorem cell_draws (even : offset % 2 = 0) (c attr : UInt8) :
    Draws offset (offset + 2) console ((console.storeCharacter offset c).storeAttribute (offset + 1) attr) := by
  refine ⟨⟨[.character offset c, .attribute (offset + 1) attr], ?_, ?_⟩, fun place outside => ?_⟩
  · exact List.append_assoc ..
  · simp only [List.mem_cons, List.not_mem_nil, or_false]
    rintro store (rfl | rfl)
    · exact ⟨Nat.le_refl _, by omega, even⟩
    · exact ⟨Nat.le_succ _, Nat.lt_succ_self _, by omega⟩
  · exact (Memory.storeByte_of_ne (by omega)).trans (Memory.storeByte_of_ne (by omega))

private theorem cell_writes (even : offset % 2 = 0) (c : UInt8) :
    Writes offset [c] console ((console.storeCharacter offset c).storeAttribute (offset + 1) lightGrey) := by
  refine ⟨cell_draws even c lightGrey, fun index inside => ?_⟩
  obtain rfl : index = 0 := Nat.lt_one_iff.mp inside
  exact storeCell_shows ..

end

/-! Characters in a row. -/

section

variable {console : TextScreen} {text : List UInt8}

private theorem put_writes
    (even : console.currentLoc % 2 = 0) (room : console.currentLoc + 2 < 4294967296) (c : UInt8) :
    Writes console.currentLoc [c] console (put console c) := by
  have next : add32 console.currentLoc 1 = console.currentLoc + 1 := add32_of_lt (by omega)
  refine (cell_writes even c).congr rfl rfl ?_ ?_ <;>
    simp only [put, TextScreen.storeCharacter, TextScreen.storeAttribute, next]

/-- The text from the cursor on. -/
theorem puts_writes (even : console.currentLoc % 2 = 0) (room : console.currentLoc + 2 * text.length < 4294967296) :
    Writes console.currentLoc text console ((puts text).foldl emit console) ∧
      ((puts text).foldl emit console).currentLoc = console.currentLoc + 2 * text.length := by
  induction text generalizing console with
  | nil => exact ⟨.nil _ _, rfl⟩
  | cons c text ih =>
      rw [List.length_cons] at room ⊢
      have moved := (put_of_lt (show console.currentLoc + 2 < 4294967296 by omega) c).1
      obtain ⟨writes, loc⟩ := @ih (put console c) (by omega) (by omega)
      have first := put_writes even (by omega) c
      rw [moved] at writes loc
      refine ⟨first.append writes, ?_⟩
      show ((puts text).foldl emit (put console c)).currentLoc = _
      rw [loc]
      omega

private theorem emits_grow (emits : List Emit) : StoresOnly (fun _ => True) console (emits.foldl emit console) := by
  obtain ⟨stores, output, _⟩ := emits_text console emits
  exact ⟨stores, output, fun _ _ => trivial⟩

/-- Every character of a text is stored, also one beyond the screen. -/
theorem puts_stores {index : Nat} (inside : index < text.length)
    (room : console.currentLoc + 2 * index + 2 < 4294967296) :
    StoresSome (fun store => ∃ c, store = .character (console.currentLoc + 2 * index) c) console
      ((puts text).foldl emit console) := by
  induction text generalizing console index with
  | nil => cases inside
  | cons c text ih =>
      cases index with
      | zero =>
          refine StoresSome.followed ?_ (emits_grow (puts text))
          refine ⟨[.character console.currentLoc c, .attribute (add32 console.currentLoc 1) lightGrey], ?_, _,
            List.mem_cons_self, c, rfl⟩
          simp [emit, put, TextScreen.storeCharacter, TextScreen.storeAttribute]
      | succ index =>
          have moved := (put_of_lt (show console.currentLoc + 2 < 4294967296 by omega) c).1
          have later := @ih (put console c) index (Nat.lt_of_succ_lt_succ inside) (by omega)
          rw [moved, show console.currentLoc + 2 + 2 * index = console.currentLoc + 2 * (index + 1) by omega] at later
          exact later.preceded (emits_grow [.put c])

end

/-! Blanks. -/

private theorem blankCells_writes (console : TextScreen) {offset : Nat} (even : offset % 2 = 0) (count : Nat) :
    Writes offset (List.replicate count space) console (blankCells console offset count) := by
  induction count generalizing console offset with
  | zero => exact .nil _ _
  | succ count ih =>
      have first := @cell_writes console offset even space
      exact first.append (ih _ (by omega))

/-! Rows and columns. -/

section

variable {console : TextScreen} {y x : Nat} {text : List UInt8}

theorem cellOffset_of_lt (row : y < 25) (col : x ≤ 80) : cellOffset y x = 160 * y + 2 * x := by
  have offset := cellOffset_eq y x (by omega)
  omega

/-- A text that ends in its row stays in it. -/
theorem Writes.inRow {after : TextScreen} (writes : Writes (160 * y + 2 * x) text console after)
    (fits : x + text.length ≤ 80) : Draws (160 * y) (160 * y + 160) console after :=
  writes.draws.mono (by omega) (by omega)

private theorem kvgaWriteChar_of_lt (row : y < 25) (col : x < 80) (c attr : UInt8) :
    kvgaWriteChar console y x c attr =
      (console.storeCharacter (160 * y + 2 * x) c).storeAttribute (160 * y + 2 * x + 1) attr := by
  have next : add32 (160 * y + 2 * x) 1 = 160 * y + 2 * x + 1 := add32_of_lt (by omega)
  rw [kvgaWriteChar, cellOffset_of_lt row (Nat.le_of_lt col), next]

theorem kvgaWriteChar_draws (row : y < 25) (col : x < 80) (c attr : UInt8) :
    Draws (160 * y + 2 * x) (160 * y + 2 * x + 2) console (kvgaWriteChar console y x c attr) := by
  rw [kvgaWriteChar_of_lt row col]
  exact cell_draws (by omega) c attr

theorem kvgaWriteChar_writes (row : y < 25) (col : x < 80) (c : UInt8) :
    Writes (160 * y + 2 * x) [c] console (kvgaWriteChar console y x c lightGrey) := by
  rw [kvgaWriteChar_of_lt row col]
  exact cell_writes (by omega) c

theorem kvgaClearToEol_writes (row : y < 25) (col : x ≤ 80) :
    Writes (160 * y + 2 * x) (List.replicate (80 - x) space) console (kvgaClearToEol console y x) := by
  have width : ((columnsInLine : Nat) : Int) = ((80 : Nat) : Int) := rfl
  have turns : (160 * y + 2 * 80 - (160 * y + 2 * x)) / 2 = 80 - x := by omega
  rw [kvgaClearToEol, width, cellOffset_of_lt row col, cellOffset_of_lt row (Nat.le_refl 80), turns]
  exact blankCells_writes console (by omega) (80 - x)

/-- A text of at most a line, from a cell on. -/
theorem puts_writes_at (row : y < 25) (col : x ≤ 80) (short : text.length ≤ 80) :
    Writes (160 * y + 2 * x) text console ((puts text).foldl emit (kvgaSetCursor console y x)) := by
  have start : (kvgaSetCursor console y x).currentLoc = 160 * y + 2 * x := cellOffset_of_lt row col
  have written := (@puts_writes (kvgaSetCursor console y x) text (by omega) (by omega)).1
  rw [start] at written
  exact written.congr rfl rfl rfl rfl

end

end ShedKernel.Console
