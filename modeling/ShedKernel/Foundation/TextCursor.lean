import Mathlib.Data.List.Basic

/-! Editing at a place of a list, a flat text with an insertion point, and a text in
lines that is cut open at a cursor. -/

set_option autoImplicit false

namespace ShedKernel.Foundation

variable {Item : Type}

/-! The three places of a list edit. -/

section Edits

variable (front back : List Item) (value other : Item)

theorem insertIdx_append : (front ++ back).insertIdx front.length value = front ++ value :: back := by
  induction front with
  | nil => rfl
  | cons first rest ih => simp [ih]

theorem eraseIdx_append : (front ++ value :: back).eraseIdx front.length = front ++ back := by
  simp [List.eraseIdx_append_of_length_le]

theorem set_append : (front ++ value :: back).set front.length other = front ++ other :: back := by
  simp

theorem getElem?_append : (front ++ value :: back)[front.length]? = some value := by
  simp

theorem exists_cut {items : List Item} {place : Nat} (inside : place ≤ items.length) :
    ∃ front back, items = front ++ back ∧ front.length = place :=
  ⟨items.take place, items.drop place, (List.take_append_drop place items).symm,
    List.length_take_of_le inside⟩

theorem exists_middle {items : List Item} {place : Nat} (inside : place < items.length) :
    ∃ front item back, items = front ++ item :: back ∧ front.length = place :=
  ⟨items.take place, items[place], items.drop (place + 1), by simp,
    List.length_take_of_le (Nat.le_of_lt inside)⟩

end Edits

/-- A text and the offset of its insertion point. -/
structure FlatText (Item : Type) where
  text : List Item
  offset : Nat

namespace FlatText

def insert (flat : FlatText Item) (item : Item) : FlatText Item :=
  ⟨flat.text.insertIdx flat.offset item, flat.offset + 1⟩

def backspace (flat : FlatText Item) : FlatText Item :=
  if flat.offset = 0 then flat else ⟨flat.text.eraseIdx (flat.offset - 1), flat.offset - 1⟩

/-- The insertion point between two pieces. -/
def between (before after : List Item) : FlatText Item := ⟨before ++ after, before.length⟩

variable (before after : List Item) (item : Item)

theorem insert_between : (between before after).insert item = between (before ++ [item]) after := by
  simp [insert, between, insertIdx_append]

theorem backspace_between : (between (before ++ [item]) after).backspace = between before after := by
  simp [backspace, between, eraseIdx_append]

end FlatText

/-- Lines cut open at a cursor: the lines above, the cursor's line in two pieces, and the
lines below. -/
structure LineSplit (Item : Type) where
  above : List (List Item)
  left : List Item
  right : List Item
  below : List (List Item)

namespace LineSplit

def lines (split : LineSplit Item) : List (List Item) :=
  split.above ++ (split.left ++ split.right) :: split.below

def before (newline : Item) (split : LineSplit Item) : List Item :=
  (split.above.map (· ++ [newline])).flatten ++ split.left

def after (newline : Item) (split : LineSplit Item) : List Item :=
  split.right ++ (split.below.map (newline :: ·)).flatten

def flat (newline : Item) (split : LineSplit Item) : FlatText Item :=
  .between (split.before newline) (split.after newline)

def insert (split : LineSplit Item) (item : Item) : LineSplit Item :=
  { split with left := split.left ++ [item] }

def breakLine (split : LineSplit Item) : LineSplit Item :=
  { split with above := split.above ++ [split.left], left := [] }

/-- Remove the item in front of the cursor, or join its line to the one above. -/
def backspace (split : LineSplit Item) : LineSplit Item :=
  if split.left ≠ [] then { split with left := split.left.dropLast }
  else
    match split.above.getLast? with
    | none => split
    | some last => { split with above := split.above.dropLast, left := last }

variable (newline item : Item) (split : LineSplit Item)

theorem lines_cut {lines : List (List Item)} {row column : Nat} (inside : row < lines.length) :
    lines = LineSplit.lines ⟨lines.take row, lines[row].take column, lines[row].drop column,
      lines.drop (row + 1)⟩ := by
  simp [LineSplit.lines]

theorem intercalate_lines :
    [newline].intercalate split.lines = split.before newline ++ split.after newline := by
  obtain ⟨above, left, right, below⟩ := split
  simp only [lines, before, after]
  induction above with
  | cons first rest ih =>
    have more : rest ++ (left ++ right) :: below ≠ [] := by simp
    rw [List.cons_append, List.intercalate_cons_of_ne_nil more, ih]
    simp
  | nil =>
    simp only [List.nil_append, List.map_nil, List.flatten_nil]
    induction below generalizing left right with
    | nil => simp
    | cons next rest ih =>
      have rest := ih next []
      simp only [List.append_nil, List.nil_append] at rest
      simp [List.intercalate_cons_cons, rest]

theorem flat_insert : (split.insert item).flat newline = (split.flat newline).insert item := by
  unfold flat
  rw [FlatText.insert_between]
  simp [insert, before, after]

theorem flat_breakLine : split.breakLine.flat newline = (split.flat newline).insert newline := by
  unfold flat
  rw [FlatText.insert_between]
  simp [breakLine, before, after]

theorem backspace_inLine (above below : List (List Item)) (rest right : List Item) :
    (⟨above, rest ++ [item], right, below⟩ : LineSplit Item).backspace =
      ⟨above, rest, right, below⟩ := by
  simp [backspace]

theorem backspace_joins (above below : List (List Item)) (line right : List Item) :
    (⟨above ++ [line], [], right, below⟩ : LineSplit Item).backspace =
      ⟨above, line, right, below⟩ := by
  simp [backspace]

theorem flat_backspace : split.backspace.flat newline = (split.flat newline).backspace := by
  obtain ⟨above, left, right, below⟩ := split
  cases List.eq_nil_or_concat' left with
  | inr inside =>
    obtain ⟨rest, last, rfl⟩ := inside
    have cut : before newline ⟨above, rest ++ [last], right, below⟩ =
        before newline ⟨above, rest, right, below⟩ ++ [last] := by
      simp [before]
    rw [backspace_inLine]
    simp only [flat, cut]
    exact (FlatText.backspace_between _ _ last).symm
  | inl start =>
    subst start
    cases List.eq_nil_or_concat' above with
    | inl first =>
      subst first
      rfl
    | inr later =>
      obtain ⟨rest, last, rfl⟩ := later
      have cut : before newline ⟨rest ++ [last], [], right, below⟩ =
          before newline ⟨rest, last, right, below⟩ ++ [newline] := by
        simp [before]
      rw [backspace_joins]
      simp only [flat, cut]
      exact (FlatText.backspace_between _ _ newline).symm

end LineSplit

end ShedKernel.Foundation
