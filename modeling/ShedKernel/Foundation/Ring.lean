import Mathlib.Logic.Function.Basic

/-! Circular sequences of slots: the items between a read and a write index, and how
they change when either index moves. -/

set_option autoImplicit false

namespace ShedKernel.Foundation.Ring

variable {Item : Type} {slots : Nat → Item} {capacity start stop count slot : Nat}

/-- The number of slots from `start` up to `stop`, around the end if need be. -/
def distance (capacity start stop : Nat) : Nat := (stop + capacity - start) % capacity

/-- `count` consecutive items from `start` on. -/
def items (slots : Nat → Item) (capacity start : Nat) : Nat → List Item
  | 0 => []
  | count + 1 => slots start :: items slots capacity ((start + 1) % capacity) count

@[simp] theorem length_items : (items slots capacity start count).length = count := by
  induction count generalizing start with
  | zero => rfl
  | succ count ih => simp [items, ih]

theorem next_lt (below : start < capacity) : (start + 1) % capacity < capacity :=
  Nat.mod_lt _ (Nat.zero_lt_of_lt below)

theorem next_cases (below : start < capacity) :
    start + 1 < capacity ∧ (start + 1) % capacity = start + 1 ∨
      start + 1 = capacity ∧ (start + 1) % capacity = 0 := by
  cases Nat.lt_or_ge (start + 1) capacity with
  | inl inside => exact .inl ⟨inside, Nat.mod_eq_of_lt inside⟩
  | inr ended =>
    have last : start + 1 = capacity := by omega
    exact .inr ⟨last, by rw [last, Nat.mod_self]⟩

theorem distance_cases (startBelow : start < capacity) (stopBelow : stop < capacity) :
    start ≤ stop ∧ distance capacity start stop = stop - start ∨
      stop < start ∧ distance capacity start stop = stop + capacity - start := by
  unfold distance
  cases Nat.lt_or_ge stop start with
  | inl wrapped =>
    have below : stop + capacity - start < capacity := by omega
    exact .inr ⟨wrapped, Nat.mod_eq_of_lt below⟩
  | inr ordered =>
    have past : stop + capacity - start = stop - start + capacity := by omega
    refine .inl ⟨ordered, ?_⟩
    rw [past, Nat.add_mod_right]
    exact Nat.mod_eq_of_lt (by omega)

theorem distance_eq_zero_iff (startBelow : start < capacity) (stopBelow : stop < capacity) :
    distance capacity start stop = 0 ↔ start = stop := by
  cases distance_cases startBelow stopBelow with
  | inl ordered => omega
  | inr wrapped => omega

/-- The ring is full when the write index stands right behind the read index. -/
theorem distance_eq_pred_iff (startBelow : start < capacity) (stopBelow : stop < capacity) :
    distance capacity start stop + 1 = capacity ↔ (stop + 1) % capacity = start := by
  cases next_cases stopBelow with
  | inl inside => cases distance_cases startBelow stopBelow <;> omega
  | inr last => cases distance_cases startBelow stopBelow <;> omega

theorem distance_write (startBelow : start < capacity) (stopBelow : stop < capacity)
    (room : (stop + 1) % capacity ≠ start) :
    distance capacity start ((stop + 1) % capacity) = distance capacity start stop + 1 := by
  have after := distance_cases startBelow (next_lt stopBelow)
  have before := distance_cases startBelow stopBelow
  cases next_cases stopBelow with
  | inl inside => omega
  | inr last => omega

theorem distance_read (startBelow : start < capacity) (stopBelow : stop < capacity)
    (pending : start ≠ stop) :
    distance capacity start stop = distance capacity ((start + 1) % capacity) stop + 1 := by
  have after := distance_cases (next_lt startBelow) stopBelow
  have before := distance_cases startBelow stopBelow
  cases next_cases startBelow with
  | inl inside => omega
  | inr last => omega

/-- A slot that the items do not reach may change. -/
theorem items_update (value : Item) (startBelow : start < capacity) (slotBelow : slot < capacity)
    (clear : count ≤ distance capacity start slot) :
    items (Function.update slots slot value) capacity start count = items slots capacity start count := by
  induction count generalizing start with
  | zero => rfl
  | succ count ih =>
    have different : start ≠ slot := by
      intro same
      have none := (distance_eq_zero_iff startBelow slotBelow).mpr same
      omega
    have shorter := distance_read startBelow slotBelow different
    have rest := ih (next_lt startBelow) (by omega)
    simp only [items]
    rw [Function.update_of_ne different, rest]

/-- One more item joins at the end. -/
theorem items_append (startBelow : start < capacity) (stopBelow : stop < capacity)
    (ends : distance capacity start stop = count) :
    items slots capacity start (count + 1) = items slots capacity start count ++ [slots stop] := by
  induction count generalizing start with
  | zero =>
    have same := (distance_eq_zero_iff startBelow stopBelow).mp ends
    simp [items, same]
  | succ count ih =>
    have different : start ≠ stop := by
      intro same
      have none := (distance_eq_zero_iff startBelow stopBelow).mpr same
      omega
    have shorter := distance_read startBelow stopBelow different
    have rest := ih (next_lt startBelow) (by omega)
    simp only [items] at rest ⊢
    rw [rest]
    rfl

/-- Storing at the write index and moving it appends the stored item. -/
theorem items_write (value : Item) (startBelow : start < capacity) (stopBelow : stop < capacity)
    (room : (stop + 1) % capacity ≠ start) :
    items (Function.update slots stop value) capacity start
        (distance capacity start ((stop + 1) % capacity)) =
      items slots capacity start (distance capacity start stop) ++ [value] := by
  rw [distance_write startBelow stopBelow room, items_append startBelow stopBelow rfl,
    items_update value startBelow stopBelow (Nat.le_refl _), Function.update_self]

/-- The item at the read index is the first one. -/
theorem items_read (startBelow : start < capacity) (stopBelow : stop < capacity)
    (pending : start ≠ stop) :
    items slots capacity start (distance capacity start stop) =
      slots start :: items slots capacity ((start + 1) % capacity)
        (distance capacity ((start + 1) % capacity) stop) := by
  rw [distance_read startBelow stopBelow pending]
  rfl

end ShedKernel.Foundation.Ring
