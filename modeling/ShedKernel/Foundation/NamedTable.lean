import Mathlib.Data.Finmap

/-! Maps from names to values that hold a bounded number of names. -/

set_option autoImplicit false

namespace ShedKernel.Foundation

structure NamedTable (Name Value : Type) [DecidableEq Name] (capacity : Nat) where
  values : Finmap fun _ : Name => Value
  bounded : values.keys.card ≤ capacity

namespace NamedTable

variable {Name Value : Type} [DecidableEq Name] {capacity : Nat} {table : NamedTable Name Value capacity}
  {name : Name} {value : Value}

def empty : NamedTable Name Value capacity := ⟨∅, by simp⟩

/-- A name can be given a value: it has one, or one more name fits. -/
def Room (table : NamedTable Name Value capacity) (name : Name) : Prop :=
  name ∈ table.values ∨ table.values.keys.card < capacity

instance : Decidable (table.Room name) := inferInstanceAs (Decidable (_ ∨ _))

theorem room_of_mem (there : name ∈ table.values) : table.Room name := .inl there

theorem keys_insert (name : Name) (value : Value) (values : Finmap fun _ : Name => Value) :
    (values.insert name value).keys = insert name values.keys := by
  ext other
  simp [Finmap.mem_keys]

def put (table : NamedTable Name Value capacity) (name : Name) (value : Value) (room : table.Room name) :
    NamedTable Name Value capacity where
  values := table.values.insert name value
  bounded := by
    rw [keys_insert]
    cases room with
    | inl there =>
        rw [Finset.insert_eq_of_mem (Finmap.mem_keys.mpr there)]
        exact table.bounded
    | inr below => exact (Finset.card_insert_le _ _).trans below

def erase (table : NamedTable Name Value capacity) (name : Name) : NamedTable Name Value capacity where
  values := table.values.erase name
  bounded := by
    rw [Finmap.keys_erase]
    exact Finset.card_erase_le.trans table.bounded

/-- A table without room for a name holds as many others as fit. -/
theorem not_room_iff : ¬table.Room name ↔ name ∉ table.values ∧ table.values.keys.card = capacity := by
  have bounded := table.bounded
  unfold Room
  rw [not_or, Nat.not_lt]
  exact and_congr_right fun _ => ⟨fun full => Nat.le_antisymm bounded full, fun full => full.ge⟩

/-- Only the last value of a name is seen. -/
theorem put_put {other : Value} (room : table.Room name) (again : (table.put name value room).Room name) :
    (table.put name value room).put name other again = table.put name other room := by
  simp only [put, Finmap.insert_insert]

omit [DecidableEq Name] in
theorem card_keys (values : Finmap fun _ : Name => Value) : values.keys.card = values.entries.card :=
  Multiset.card_map _ _

end NamedTable

end ShedKernel.Foundation
