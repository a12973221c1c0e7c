import ShedKernel.Foundation.ByteMemory

/-! A picture in memory: rows of words one behind the other. -/

set_option autoImplicit false

namespace ShedKernel.Foundation

/-- The place of a word in the row-major order. -/
def rowMajor (stride x y : Nat) : Nat := stride * y + x

theorem rowMajor_inj {stride x y column row : Nat} (inside : x < stride) (columnInside : column < stride) :
    rowMajor stride x y = rowMajor stride column row ↔ x = column ∧ y = row := by
  constructor
  · intro same
    unfold rowMajor at same
    have rows := congrArg (· / stride) same
    have columns := congrArg (· % stride) same
    simp only [Nat.mul_add_mod, Nat.mod_eq_of_lt inside, Nat.mod_eq_of_lt columnInside] at columns
    simp only [Nat.mul_add_div (Nat.zero_lt_of_lt inside), Nat.div_eq_of_lt inside, Nat.div_eq_of_lt columnInside,
      Nat.add_zero] at rows
    exact ⟨columns, rows⟩
  · rintro ⟨rfl, rfl⟩
    rfl

theorem rowMajor_lt {stride height x y : Nat} (inside : x < stride) (below : y < height) :
    rowMajor stride x y < stride * height := by
  have row : stride * (y + 1) ≤ stride * height := Nat.mul_le_mul_left stride below
  rw [Nat.mul_succ] at row
  unfold rowMajor
  omega

namespace Memory

variable {memory : Memory} {base index value address : Nat}

def storeWord (memory : Memory) (base value index : Nat) : Memory := memory.store32 (base + 4 * index) value

/-- The words up to `count` are the same value, stored from the first one on. -/
def fillWords (memory : Memory) (base value count : Nat) : Memory :=
  (List.range count).foldl (fun memory index => memory.storeWord base value index) memory

/-- The word in a column of a row. -/
def raster (memory : Memory) (base stride x y : Nat) : Nat := memory.load32 (base + 4 * rowMajor stride x y)

theorem load32_storeWord (small : value < 4294967296) (other : Nat) :
    (memory.storeWord base value index).load32 (base + 4 * other) =
      if other = index then value else memory.load32 (base + 4 * other) := by
  unfold storeWord
  by_cases here : other = index
  · subst here
    rw [if_pos rfl]
    exact load32_store32_of_lt small
  · rw [if_neg here]
    exact load32_store32_of_disjoint (by omega)

theorem storeWord_outside (outside : address < base ∨ base + 4 * (index + 1) ≤ address) :
    memory.storeWord base value index address = memory address :=
  store32_of_outside (by omega)

theorem fillWords_succ (count : Nat) :
    memory.fillWords base value (count + 1) = (memory.fillWords base value count).storeWord base value count := by
  simp only [fillWords, List.range_succ, List.foldl_append, List.foldl_cons, List.foldl_nil]

theorem load32_fillWords (small : value < 4294967296) (count other : Nat) :
    (memory.fillWords base value count).load32 (base + 4 * other) =
      if other < count then value else memory.load32 (base + 4 * other) := by
  induction count with
  | zero => rfl
  | succ count ih =>
    rw [fillWords_succ, load32_storeWord small, ih]
    by_cases last : other = count
    · rw [if_pos last, if_pos (by omega)]
    · rw [if_neg last]
      by_cases earlier : other < count
      · rw [if_pos earlier, if_pos (by omega)]
      · rw [if_neg earlier, if_neg (by omega)]

theorem fillWords_outside (count : Nat) (outside : address < base ∨ base + 4 * count ≤ address) :
    memory.fillWords base value count address = memory address := by
  induction count with
  | zero => rfl
  | succ count ih =>
    rw [fillWords_succ, storeWord_outside (by omega)]
    exact ih (by omega)

theorem raster_storeWord {stride x y column row : Nat} (small : value < 4294967296) (inside : x < stride)
    (columnInside : column < stride) :
    (memory.storeWord base value (rowMajor stride column row)).raster base stride x y =
      if x = column ∧ y = row then value else memory.raster base stride x y := by
  unfold raster
  rw [load32_storeWord small]
  by_cases here : x = column ∧ y = row
  · rw [if_pos here, if_pos ((rowMajor_inj inside columnInside).mpr here)]
  · rw [if_neg here, if_neg fun same => here ((rowMajor_inj inside columnInside).mp same)]

theorem raster_fillWords {stride height x y : Nat} (small : value < 4294967296) (inside : x < stride)
    (below : y < height) : (memory.fillWords base value (stride * height)).raster base stride x y = value := by
  unfold raster
  rw [load32_fillWords small, if_pos (rowMajor_lt inside below)]

end Memory

end ShedKernel.Foundation
