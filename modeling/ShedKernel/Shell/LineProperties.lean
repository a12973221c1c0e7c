import ShedKernel.Heap.Ownership
import ShedKernel.Shell.Lines

/-! The memory of `lsh_read_line`, which returns one block of its own, or null and nothing. -/

set_option autoImplicit false

namespace ShedKernel.Shell

open Foundation BlockList Heap Console

variable {area : Area} {begun : List Block} {memory : Memory}

/-! `lsh_read_line`. -/

/-- What `lsh_read_line` returns: null, or a block with a terminator in it. -/
inductive LineRead (area : Area) (begun : List Block) : Nat → Memory → Prop where
  | failed {memory : Memory} :
      Owns area begun memory [] → LineRead area begun nullPointer memory
  | line {p room length : Nat} {memory : Memory} :
      Owns area begun memory [⟨p, room⟩] → length < room → memory (p + length) = 0 →
      LineRead area begun p memory

/-- The codes that end a line. -/
def EndsLine (c : Int) : Prop := c ≠ backspaceCode ∧ (c = eofCode ∨ c = newlineCode)

/-- A call that waits for a key only when no code ends the line. -/
def ReadsLine (area : Area) (begun : List Block) (codes : List Int)
    (result : Option (Nat × Memory × TextScreen × List Int)) : Prop :=
  (result = none ∧ ∀ c ∈ codes, ¬EndsLine c) ∨
    ∃ p memory screen rest, result = some (p, memory, screen, rest) ∧ LineRead area begun p memory

theorem ReadsLine.skip {codes : List Int} {c : Int}
    {result : Option (Nat × Memory × TextScreen × List Int)} (unended : ¬EndsLine c)
    (reads : ReadsLine area begun codes result) : ReadsLine area begun (c :: codes) result := by
  cases reads with
  | inl waits =>
      refine .inl ⟨waits.1, ?_⟩
      intro other member
      cases List.mem_cons.mp member with
      | inl here => exact here ▸ unended
      | inr later => exact waits.2 other later
  | inr returns => exact .inr returns

/-- The buffer has room for the next character. -/
structure Buffered (area : Area) (begun : List Block) (memory : Memory) (line : LineBuffer)
    (room : Nat) : Prop where
  owns : Owns area begun memory [⟨line.buffer, room⟩]
  space : line.bufsize ≤ room
  free : line.position < line.bufsize

theorem Buffered.storeByte {line : LineBuffer} {room : Nat}
    (buffered : Buffered area begun memory line room) (value : UInt8) :
    Owns area begun (memory.storeByte (line.buffer + line.position) value)
      [⟨line.buffer, room⟩] := by
  have space := buffered.space
  have free := buffered.free
  have same : ∀ other, other < line.buffer ∨ line.buffer + room ≤ other →
      memory.storeByte (line.buffer + line.position) value other = memory other :=
    fun other _ => Memory.storeByte_of_ne (by omega)
  exact (buffered.owns.store same).1

private theorem readKeys_reads {line : LineBuffer} {room : Nat} (screen : TextScreen) (codes : List Int)
    (buffered : Buffered area begun memory line room) :
    ReadsLine area begun codes (readKeys area memory screen line codes) := by
  induction codes generalizing memory screen line room with
  | nil => exact .inl ⟨rfl, by simp⟩
  | cons c codes ih =>
      have space := buffered.space
      have free := buffered.free
      unfold readKeys
      by_cases back : c = backspaceCode
      · have unended : ¬EndsLine c := fun ends => ends.1 back
        rw [if_pos back]
        split
        · have shorter : Buffered area begun memory
              { line with position := line.position - 1 } room :=
            ⟨buffered.owns, space, Nat.lt_of_le_of_lt (Nat.sub_le ..) free⟩
          exact (ih _ shorter).skip unended
        · exact (ih _ buffered).skip unended
      rw [if_neg back]
      by_cases ends : c = eofCode ∨ c = newlineCode
      · rw [if_pos ends]
        have owns := buffered.storeByte 0
        exact .inr ⟨_, _, _, _, rfl, .line owns (by omega) (Memory.storeByte_self ..)⟩
      have unended : ¬EndsLine c := fun ended => ends ended.2
      rw [if_neg ends]
      have owns := buffered.storeByte (charOf c)
      simp only
      split
      · next full =>
          have inArea := owns.inside (List.mem_singleton.mpr rfl)
          simp only at inArea
          have small : line.bufsize + lshRlBufsize < 4294967296 := by
            have fits := area.fits_literal
            unfold lshRlBufsize
            omega
          have positive : 0 < line.bufsize + lshRlBufsize := Nat.succ_pos _
          obtain ⟨newbuf, changed, called, _, result⟩ := owns.realloc positive small
          simp only at called
          rw [called]
          cases result with
          | inl refused =>
              obtain ⟨null, same⟩ := refused
              simp only [null, if_true, same]
              exact .inr ⟨_, _, _, _, rfl, .failed owns.memFree.1⟩
          | inr grown =>
              obtain ⟨notNull, newRoom, enough, _, moved, _⟩ := grown
              simp only [notNull, if_false]
              exact (ih _ ⟨moved, enough, by simp only [lshRlBufsize]; omega⟩).skip unended
      · next more =>
          have typed : Buffered area begun _ { line with position := line.position + 1 } room :=
            ⟨owns, space, Nat.lt_of_not_le more⟩
          exact (ih _ typed).skip unended

theorem lshReadLine_reads (screen : TextScreen) (codes : List Int) (owns : Owns area begun memory []) :
    ReadsLine area begun codes (lshReadLine area memory screen codes) := by
  have small : lshRlBufsize < 4294967296 := by decide
  obtain ⟨buffer, changed, called, _, result⟩ := owns.malloc small
  unfold lshReadLine
  rw [called]
  cases result with
  | inl refused =>
      obtain ⟨null, same⟩ := refused
      simp only [null, if_true, same]
      exact .inr ⟨_, _, _, _, rfl, .failed owns⟩
  | inr granted =>
      obtain ⟨notNull, room, enough, owned⟩ := granted
      simp only [notNull, if_false]
      exact readKeys_reads screen codes ⟨owned, enough, by simp [lshRlBufsize]⟩

end ShedKernel.Shell
