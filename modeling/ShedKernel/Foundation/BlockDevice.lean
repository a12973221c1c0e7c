import ShedKernel.Foundation.ByteMemory

/-! Whole-block writes to a byte memory. After a list of writes a block holds the
last write to it, whatever it held before. -/

set_option autoImplicit false

namespace ShedKernel.Foundation

/-- A block number and the bytes for it. -/
abbrev BlockWrite := Nat × (Nat → UInt8)

namespace Memory

variable {width : Nat} {disk first second : Memory}

def applyWrites (width : Nat) (disk : Memory) (writes : List BlockWrite) : Memory :=
  writes.foldl (fun disk write => disk.blit (write.1 * width) write.2 width) disk

/-- Both memories hold the same bytes in a block. -/
def BlockAgree (width : Nat) (first second : Memory) (block : Nat) : Prop :=
  ∀ index, index < width → first (block * width + index) = second (block * width + index)

theorem applyWrites_append (writes later : List BlockWrite) :
    disk.applyWrites width (writes ++ later) = (disk.applyWrites width writes).applyWrites width later :=
  List.foldl_append ..

/-- What an address holds after writes depends on what it held before only. -/
theorem applyWrites_congr {writes : List BlockWrite} {address : Nat}
    (same : first address = second address) :
    first.applyWrites width writes address = second.applyWrites width writes address := by
  induction writes generalizing first second with
  | nil => exact same
  | cons write rest ih =>
      refine @ih (first.blit (write.1 * width) write.2 width)
        (second.blit (write.1 * width) write.2 width) ?_
      unfold blit
      rw [same]

/-- Two blocks of one width do not overlap. -/
theorem block_disjoint {block other index : Nat} (different : other ≠ block) (inside : index < width) :
    other * width + index < block * width ∨ block * width + width ≤ other * width + index := by
  rcases Nat.lt_or_gt_of_ne different with below | above
  · have := Nat.mul_le_mul_right width (Nat.succ_le_of_lt below)
    rw [Nat.succ_mul] at this
    omega
  · have := Nat.mul_le_mul_right width (Nat.succ_le_of_lt above)
    rw [Nat.succ_mul] at this
    omega

/-- An address that lies in none of the blocks keeps its byte. -/
theorem applyWrites_of_outside {writes : List BlockWrite} {address : Nat}
    (outside : ∀ write ∈ writes, address < write.1 * width ∨ write.1 * width + width ≤ address) :
    disk.applyWrites width writes address = disk address := by
  induction writes generalizing disk with
  | nil => rfl
  | cons write rest ih =>
      have tail := @ih (disk.blit (write.1 * width) write.2 width) fun later member =>
        outside later (List.mem_cons_of_mem _ member)
      rw [applyWrites, List.foldl_cons]
      exact tail.trans (blit_of_outside (outside write List.mem_cons_self))

theorem applyWrites_other {writes : List BlockWrite} {block : Nat}
    (other : ∀ write ∈ writes, write.1 ≠ block) :
    BlockAgree width (disk.applyWrites width writes) disk block := by
  intro index inside
  exact applyWrites_of_outside fun write member =>
    block_disjoint (other write member).symm inside

/-- A block that is written holds what its writes store. -/
theorem applyWrites_covered {writes : List BlockWrite} {block index : Nat} {value : UInt8}
    (inside : index < width) (covered : ∃ write ∈ writes, write.1 = block)
    (stored : ∀ write ∈ writes, write.1 = block → write.2 index = value) :
    disk.applyWrites width writes (block * width + index) = value := by
  induction writes generalizing disk with
  | nil =>
      obtain ⟨_, member, _⟩ := covered
      cases member
  | cons write rest ih =>
      have later := fun other member => stored other (List.mem_cons_of_mem _ member)
      by_cases inRest : ∃ other ∈ rest, other.1 = block
      · exact @ih (disk.blit (write.1 * width) write.2 width) inRest later
      · obtain ⟨other, member, same⟩ := covered
        cases List.mem_cons.mp member with
        | inr tail => exact absurd ⟨other, tail, same⟩ inRest
        | inl here =>
            subst here
            have kept := @applyWrites_other width (disk.blit (other.1 * width) other.2 width) rest
              block fun later member equal => inRest ⟨later, member, equal⟩
            refine (kept index inside).trans ?_
            rw [← same, blit_of_inside inside]
            exact stored other List.mem_cons_self same

/-- Agreement on a block survives the same writes, and the writes establish it on
the blocks they cover. -/
theorem applyWrites_agree {writes : List BlockWrite} {block : Nat}
    (either : BlockAgree width first second block ∨ ∃ write ∈ writes, write.1 = block) :
    BlockAgree width (first.applyWrites width writes) (second.applyWrites width writes) block := by
  induction writes generalizing first second with
  | nil =>
      rcases either with agree | ⟨_, member, _⟩
      · exact agree
      · cases member
  | cons write rest ih =>
      refine @ih (first.blit (write.1 * width) write.2 width)
        (second.blit (write.1 * width) write.2 width) ?_
      by_cases here : write.1 = block
      · left
        intro index inside
        rw [here, blit_of_inside inside, blit_of_inside inside]
      · rcases either with agree | ⟨later, member, same⟩
        · left
          intro index inside
          have apart := block_disjoint (Ne.symm here) inside
          rw [blit_of_outside apart, blit_of_outside apart]
          exact agree index inside
        · cases List.mem_cons.mp member with
          | inl equal => exact absurd (equal ▸ same) here
          | inr inRest => exact .inr ⟨later, inRest, same⟩

end Memory

end ShedKernel.Foundation
