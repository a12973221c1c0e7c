import ShedKernel.Cpu.SyscallProperties
import ShedKernel.Foundation.SegmentAccess

/-! The eight segments of the table that `gdt_init` copies to `GDTBASE`, and what the ones that
the kernel loads let through. -/

set_option autoImplicit false

namespace ShedKernel.Cpu

open Foundation Foundation.X86

def nullSegment : SegmentDescriptor := ⟨0x0, 0x0, 0x00, 0x00, by decide, by decide⟩

private theorem pageGranular_lt : (0x0D : UInt8).toNat < 16 := by decide

/-- `kgdt[1]` -/
def kernelCode : SegmentDescriptor := ⟨0x0, 0xFFFFF, 0x9B, 0x0D, SegmentDescriptor.largestLimit_lt, pageGranular_lt⟩

/-- `kgdt[3]` -/
def kernelStack : SegmentDescriptor := ⟨0x0, 0x0, 0x97, 0x0D, by decide, pageGranular_lt⟩

/-- `kgdt[4]` -/
def userCode : SegmentDescriptor := ⟨0x0, 0xFFFFF, 0xFF, 0x0D, SegmentDescriptor.largestLimit_lt, pageGranular_lt⟩

/-- `kgdt[5]` -/
def userData : SegmentDescriptor := ⟨0x0, 0xFFFFF, 0xF3, 0x0D, SegmentDescriptor.largestLimit_lt, pageGranular_lt⟩

/-- `kgdt[6]` -/
def userStack : SegmentDescriptor := ⟨0x0, 0xFFFFF, 0xF7, 0x0D, SegmentDescriptor.largestLimit_lt, pageGranular_lt⟩

/-- `kgdt[7]` -/
def taskState (defaultTss : UInt32) : SegmentDescriptor := ⟨defaultTss, 0x67, 0xE9, 0x00, by decide, by decide⟩

def segments (defaultTss : UInt32) : List SegmentDescriptor :=
  [nullSegment, kernelCode, kernelData, kernelStack, userCode, userData, userStack, taskState defaultTss]

/-- The table lies where `gdt_init` copied it. -/
def HasSegments (memory : Memory) (tss : UInt32) : Prop :=
  ∀ index segment, (segments tss)[index]? = some segment →
    SegmentDescriptor.decode memory (gdtBase + 8 * index) = segment

/-! Entries one behind the other. -/

def fillTable (memory : Memory) (entry : Nat) : List SegmentDescriptor → Memory
  | [] => memory
  | segment :: rest =>
      fillTable (initGdtDescriptor memory segment.base segment.limit segment.access segment.flags entry)
        (entry + 8) rest

private theorem decode_fillTable_below (segments : List SegmentDescriptor) (memory : Memory) {entry place : Nat}
    (below : place + 8 ≤ entry) :
    SegmentDescriptor.decode (fillTable memory entry segments) place = SegmentDescriptor.decode memory place := by
  induction segments generalizing memory entry with
  | nil => rfl
  | cons segment rest ih =>
      rw [fillTable, ih _ (by omega)]
      exact decode_initGdtDescriptor_of_outside _ _ _ _ _ _ (.inl below)

private theorem decode_fillTable {segments : List SegmentDescriptor} (memory : Memory) {entry index : Nat}
    {segment : SegmentDescriptor} (found : segments[index]? = some segment) :
    SegmentDescriptor.decode (fillTable memory entry segments) (entry + 8 * index) = segment := by
  induction segments generalizing memory entry index with
  | nil => cases found
  | cons first rest ih =>
      cases index with
      | zero =>
          cases found
          rw [fillTable]
          exact (decode_fillTable_below rest _ (Nat.le_refl _)).trans (decode_initGdtDescriptor _ _ _)
      | succ index =>
          rw [fillTable, show entry + 8 * (index + 1) = entry + 8 + 8 * index by omega]
          exact ih _ found

private theorem gdtInit_eq (memory : Memory) (kgdt : Nat) (tss : UInt32) :
    gdtInit memory kgdt tss = (fillTable memory kgdt (segments tss)).copyForward gdtBase kgdt 64 := rfl

/-- All eight, whatever was in memory. -/
theorem gdtInit_hasSegments (memory : Memory) {kgdt : Nat} (tss : UInt32)
    (apart : gdtBase + 64 ≤ kgdt ∨ kgdt + 64 ≤ gdtBase) : HasSegments (gdtInit memory kgdt tss) tss := by
  intro index segment found
  have inside : index < 8 := (List.getElem?_eq_some_iff.mp found).1
  rw [gdtInit_eq, ← @decode_fillTable _ memory kgdt _ _ found]
  refine SegmentDescriptor.decode_congr fun offset small => ?_
  rw [Nat.add_assoc, Nat.add_assoc]
  exact Memory.copyForward_of_disjoint (by omega) (by omega)

/-- The segment that a selector loads. -/
theorem HasSegments.load {memory : Memory} {tss : UInt32} (table : HasSegments memory tss) {selector : UInt16}
    {segment : SegmentDescriptor} (found : (segments tss)[selector.toNat / 8]? = some segment) :
    Segment.load memory gdtBase selector = ⟨selector, segment⟩ :=
  congrArg (Segment.mk selector) (table _ _ found)

/-- Of the segments that the kernel loads, those for code and data let everything through, and
the one for the stack of ring 3, selector 0x33, lets nothing through: it grows down and its
limit is the largest there is. -/
theorem gdt_init_segments (memory : Memory) (kgdt : Nat) (tss : UInt32)
    (apart : gdtBase + 64 ≤ kgdt ∨ kgdt + 64 ≤ gdtBase) :
    let after := gdtInit memory kgdt tss
    let reaches := fun selector => (Segment.load after gdtBase selector).descriptor.Reaches
    HasSegments after tss ∧
      (∀ selector ∈ [0x08, 0x10, 0x23, 0x2B], ∀ offset size, reaches selector offset size ↔ offset + size ≤ 4294967296) ∧
      (∀ offset size, reaches 0x18 offset size ↔ 4096 ≤ offset ∧ offset + size ≤ 4294967296) ∧
      ∀ offset size, 0 < size → ¬reaches 0x33 offset size := by
  intro after reaches
  have table := gdtInit_hasSegments memory tss apart
  have loaded {selector : UInt16} {segment : SegmentDescriptor}
      (found : (segments tss)[selector.toNat / 8]? = some segment) :
      reaches selector = segment.Reaches := by
    show (Segment.load after gdtBase selector).descriptor.Reaches = _
    rw [table.load found]
  refine ⟨table, fun selector member offset size => ?_, fun offset size => ?_, fun offset size some => ?_⟩
  · simp only [List.mem_cons, List.not_mem_nil, or_false] at member
    rcases member with rfl | rfl | rfl | rfl
    · rw [@loaded 0x08 kernelCode rfl]
      exact SegmentDescriptor.reaches_of_flat (by decide) (by decide) offset size
    · rw [@loaded 0x10 kernelData rfl]
      exact SegmentDescriptor.reaches_of_flat (by decide) (by decide) offset size
    · rw [@loaded 0x23 userCode rfl]
      exact SegmentDescriptor.reaches_of_flat (by decide) (by decide) offset size
    · rw [@loaded 0x2B userData rfl]
      exact SegmentDescriptor.reaches_of_flat (by decide) (by decide) offset size
  · rw [@loaded 0x18 kernelStack rfl]
    have last : kernelStack.lastByte = 4095 := by decide
    have upper : kernelStack.upperBound = 0xFFFFFFFF := by decide
    rw [SegmentDescriptor.Reaches, if_pos (by decide), last, upper]
    exact Iff.rfl
  · rw [@loaded 0x33 userStack rfl]
    exact SegmentDescriptor.not_reaches_of_full (by decide) (by decide) some

theorem gdt_init_segments_boot :
    let after := gdtInit (fun _ => 0) 0x10B000 0x10B040
    ¬(Segment.load after gdtBase 0x33).descriptor.Reaches (0xD0000FF0 - 4) 4 ∧
      (Segment.load after gdtBase 0x2B).descriptor.Reaches (0xD0000FF0 - 4) 4 := by
  have checked := gdt_init_segments (fun _ => 0) 0x10B000 0x10B040 (by decide)
  exact ⟨checked.2.2.2 _ 4 (by decide), (checked.2.1 0x2B (by decide) _ 4).mpr (by decide)⟩

end ShedKernel.Cpu
