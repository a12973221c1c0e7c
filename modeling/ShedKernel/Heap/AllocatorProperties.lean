import ShedKernel.Heap.EditProperties

/-! One specification for each entry point of the allocator, over memories that
represent a coalesced list of blocks filling the area. -/

set_option autoImplicit false

namespace ShedKernel.Heap

open Foundation BlockList

structure Represents (area : Area) (memory : Memory) (blocks : List Block) : Prop where
  chain : NodeChain memory (area.base + 1048576) nullPointer area.base blocks
  total : span 16 blocks = 1048576
  coalesced : Coalesced blocks

theorem Area.fits_literal (area : Area) : area.base + 1048576 < 4294967296 := area.fits

theorem initDynamicMem_represents (area : Area) (memory : Memory) :
    Represents area (initDynamicMem area memory) [⟨1048560, false⟩] where
  total := by simp
  coalesced := List.isChain_singleton _
  chain := by
    refine ⟨⟨?_, ?_, ?_, ?_⟩, trivial⟩
    · simp (disch := omega) only [initDynamicMem, Node.size, Node.setSize, Node.setUsed,
        Node.setNext, Node.setPrev, Memory.load32_store32_of_disjoint, Memory.load32_store32]
      simp [dynamicMemTotalSize, dynamicMemNodeSize]
    · exact Memory.load32_store32_of_lt (by decide)
    · simp (disch := omega) only [initDynamicMem, Node.next, Node.setSize, Node.setUsed,
        Node.setNext, Node.setPrev, Memory.load32_store32_of_disjoint, Memory.load32_store32]
      rw [link_of_eq (show area.base + 16 + 1048560 = area.base + 1048576 by omega)]
      simp [nullPointer]
    · simp (disch := omega) only [initDynamicMem, Node.prev, Node.setSize, Node.setUsed,
        Node.setNext, Node.setPrev, Memory.load32_store32_of_disjoint, Memory.load32_store32]
      simp [nullPointer]

/-! ## Best fit -/

/-- The best-fit scan over blocks laid out from an address. -/
def scanBlocks (size : Nat) : Nat → List Block → Nat → Nat → Nat
  | _, [], best, _ => best
  | address, block :: rest, best, bestSize =>
      if block.used = false ∧ size ≤ block.size ∧ block.size ≤ bestSize then
        scanBlocks size (address + 16 + block.size) rest address block.size
      else scanBlocks size (address + 16 + block.size) rest best bestSize

private theorem scanNodes_eq {memory : Memory} {stop prev address size fuel : Nat} {blocks : List Block}
    (chain : NodeChain memory stop prev address blocks)
    (ends : address + span 16 blocks = stop) (positive : 0 < address)
    (enough : blocks.length < fuel) (best bestSize : Nat) :
    scanNodes memory size fuel (link stop address) best bestSize =
      some (scanBlocks size address blocks best bestSize) := by
  induction blocks generalizing prev address fuel best bestSize with
  | nil =>
      cases fuel with
      | zero => simp at enough
      | succ fuel =>
          have ended : address = stop := by simpa using ends
          rw [ended, link_self]
          rfl
  | cons block rest ih =>
      cases fuel with
      | zero => simp at enough
      | succ fuel =>
          obtain ⟨node, behind⟩ := chain
          simp only [span_cons] at ends
          simp only [List.length_cons, Nat.add_lt_add_iff_right] at enough
          have usedIff : Node.used memory address = 0 ↔ block.used = false := by
            rw [node.used]
            cases block.used <;> simp
          have recursive := @ih address (address + 16 + block.size) fuel behind (by omega)
            (by omega) enough
          rw [link_of_ne (by omega), scanNodes, if_neg (by unfold nullPointer; omega),
            node.size, node.next]
          simp only [usedIff, recursive, scanBlocks]
          split <;> rfl

/-- The chosen block is free, large enough, of least such size, and the last one
of that size. -/
structure BestFit (size : Nat) (front : List Block) (found : Nat) (back : List Block) : Prop where
  enough : size ≤ found
  least : ∀ block ∈ front, block.used = false → size ≤ block.size → found ≤ block.size
  last : ∀ block ∈ back, block.used = false → size ≤ block.size → found < block.size

theorem scanBlocks_spec (size address best bestSize : Nat) (blocks : List Block) :
    (scanBlocks size address blocks best bestSize = best ∧
        ∀ block ∈ blocks, block.used = false → size ≤ block.size → bestSize < block.size) ∨
      ∃ front found back, blocks = front ++ ⟨found, false⟩ :: back ∧ found ≤ bestSize ∧
        BestFit size front found back ∧
        scanBlocks size address blocks best bestSize = address + span 16 front := by
  induction blocks generalizing address best bestSize with
  | nil => exact .inl ⟨rfl, by simp⟩
  | cons block rest ih =>
      simp only [scanBlocks]
      split
      · next chosen =>
          obtain ⟨free, large, improves⟩ := chosen
          rcases ih (address + 16 + block.size) address block.size with
            ⟨kept, larger⟩ | ⟨front, found, back, rfl, smaller, fit, result⟩
          · -- nothing behind is as good: this block is the answer
            refine .inr ⟨[], block.size, rest, ?_, improves, ⟨large, by simp, larger⟩, by simpa⟩
            rw [← free]
            rfl
          · refine .inr ⟨block :: front, found, back, rfl, by omega, ⟨fit.enough, ?_, fit.last⟩, ?_⟩
            · intro other member otherFree otherLarge
              cases List.mem_cons.mp member with
              | inl same => exact same ▸ smaller
              | inr later => exact fit.least other later otherFree otherLarge
            · rw [result, span_cons]
              omega
      · next passed =>
          rcases ih (address + 16 + block.size) best bestSize with
            ⟨kept, larger⟩ | ⟨front, found, back, rfl, smaller, fit, result⟩
          · refine .inl ⟨kept, fun other member otherFree otherLarge => ?_⟩
            cases List.mem_cons.mp member with
            | inl same =>
                subst same
                exact Nat.lt_of_not_le fun small => passed ⟨otherFree, otherLarge, small⟩
            | inr later => exact larger other later otherFree otherLarge
          · refine .inr ⟨block :: front, found, back, rfl, smaller, ⟨fit.enough, ?_, fit.last⟩, ?_⟩
            · intro other member otherFree otherLarge
              cases List.mem_cons.mp member with
              | inl same =>
                  subst same
                  exact Nat.le_of_not_lt fun small =>
                    passed ⟨otherFree, otherLarge, by omega⟩
              | inr later => exact fit.least other later otherFree otherLarge
            · rw [result, span_cons]
              omega

private theorem length_le_span (blocks : List Block) : 16 * blocks.length ≤ span 16 blocks := by
  induction blocks with
  | nil => simp
  | cons block rest ih => simp only [List.length_cons, span_cons]; omega

private theorem size_le_span {blocks : List Block} {block : Block} (member : block ∈ blocks) :
    block.size + 16 ≤ span 16 blocks := by
  obtain ⟨front, back, rfl⟩ := List.append_of_mem member
  simp only [span_append, span_cons]
  omega

private theorem findBestMemBlock_eq {area : Area} {memory : Memory} {blocks : List Block}
    (represents : Represents area memory blocks) (size : Nat) :
    findBestMemBlock memory area.base size =
      some (scanBlocks size area.base blocks nullPointer 1048577) := by
  have shortList : blocks.length < nodeLimit := by
    have := length_le_span blocks
    have := represents.total
    unfold nodeLimit dynamicMemTotalSize dynamicMemNodeSize
    omega
  have start : link (area.base + 1048576) area.base = area.base := link_of_ne (by omega)
  unfold findBestMemBlock
  rw [← start]
  nth_rewrite 2 [start]
  exact scanNodes_eq represents.chain (by rw [represents.total]) area.base_pos shortList _ _

/-! ## `malloc` -/

/-- What `malloc` can do: refuse, cut the block off a larger one, or hand out a
block whole. -/
inductive MallocResult (area : Area) (memory : Memory) (blocks : List Block) (size : Nat) :
    Nat → Memory → List Block → Prop where
  | refused :
      (∀ block ∈ blocks, block.used = false → block.size < size) →
      MallocResult area memory blocks size nullPointer memory blocks
  | carved {front back : List Block} {found : Nat} {changed : Memory} :
      blocks = front ++ ⟨found, false⟩ :: back → BestFit size front found back →
      size + 16 ≤ found →
      Represents area changed
        (front ++ ⟨found - (size + 16), false⟩ :: ⟨size, true⟩ :: back) →
      (∀ other, other < area.base + span 16 front ∨
        area.base + span 16 front + 32 + found ≤ other → changed other = memory other) →
      MallocResult area memory blocks size
        (area.base + span 16 front + (found - size) + 16) changed
        (front ++ ⟨found - (size + 16), false⟩ :: ⟨size, true⟩ :: back)
  | whole {front back : List Block} {found : Nat} {changed : Memory} :
      blocks = front ++ ⟨found, false⟩ :: back → BestFit size front found back →
      found < size + 16 →
      Represents area changed (front ++ ⟨found, true⟩ :: back) →
      (∀ other, other < area.base + span 16 front ∨
        area.base + span 16 front + 16 ≤ other → changed other = memory other) →
      MallocResult area memory blocks size (area.base + span 16 front + 16) changed
        (front ++ ⟨found, true⟩ :: back)

/-- The same bytes outside the area. -/
def OutsideKept (area : Area) (memory changed : Memory) : Prop :=
  ∀ other, (other < area.base ∨ area.base + 1048576 ≤ other) → changed other = memory other

theorem OutsideKept.trans {area : Area} {memory middle changed : Memory}
    (first : OutsideKept area memory middle) (second : OutsideKept area middle changed) :
    OutsideKept area memory changed :=
  fun other outside => (second other outside).trans (first other outside)

theorem malloc_result {area : Area} {memory : Memory} {blocks : List Block}
    (represents : Represents area memory blocks) {size : Nat} (small : size < 4294967296) :
    ∃ p changed after, malloc area memory size = some (p, changed) ∧
      MallocResult area memory blocks size p changed after ∧ OutsideKept area memory changed := by
  have fits := area.fits_literal
  have positive := area.base_pos
  unfold malloc
  rw [findBestMemBlock_eq represents]
  rcases scanBlocks_spec size area.base nullPointer 1048577 blocks with
    ⟨result, larger⟩ | ⟨front, found, back, rfl, _, fit, result⟩
  · refine ⟨nullPointer, memory, blocks, by simp only [result, if_true], .refused ?_,
      fun _ _ => rfl⟩
    intro block member free
    have bound := size_le_span member
    have total := represents.total
    by_contra large
    have := larger block member free (by omega)
    omega
  · have total := represents.total
    simp only [span_append, span_cons] at total
    obtain ⟨frontChain, node, behind⟩ := NodeChain.append_iff.mp represents.chain
    have sizeField : Node.size memory (area.base + span 16 front) = found := node.size
    have enough := fit.enough
    simp only [result, sizeField]
    rw [if_neg (by unfold nullPointer; omega)]
    by_cases room : size + 16 ≤ found
    · have carvedNode := carveTail_node node (by omega) fits room
      obtain ⟨carvedChain, same⟩ :=
        carveTail_chain node behind (by omega) (by omega) fits room
      have ends : area.base + span 16 front + 16 + found + span 16 back = area.base + 1048576 := by
        omega
      refine ⟨_, _, _, ?_, .carved rfl fit room ⟨?_, ?_, ?_⟩ same,
        fun other _ => carveTail_outside node ends fits room (by omega)⟩
      · rw [if_pos (by rw [add32_of_lt] <;> unfold dynamicMemNodeSize <;> omega), carvedNode,
          add32_of_lt (by unfold dynamicMemNodeSize; omega)]
        rfl
      · exact represents.chain.splice carvedChain fun other below => same other (.inl below)
      · simp only [span_append, span_cons]
        omega
      · exact represents.coalesced.carve
    · obtain ⟨markedChain, same⟩ := setUsed_chain ⟨node, behind⟩ true
      refine ⟨_, Node.setUsed memory (area.base + span 16 front) 1, _, ?_,
        .whole rfl fit (by omega) ⟨?_, ?_, ?_⟩ ?_, fun other _ => same other (by omega)⟩
      · rw [if_neg (by rw [add32_of_lt] <;> unfold dynamicMemNodeSize <;> omega),
          add32_of_lt (by unfold dynamicMemNodeSize; omega)]
        rfl
      · exact represents.chain.splice markedChain fun other _ => same other (by omega)
      · simp only [span_append, span_cons]
        omega
      · exact represents.coalesced.claim
      · exact fun other _ => same other (by omega)

theorem malloc_spec {area : Area} {memory : Memory} {blocks : List Block}
    (represents : Represents area memory blocks) {size : Nat} (small : size < 4294967296) :
    ∃ p changed after, malloc area memory size = some (p, changed) ∧
      MallocResult area memory blocks size p changed after := by
  obtain ⟨p, changed, after, called, result, _⟩ := malloc_result represents small
  exact ⟨p, changed, after, called, result⟩

/-- What a caller sees of a successful `malloc`: one more used place, large
enough, and every payload in use as it was. -/
structure Granted (area : Area) (memory : Memory) (blocks : List Block) (size place granted : Nat)
    (changed : Memory) (after : List Block) : Prop where
  represents : Represents area changed after
  enough : size ≤ granted
  fresh : ∀ other, (place, other) ∉ usedPlaces 16 area.base blocks
  places : ∀ other, other ∈ usedPlaces 16 area.base after ↔
    other = (place, granted) ∨ other ∈ usedPlaces 16 area.base blocks
  kept : PayloadsKept memory changed (usedPlaces 16 area.base blocks)

/-- A block inside the free block between `front` and `back` starts no used place. -/
private theorem fresh_between {start size place : Nat} {front back : List Block}
    (low : start + span 16 front ≤ place) (high : place < start + span 16 front + 16 + size)
    (other : Nat) : (place, other) ∉ usedPlaces 16 start (front ++ ⟨size, false⟩ :: back) := by
  rw [usedPlaces_append, usedPlaces_cons_free]
  intro member
  cases List.mem_append.mp member with
  | inl inFront =>
      have bounds := usedPlaces_bounds inFront
      omega
  | inr inBack =>
      have bounds := usedPlaces_bounds inBack
      omega

/-- A call is refused exactly if every free block is too small. -/
theorem MallocResult.null_iff {area : Area} {memory changed : Memory} {blocks after : List Block}
    {size p : Nat} (result : MallocResult area memory blocks size p changed after) :
    p = nullPointer ↔ ∀ block ∈ blocks, block.used = false → block.size < size := by
  have fitting : ∀ {front back : List Block} {found place : Nat},
      blocks = front ++ ⟨found, false⟩ :: back → size ≤ found →
      (place + 16 = nullPointer ↔ ∀ block ∈ blocks, block.used = false → block.size < size) := by
    intro front back found place split enough
    refine iff_of_false (by unfold nullPointer; omega) fun small => ?_
    exact absurd (small ⟨found, false⟩ (by simp [split]) rfl) (Nat.not_lt.mpr enough)
  cases result with
  | refused small => exact iff_of_true rfl small
  | carved split fit => exact fitting split fit.enough
  | whole split fit => exact fitting split fit.enough

theorem MallocResult.granted {area : Area} {memory changed : Memory} {blocks after : List Block}
    {size p : Nat} (result : MallocResult area memory blocks size p changed after) :
    (p = nullPointer ∧ changed = memory ∧ after = blocks ∧
        ∀ block ∈ blocks, block.used = false → block.size < size) ∨
      ∃ place granted, p = place + 16 ∧
        Granted area memory blocks size place granted changed after := by
  cases result with
  | refused small => exact .inl ⟨rfl, rfl, rfl, small⟩
  | @carved front back found _ split fit room after same =>
      subst split
      refine .inr ⟨area.base + span 16 front + (found - size), size, rfl, after, le_rfl,
        fresh_between (by omega) (by omega), fun other => ?_, ?_⟩
      · rw [usedPlaces_append, usedPlaces_append, usedPlaces_cons_free, usedPlaces_cons_free,
          usedPlaces_cons_used, show area.base + span 16 front + 16 + (found - (size + 16)) =
            area.base + span 16 front + (found - size) by omega,
          show area.base + span 16 front + (found - size) + 16 + size =
            area.base + span 16 front + 16 + found by omega]
        simp only [List.mem_append, List.mem_cons, or_left_comm]
      · rw [usedPlaces_append, usedPlaces_cons_free]
        exact .append (.of_frame fun other _ below => same other (.inl below))
          (.of_frame fun other _ _ => same other (by omega))
  | @whole front back found _ split fit _ after same =>
      subst split
      refine .inr ⟨area.base + span 16 front, found, rfl, after, fit.enough,
        fresh_between le_rfl (by omega), fun other => ?_, ?_⟩
      · rw [usedPlaces_append, usedPlaces_append, usedPlaces_cons_free, usedPlaces_cons_used]
        simp only [List.mem_append, List.mem_cons, or_left_comm]
      · rw [usedPlaces_append, usedPlaces_cons_free]
        exact .append (.of_frame fun other _ below => same other (.inl below))
          (.of_frame fun other _ _ => same other (by omega))

/-! ## `mem_free` -/

/-- What a caller sees of `mem_free`: the place is gone, every other payload in
use is as it was. -/
structure Released (area : Area) (memory : Memory) (blocks : List Block) (place : Nat)
    (changed : Memory) (after : List Block) : Prop where
  represents : Represents area changed after
  places : ∀ other, other ∈ usedPlaces 16 area.base after ↔
    other ∈ usedPlaces 16 area.base blocks ∧ other.1 ≠ place
  kept : PayloadsKept memory changed (usedPlaces 16 area.base after)

/-- `mem_free` of any node on the list, whether it is in use or free already. -/
theorem memFree_chain {area : Area} {memory : Memory} {front back : List Block} {size : Nat}
    {used : Bool} (represents : Represents area memory (front ++ ⟨size, used⟩ :: back)) :
    NodeChain (memFree memory (area.base + span 16 front + 16)) (area.base + 1048576) nullPointer
        area.base (released 16 front size back) ∧
      PayloadsKept memory (memFree memory (area.base + span 16 front + 16))
        (usedPlaces 16 area.base (released 16 front size back)) ∧
      OutsideKept area memory (memFree memory (area.base + span 16 front + 16)) := by
  have fits := area.fits_literal
  have positive := area.base_pos
  have total := represents.total
  simp only [span_append, span_cons] at total
  let node := area.base + span 16 front
  let unmarked := Node.setUsed memory node 0
  let merged := mergeNextNodeIntoCurrent unmarked node
  have unfolded : memFree memory (node + 16) =
      (mergeCurrentNodeIntoPrevious merged.2 merged.1).2 := by
    unfold memFree
    rw [if_neg (by unfold nullPointer; omega), sub32_of_le (by unfold dynamicMemNodeSize; omega)
      (by omega), show node + 16 - dynamicMemNodeSize = node by simp [dynamicMemNodeSize],
      if_neg (by unfold nullPointer; omega)]
  -- the flag, the merge to the right, the merge to the left
  obtain ⟨unmarkedChain, unmarkedSame⟩ :=
    setUsed_chain (NodeChain.append_iff.mp represents.chain).2 false
  obtain ⟨mergedNode, mergedChain, mergedSame, mergedKept⟩ :=
    mergeNext_chain unmarkedChain (by omega) (by omega) fits
  have mergedWhole : NodeChain merged.2 (area.base + 1048576) nullPointer area.base
      (front ++ ⟨(mergeNext 16 size back).1, false⟩ :: (mergeNext 16 size back).2) :=
    represents.chain.splice mergedChain fun other below =>
      (mergedSame other below).trans (unmarkedSame other (by omega))
  have nextSpan := @mergeNext_span 16 size back
  obtain ⟨releasedChain, releasedKept⟩ := mergePrevious_chain mergedWhole
    (by simp only [span_append, span_cons]; omega) positive fits
  have backPlaces := @mergeNext_usedPlaces 16 node size back
  rw [unfolded, show merged.1 = node from mergedNode]
  refine ⟨releasedChain, ?_, fun other outside => ?_⟩
  · rw [backPlaces] at releasedKept
    rw [released_usedPlaces]
    refine PayloadsKept.trans (.append ?_ (.trans ?_ mergedKept)) releasedKept
    · exact .of_frame fun other _ below =>
        (mergedSame other below).trans (unmarkedSame other (by omega))
    · exact .of_frame fun other _ _ => unmarkedSame other (by omega)
  · rw [mergePrevious_outside mergedWhole
      (by simp only [span_append, span_cons]; omega) positive fits outside]
    exact (mergeNext_outside unmarkedChain (by omega) fits (by omega)).trans
      (unmarkedSame other (by omega))

theorem memFree_spec {area : Area} {memory : Memory} {front back : List Block} {size : Nat}
    (represents : Represents area memory (front ++ ⟨size, true⟩ :: back)) :
    Released area memory (front ++ ⟨size, true⟩ :: back) (area.base + span 16 front)
      (memFree memory (area.base + span 16 front + 16)) (released 16 front size back) := by
  obtain ⟨chain, kept, _⟩ := memFree_chain represents
  have total : span 16 (released 16 front size back) = 1048576 := by
    rw [released_span, represents.total]
  exact ⟨⟨chain, total, represents.coalesced.released⟩,
    fun _ => mem_released_usedPlaces (by decide), kept⟩

/-- Freeing a free node that is still on the list changes no block. -/
theorem memFree_again {area : Area} {memory : Memory} {front back : List Block} {size : Nat}
    (represents : Represents area memory (front ++ ⟨size, false⟩ :: back)) :
    Represents area (memFree memory (area.base + span 16 front + 16))
      (front ++ ⟨size, false⟩ :: back) := by
  have chain := (memFree_chain represents).1
  rw [represents.coalesced.released_free] at chain
  exact ⟨chain, represents.total, represents.coalesced⟩

/-! ## Stores into a block in use -/

/-- Bytes stored inside the payload of a used block leave the nodes and every
other payload alone. -/
theorem Represents.store {area : Area} {memory changed : Memory} {blocks : List Block}
    (represents : Represents area memory blocks) {place size : Nat}
    (member : (place, size) ∈ usedPlaces 16 area.base blocks)
    (same : ∀ other, other < place + 16 ∨ place + 16 + size ≤ other →
      changed other = memory other) :
    Represents area changed blocks ∧
      ∀ other ∈ usedPlaces 16 area.base blocks, other.1 ≠ place →
        PayloadKept memory changed other := by
  constructor
  · obtain ⟨front, back, rfl, rfl⟩ := mem_usedPlaces_iff.mp member
    obtain ⟨frontChain, node, behind⟩ := NodeChain.append_iff.mp represents.chain
    refine ⟨represents.chain.splice ⟨node.congr ?_, behind.congr ?_⟩ ?_, represents.total,
      represents.coalesced⟩
    · exact fun other _ _ => same other (by omega)
    · exact fun other (_ : area.base + span 16 front + 16 + size ≤ other) _ => same other (by omega)
    · exact fun other _ => same other (by omega)
  · intro otherPlace otherMember different other low high
    rcases usedPlaces_disjoint member otherMember with equal | below | above
    · exact absurd (congrArg Prod.fst equal).symm different
    · exact same other (by simp only at below; omega)
    · exact same other (by simp only at above; omega)

/-! ## `realloc` -/

private theorem reallocCopy_eq (memory : Memory) {node source target size : Nat}
    (field : Node.size memory node = size) (apart : node + 4 ≤ target ∨ target + size ≤ node)
    (fuel index : Nat) (within : index ≤ size) (enough : size - index < fuel) :
    reallocCopy node source target fuel index (memory.copyForward target source index) =
      some (memory.copyForward target source size) := by
  induction fuel generalizing index with
  | zero => omega
  | succ fuel ih =>
      have stillField : Node.size (memory.copyForward target source index) node = size :=
        (Memory.load32_congr fun _ _ _ => Memory.copyForward_of_outside (by omega)).trans field
      rw [reallocCopy, stillField]
      split
      · exact ih (index + 1) (by omega) (by omega)
      · rw [show index = size by omega]

/-- What a caller sees when `realloc` moves the block of `place`. -/
structure Moved (area : Area) (memory : Memory) (blocks : List Block)
    (place old size newPlace granted : Nat) (changed : Memory) (after : List Block) : Prop where
  represents : Represents area changed after
  enough : size ≤ granted
  fresh : ∀ other, (newPlace, other) ∉ usedPlaces 16 area.base blocks
  places : ∀ other, other ∈ usedPlaces 16 area.base after ↔
    other = (newPlace, granted) ∨ (other ∈ usedPlaces 16 area.base blocks ∧ other.1 ≠ place)
  kept : ∀ other ∈ usedPlaces 16 area.base blocks, other.1 ≠ place →
    PayloadKept memory changed other
  copied : ∀ index, index < old → changed (newPlace + 16 + index) = memory (place + 16 + index)

inductive ReallocResult (area : Area) (memory : Memory) (blocks : List Block)
    (place old size : Nat) : Nat → Memory → List Block → Prop where
  | outside : place + 16 = area.base + dynamicMemTotalSize →
      ReallocResult area memory blocks place old size nullPointer memory blocks
  | refused : old < size → (∀ block ∈ blocks, block.used = false → block.size < size) →
      ReallocResult area memory blocks place old size nullPointer memory blocks
  | fits : size ≤ old →
      ReallocResult area memory blocks place old size (place + 16) memory blocks
  | moved {newPlace granted : Nat} {changed : Memory} {after : List Block} :
      old < size → Moved area memory blocks place old size newPlace granted changed after →
      ReallocResult area memory blocks place old size (newPlace + 16) changed after

/-- The rest of a move: with the new block granted, the bytes are copied and the old block is
released. -/
theorem Granted.moved {area : Area} {memory changed : Memory} {blocks after : List Block}
    {place old size newPlace granted : Nat}
    (grant : Granted area memory blocks size newPlace granted changed after)
    (member : (place, old) ∈ usedPlaces 16 area.base blocks) (larger : old < size) :
    ∃ copy released,
      reallocCopy place (place + 16) (newPlace + 16) (dynamicMemTotalSize + 1) 0 changed = some copy ∧
        Moved area memory blocks place old size newPlace granted (memFree copy (place + 16)) released ∧
        OutsideKept area changed (memFree copy (place + 16)) := by
  have enough := grant.enough
  have oldMember := (grant.places (place, old)).mpr (.inr member)
  have newMember := (grant.places (newPlace, granted)).mpr (.inl rfl)
  have different : ∀ other ∈ usedPlaces 16 area.base blocks, other.1 ≠ newPlace :=
    fun other otherMember same => grant.fresh other.2 (same ▸ otherMember)
  -- the old block is still in use, apart from the new one
  have apart : place + 16 + old ≤ newPlace ∨ newPlace + 16 + granted ≤ place := by
    rcases usedPlaces_disjoint oldMember newMember with same | below | above
    · exact absurd (congrArg Prod.fst same) (different _ member)
    · exact .inl below
    · exact .inr above
  have oldBounds := usedPlaces_bounds oldMember
  have newBounds := usedPlaces_bounds newMember
  have total := grant.represents.total
  obtain ⟨front, back, rfl, rfl⟩ := mem_usedPlaces_iff.mp oldMember
  have field : Node.size changed (area.base + span 16 front) = old :=
    (NodeChain.append_iff.mp grant.represents.chain).2.1.size
  have copyEnds := @reallocCopy_eq changed (area.base + span 16 front)
    (area.base + span 16 front + 16) (newPlace + 16) old field (by omega)
    (dynamicMemTotalSize + 1) 0 (by omega) (by unfold dynamicMemTotalSize; omega)
  have copied : ∀ other, other < newPlace + 16 ∨ newPlace + 16 + granted ≤ other →
      changed.copyForward (newPlace + 16) (area.base + span 16 front + 16) old other =
        changed other :=
    fun other _ => Memory.copyForward_of_outside (by omega)
  obtain ⟨copiedRepresents, copiedKept⟩ := grant.represents.store newMember copied
  have free := memFree_spec copiedRepresents
  have copiedOutside : OutsideKept area changed
      (changed.copyForward (newPlace + 16) (area.base + span 16 front + 16) old) :=
    fun other _ => copied other (by omega)
  refine ⟨_, _, copyEnds, ⟨free.represents, enough, grant.fresh, ?_, ?_, ?_⟩,
    copiedOutside.trans (memFree_chain copiedRepresents).2.2⟩
  · intro other
    rw [free.places, grant.places]
    constructor
    · rintro ⟨same | inBlocks, otherPlace⟩
      · exact .inl same
      · exact .inr ⟨inBlocks, otherPlace⟩
    · rintro (rfl | ⟨inBlocks, otherPlace⟩)
      · exact ⟨.inl rfl, (different _ member).symm⟩
      · exact ⟨.inr inBlocks, otherPlace⟩
  · intro other otherMember otherPlace
    have otherAfter := (grant.places other).mpr (.inr otherMember)
    exact (grant.kept other otherMember).trans
      ((copiedKept other otherAfter (different other otherMember)).trans
        (free.kept other ((free.places other).mpr ⟨otherAfter, otherPlace⟩)))
  · intro index within
    have newKept := free.kept (newPlace, granted)
      ((free.places _).mpr ⟨newMember, (different _ member).symm⟩)
    rw [newKept (newPlace + 16 + index) (by simp only; omega) (by simp only; omega),
      Memory.copyForward_of_disjoint (by omega) within]
    exact grant.kept _ member _ (by simp only; omega) (by simp only; omega)

theorem realloc_result {area : Area} {memory : Memory} {blocks : List Block}
    (represents : Represents area memory blocks) {place old size : Nat}
    (member : (place, old) ∈ usedPlaces 16 area.base blocks) (positive : 0 < size)
    (small : size < 4294967296) :
    ∃ p changed after, realloc area memory (place + 16) size = some (p, changed) ∧
      ReallocResult area memory blocks place old size p changed after ∧
      OutsideKept area memory changed := by
  have fits := area.fits_literal
  have total := represents.total
  have bounds := usedPlaces_bounds member
  have sizeField : Node.size memory place = old := by
    obtain ⟨front, back, rfl, rfl⟩ := mem_usedPlaces_iff.mp member
    exact (NodeChain.append_iff.mp represents.chain).2.1.size
  unfold realloc
  rw [if_neg (by unfold nullPointer; omega), if_neg (by omega)]
  by_cases atEnd : area.base + dynamicMemTotalSize ≤ place + 16
  · rw [if_pos (.inr atEnd)]
    exact ⟨_, _, _, rfl, .outside (by unfold dynamicMemTotalSize at *; omega), fun _ _ => rfl⟩
  have node : sub32 (place + 16) dynamicMemNodeSize = place := by
    rw [dynamicMemNodeSize, sub32_of_le (by omega) (by omega), Nat.add_sub_cancel]
  rw [if_neg (by omega), node]
  simp only [sizeField]
  by_cases large : size ≤ old
  · rw [if_pos large]
    exact ⟨_, _, _, rfl, .fits large, fun _ _ => rfl⟩
  have larger : old < size := Nat.not_le.mp large
  rw [if_neg large]
  obtain ⟨newP, changed, after, called, result, mallocOutside⟩ := malloc_result represents small
  rw [called]
  rcases result.granted with ⟨rfl, rfl, rfl, refused⟩ | ⟨newPlace, granted, rfl, grant⟩
  · exact ⟨_, _, _, if_pos rfl, .refused larger refused, fun _ _ => rfl⟩
  · obtain ⟨copy, released, copyEnds, moved, copyOutside⟩ := grant.moved member larger
    simp only [copyEnds]
    rw [if_neg (by unfold nullPointer; omega)]
    exact ⟨_, _, _, rfl, .moved larger moved, mallocOutside.trans copyOutside⟩

theorem realloc_spec {area : Area} {memory : Memory} {blocks : List Block}
    (represents : Represents area memory blocks) {place old size : Nat}
    (member : (place, old) ∈ usedPlaces 16 area.base blocks) (positive : 0 < size)
    (small : size < 4294967296) :
    ∃ p changed after, realloc area memory (place + 16) size = some (p, changed) ∧
      ReallocResult area memory blocks place old size p changed after := by
  obtain ⟨p, changed, after, called, result, _⟩ := realloc_result represents member positive small
  exact ⟨p, changed, after, called, result⟩

end ShedKernel.Heap
