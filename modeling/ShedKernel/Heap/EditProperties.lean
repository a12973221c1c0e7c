import ShedKernel.Heap.NodeChain

/-! What the in-place edits of `malloc` and `mem_free` do to a chain of nodes,
and that none of them writes into the payload of a used block. -/

set_option autoImplicit false

namespace ShedKernel.Heap

open Foundation BlockList

/-- The payload of a used block holds the same bytes in both memories. -/
def PayloadKept (memory changed : Memory) (place : Nat × Nat) : Prop :=
  ∀ other, place.1 + 16 ≤ other → other < place.1 + 16 + place.2 → changed other = memory other

def PayloadsKept (memory changed : Memory) (places : List (Nat × Nat)) : Prop :=
  ∀ place ∈ places, PayloadKept memory changed place

theorem PayloadKept.trans {memory middle changed : Memory} {place : Nat × Nat}
    (first : PayloadKept memory middle place) (second : PayloadKept middle changed place) :
    PayloadKept memory changed place :=
  fun other low high => (second other low high).trans (first other low high)

namespace PayloadsKept

variable {memory middle changed : Memory} {places others : List (Nat × Nat)}

theorem refl (memory : Memory) (places : List (Nat × Nat)) : PayloadsKept memory memory places :=
  fun _ _ _ _ _ => rfl

theorem trans (first : PayloadsKept memory middle places)
    (second : PayloadsKept middle changed places) : PayloadsKept memory changed places :=
  fun place member => (first place member).trans (second place member)

theorem append (left : PayloadsKept memory changed places)
    (right : PayloadsKept memory changed others) :
    PayloadsKept memory changed (places ++ others) := by
  intro place member
  cases List.mem_append.mp member with
  | inl inLeft => exact left place inLeft
  | inr inRight => exact right place inRight

/-- Payloads of blocks laid out from `start` lie past the first header. -/
theorem of_frame {start : Nat} {blocks : List Block}
    (same : ∀ other, start + 16 ≤ other → other < start + span 16 blocks →
      changed other = memory other) :
    PayloadsKept memory changed (usedPlaces 16 start blocks) := by
  rintro ⟨place, size⟩ member other low high
  have bounds := usedPlaces_bounds member
  exact same other (by omega) (by omega)

end PayloadsKept

theorem NodeChain.splice {memory changed : Memory} {stop prev base : Nat}
    {front tail edited : List Block}
    (chain : NodeChain memory stop prev base (front ++ tail))
    (tailEdited : NodeChain changed stop (lastNode prev base front) (base + span 16 front) edited)
    (same : ∀ other, other < base + span 16 front → changed other = memory other) :
    NodeChain changed stop prev base (front ++ edited) :=
  append_iff.mpr
    ⟨(append_iff.mp chain).1.congr fun other _ below => same other below, tailEdited⟩

section Carve

/-- The four stores that fill in a new header. -/
private def storeNode (memory : Memory) (node size next prev : Nat) : Memory :=
  Node.setPrev (Node.setNext (Node.setUsed (Node.setSize memory node size) node 1) node next)
    node prev

variable {memory : Memory} {stop prev block size taken : Nat} {back : List Block}

/-- The new node ends where the carved block ended. -/
theorem carveTail_node (node : NodeAt memory stop prev block ⟨size, false⟩)
    (inside : block + 16 + size ≤ stop) (fits : stop < 4294967296) (room : taken + 16 ≤ size) :
    (carveTail memory block taken).1 = block + (size - taken) := by
  have sizeField : Node.size memory block = size := node.size
  simp (disch := omega) only [carveTail, dynamicMemNodeSize, sizeField, add32_of_lt, sub32_of_le]
  omega

/-- The stores of `carveTail`, with every value they read resolved. -/
private theorem carveTail_memory (node : NodeAt memory stop prev block ⟨size, false⟩)
    (inside : block + 16 + size ≤ stop) (fits : stop < 4294967296) (room : taken + 16 ≤ size) :
    (carveTail memory block taken).2 =
      Node.setSize (Node.setNext (Node.setPrevUnlessNull
        (storeNode memory (block + (size - taken)) taken (link stop (block + 16 + size)) block)
        (link stop (block + 16 + size)) (block + (size - taken)))
        block (block + (size - taken))) block (size - (taken + 16)) := by
  have carvedNode := carveTail_node node inside fits room
  have sizeField : memory.load32 block = size := node.size
  have nextField : memory.load32 (block + 8) = link stop (block + 16 + size) := node.next
  simp only [carveTail] at carvedNode ⊢
  simp only [carvedNode]
  -- every load of the block's own header skips the stores into the new node
  simp (disch := omega) only [storeNode, Node.size, Node.next, Node.setSize, Node.setUsed,
    Node.setNext, Node.setPrev, Memory.load32_store32_of_disjoint, nextField,
    load32_setPrevUnlessNull, sizeField, dynamicMemNodeSize, add32_of_lt, sub32_of_le]

theorem carveTail_chain (node : NodeAt memory stop prev block ⟨size, false⟩)
    (behind : NodeChain memory stop block (block + 16 + size) back)
    (ends : block + 16 + size + span 16 back = stop) (positive : 0 < block)
    (fits : stop < 4294967296) (room : taken + 16 ≤ size) :
    NodeChain (carveTail memory block taken).2 stop prev block
        (⟨size - (taken + 16), false⟩ :: ⟨taken, true⟩ :: back) ∧
      ∀ other, other < block ∨ block + 32 + size ≤ other →
        (carveTail memory block taken).2 other = memory other := by
  rw [carveTail_memory node (by omega) fits room]
  have newNode : block + 16 + (size - (taken + 16)) = block + (size - taken) := by omega
  have newEnd : block + (size - taken) + 16 + taken = block + 16 + size := by omega
  have linkBound := @link_lt stop (block + 16 + size) 4294967296 (by omega)
  have usedField : memory.load32 (block + 4) = 0 := node.used
  have prevField : memory.load32 (block + 12) = prev := node.prev
  constructor
  · refine ⟨⟨?_, ?_, ?_, ?_⟩, ⟨?_, ?_, ?_, ?_⟩, ?_⟩
    · exact Memory.load32_store32_of_lt (by omega)
    · simp (disch := omega) only [storeNode, Node.used, Node.setSize, Node.setUsed, Node.setNext, Node.setPrev,
        Memory.load32_store32_of_disjoint, load32_setPrevUnlessNull, usedField]
      rfl
    · simp (disch := omega) only [Node.next, Node.setSize, Node.setNext,
        Memory.load32_store32_of_disjoint, Memory.load32_store32_of_lt]
      rw [newNode, link_of_ne (by omega)]
    · simp (disch := omega) only [storeNode, Node.prev, Node.setSize, Node.setUsed, Node.setNext, Node.setPrev,
        Memory.load32_store32_of_disjoint, load32_setPrevUnlessNull, prevField]
    all_goals rw [newNode]
    · simp (disch := omega) only [storeNode, Node.size, Node.setSize, Node.setUsed, Node.setNext, Node.setPrev,
        Memory.load32_store32_of_disjoint, load32_setPrevUnlessNull, Memory.load32_store32_of_lt]
    · simp (disch := omega) only [storeNode, Node.used, Node.setSize, Node.setUsed, Node.setNext, Node.setPrev,
        Memory.load32_store32_of_disjoint, load32_setPrevUnlessNull, Memory.load32_store32_of_lt]
      rfl
    · simp (disch := omega) only [storeNode, Node.next, Node.setSize, Node.setNext, Node.setPrev,
        Memory.load32_store32_of_disjoint, load32_setPrevUnlessNull, Memory.load32_store32_of_lt,
        newEnd]
    · simp (disch := omega) only [storeNode, Node.prev, Node.setSize, Node.setNext, Node.setPrev,
        Memory.load32_store32_of_disjoint, load32_setPrevUnlessNull, Memory.load32_store32_of_lt]
    · -- the nodes behind see only their back link change
      show NodeChain _ stop (block + (size - taken)) (block + (size - taken) + 16 + taken) back
      rw [newEnd]
      have filled : NodeChain (storeNode memory (block + (size - taken)) taken
          (link stop (block + 16 + size)) block) stop block (block + 16 + size) back :=
        behind.congr fun other _ _ => by
          simp (disch := omega) only [storeNode, Node.setSize, Node.setUsed, Node.setNext,
            Node.setPrev, Memory.store32_of_outside]
      refine (filled.relink ends (by omega) (by omega)).congr fun other _ _ => ?_
      simp (disch := omega) only [Node.setSize, Node.setNext, Memory.store32_of_outside]
  · intro other outside
    simp (disch := omega) only [storeNode, Node.setSize, Node.setUsed, Node.setNext, Node.setPrev,
      Memory.store32_of_outside, setPrevUnlessNull_of_outside]

/-- The fix-up of a back link stays in front of the end of the area. -/
private theorem setPrevUnlessNull_of_end {address value other : Nat}
    (room : address = stop ∨ address + 16 ≤ stop) (outside : other < address ∨ stop ≤ other) :
    Node.setPrevUnlessNull memory (link stop address) value other = memory other := by
  cases room with
  | inl ended =>
      rw [link_of_eq ended]
      rfl
  | inr inside => exact setPrevUnlessNull_of_outside (by omega)

theorem carveTail_outside (node : NodeAt memory stop prev block ⟨size, false⟩)
    (ends : block + 16 + size + span 16 back = stop) (fits : stop < 4294967296)
    (room : taken + 16 ≤ size) {other : Nat} (outside : other < block ∨ stop ≤ other) :
    (carveTail memory block taken).2 other = memory other := by
  have next := end_or_header ends
  rw [carveTail_memory node (by omega) fits room, Node.setSize, Memory.store32_of_outside (by omega),
    Node.setNext, Memory.store32_of_outside (by omega), setPrevUnlessNull_of_end next (by omega)]
  simp (disch := omega) only [storeNode, Node.setSize, Node.setUsed, Node.setNext, Node.setPrev,
    Memory.store32_of_outside]

end Carve

section Mark

variable {memory : Memory} {stop prev block size : Nat} {used : Bool} {back : List Block}

theorem setUsed_chain (chain : NodeChain memory stop prev block (⟨size, used⟩ :: back))
    (mark : Bool) :
    NodeChain (Node.setUsed memory block (if mark then 1 else 0)) stop prev block
        (⟨size, mark⟩ :: back) ∧
      ∀ other, other < block + 4 ∨ block + 8 ≤ other →
        Node.setUsed memory block (if mark then 1 else 0) other = memory other := by
  obtain ⟨node, behind⟩ := chain
  refine ⟨⟨⟨?_, ?_, ?_, ?_⟩, ?_⟩, fun other _ => Memory.store32_of_outside (by omega)⟩
  · exact (Memory.load32_store32_of_disjoint (by omega)).trans node.size
  · exact Memory.load32_store32_of_lt (by split <;> omega)
  · exact (Memory.load32_store32_of_disjoint (by omega)).trans node.next
  · exact (Memory.load32_store32_of_disjoint (by omega)).trans node.prev
  · exact behind.congr fun other _ _ => Memory.store32_of_outside (by omega)

end Mark

section Merge

/-- The three stores shared by both merges: `node` takes the given size and
successor. -/
private def absorb (memory : Memory) (node size next : Nat) : Memory :=
  Node.setPrevUnlessNull (Node.setNext (Node.setSize memory node size) node next) next node

variable {memory : Memory} {stop prev block size extra : Nat} {used : Bool} {back : List Block}

private theorem absorb_chain
    (chain : NodeChain memory stop prev block (⟨size, false⟩ :: ⟨extra, used⟩ :: back))
    (ends : block + 16 + size + 16 + extra + span 16 back = stop) (positive : 0 < block)
    (fits : stop < 4294967296) :
    NodeChain (absorb memory block (size + (extra + 16))
        (link stop (block + 16 + size + 16 + extra))) stop prev block
        (⟨size + (extra + 16), false⟩ :: back) ∧
      ∀ other, (other < block ∨ block + 16 ≤ other ∧
          (other < block + 16 + size + 16 + extra ∨ block + 16 + size + 16 + extra + 16 ≤ other)) →
        absorb memory block (size + (extra + 16))
          (link stop (block + 16 + size + 16 + extra)) other = memory other := by
  obtain ⟨node, absorbed, behind⟩ := chain
  have linkBound := @link_lt stop (block + 16 + size + 16 + extra) 4294967296 (by omega)
  have usedField : memory.load32 (block + 4) = 0 := node.used
  have prevField : memory.load32 (block + 12) = prev := node.prev
  have grownEnd : block + 16 + (size + (extra + 16)) = block + 16 + size + 16 + extra := by omega
  constructor
  · refine ⟨⟨?_, ?_, ?_, ?_⟩, ?_⟩
    · simp (disch := omega) only [absorb, Node.size, Node.setSize, Node.setNext,
        Memory.load32_store32_of_disjoint, load32_setPrevUnlessNull, Memory.load32_store32_of_lt]
    · simp (disch := omega) only [absorb, Node.used, Node.setSize, Node.setNext,
        Memory.load32_store32_of_disjoint, load32_setPrevUnlessNull, usedField]
      rfl
    · simp (disch := omega) only [absorb, Node.next, Node.setSize, Node.setNext,
        load32_setPrevUnlessNull, Memory.load32_store32_of_lt, grownEnd]
    · simp (disch := omega) only [absorb, Node.prev, Node.setSize, Node.setNext,
        Memory.load32_store32_of_disjoint, load32_setPrevUnlessNull, prevField]
    · rw [grownEnd]
      have resized : NodeChain (Node.setNext (Node.setSize memory block (size + (extra + 16))) block
          (link stop (block + 16 + size + 16 + extra))) stop (block + 16 + size)
          (block + 16 + size + 16 + extra) back :=
        behind.congr fun other _ _ => by
          simp (disch := omega) only [Node.setSize, Node.setNext, Memory.store32_of_outside]
      exact resized.relink ends (by omega) (by omega)
  · intro other outside
    simp (disch := omega) only [absorb, Node.setSize, Node.setNext, Memory.store32_of_outside,
      setPrevUnlessNull_of_outside]

private theorem absorb_outside {grown : Nat}
    (ends : block + 16 + size + 16 + extra + span 16 back = stop) {other : Nat}
    (outside : other < block ∨ stop ≤ other) :
    absorb memory block grown (link stop (block + 16 + size + 16 + extra)) other =
      memory other := by
  have next := end_or_header ends
  rw [absorb, setPrevUnlessNull_of_end next (by omega), Node.setNext,
    Memory.store32_of_outside (by omega), Node.setSize, Memory.store32_of_outside (by omega)]

/-- The stores of `merge_next_node_into_current` when it merges. -/
private theorem mergeNext_absorbs
    (chain : NodeChain memory stop prev block (⟨size, false⟩ :: ⟨extra, false⟩ :: back))
    (ends : block + 16 + size + 16 + extra + span 16 back = stop)
    (fits : stop < 4294967296) :
    mergeNextNodeIntoCurrent memory block =
      (block, absorb memory block (size + (extra + 16))
        (link stop (block + 16 + size + 16 + extra))) := by
  obtain ⟨node, next, _⟩ := chain
  have linkBound := @link_lt stop (block + 16 + size + 16 + extra) 4294967296 (by omega)
  have nextField : Node.next memory block = block + 16 + size :=
    node.next.trans (link_of_ne (by simp only; omega))
  have usedField : Node.used memory (block + 16 + size) = 0 := next.used
  have sizeField : Node.size memory block = size := node.size
  have nextSize : Node.size memory (block + 16 + size) = extra := next.size
  have nextNext : memory.load32 (block + 16 + size + 8) =
      link stop (block + 16 + size + 16 + extra) := next.next
  unfold mergeNextNodeIntoCurrent
  simp only [nextField, usedField, sizeField, nextSize]
  rw [if_pos ⟨by unfold nullPointer; omega, trivial⟩]
  simp (disch := omega) only [absorb, Node.next, Node.setSize, Node.setNext, dynamicMemNodeSize,
    Memory.load32_store32_of_disjoint, Memory.load32_store32_of_lt, add32_of_lt, nextNext]

theorem mergeNext_chain
    (chain : NodeChain memory stop prev block (⟨size, false⟩ :: back))
    (ends : block + 16 + size + span 16 back = stop) (positive : 0 < block)
    (fits : stop < 4294967296) :
    (mergeNextNodeIntoCurrent memory block).1 = block ∧
      NodeChain (mergeNextNodeIntoCurrent memory block).2 stop prev block
        (⟨(mergeNext 16 size back).1, false⟩ :: (mergeNext 16 size back).2) ∧
      (∀ other, other < block → (mergeNextNodeIntoCurrent memory block).2 other = memory other) ∧
      PayloadsKept memory (mergeNextNodeIntoCurrent memory block).2
        (usedPlaces 16 (block + 16 + size) back) := by
  have nextField : Node.next memory block = link stop (block + 16 + size) := chain.1.next
  rcases back with _ | ⟨⟨extra, _ | _⟩, rest⟩
  · have untouched : mergeNextNodeIntoCurrent memory block = (block, memory) := by
      unfold mergeNextNodeIntoCurrent
      rw [nextField, ← ends]
      exact if_neg fun merges => merges.1 (link_self _)
    rw [untouched]
    exact ⟨rfl, chain, fun _ _ => rfl, .refl _ _⟩
  · simp only [span_cons] at ends
    rw [mergeNext_absorbs chain (by omega) fits]
    obtain ⟨merged, same⟩ := absorb_chain chain (by omega) positive fits
    refine ⟨rfl, merged, fun other below => same other (.inl below), ?_⟩
    rw [usedPlaces_cons_free]
    exact PayloadsKept.of_frame fun other _ _ => same other (by omega)
  · simp only [span_cons] at ends
    have usedField : Node.used memory (block + 16 + size) = 1 := chain.2.1.used
    have untouched : mergeNextNodeIntoCurrent memory block = (block, memory) := by
      unfold mergeNextNodeIntoCurrent
      rw [nextField, link_of_ne (by omega)]
      exact if_neg fun merges => Nat.one_ne_zero (usedField.symm.trans merges.2)
    rw [untouched]
    exact ⟨rfl, chain, fun _ _ => rfl, .refl _ _⟩

theorem mergeNext_outside
    (chain : NodeChain memory stop prev block (⟨size, false⟩ :: back))
    (ends : block + 16 + size + span 16 back = stop) (fits : stop < 4294967296) {other : Nat}
    (outside : other < block ∨ stop ≤ other) :
    (mergeNextNodeIntoCurrent memory block).2 other = memory other := by
  by_cases merges : Node.next memory block ≠ nullPointer ∧
      Node.used memory (Node.next memory block) = 0
  · rcases back with _ | ⟨⟨extra, _ | _⟩, rest⟩
    · have nextField : Node.next memory block = link stop (block + 16 + size) := chain.1.next
      rw [nextField, ← ends] at merges
      exact absurd (link_self _) merges.1
    · simp only [span_cons] at ends
      have whole : block + 16 + size + 16 + extra + span 16 rest = stop := by omega
      rw [mergeNext_absorbs chain whole fits]
      exact absorb_outside whole outside
    · simp only [span_cons] at ends
      have nextField : Node.next memory block = link stop (block + 16 + size) := chain.1.next
      have usedField : Node.used memory (block + 16 + size) = 1 := chain.2.1.used
      rw [nextField, link_of_ne (by omega)] at merges
      exact absurd (usedField.symm.trans merges.2) Nat.one_ne_zero
  · unfold mergeNextNodeIntoCurrent
    exact congrFun (congrArg Prod.snd (if_neg merges)) other

/-- The stores of `merge_current_node_into_previous` when it merges. -/
private theorem mergePrevious_absorbs
    (chain : NodeChain memory stop prev block (⟨size, false⟩ :: ⟨extra, false⟩ :: back))
    (ends : block + 16 + size + 16 + extra + span 16 back = stop) (positive : 0 < block)
    (fits : stop < 4294967296) :
    mergeCurrentNodeIntoPrevious memory (block + 16 + size) =
      (block, absorb memory block (size + (extra + 16))
        (link stop (block + 16 + size + 16 + extra))) := by
  obtain ⟨node, next, _⟩ := chain
  have linkBound := @link_lt stop (block + 16 + size + 16 + extra) 4294967296 (by omega)
  have prevField : Node.prev memory (block + 16 + size) = block := next.prev
  have usedField : Node.used memory block = 0 := node.used
  have sizeField : Node.size memory block = size := node.size
  have nextSize : Node.size memory (block + 16 + size) = extra := next.size
  have nextNext : memory.load32 (block + 16 + size + 8) =
      link stop (block + 16 + size + 16 + extra) := next.next
  unfold mergeCurrentNodeIntoPrevious
  simp only [prevField, usedField, sizeField, nextSize]
  rw [if_pos ⟨by unfold nullPointer; omega, trivial⟩]
  simp (disch := omega) only [absorb, Node.next, Node.setSize, Node.setNext, dynamicMemNodeSize,
    Memory.load32_store32_of_disjoint, add32_of_lt, nextNext]

theorem mergePrevious_chain {base : Nat} {front : List Block}
    (chain : NodeChain memory stop nullPointer base (front ++ ⟨size, false⟩ :: back))
    (ends : base + span 16 (front ++ ⟨size, false⟩ :: back) = stop) (positive : 0 < base)
    (fits : stop < 4294967296) :
    NodeChain (mergeCurrentNodeIntoPrevious memory (base + span 16 front)).2 stop nullPointer base
        (mergePrevious 16 front size ++ back) ∧
      PayloadsKept memory (mergeCurrentNodeIntoPrevious memory (base + span 16 front)).2
        (usedPlaces 16 base front ++
          usedPlaces 16 (base + span 16 front + 16 + size) back) := by
  have prevField : Node.prev memory (base + span 16 front) = lastNode nullPointer base front :=
    (NodeChain.append_iff.mp chain).2.1.prev
  rcases front_cases front with rfl | ⟨earlier, previous, rfl⟩ | ⟨earlier, previous, rfl⟩
  · have untouched : (mergeCurrentNodeIntoPrevious memory (base + span 16 [])).2 = memory := by
      unfold mergeCurrentNodeIntoPrevious
      rw [prevField]
      exact congrArg Prod.snd (if_neg fun merges => merges.1 rfl)
    rw [untouched]
    exact ⟨chain, .refl _ _⟩
  · rw [List.append_assoc] at chain
    simp only [span_append, span_cons, span_nil] at ends ⊢
    have tail := (NodeChain.append_iff.mp chain).2
    have node : base + (span 16 earlier + (16 + previous + 0)) =
        base + span 16 earlier + 16 + previous := by omega
    rw [node, mergePrevious_absorbs tail (by omega) (by omega) fits, mergePrevious_free,
      List.append_assoc]
    obtain ⟨merged, same⟩ := absorb_chain tail (by omega) (by omega) fits
    refine ⟨chain.splice merged fun other below => same other (.inl below), .append ?_ ?_⟩
    · rw [usedPlaces_append, usedPlaces_cons_free, usedPlaces_nil, List.append_nil]
      exact PayloadsKept.of_frame fun other _ below => same other (.inl below)
    · exact PayloadsKept.of_frame fun other _ _ => same other (by omega)
  · have untouched :
        (mergeCurrentNodeIntoPrevious memory (base + span 16 (earlier ++ [⟨previous, true⟩]))).2 =
          memory := by
      have usedField : Node.used memory (base + span 16 earlier) = 1 := by
        rw [List.append_assoc] at chain
        exact (NodeChain.append_iff.mp chain).2.1.used
      unfold mergeCurrentNodeIntoPrevious
      rw [prevField, lastNode_append]
      exact congrArg Prod.snd
        (if_neg fun merges => Nat.one_ne_zero (usedField.symm.trans merges.2))
    rw [untouched, mergePrevious_used, List.append_assoc]
    exact ⟨by simpa using chain, .refl _ _⟩

theorem mergePrevious_outside {base : Nat} {front : List Block}
    (chain : NodeChain memory stop nullPointer base (front ++ ⟨size, false⟩ :: back))
    (ends : base + span 16 (front ++ ⟨size, false⟩ :: back) = stop) (positive : 0 < base)
    (fits : stop < 4294967296) {other : Nat} (outside : other < base ∨ stop ≤ other) :
    (mergeCurrentNodeIntoPrevious memory (base + span 16 front)).2 other = memory other := by
  have prevField : Node.prev memory (base + span 16 front) = lastNode nullPointer base front :=
    (NodeChain.append_iff.mp chain).2.1.prev
  by_cases merges : Node.prev memory (base + span 16 front) ≠ nullPointer ∧
      Node.used memory (Node.prev memory (base + span 16 front)) = 0
  · rw [prevField] at merges
    rcases front_cases front with rfl | ⟨earlier, previous, rfl⟩ | ⟨earlier, previous, rfl⟩
    · exact absurd rfl merges.1
    · rw [List.append_assoc] at chain
      simp only [span_append, span_cons, span_nil] at ends ⊢
      have tail := (NodeChain.append_iff.mp chain).2
      have node : base + (span 16 earlier + (16 + previous + 0)) =
          base + span 16 earlier + 16 + previous := by omega
      have whole : base + span 16 earlier + 16 + previous + 16 + size + span 16 back = stop := by
        omega
      rw [node, mergePrevious_absorbs tail whole (by omega) fits]
      exact absorb_outside whole (by omega)
    · rw [List.append_assoc] at chain
      have usedField : Node.used memory (base + span 16 earlier) = 1 :=
        (NodeChain.append_iff.mp chain).2.1.used
      rw [lastNode_append] at merges
      exact absurd (usedField.symm.trans merges.2) Nat.one_ne_zero
  · unfold mergeCurrentNodeIntoPrevious
    exact congrFun (congrArg Prod.snd (if_neg merges)) other

end Merge

end ShedKernel.Heap
