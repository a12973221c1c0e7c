import ShedKernel.Foundation.BlockList
import ShedKernel.Heap.Allocator

/-! Memories that hold a doubly linked list of nodes laid out back to back, and
the four in-place edits of `mm.c` on such a list. A free block is `⟨size, false⟩`
and headers are 16 bytes wide. -/

set_option autoImplicit false

namespace ShedKernel.Heap

open Foundation BlockList

/-- The pointer to the node at `address`, null for the end of the area. -/
def link (stop address : Nat) : Nat := if address = stop then nullPointer else address

structure NodeAt (memory : Memory) (stop prev address : Nat) (block : Block) : Prop where
  size : Node.size memory address = block.size
  used : Node.used memory address = if block.used then 1 else 0
  next : Node.next memory address = link stop (address + 16 + block.size)
  prev : Node.prev memory address = prev

/-- The blocks lie back to back from `address`, linked both ways; `prev` is the
node in front of the first one. -/
def NodeChain (memory : Memory) (stop : Nat) : Nat → Nat → List Block → Prop
  | _, _, [] => True
  | prev, address, block :: rest =>
      NodeAt memory stop prev address block ∧
        NodeChain memory stop address (address + 16 + block.size) rest

def lastNode : Nat → Nat → List Block → Nat
  | prev, _, [] => prev
  | _, address, block :: rest => lastNode address (address + 16 + block.size) rest

theorem lastNode_append (prev address : Nat) (front back : List Block) :
    lastNode prev address (front ++ back) =
      lastNode (lastNode prev address front) (address + span 16 front) back := by
  induction front generalizing prev address with
  | nil => rfl
  | cons block rest ih =>
      simp only [List.cons_append, lastNode, ih, span_cons]
      rw [show address + 16 + block.size + span 16 rest =
        address + (16 + block.size + span 16 rest) by omega]

theorem link_of_ne {stop address : Nat} (inside : address ≠ stop) : link stop address = address :=
  if_neg inside

theorem link_of_eq {stop address : Nat} (ended : address = stop) : link stop address = nullPointer :=
  if_pos ended

@[simp] theorem link_self (stop : Nat) : link stop stop = nullPointer := link_of_eq rfl

theorem link_lt {stop address limit : Nat} (bounded : address < limit) : link stop address < limit := by
  unfold link nullPointer
  split <;> omega

namespace NodeAt

variable {memory changed : Memory} {stop prev address : Nat} {block : Block}

theorem congr (node : NodeAt memory stop prev address block)
    (same : ∀ other, address ≤ other → other < address + 16 → changed other = memory other) :
    NodeAt changed stop prev address block where
  size := (Memory.load32_congr fun _ _ _ => same _ (by omega) (by omega)).trans node.size
  used := (Memory.load32_congr fun _ _ _ => same _ (by omega) (by omega)).trans node.used
  next := (Memory.load32_congr fun _ _ _ => same _ (by omega) (by omega)).trans node.next
  prev := (Memory.load32_congr fun _ _ _ => same _ (by omega) (by omega)).trans node.prev

end NodeAt

namespace NodeChain

variable {memory changed : Memory} {stop prev address : Nat}

theorem congr {blocks : List Block} (chain : NodeChain memory stop prev address blocks)
    (same : ∀ other, address ≤ other → other < address + span 16 blocks →
      changed other = memory other) :
    NodeChain changed stop prev address blocks := by
  induction blocks generalizing prev address with
  | nil => trivial
  | cons block rest ih =>
      simp only [span_cons] at same
      exact ⟨chain.1.congr fun other _ _ => same other (by omega) (by omega),
        ih chain.2 fun other _ _ => same other (by omega) (by omega)⟩

theorem append_iff {front back : List Block} :
    NodeChain memory stop prev address (front ++ back) ↔
      NodeChain memory stop prev address front ∧
        NodeChain memory stop (lastNode prev address front) (address + span 16 front) back := by
  induction front generalizing prev address with
  | nil => simp [NodeChain, lastNode]
  | cons block rest ih =>
      simp only [List.cons_append, NodeChain, ih, lastNode, span_cons, and_assoc]
      rw [show address + 16 + block.size + span 16 rest =
        address + (16 + block.size + span 16 rest) by omega]

end NodeChain

/-! ## The guarded back-link fix-up -/

theorem setPrevUnlessNull_of_outside {memory : Memory} {stop address value other : Nat}
    (outside : other < address ∨ address + 16 ≤ other) :
    Node.setPrevUnlessNull memory (link stop address) value other = memory other := by
  by_cases ended : address = stop
  · simp [Node.setPrevUnlessNull, link, ended]
  · rw [link_of_ne ended]
    unfold Node.setPrevUnlessNull
    split
    · rfl
    · exact Memory.store32_of_outside (by omega)

theorem load32_setPrevUnlessNull {memory : Memory} {stop address value other : Nat}
    (disjoint : other + 4 ≤ address ∨ address + 16 ≤ other) :
    (Node.setPrevUnlessNull memory (link stop address) value).load32 other =
      memory.load32 other :=
  Memory.load32_congr fun _ _ _ => setPrevUnlessNull_of_outside (by omega)

/-- The fix-up makes `value` the predecessor of the nodes from `address` on. -/
theorem NodeChain.relink {memory : Memory} {stop prev address value : Nat} {blocks : List Block}
    (chain : NodeChain memory stop prev address blocks)
    (ends : address + span 16 blocks = stop) (positive : 0 < address)
    (small : value < 4294967296) :
    NodeChain (Node.setPrevUnlessNull memory (link stop address) value) stop value address
      blocks := by
  cases blocks with
  | nil => trivial
  | cons block rest =>
      simp only [span_cons] at ends
      have stored : Node.setPrevUnlessNull memory (link stop address) value =
          memory.store32 (address + 12) value := by
        rw [link_of_ne (by omega)]
        exact if_neg (by unfold nullPointer; omega)
      rw [stored]
      refine ⟨⟨?_, ?_, ?_, Memory.load32_store32_of_lt small⟩, ?_⟩
      · exact (Memory.load32_store32_of_disjoint (by omega)).trans chain.1.size
      · exact (Memory.load32_store32_of_disjoint (by omega)).trans chain.1.used
      · exact (Memory.load32_store32_of_disjoint (by omega)).trans chain.1.next
      · exact chain.2.congr fun other _ _ => Memory.store32_of_outside (by omega)

end ShedKernel.Heap
