import ShedKernel.Foundation.ByteMemory
import ShedKernel.Foundation.Word32

/-! The dynamic heap of `mm.c`: a best-fit allocator over a doubly linked list
of nodes whose headers lie in front of their payloads in `dynamic_mem_area`. -/

set_option autoImplicit false

namespace ShedKernel.Heap

open Foundation

def dynamicMemTotalSize : Nat := 1048576

/-- `sizeof(dynamic_mem_node_t)`: four 32-bit fields. -/
def dynamicMemNodeSize : Nat := 16

def nullPointer : Nat := 0

/-- Where the linker puts `dynamic_mem_area`. As for any C array, its address is
not null and its one-past-the-end pointer does not wrap. -/
structure Area where
  base : Nat
  base_pos : 0 < base
  fits : base + dynamicMemTotalSize < 4294967296

/-! Fields of a `dynamic_mem_node_t` at a given address. -/

namespace Node

def size (memory : Memory) (node : Nat) : Nat := memory.load32 node

def used (memory : Memory) (node : Nat) : Nat := memory.load32 (node + 4)

def next (memory : Memory) (node : Nat) : Nat := memory.load32 (node + 8)

def prev (memory : Memory) (node : Nat) : Nat := memory.load32 (node + 12)

def setSize (memory : Memory) (node value : Nat) : Memory := memory.store32 node value

def setUsed (memory : Memory) (node value : Nat) : Memory := memory.store32 (node + 4) value

def setNext (memory : Memory) (node value : Nat) : Memory := memory.store32 (node + 8) value

def setPrev (memory : Memory) (node value : Nat) : Memory := memory.store32 (node + 12) value

/-- The guarded fix-up of a neighbour's back link. -/
def setPrevUnlessNull (memory : Memory) (node value : Nat) : Memory :=
  if node = nullPointer then memory else setPrev memory node value

end Node

def initDynamicMem (area : Area) (memory : Memory) : Memory :=
  let memory := Node.setSize memory area.base (dynamicMemTotalSize - dynamicMemNodeSize)
  let memory := Node.setNext memory area.base nullPointer
  let memory := Node.setPrev memory area.base nullPointer
  Node.setUsed memory area.base 0

/-- One more turn than the area has room for nodes. -/
def nodeLimit : Nat := dynamicMemTotalSize / dynamicMemNodeSize + 1

/-- The loop of `find_best_mem_block`; `none` when the list does not end within
the given number of turns. -/
def scanNodes (memory : Memory) (size : Nat) : Nat → Nat → Nat → Nat → Option Nat
  | 0, _, _, _ => none
  | fuel + 1, cur, best, bestSize =>
      if cur = nullPointer then some best
      else if Node.used memory cur = 0 ∧ size ≤ Node.size memory cur ∧
          Node.size memory cur ≤ bestSize then
        scanNodes memory size fuel (Node.next memory cur) cur (Node.size memory cur)
      else scanNodes memory size fuel (Node.next memory cur) best bestSize

def findBestMemBlock (memory : Memory) (heap size : Nat) : Option Nat :=
  scanNodes memory size nodeLimit heap nullPointer (dynamicMemTotalSize + 1)

/-- The first branch of `malloc`: a new node in the tail of `block`. Returns the
new node. -/
def carveTail (memory : Memory) (block size : Nat) : Nat × Memory :=
  let newNode := sub32 (sub32 (add32 (add32 block dynamicMemNodeSize)
    (Node.size memory block)) size) dynamicMemNodeSize
  let memory := Node.setSize memory newNode size
  let memory := Node.setUsed memory newNode 1
  let memory := Node.setNext memory newNode (Node.next memory block)
  let memory := Node.setPrev memory newNode block
  let memory := Node.setPrevUnlessNull memory (Node.next memory block) newNode
  let memory := Node.setNext memory block newNode
  let memory := Node.setSize memory block
    (sub32 (Node.size memory block) (add32 size dynamicMemNodeSize))
  (newNode, memory)

def malloc (area : Area) (memory : Memory) (size : Nat) : Option (Nat × Memory) :=
  match findBestMemBlock memory area.base size with
  | none => none
  | some block =>
      if block = nullPointer then some (nullPointer, memory)
      else if add32 size dynamicMemNodeSize ≤ Node.size memory block then
        let carved := carveTail memory block size
        some (add32 carved.1 dynamicMemNodeSize, carved.2)
      else some (add32 block dynamicMemNodeSize, Node.setUsed memory block 1)

/-- Returns the node, as the C function does. -/
def mergeNextNodeIntoCurrent (memory : Memory) (node : Nat) : Nat × Memory :=
  let next := Node.next memory node
  if next ≠ nullPointer ∧ Node.used memory next = 0 then
    let memory := Node.setSize memory node
      (add32 (Node.size memory node) (add32 (Node.size memory next) dynamicMemNodeSize))
    let memory := Node.setNext memory node (Node.next memory next)
    (node, Node.setPrevUnlessNull memory (Node.next memory node) node)
  else (node, memory)

/-- Returns the previous node, as the C function does. -/
def mergeCurrentNodeIntoPrevious (memory : Memory) (node : Nat) : Nat × Memory :=
  let prev := Node.prev memory node
  if prev ≠ nullPointer ∧ Node.used memory prev = 0 then
    let memory := Node.setSize memory prev
      (add32 (Node.size memory prev) (add32 (Node.size memory node) dynamicMemNodeSize))
    let memory := Node.setNext memory prev (Node.next memory node)
    (prev, Node.setPrevUnlessNull memory (Node.next memory node) prev)
  else (prev, memory)

def memFree (memory : Memory) (p : Nat) : Memory :=
  if p = nullPointer then memory
  else
    let node := sub32 p dynamicMemNodeSize
    if node = nullPointer then memory
    else
      let merged := mergeNextNodeIntoCurrent (Node.setUsed memory node 0) node
      (mergeCurrentNodeIntoPrevious merged.2 merged.1).2

/-- The copy loop of `realloc`. The bound `node->size` is read again on every
turn; `none` when the given number of turns does not end it. -/
def reallocCopy (node source target : Nat) : Nat → Nat → Memory → Option Memory
  | 0, _, _ => none
  | fuel + 1, index, memory =>
      if index < Node.size memory node then
        reallocCopy node source target fuel (index + 1)
          (memory.storeByte (target + index) (memory (source + index)))
      else some memory

def realloc (area : Area) (memory : Memory) (p size : Nat) : Option (Nat × Memory) :=
  if p = nullPointer then malloc area memory size
  else if size = 0 then some (nullPointer, memFree memory p)
  else if p < area.base ∨ area.base + dynamicMemTotalSize ≤ p then some (nullPointer, memory)
  else
    let node := sub32 p dynamicMemNodeSize
    if size ≤ Node.size memory node then some (p, memory)
    else
      match malloc area memory size with
      | none => none
      | some (newP, memory) =>
          if newP = nullPointer then some (nullPointer, memory)
          else
            match reallocCopy node p newP (dynamicMemTotalSize + 1) 0 memory with
            | none => none
            | some memory => some (newP, memFree memory p)

end ShedKernel.Heap
