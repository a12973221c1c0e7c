import Mathlib.Data.List.Chain
import Mathlib.Data.Set.Basic
import ShedKernel.Foundation.Run
import ShedKernel.Heap.Allocator

/-! The heap under its callers: the three entry points and stores into blocks in
use, with a record of the pointers that are live. -/

set_option autoImplicit false

namespace ShedKernel.Heap

open Foundation

/-- `live` is not kept by the kernel: it records, for every pointer returned and
not freed or moved since, the size last requested for it. -/
structure HeapState where
  memory : Memory
  live : Nat → Option Nat

inductive HeapCall where
  | malloc (size : UInt32)
  | memFree (p : Nat)
  | realloc (p : Nat) (size : UInt32)
  | store (address : Nat) (value : UInt8)

def claim (live : Nat → Option Nat) (p size : Nat) : Nat → Option Nat :=
  if p = nullPointer then live else fun other => if other = p then some size else live other

def release (live : Nat → Option Nat) (p : Nat) : Nat → Option Nat :=
  fun other => if other = p then none else live other

/-- The node size behind a payload pointer. -/
def payloadSize (memory : Memory) (p : Nat) : Nat := Node.size memory (p - dynamicMemNodeSize)

/-- What callers may do: free or move live pointers and null only, and store
inside live blocks only. -/
def Allowed (state : HeapState) : HeapCall → Prop
  | .malloc _ => True
  | .memFree p => p = nullPointer ∨ state.live p ≠ none
  | .realloc p _ => p = nullPointer ∨ state.live p ≠ none
  | .store address _ =>
      ∃ p, state.live p ≠ none ∧ p ≤ address ∧ address < p + payloadSize state.memory p

/-- The call enters the allocator with an argument other than `p`. -/
def Spares (p : Nat) : HeapCall → Prop
  | .malloc _ => True
  | .memFree q => q ≠ p
  | .realloc q _ => q ≠ p
  | .store _ _ => False

def liveAfterRealloc (live : Nat → Option Nat) (p size result : Nat) : Nat → Option Nat :=
  if p = nullPointer then claim live result size
  else if size = 0 then release live p
  else if result = nullPointer then live
  else claim (release live p) result size

def exec (area : Area) (state : HeapState) : HeapCall → Option HeapState
  | .malloc size =>
      (malloc area state.memory size.toNat).map fun result =>
        ⟨result.2, claim state.live result.1 size.toNat⟩
  | .memFree p => some ⟨memFree state.memory p, release state.live p⟩
  | .realloc p size =>
      (realloc area state.memory p size.toNat).map fun result =>
        ⟨result.2, liveAfterRealloc state.live p size.toNat result.1⟩
  | .store address value => some ⟨state.memory.storeByte address value, state.live⟩

def HeapStep (area : Area) (state : HeapState) (call : HeapCall) (next : HeapState) : Prop :=
  Allowed state call ∧ exec area state call = some next

/-- The heap right after `init_dynamic_mem`. -/
def initialHeap (area : Area) (memory : Memory) : HeapState :=
  ⟨initDynamicMem area memory, fun _ => none⟩

/-- The nodes reached from a pointer by following `next` up to null. -/
inductive Walk (memory : Memory) : Nat → List Nat → Prop where
  | stop : Walk memory nullPointer []
  | node {address : Nat} {rest : List Nat} :
      address ≠ nullPointer → Walk memory (Node.next memory address) rest →
      Walk memory address (address :: rest)

/-- The payload pointer of a node in use. -/
def LiveBlock (area : Area) (memory : Memory) (p : Nat) : Prop :=
  ∃ nodes node, Walk memory area.base nodes ∧ node ∈ nodes ∧ Node.used memory node ≠ 0 ∧
    p = node + dynamicMemNodeSize

/-- Offset and size of every block in use. -/
def usedBlocks (area : Area) (memory : Memory) : Set (Nat × Nat) :=
  {block | ∃ p, LiveBlock area memory p ∧ block = (p - area.base, payloadSize memory p)}

/-- The nodes tile the area, are linked both ways, are coalesced, and the used
ones are the headers of the live pointers. -/
structure TilesArea (area : Area) (state : HeapState) (nodes : List Nat) : Prop where
  reached : Walk state.memory area.base nodes
  first : nodes.head? = some area.base ∧ Node.prev state.memory area.base = nullPointer
  adjacent : nodes.IsChain fun left right =>
    right = left + dynamicMemNodeSize + Node.size state.memory left
  linked : nodes.IsChain fun left right =>
    Node.next state.memory left = right ∧ Node.prev state.memory right = left
  last : ∀ node ∈ nodes.getLast?, Node.next state.memory node = nullPointer ∧
    node + dynamicMemNodeSize + Node.size state.memory node = area.base + dynamicMemTotalSize
  coalesced : nodes.IsChain fun left right =>
    Node.used state.memory left ≠ 0 ∨ Node.used state.memory right ≠ 0
  usedLive : ∀ p, state.live p ≠ none ↔
    ∃ node ∈ nodes, Node.used state.memory node ≠ 0 ∧ p = node + dynamicMemNodeSize

/-- The payloads of the live pointers lie in the area, apart from one another
and from every node header. -/
structure PayloadsApart (area : Area) (state : HeapState) (nodes : List Nat) : Prop where
  inside : ∀ p, state.live p ≠ none →
    area.base ≤ p ∧ p + payloadSize state.memory p ≤ area.base + dynamicMemTotalSize
  enough : ∀ p requested, state.live p = some requested → requested ≤ payloadSize state.memory p
  disjoint : ∀ p q, state.live p ≠ none → state.live q ≠ none → p ≠ q →
    p + payloadSize state.memory p ≤ q ∨ q + payloadSize state.memory q ≤ p
  headerFree : ∀ p, state.live p ≠ none → ∀ node ∈ nodes,
    node + dynamicMemNodeSize ≤ p ∨ p + payloadSize state.memory p ≤ node

/-- The node list as offset, size and used flag of every node, in order. -/
def NodeList (area : Area) (memory : Memory) (list : List (Nat × Nat × Nat)) : Prop :=
  ∃ nodes, Walk memory area.base nodes ∧
    list = nodes.map fun node =>
      (node - area.base, Node.size memory node, Node.used memory node)

/-- A stretch of `malloc` and `mem_free` calls that frees only blocks it
allocated itself. `own` holds its blocks not freed yet; callers store into live
blocks in between. -/
inductive OwnSession (area : Area) (start : HeapState) : HeapState → Set Nat → Prop where
  | begin : OwnSession area start start ∅
  | malloc {state : HeapState} {own : Set Nat} {size : UInt32} {p : Nat} {memory : Memory} :
      OwnSession area start state own →
      malloc area state.memory size.toNat = some (p, memory) →
      OwnSession area start ⟨memory, claim state.live p size.toNat⟩
        {other | other ∈ own ∨ other = p ∧ p ≠ nullPointer}
  | memFree {state : HeapState} {own : Set Nat} {p : Nat} :
      OwnSession area start state own → p ∈ own →
      OwnSession area start ⟨memFree state.memory p, release state.live p⟩
        {other | other ∈ own ∧ other ≠ p}
  | freeNull {state : HeapState} {own : Set Nat} :
      OwnSession area start state own →
      OwnSession area start ⟨memFree state.memory nullPointer, state.live⟩ own
  | store {state next : HeapState} {own : Set Nat} {address : Nat} {value : UInt8} :
      OwnSession area start state own → HeapStep area state (.store address value) next →
      OwnSession area start next own

end ShedKernel.Heap
