import ShedKernel.Heap.TilingProperties

/-! `malloc` on the nodes of the list: which node it takes, what becomes of that node and of
its neighbours, and that none of its sums and differences wraps. -/

set_option autoImplicit false

namespace ShedKernel.Heap

open Foundation BlockList

/-- The four fields of a node. -/
structure Header where
  size : Nat
  used : Nat
  next : Nat
  prev : Nat
  deriving DecidableEq

def Node.header (memory : Memory) (node : Nat) : Header :=
  ⟨Node.size memory node, Node.used memory node, Node.next memory node, Node.prev memory node⟩

/-- A node that a request of `size` bytes may get. -/
def Node.Fits (memory : Memory) (size node : Nat) : Prop :=
  Node.used memory node = 0 ∧ size ≤ Node.size memory node

/-- The node between `front` and `back` fits, none in front is smaller, and every one behind
is larger. -/
structure BestNode (memory : Memory) (size : Nat) (front : List Nat) (node : Nat)
    (back : List Nat) : Prop where
  fits : Node.Fits memory size node
  least : ∀ other ∈ front, Node.Fits memory size other →
    Node.size memory node ≤ Node.size memory other
  last : ∀ other ∈ back, Node.Fits memory size other →
    Node.size memory node < Node.size memory other

/-- `left + right` and `left - right` in 32 bits without wrap-around. -/
def NoCarry (left right : Nat) : Prop := left + right < 4294967296

def NoBorrow (left right : Nat) : Prop := right ≤ left ∧ left < 4294967296

/-- The sums and differences of `malloc` on `node`, in the order of the code. -/
structure ExactArithmetic (memory : Memory) (size node : Nat) : Prop where
  threshold : NoCarry size dynamicMemNodeSize
  payload : NoCarry node dynamicMemNodeSize
  carve : size + dynamicMemNodeSize ≤ Node.size memory node →
    NoCarry (node + dynamicMemNodeSize) (Node.size memory node) ∧
      NoBorrow (node + dynamicMemNodeSize + Node.size memory node) size ∧
      NoBorrow (node + dynamicMemNodeSize + Node.size memory node - size) dynamicMemNodeSize ∧
      NoBorrow (Node.size memory node) (size + dynamicMemNodeSize) ∧
      NoCarry (node + dynamicMemNodeSize + Node.size memory node - size - dynamicMemNodeSize)
        dynamicMemNodeSize

/-- What is left of the node in front of a block of `size` bytes cut off its tail. -/
def remainder (memory : Memory) (size node : Nat) : Nat :=
  Node.size memory node - size - dynamicMemNodeSize

/-- The node is cut in two. -/
structure Carved (area : Area) (memory changed : Memory) (size : Nat) (front : List Nat)
    (node : Nat) (back : List Nat) (newNode : Nat) : Prop where
  room : size + dynamicMemNodeSize ≤ Node.size memory node
  place : newNode = node + dynamicMemNodeSize + remainder memory size node
  nodes : Walk changed area.base (front ++ node :: newNode :: back)
  kept : Node.header changed node =
    { Node.header memory node with size := remainder memory size node, next := newNode }
  taken : Node.header changed newNode = ⟨size, 1, Node.next memory node, node⟩
  successor : ∀ other ∈ back.head?,
    Node.header changed other = { Node.header memory other with prev := newNode }
  others : ∀ other ∈ front ++ back.tail, Node.header changed other = Node.header memory other

/-- The node is used as it is. -/
structure TakenWhole (area : Area) (memory changed : Memory) (size : Nat) (front : List Nat)
    (node : Nat) (back : List Nat) : Prop where
  tight : Node.size memory node < size + dynamicMemNodeSize
  nodes : Walk changed area.base (front ++ node :: back)
  taken : Node.header changed node = { Node.header memory node with used := 1 }
  others : ∀ other ∈ front ++ back, Node.header changed other = Node.header memory other

private theorem Node.header_congr {memory changed : Memory} {node : Nat}
    (same : ∀ other, node ≤ other → other < node + 16 → changed other = memory other) :
    Node.header changed node = Node.header memory node := by
  have size : Node.size changed node = Node.size memory node :=
    Memory.load32_congr fun _ _ _ => same _ (by omega) (by omega)
  have used : Node.used changed node = Node.used memory node :=
    Memory.load32_congr fun _ _ _ => same _ (by omega) (by omega)
  have next : Node.next changed node = Node.next memory node :=
    Memory.load32_congr fun _ _ _ => same _ (by omega) (by omega)
  have prev : Node.prev changed node = Node.prev memory node :=
    Memory.load32_congr fun _ _ _ => same _ (by omega) (by omega)
  unfold Node.header
  rw [size, used, next, prev]

namespace NodeAt

variable {memory : Memory} {stop prev address : Nat} {block : Block}

theorem header (node : NodeAt memory stop prev address block) :
    Node.header memory address = ⟨block.size, if block.used then 1 else 0,
      link stop (address + 16 + block.size), prev⟩ := by
  unfold Node.header
  rw [node.size, node.used, node.next, node.prev]

private theorem of_header (header : Node.header memory address = ⟨block.size, if block.used then 1 else 0,
      link stop (address + 16 + block.size), prev⟩) :
    NodeAt memory stop prev address block :=
  ⟨congrArg Header.size header, congrArg Header.used header, congrArg Header.next header,
    congrArg Header.prev header⟩

theorem fits_iff (node : NodeAt memory stop prev address block) (size : Nat) :
    Node.Fits memory size address ↔ block.used = false ∧ size ≤ block.size := by
  unfold Node.Fits
  rw [node.used, node.size]
  cases block.used with
  | false => simp
  | true => simp

end NodeAt

namespace NodeChain

variable {memory : Memory} {stop prev address : Nat} {blocks : List Block}

theorem block_of_start (chain : NodeChain memory stop prev address blocks) {node : Nat}
    (member : node ∈ starts address blocks) :
    ∃ block ∈ blocks, ∃ prev, NodeAt memory stop prev node block := by
  induction blocks generalizing prev address with
  | nil => cases member
  | cons block rest ih =>
      cases List.mem_cons.mp member with
      | inl here =>
          subst here
          exact ⟨block, List.mem_cons_self, prev, chain.1⟩
      | inr later =>
          obtain ⟨found, inRest, node⟩ := ih chain.2 later
          exact ⟨found, List.mem_cons_of_mem _ inRest, node⟩

end NodeChain

section Malloc

variable {area : Area} {memory changed : Memory} {front back : List Block} {size found : Nat}

private theorem BestFit.bestNode (fit : BestFit size front found back)
    (represents : Represents area memory (front ++ ⟨found, false⟩ :: back)) :
    BestNode memory size (starts area.base front) (area.base + span 16 front)
      (starts (area.base + span 16 front + 16 + found) back) := by
  obtain ⟨frontChain, node, behind⟩ := NodeChain.append_iff.mp represents.chain
  refine ⟨(node.fits_iff size).mpr ⟨rfl, fit.enough⟩, fun other member fits => ?_,
    fun other member fits => ?_⟩
  · obtain ⟨block, inFront, _, otherNode⟩ := frontChain.block_of_start member
    obtain ⟨free, large⟩ := (otherNode.fits_iff size).mp fits
    rw [node.size, otherNode.size]
    exact fit.least block inFront free large
  · obtain ⟨block, inBack, _, otherNode⟩ := behind.block_of_start member
    obtain ⟨free, large⟩ := (otherNode.fits_iff size).mp fits
    rw [node.size, otherNode.size]
    exact fit.last block inBack free large

/-- The headers in front of the node `malloc` takes are out of its reach. -/
theorem header_of_front {other : Nat} (member : other ∈ starts area.base front)
    (same : ∀ place, place < area.base + span 16 front → changed place = memory place) :
    Node.header changed other = Node.header memory other := by
  have bounds := starts_bounds member
  exact Node.header_congr fun place _ _ => same place (by omega)

private theorem header_of_behind {other address : Nat} (member : other ∈ starts address back)
    (same : ∀ place, address ≤ place → changed place = memory place) :
    Node.header changed other = Node.header memory other := by
  have bounds := starts_bounds member
  exact Node.header_congr fun place _ _ => same place (by omega)

private theorem exactArithmetic (represents : Represents area memory (front ++ ⟨found, false⟩ :: back))
    (enough : size ≤ found) : ExactArithmetic memory size (area.base + span 16 front) := by
  obtain ⟨_, node, _⟩ := NodeChain.append_iff.mp represents.chain
  have field : Node.size memory (area.base + span 16 front) = found := node.size
  have total := represents.total
  have fits := area.fits_literal
  simp only [span_append, span_cons] at total
  constructor
  · unfold NoCarry dynamicMemNodeSize
    omega
  · unfold NoCarry dynamicMemNodeSize
    omega
  · intro room
    rw [field] at room ⊢
    unfold dynamicMemNodeSize at room
    unfold NoCarry NoBorrow dynamicMemNodeSize
    omega

private theorem carved_of_represents
    (represents : Represents area memory (front ++ ⟨found, false⟩ :: back))
    (room : size + 16 ≤ found)
    (after : Represents area changed
      (front ++ ⟨found - (size + 16), false⟩ :: ⟨size, true⟩ :: back))
    (same : ∀ other, other < area.base + span 16 front ∨
      area.base + span 16 front + 32 + found ≤ other → changed other = memory other) :
    Carved area memory changed size (starts area.base front) (area.base + span 16 front)
      (starts (area.base + span 16 front + 16 + found) back)
      (area.base + span 16 front + (found - size)) := by
  obtain ⟨_, node, behind⟩ := NodeChain.append_iff.mp represents.chain
  obtain ⟨_, keptNode, newNode, moved⟩ := NodeChain.append_iff.mp after.chain
  have walk := after.walk
  rw [starts_append, starts, starts] at walk
  have total := represents.total
  simp only [span_append, span_cons] at total
  have inside : area.base + span 16 front + (found - size) ≠ area.base + 1048576 := by omega
  have inFront := fun other member => @header_of_front area memory changed front other member
    fun place below => same place (.inl below)
  generalize area.base + span 16 front = address at *
  have field : Node.size memory address = found := node.size
  have left : remainder memory size address = found - (size + 16) := by
    unfold remainder dynamicMemNodeSize
    rw [field]
    omega
  have place : address + 16 + (found - (size + 16)) = address + (found - size) := by omega
  have behindNew : address + (found - size) + 16 + size = address + 16 + found := by omega
  simp only [place, behindNew] at walk keptNode newNode moved
  refine ⟨?_, ?_, walk, ?_, ?_, ?_, ?_⟩
  · rw [field]
    exact room
  · rw [left]
    exact place.symm
  · rw [keptNode.header, node.header, left, place, link_of_ne inside]
  · rw [newNode.header, behindNew, node.next]
    rfl
  · cases back with
    | nil => simp [starts]
    | cons block rest =>
        intro other first
        simp only [starts, List.head?_cons, Option.mem_some_iff] at first
        subst first
        rw [moved.1.header, behind.1.header]
  · intro other member
    cases List.mem_append.mp member with
    | inl early => exact inFront other early
    | inr late =>
        cases back with
        | nil => simp [starts] at late
        | cons block rest =>
            exact header_of_behind late fun place low => same place (.inr (by omega))

private theorem takenWhole_of_represents
    (represents : Represents area memory (front ++ ⟨found, false⟩ :: back))
    (tight : found < size + 16) (after : Represents area changed (front ++ ⟨found, true⟩ :: back))
    (same : ∀ other, other < area.base + span 16 front ∨
      area.base + span 16 front + 16 ≤ other → changed other = memory other) :
    TakenWhole area memory changed size (starts area.base front) (area.base + span 16 front)
      (starts (area.base + span 16 front + 16 + found) back) := by
  obtain ⟨_, node, _⟩ := NodeChain.append_iff.mp represents.chain
  obtain ⟨_, takenNode, _⟩ := NodeChain.append_iff.mp after.chain
  have walk := after.walk
  rw [starts_append, starts] at walk
  refine ⟨?_, walk, ?_, ?_⟩
  · rw [node.size]
    exact tight
  · rw [takenNode.header, node.header]
    rfl
  · intro other member
    cases List.mem_append.mp member with
    | inl early => exact header_of_front early fun place below => same place (.inl below)
    | inr late => exact header_of_behind late fun place low => same place (.inr (by omega))

private theorem mem_starts_middle {start : Nat} {block : Block} :
    start + span 16 front ∈ starts start (front ++ block :: back) := by
  simp [starts_append, starts]

/-- `malloc` refuses exactly when no free node is large enough. Else it takes the last of the
smallest such nodes, cuts the block off its tail or uses it whole, and nothing wraps. -/
theorem malloc_takes_best_node (area : Area) (memory : Memory) (blocks : List Block)
    (represents : Represents area memory blocks) (size : UInt32) :
    ∃ nodes p changed, Walk memory area.base nodes ∧
      malloc area memory size.toNat = some (p, changed) ∧
      (p = nullPointer ↔ ∀ node ∈ nodes, ¬Node.Fits memory size.toNat node) ∧
      (p = nullPointer → changed = memory) ∧
      (p ≠ nullPointer → ∃ front node back, nodes = front ++ node :: back ∧
        BestNode memory size.toNat front node back ∧
        ExactArithmetic memory size.toNat node ∧
        ((∃ newNode, Carved area memory changed size.toNat front node back newNode ∧
            p = newNode + dynamicMemNodeSize) ∨
          TakenWhole area memory changed size.toNat front node back ∧
            p = node + dynamicMemNodeSize)) := by
  obtain ⟨p, changed, after, called, result⟩ := malloc_spec represents size.toNat_lt
  refine ⟨starts area.base blocks, p, changed, represents.walk, called, ?_⟩
  have notNull : ∀ place : Nat, place + 16 ≠ nullPointer := by
    unfold nullPointer
    omega
  cases result with
  | refused small =>
      refine ⟨iff_of_true rfl fun node member fits => ?_, fun _ => rfl, fun taken => absurd rfl taken⟩
      obtain ⟨block, inBlocks, _, atNode⟩ := represents.chain.block_of_start member
      obtain ⟨free, large⟩ := (atNode.fits_iff _).mp fits
      exact absurd (small block inBlocks free) (Nat.not_lt.mpr large)
  | @carved front back found _ split fit room next same =>
      subst split
      have best := fit.bestNode represents
      refine ⟨iff_of_false (notNull _) fun none => none _ mem_starts_middle best.fits,
        fun null => absurd null (notNull _), fun _ => ?_⟩
      refine ⟨_, _, _, starts_append _ _ _, best, exactArithmetic represents fit.enough, .inl ?_⟩
      exact ⟨_, carved_of_represents represents room next same, rfl⟩
  | @whole front back found _ split fit tight next same =>
      subst split
      have best := fit.bestNode represents
      refine ⟨iff_of_false (notNull _) fun none => none _ mem_starts_middle best.fits,
        fun null => absurd null (notNull _), fun _ => ?_⟩
      refine ⟨_, _, _, starts_append _ _ _, best, exactArithmetic represents fit.enough, .inr ?_⟩
      exact ⟨takenWhole_of_represents represents tight next same, rfl⟩

/-- Four blocks from the tail of the free node, the first and the third of them given back. -/
def tiedHeap : Option Memory :=
  (malloc exampleArea exampleHeap.memory 24).bind fun first =>
    (malloc exampleArea first.2 8).bind fun second =>
      (malloc exampleArea second.2 24).bind fun third =>
        (malloc exampleArea third.2 8).map fun fourth =>
          memFree (memFree fourth.2 first.1) third.1

def tiedBlocks : List Block :=
  [⟨1048432, false⟩, ⟨8, true⟩, ⟨24, false⟩, ⟨8, true⟩, ⟨24, false⟩]

private theorem tiedHeap_represents : ∃ memory, tiedHeap = some memory ∧
    Represents exampleArea memory tiedBlocks ∧
    ∃ changed, malloc exampleArea memory (20 : UInt32).toNat = some (1052648, changed) := by
  have evaluated : tiedHeap.map (fun memory =>
      ((starts 4096 tiedBlocks).map (Node.header memory),
        (malloc exampleArea memory (20 : UInt32).toNat).map Prod.fst)) =
      some ([⟨1048432, 0, 1052544, 0⟩, ⟨8, 1, 1052568, 4096⟩, ⟨24, 0, 1052608, 1052544⟩,
        ⟨8, 1, 1052632, 1052568⟩, ⟨24, 0, 0, 1052608⟩], some 1052648) := by
    decide +kernel
  obtain ⟨memory, built, found⟩ := Option.map_eq_some_iff.mp evaluated
  obtain ⟨headers, granted⟩ := Prod.mk.inj found
  obtain ⟨⟨_, changed⟩, called, rfl⟩ := Option.map_eq_some_iff.mp granted
  simp only [tiedBlocks, starts, List.map_cons, List.map_nil, List.cons.injEq, and_true] at headers
  obtain ⟨free, small, gap, smaller, last⟩ := headers
  refine ⟨memory, built, ⟨⟨?_, ?_, ?_, ?_, ?_, trivial⟩, by simp [tiedBlocks],
    by simp [Coalesced, tiedBlocks]⟩, changed, called⟩
  · exact .of_header (free.trans (by decide +kernel))
  · exact .of_header (small.trans (by decide +kernel))
  · exact .of_header (gap.trans (by decide +kernel))
  · exact .of_header (smaller.trans (by decide +kernel))
  · exact .of_header (last.trans (by decide +kernel))

/-- Three nodes fit twenty bytes, and two of them are of the least size: `malloc` takes the
last one, whole. -/
theorem malloc_takes_best_node_tie : ∃ memory changed front node back, tiedHeap = some memory ∧
    Walk memory exampleArea.base (front ++ node :: back) ∧
    malloc exampleArea memory (20 : UInt32).toNat = some (1052648, changed) ∧
    BestNode memory 20 front node back ∧ ExactArithmetic memory 20 node ∧
    ((∃ newNode, Carved exampleArea memory changed 20 front node back newNode ∧
        1052648 = newNode + dynamicMemNodeSize) ∨
      TakenWhole exampleArea memory changed 20 front node back ∧
        1052648 = node + dynamicMemNodeSize) := by
  obtain ⟨memory, built, represents, changed, granted⟩ := tiedHeap_represents
  obtain ⟨nodes, p, final, walk, called, _, _, taken⟩ :=
    malloc_takes_best_node exampleArea memory tiedBlocks represents 20
  obtain ⟨rfl, rfl⟩ := Prod.mk.inj (Option.some.inj (granted.symm.trans called))
  obtain ⟨front, node, back, rfl, best, exact, result⟩ := taken (by decide)
  exact ⟨memory, changed, front, node, back, built, walk, called, best, exact, result⟩

end Malloc

end ShedKernel.Heap
