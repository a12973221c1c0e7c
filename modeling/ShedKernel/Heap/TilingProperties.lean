import ShedKernel.Heap.SessionProperties

/-! What the node list looks like after any history, and that it depends only on
the blocks in use. -/

set_option autoImplicit false

namespace ShedKernel.Heap

open Foundation BlockList

theorem Walk.unique {memory : Memory} {address : Nat} {left right : List Nat}
    (leftWalk : Walk memory address left) (rightWalk : Walk memory address right) :
    left = right := by
  induction leftWalk generalizing right with
  | stop =>
      cases rightWalk with
      | stop => rfl
      | node valid _ => exact absurd rfl valid
  | node valid _ ih =>
      cases rightWalk with
      | stop => exact absurd rfl valid
      | node _ rest => rw [ih rest]

/-- Headers of consecutive blocks. -/
def starts : Nat → List Block → List Nat
  | _, [] => []
  | address, block :: rest => address :: starts (address + 16 + block.size) rest

theorem starts_bounds {address node : Nat} {blocks : List Block}
    (member : node ∈ starts address blocks) :
    address ≤ node ∧ node + 16 ≤ address + span 16 blocks := by
  induction blocks generalizing address with
  | nil => cases member
  | cons block rest ih =>
      rw [span_cons]
      cases List.mem_cons.mp member with
      | inl here => omega
      | inr later =>
          have := ih later
          omega

theorem starts_append (address : Nat) (front back : List Block) :
    starts address (front ++ back) =
      starts address front ++ starts (address + span 16 front) back := by
  induction front generalizing address with
  | nil => rfl
  | cons block rest ih =>
      simp only [List.cons_append, starts, ih, span_cons]
      rw [show address + 16 + block.size + span 16 rest =
        address + (16 + block.size + span 16 rest) by omega]

/-- Every header stands clear of every payload in use. -/
theorem starts_clear {address place size node : Nat} {blocks : List Block}
    (used : (place, size) ∈ usedPlaces 16 address blocks)
    (member : node ∈ starts address blocks) :
    node + 16 ≤ place + 16 ∨ place + 16 + size ≤ node := by
  obtain ⟨front, back, rfl, rfl⟩ := mem_usedPlaces_iff.mp used
  rw [starts_append] at member
  cases List.mem_append.mp member with
  | inl before =>
      have := starts_bounds before
      omega
  | inr later =>
      cases List.mem_cons.mp later with
      | inl here => omega
      | inr behind =>
          have := starts_bounds behind
          simp only at this
          omega

/-- Offset, size and used flag of consecutive blocks. -/
def entries (base : Nat) : Nat → List Block → List (Nat × Nat × Nat)
  | _, [] => []
  | address, block :: rest =>
      (address - base, block.size, if block.used then 1 else 0) ::
        entries base (address + 16 + block.size) rest

namespace NodeChain

variable {memory : Memory} {stop prev address : Nat} {blocks : List Block}

theorem walk (chain : NodeChain memory stop prev address blocks)
    (ends : address + span 16 blocks = stop) (positive : 0 < address) :
    Walk memory (link stop address) (starts address blocks) := by
  induction blocks generalizing prev address with
  | nil =>
      rw [link_of_eq (by simpa using ends)]
      exact .stop
  | cons block rest ih =>
      rw [span_cons] at ends
      rw [link_of_ne (by omega)]
      refine .node (by unfold nullPointer; omega) ?_
      rw [chain.1.next]
      exact ih chain.2 (by omega) (by omega)

theorem entries_eq (chain : NodeChain memory stop prev address blocks) (base : Nat) :
    (starts address blocks).map (fun node =>
      (node - base, Node.size memory node, Node.used memory node)) =
        entries base address blocks := by
  induction blocks generalizing prev address with
  | nil => rfl
  | cons block rest ih =>
      rw [starts, List.map_cons, ih chain.2, chain.1.size, chain.1.used, entries]

/-- Neighbours of the list, with the facts their headers hold about each other. -/
theorem neighbours (chain : NodeChain memory stop prev address blocks)
    (ends : address + span 16 blocks = stop) (coalesced : Coalesced blocks) :
    (starts address blocks).IsChain fun left right =>
      right = left + 16 + Node.size memory left ∧
        (Node.next memory left = right ∧ Node.prev memory right = left) ∧
        (Node.used memory left ≠ 0 ∨ Node.used memory right ≠ 0) := by
  induction blocks generalizing prev address with
  | nil => exact .nil
  | cons block rest ih =>
      cases rest with
      | nil => exact .singleton _
      | cons second rest =>
          obtain ⟨node, behind⟩ := chain
          rw [span_cons] at ends
          have tail := ih behind (by omega) coalesced.tail
          refine .cons_cons ⟨by rw [node.size], ⟨?_, behind.1.prev⟩, ?_⟩ tail
          · rw [node.next, link_of_ne]
            rw [span_cons] at ends
            omega
          · rw [node.used, behind.1.used]
            have either := (List.isChain_cons_cons.mp coalesced).1
            rcases either with used | used <;> simp [used]

private theorem last_node (chain : NodeChain memory stop prev address blocks)
    (ends : address + span 16 blocks = stop) :
    ∀ node ∈ (starts address blocks).getLast?,
      Node.next memory node = nullPointer ∧ node + 16 + Node.size memory node = stop := by
  induction blocks generalizing prev address with
  | nil => simp [starts]
  | cons block rest ih =>
      obtain ⟨node, behind⟩ := chain
      rw [span_cons] at ends
      cases rest with
      | nil =>
          rw [span_nil] at ends
          intro last isLast
          simp only [starts, List.getLast?_singleton, Option.mem_some_iff] at isLast
          subst isLast
          rw [node.next, node.size, link_of_eq (by omega)]
          exact ⟨rfl, by omega⟩
      | cons second rest =>
          intro last isLast
          rw [starts, starts, List.getLast?_cons_cons] at isLast
          exact ih behind (by omega) last isLast

private theorem used_iff (chain : NodeChain memory stop prev address blocks) (place : Nat) :
    (place ∈ starts address blocks ∧ Node.used memory place ≠ 0) ↔
      ∃ size, (place, size) ∈ usedPlaces 16 address blocks := by
  induction blocks generalizing prev address with
  | nil => simp [starts]
  | cons block rest ih =>
      obtain ⟨node, behind⟩ := chain
      rcases block with ⟨size, used⟩
      have later := ih behind
      have field := node.used
      by_cases here : place = address
      · subst here
        have notLater : ¬∃ other, (place, other) ∈
            usedPlaces 16 (place + 16 + size) rest := by
          rintro ⟨other, member⟩
          have := usedPlaces_bounds member
          omega
        cases used with
        | false => simpa [starts, field] using notLater
        | true => simp [starts, field, usedPlaces_cons_used]
      · cases used with
        | false => simpa [starts, here] using later
        | true => simpa [starts, here] using later

end NodeChain

section Reachable

variable {area : Area} {state : HeapState} {blocks : List Block}

theorem Represents.walk {memory : Memory} (represents : Represents area memory blocks) :
    Walk memory area.base (starts area.base blocks) := by
  have walk := represents.chain.walk (by rw [represents.total]) area.base_pos
  rwa [link_of_ne (by omega)] at walk

theorem Represents.nodeList {memory : Memory} (represents : Represents area memory blocks) :
    NodeList area memory (entries area.base area.base blocks) :=
  ⟨_, represents.walk, (represents.chain.entries_eq area.base).symm⟩

theorem Represents.liveBlock_iff {memory : Memory} (represents : Represents area memory blocks)
    (p : Nat) : LiveBlock area memory p ↔
      ∃ place size, p = place + 16 ∧ (place, size) ∈ usedPlaces 16 area.base blocks := by
  have used_iff := represents.chain.used_iff
  constructor
  · intro ⟨nodes, node, walked, member, used, payload⟩
    rw [walked.unique represents.walk] at member
    obtain ⟨size, inUse⟩ := (used_iff node).mp ⟨member, used⟩
    exact ⟨node, size, payload, inUse⟩
  · intro ⟨place, size, payload, inUse⟩
    obtain ⟨member, used⟩ := (used_iff place).mpr ⟨size, inUse⟩
    exact ⟨_, place, represents.walk, member, used, payload⟩

theorem Represents.mem_usedBlocks {memory : Memory} (represents : Represents area memory blocks)
    (block : Nat × Nat) : block ∈ usedBlocks area memory ↔
      ∃ place size, (place, size) ∈ usedPlaces 16 area.base blocks ∧
        block = (place + 16 - area.base, size) := by
  constructor
  · intro ⟨p, live, same⟩
    obtain ⟨place, size, rfl, inUse⟩ := (represents.liveBlock_iff p).mp live
    rw [represents.payloadSize_eq inUse] at same
    exact ⟨place, size, inUse, same⟩
  · intro ⟨place, size, inUse, same⟩
    refine ⟨place + 16, (represents.liveBlock_iff _).mpr ⟨place, size, rfl, inUse⟩, ?_⟩
    rw [represents.payloadSize_eq inUse]
    exact same

theorem HeapInvariant.walk (invariant : HeapInvariant area state blocks) :
    Walk state.memory area.base (starts area.base blocks) :=
  invariant.represents.walk

theorem HeapInvariant.tilesArea (invariant : HeapInvariant area state blocks) :
    TilesArea area state (starts area.base blocks) := by
  have chain := invariant.represents.chain
  have ends : area.base + span 16 blocks = area.base + 1048576 := by
    rw [invariant.represents.total]
  have neighbours := chain.neighbours ends invariant.represents.coalesced
  refine ⟨invariant.walk, ?_, neighbours.imp fun _ _ facts => facts.1,
    neighbours.imp fun _ _ facts => facts.2.1, chain.last_node ends,
    neighbours.imp fun _ _ facts => facts.2.2, fun p => ⟨?_, ?_⟩⟩
  · cases blocks with
    | nil => simp at ends
    | cons block rest => exact ⟨rfl, chain.1.prev⟩
  · intro isLive
    obtain ⟨place, size, rfl, member⟩ := invariant.place_of_live isLive
    obtain ⟨listed, used⟩ := (chain.used_iff place).mpr ⟨size, member⟩
    exact ⟨place, listed, used, rfl⟩
  · rintro ⟨node, listed, used, rfl⟩
    obtain ⟨size, member⟩ := (chain.used_iff node).mp ⟨listed, used⟩
    exact invariant.live.recorded node size member

private theorem HeapInvariant.payloadsApart (invariant : HeapInvariant area state blocks) :
    PayloadsApart area state (starts area.base blocks) := by
  have total := invariant.represents.total
  refine ⟨?_, ?_, ?_, ?_⟩
  · intro p isLive
    obtain ⟨place, size, rfl, member⟩ := invariant.place_of_live isLive
    have bounds := usedPlaces_bounds member
    rw [invariant.size_of_place member]
    unfold dynamicMemTotalSize
    omega
  · intro p requested found
    obtain ⟨place, size, rfl, member, enough⟩ := invariant.live.placed p requested found
    rw [invariant.size_of_place member]
    exact enough
  · intro p q pLive qLive different
    obtain ⟨place, size, rfl, member⟩ := invariant.place_of_live pLive
    obtain ⟨other, otherSize, rfl, otherMember⟩ := invariant.place_of_live qLive
    rw [invariant.size_of_place member, invariant.size_of_place otherMember]
    rcases usedPlaces_disjoint member otherMember with same | below | above
    · exact absurd (congrArg (fun place => place.1 + 16) same) different
    · simp only at below
      omega
    · simp only at above
      omega
  · intro p isLive node listed
    obtain ⟨place, size, rfl, member⟩ := invariant.place_of_live isLive
    rw [invariant.size_of_place member]
    exact starts_clear member listed

theorem HeapInvariant.nodeList (invariant : HeapInvariant area state blocks) :
    NodeList area state.memory (entries area.base area.base blocks) :=
  invariant.represents.nodeList

end Reachable

/-- The blocks in use are those of the start and those the session still owns. -/
structure OwnPlaces (area : Area) (begun blocks : List Block) (own : Set Nat) : Prop where
  kept : ∀ place ∈ usedPlaces 16 area.base begun,
    place ∈ usedPlaces 16 area.base blocks ∧ place.1 + 16 ∉ own
  owned : ∀ place ∈ usedPlaces 16 area.base blocks,
    place ∈ usedPlaces 16 area.base begun ∨ place.1 + 16 ∈ own
  inUse : ∀ p ∈ own, ∃ place size, p = place + 16 ∧ (place, size) ∈ usedPlaces 16 area.base blocks

private theorem OwnSession.ownPlaces {area : Area} {start state : HeapState} {begun : List Block}
    {own : Set Nat} (session : OwnSession area start state own)
    (initial : HeapInvariant area start begun) :
    ∃ blocks, HeapInvariant area state blocks ∧ OwnPlaces area begun blocks own := by
  induction session with
  | begin =>
      exact ⟨begun, initial, fun _ member => ⟨member, id⟩, fun _ member => .inl member,
        fun _ member => member.elim⟩
  | @malloc state own size p memory _ called ih =>
      obtain ⟨blocks, invariant, places⟩ := ih
      obtain ⟨reached, reachedMemory, after, calledAgain, next, result⟩ := invariant.malloc size
      rw [called] at calledAgain
      cases calledAgain
      refine ⟨after, next, ?_⟩
      rcases result with ⟨rfl, _, rfl⟩ | ⟨place, granted, rfl, grant⟩
      · simpa using places
      · have notNull : place + 16 ≠ nullPointer := by unfold nullPointer; omega
        refine ⟨fun other member => ?_, fun other member => ?_, fun q member => ?_⟩
        · obtain ⟨inBlocks, notOwn⟩ := places.kept other member
          refine ⟨(grant.places other).mpr (.inr inBlocks), ?_⟩
          rintro (old | ⟨same, _⟩)
          · exact notOwn old
          · refine grant.fresh other.2 ?_
            rwa [show place = other.1 by omega]
        · rcases (grant.places other).mp member with rfl | inBlocks
          · exact .inr (.inr ⟨rfl, notNull⟩)
          · exact (places.owned other inBlocks).imp id .inl
        · rcases member with old | ⟨rfl, _⟩
          · obtain ⟨other, otherSize, rfl, inBlocks⟩ := places.inUse q old
            exact ⟨other, otherSize, rfl, (grant.places _).mpr (.inr inBlocks)⟩
          · exact ⟨place, granted, rfl, (grant.places _).mpr (.inl rfl)⟩
  | @memFree state own p _ isOwn ih =>
      obtain ⟨blocks, invariant, places⟩ := ih
      obtain ⟨place, size, rfl, inUse⟩ := places.inUse p isOwn
      obtain ⟨after, free, next⟩ := invariant.memFree inUse
      refine ⟨after, next, fun other member => ?_, fun other member => ?_, fun q member => ?_⟩
      · obtain ⟨inBlocks, notOwn⟩ := places.kept other member
        exact ⟨(free.places other).mpr ⟨inBlocks, fun same => notOwn (same ▸ isOwn)⟩,
          fun still => notOwn still.1⟩
      · obtain ⟨inBlocks, different⟩ := (free.places other).mp member
        exact (places.owned other inBlocks).imp id fun still => ⟨still, by omega⟩
      · obtain ⟨other, otherSize, rfl, inBlocks⟩ := places.inUse q member.1
        exact ⟨other, otherSize, rfl,
          (free.places _).mpr ⟨inBlocks, fun same => member.2 (by simp only at same; omega)⟩⟩
  | freeNull _ ih =>
      rw [HeapInvariant.memFree_null]
      exact ih
  | @store state next own address value _ stepped ih =>
      obtain ⟨blocks, invariant, places⟩ := ih
      obtain ⟨allowed, called⟩ := stepped
      cases called
      exact ⟨blocks, invariant.store value allowed, places⟩

/-- The blocks in use determine the whole list. -/
theorem Represents.determined {area : Area} {left right : Memory} {leftBlocks rightBlocks : List Block}
    (leftRepresents : Represents area left leftBlocks)
    (rightRepresents : Represents area right rightBlocks)
    (same : ∀ place, place ∈ usedPlaces 16 area.base leftBlocks ↔
      place ∈ usedPlaces 16 area.base rightBlocks) : leftBlocks = rightBlocks := by
  have places : usedPlaces 16 area.base leftBlocks = usedPlaces 16 area.base rightBlocks :=
    usedPlaces_ext (by decide) same
  exact Coalesced.determined (by decide) leftRepresents.coalesced rightRepresents.coalesced
    (leftRepresents.total.trans rightRepresents.total.symm) places

/-- Once a session has freed all its own blocks, the block list is back. -/
theorem OwnPlaces.restored {area : Area} {start state : HeapState} {begun blocks : List Block}
    (places : OwnPlaces area begun blocks ∅) (initial : HeapInvariant area start begun)
    (invariant : HeapInvariant area state blocks) : blocks = begun := by
  refine invariant.represents.determined initial.represents fun place =>
    ⟨fun member => ?_, fun member => ?_⟩
  · exact (places.owned place member).resolve_right id
  · exact (places.kept place member).1

/-- Without live pointers only the block of `init_dynamic_mem` is possible. -/
theorem HeapInvariant.blocks_of_no_live {area : Area} {state : HeapState} {blocks : List Block}
    (invariant : HeapInvariant area state blocks) (noLive : ∀ p, state.live p = none) :
    blocks = [⟨1048560, false⟩] := by
  have fresh := initialHeap_invariant area state.memory
  refine invariant.represents.determined fresh.represents fun place =>
    ⟨fun member => ?_, fun member => ?_⟩
  · exact absurd (noLive _) (invariant.live.recorded place.1 place.2 member)
  · simp at member

/-! An area at address 4096 and a short history in it: two blocks carved from the
tail, the second one then freed first. -/

def exampleArea : Area := ⟨4096, by decide, by decide⟩

def exampleHeap : HeapState := initialHeap exampleArea fun _ => 0

theorem exampleHeap_mallocs : ∃ first second,
    malloc exampleArea exampleHeap.memory (100 : UInt32).toNat = some (1052572, first) ∧
      malloc exampleArea first (8 : UInt32).toNat = some (1052548, second) := by
  have granted : ∀ {result : Option (Nat × Memory)} {p : Nat}, result.map Prod.fst = some p →
      ∃ memory, result = some (p, memory) := by
    intro result p found
    obtain ⟨⟨_, memory⟩, called, rfl⟩ := Option.map_eq_some_iff.mp found
    exact ⟨memory, called⟩
  have evaluated : ((malloc exampleArea exampleHeap.memory (100 : UInt32).toNat).bind fun result =>
      malloc exampleArea result.2 (8 : UInt32).toNat).map Prod.fst = some 1052548 := by
    decide +kernel
  obtain ⟨first, called⟩ := @granted (malloc exampleArea exampleHeap.memory (100 : UInt32).toNat)
    1052572 (by decide +kernel)
  rw [called, Option.bind_some] at evaluated
  obtain ⟨second, calledAgain⟩ := granted evaluated
  exact ⟨first, second, called, calledAgain⟩

theorem exampleHeap_run : ∃ state, Run (HeapStep exampleArea) exampleHeap
    [.malloc 100, .malloc 8, .memFree 1052572] state ∧ state.live 1052548 = some 8 := by
  obtain ⟨first, second, called, calledAgain⟩ := exampleHeap_mallocs
  have firstStep : HeapStep exampleArea exampleHeap (.malloc 100)
      ⟨first, claim exampleHeap.live 1052572 100⟩ := ⟨trivial, by rw [exec, called]; rfl⟩
  have secondStep : HeapStep exampleArea ⟨first, claim exampleHeap.live 1052572 100⟩ (.malloc 8)
      ⟨second, claim (claim exampleHeap.live 1052572 100) 1052548 8⟩ :=
    ⟨trivial, by rw [exec, calledAgain]; rfl⟩
  refine ⟨_, ((Run.single firstStep).snoc secondStep).snoc ⟨.inr ?_, rfl⟩, ?_⟩
  · simp [claim, nullPointer]
  · simp [release, claim, nullPointer]

private theorem exampleHeap_session : ∃ state own,
    OwnSession exampleArea exampleHeap state own ∧ ∀ p, p ∉ own := by
  obtain ⟨first, second, called, calledAgain⟩ := exampleHeap_mallocs
  have session := (OwnSession.begin.malloc called).malloc calledAgain
  have firstFreed := session.memFree (p := 1052572) (.inl (.inr ⟨rfl, by simp [nullPointer]⟩))
  have bothFreed := firstFreed.memFree (p := 1052548)
    ⟨.inr ⟨rfl, by simp [nullPointer]⟩, by simp⟩
  refine ⟨_, _, bothFreed, ?_⟩
  rintro p ⟨⟨(inEmpty | ⟨rfl, _⟩) | ⟨rfl, _⟩, notFirst⟩, notSecond⟩
  · exact inEmpty
  · exact notFirst rfl
  · exact notSecond rfl

/-- Every history of allowed calls leaves a list of nodes that tiles the area,
and every further allowed call returns. -/
theorem reachable_tilesArea (area : Area) (memory : Memory) {calls : List HeapCall}
    {state : HeapState} (run : Run (HeapStep area) (initialHeap area memory) calls state) :
    (∃ nodes, TilesArea area state nodes) ∧
      ∀ call, Allowed state call → ∃ next, HeapStep area state call next := by
  obtain ⟨blocks, invariant⟩ := heapInvariant_of_run run
  refine ⟨⟨_, invariant.tilesArea⟩, fun call allowed => ?_⟩
  obtain ⟨next, _, called, _⟩ := invariant.exec allowed
  exact ⟨next, allowed, called⟩

theorem reachable_tilesArea_exampleHeap : ∃ state, state.live 1052548 = some 8 ∧
    ∃ nodes, TilesArea exampleArea state nodes := by
  obtain ⟨state, run, isLive⟩ := exampleHeap_run
  exact ⟨state, isLive, (reachable_tilesArea exampleArea _ run).1⟩

theorem reachable_payloadsApart (area : Area) (memory : Memory) {calls : List HeapCall}
    {state : HeapState} (run : Run (HeapStep area) (initialHeap area memory) calls state) :
    (∃ nodes, Walk state.memory area.base nodes ∧ PayloadsApart area state nodes) ∧
      ∀ call, Allowed state call → ∃ next, exec area state call = some next ∧
        ∀ p, state.live p ≠ none → Spares p call →
          ∀ address, p ≤ address → address < p + payloadSize state.memory p →
            next.memory address = state.memory address := by
  obtain ⟨blocks, invariant⟩ := heapInvariant_of_run run
  refine ⟨⟨_, invariant.walk, invariant.payloadsApart⟩, fun call allowed => ?_⟩
  obtain ⟨next, _, called, _, kept⟩ := invariant.exec allowed
  refine ⟨next, called, fun p isLive spared address low high => ?_⟩
  obtain ⟨place, size, rfl, member⟩ := invariant.place_of_live isLive
  rw [invariant.size_of_place member] at high
  exact kept _ member spared address low high

theorem reachable_payloadsApart_exampleHeap : ∃ state, state.live 1052548 = some 8 ∧
    ∃ nodes, Walk state.memory 4096 nodes ∧ PayloadsApart exampleArea state nodes := by
  obtain ⟨state, run, isLive⟩ := exampleHeap_run
  exact ⟨state, isLive, (reachable_payloadsApart exampleArea _ run).1⟩

/-- A session that frees exactly its own blocks restores the node list, and a
heap without live pointers has the node list of `init_dynamic_mem`. -/
theorem ownSession_restores (area : Area) (memory : Memory) {calls : List HeapCall}
    {start state : HeapState} {own : Set Nat}
    (run : Run (HeapStep area) (initialHeap area memory) calls start)
    (session : OwnSession area start state own) (freed : ∀ p, p ∉ own) :
    (∃ list, NodeList area start.memory list ∧ NodeList area state.memory list) ∧
      ((∀ p, start.live p = none) →
        NodeList area start.memory [(0, dynamicMemTotalSize - dynamicMemNodeSize, 0)]) := by
  obtain ⟨begun, initial⟩ := heapInvariant_of_run run
  obtain ⟨blocks, invariant, places⟩ := session.ownPlaces initial
  rw [Set.eq_empty_of_forall_notMem freed] at places
  have same := places.restored initial invariant
  subst same
  refine ⟨⟨_, initial.nodeList, invariant.nodeList⟩, fun noLive => ?_⟩
  have single := initial.nodeList
  rw [initial.blocks_of_no_live noLive] at single
  simpa [entries, dynamicMemTotalSize, dynamicMemNodeSize] using single

theorem ownSession_restores_exampleHeap : ∃ state own list,
    OwnSession exampleArea exampleHeap state own ∧ (∀ p, p ∉ own) ∧
      NodeList exampleArea exampleHeap.memory list ∧ NodeList exampleArea state.memory list := by
  obtain ⟨state, own, session, freed⟩ := exampleHeap_session
  obtain ⟨⟨list, before, after⟩, _⟩ :=
    ownSession_restores exampleArea (fun _ => 0) .nil session freed
  exact ⟨state, own, list, session, freed, before, after⟩

end ShedKernel.Heap
