import ShedKernel.Heap.BestFitProperties

/-! `realloc` on live blocks of any reachable heap: what it moves, and when it fails. -/

set_option autoImplicit false

namespace ShedKernel.Heap

open Foundation BlockList

/-- The block of `p` has the size and the bytes it had. -/
structure BlockSame (memory changed : Memory) (p : Nat) : Prop where
  size : payloadSize changed p = payloadSize memory p
  bytes : ∀ index, index < payloadSize memory p → changed (p + index) = memory (p + index)

/-- The block of `p` is at `q` now, with room for `size` bytes. -/
structure MovesTo (area : Area) (memory changed : Memory) (p size q : Nat) : Prop where
  live : LiveBlock area changed q
  enough : size ≤ payloadSize changed q
  contents : ∀ index, index < min (payloadSize memory p) size →
    changed (q + index) = memory (p + index)
  released : q ≠ p → ¬LiveBlock area changed p
  others : ∀ other, LiveBlock area memory other → other ≠ p →
    LiveBlock area changed other ∧ BlockSame memory changed other

section Live

variable {area : Area} {memory changed : Memory} {blocks after : List Block}
  {place old size newPlace granted : Nat}

/-- Nothing moved: the block is large enough. -/
theorem MovesTo.stays {p : Nat} (live : LiveBlock area memory p)
    (enough : size ≤ payloadSize memory p) : MovesTo area memory memory p size p where
  live := live
  enough := enough
  contents _ _ := rfl
  released different := absurd rfl different
  others _ otherLive _ := ⟨otherLive, rfl, fun _ _ => rfl⟩

private theorem Moved.movesTo (moved : Moved area memory blocks place old size newPlace granted changed after)
    (represents : Represents area memory blocks)
    (member : (place, old) ∈ usedPlaces 16 area.base blocks) :
    MovesTo area memory changed (place + 16) size (newPlace + 16) := by
  have newMember := (moved.places (newPlace, granted)).mpr (.inl rfl)
  refine ⟨(moved.represents.liveBlock_iff _).mpr ⟨newPlace, granted, rfl, newMember⟩, ?_, ?_, ?_, ?_⟩
  · rw [moved.represents.payloadSize_eq newMember]
    exact moved.enough
  · rw [represents.payloadSize_eq member]
    intro index inside
    exact moved.copied index (by omega)
  · intro different stillLive
    obtain ⟨other, otherSize, same, inUse⟩ := (moved.represents.liveBlock_iff _).mp stillLive
    cases (moved.places _).mp inUse with
    | inl new =>
        cases new
        exact different same.symm
    | inr kept =>
        have here : other = place := by omega
        exact kept.2 here
  · intro p live different
    obtain ⟨other, otherSize, rfl, inUse⟩ := (represents.liveBlock_iff _).mp live
    have apart : other ≠ place := by omega
    have stays := (moved.places (other, otherSize)).mpr (.inr ⟨inUse, apart⟩)
    have kept := moved.kept _ inUse apart
    refine ⟨(moved.represents.liveBlock_iff _).mpr ⟨other, otherSize, rfl, stays⟩, ?_, ?_⟩
    · rw [moved.represents.payloadSize_eq stays, represents.payloadSize_eq inUse]
    · rw [represents.payloadSize_eq inUse]
      intro index inside
      exact kept _ (by simp only; omega) (by simp only; omega)

end Live

/-- `realloc` of a live block either changes nothing and returns null, or gives a live block
that is large enough and holds what fits of the old one; no other block notices. -/
theorem realloc_moves_block (area : Area) (memory : Memory) (calls : List HeapCall)
    (state : HeapState) (run : Run (HeapStep area) (initialHeap area memory) calls state) (p : Nat)
    (live : LiveBlock area state.memory p) (size : UInt32) (positive : 0 < size.toNat) :
    ∃ q changed, realloc area state.memory p size.toNat = some (q, changed) ∧
      (q = nullPointer → changed = state.memory ∧ LiveBlock area changed p) ∧
      (q ≠ nullPointer → MovesTo area state.memory changed p size.toNat q) ∧
      ∃ nodes, TilesArea area ⟨changed, liveAfterRealloc state.live p size.toNat q⟩ nodes := by
  obtain ⟨blocks, invariant⟩ := heapInvariant_of_run run
  obtain ⟨place, old, rfl, member⟩ := (invariant.represents.liveBlock_iff p).mp live
  obtain ⟨q, changed, after, called, result, next⟩ := invariant.realloc size member (by omega)
  refine ⟨q, changed, called, ?_, ?_, _, next.tilesArea⟩
  · intro null
    cases result with
    | outside => exact ⟨rfl, live⟩
    | refused => exact ⟨rfl, live⟩
    | fits => cases null
    | moved => cases null
  · intro notNull
    cases result with
    | outside => exact absurd rfl notNull
    | refused => exact absurd rfl notNull
    | fits enough =>
        refine .stays live ?_
        rwa [invariant.represents.payloadSize_eq member]
    | moved _ move => exact move.movesTo invariant.represents member

private theorem liveBlock_of_live {area : Area} {memory : Memory} {calls : List HeapCall}
    {state : HeapState} (run : Run (HeapStep area) (initialHeap area memory) calls state) {p : Nat}
    (isLive : state.live p ≠ none) : LiveBlock area state.memory p := by
  obtain ⟨blocks, invariant⟩ := heapInvariant_of_run run
  obtain ⟨place, size, rfl, member⟩ := invariant.place_of_live isLive
  exact (invariant.represents.liveBlock_iff _).mpr ⟨place, size, rfl, member⟩

/-- The block of eight bytes grows to twenty. -/
theorem realloc_moves_block_exampleHeap : ∃ (state : HeapState) (q : Nat) (changed : Memory),
    LiveBlock exampleArea state.memory 1052548 ∧
      realloc exampleArea state.memory 1052548 (20 : UInt32).toNat = some (q, changed) ∧
      (q ≠ nullPointer → MovesTo exampleArea state.memory changed 1052548 20 q) := by
  obtain ⟨state, run, isLive⟩ := exampleHeap_run
  have live := liveBlock_of_live run (by rw [isLive]; exact Option.some_ne_none 8)
  obtain ⟨q, changed, called, _, moves, _⟩ :=
    realloc_moves_block exampleArea _ _ state run 1052548 live 20 (by decide)
  exact ⟨state, q, changed, live, called, moves⟩

/-- No node fits a request of `size` bytes. -/
def NoRoom (area : Area) (memory : Memory) (size : Nat) : Prop :=
  ∀ nodes node, Walk memory area.base nodes → node ∈ nodes → ¬Node.Fits memory size node

theorem Represents.noRoom {area : Area} {memory : Memory} {blocks : List Block} {size : Nat}
    (represents : Represents area memory blocks)
    (small : ∀ block ∈ blocks, block.used = false → block.size < size) :
    NoRoom area memory size := by
  intro nodes node walk member fits
  rw [walk.unique represents.walk] at member
  obtain ⟨block, inBlocks, _, atNode⟩ := represents.chain.block_of_start member
  obtain ⟨free, large⟩ := (atNode.fits_iff size).mp fits
  exact absurd (small block inBlocks free) (Nat.not_lt.mpr large)

private theorem realloc_of_end {area : Area} {memory : Memory} {size : Nat} (positive : 0 < size) :
    realloc area memory (area.base + dynamicMemTotalSize) size = some (nullPointer, memory) := by
  have base := area.base_pos
  unfold realloc
  rw [if_neg (by unfold nullPointer; omega), if_neg (by omega), if_pos (.inr le_rfl)]

/-- `realloc` returns null for lack of memory only, unless the block is the empty one at the
end of the area and there is room elsewhere. -/
theorem realloc_fails_for_lack_iff (area : Area) (memory : Memory) (calls : List HeapCall)
    (state : HeapState) (run : Run (HeapStep area) (initialHeap area memory) calls state) (p : Nat)
    (live : LiveBlock area state.memory p) (size : UInt32) (positive : 0 < size.toNat) :
    ∃ q changed, realloc area state.memory p size.toNat = some (q, changed) ∧
      ((q = nullPointer →
          payloadSize state.memory p < size.toNat ∧ NoRoom area state.memory size.toNat) ↔
        p ≠ area.base + dynamicMemTotalSize ∨ NoRoom area state.memory size.toNat) := by
  obtain ⟨blocks, invariant⟩ := heapInvariant_of_run run
  obtain ⟨place, old, rfl, member⟩ := (invariant.represents.liveBlock_iff p).mp live
  have bounds := usedPlaces_bounds member
  have total := invariant.represents.total
  have held := invariant.represents.payloadSize_eq member
  obtain ⟨q, changed, after, called, result, _⟩ := invariant.realloc size member (by omega)
  refine ⟨q, changed, called, ?_⟩
  rw [held]
  by_cases atEnd : place + 16 = area.base + dynamicMemTotalSize
  · -- only an empty block can start there
    have empty : old < size.toNat := by
      unfold dynamicMemTotalSize at atEnd
      omega
    rw [atEnd, realloc_of_end positive] at called
    cases called
    simp [atEnd, empty]
  · have lack : q = nullPointer → old < size.toNat ∧ NoRoom area state.memory size.toNat := by
      intro null
      cases result with
      | outside there => exact absurd there atEnd
      | refused smaller none => exact ⟨smaller, invariant.represents.noRoom none⟩
      | fits => cases null
      | moved => cases null
    exact iff_of_true lack (.inl atEnd)

/-- In the heap of the run before, twenty bytes are refused for lack of memory only. -/
theorem realloc_fails_for_lack_exampleHeap : ∃ (state : HeapState) (q : Nat) (changed : Memory),
    realloc exampleArea state.memory 1052548 (20 : UInt32).toNat = some (q, changed) ∧
      (q = nullPointer →
        payloadSize state.memory 1052548 < 20 ∧ NoRoom exampleArea state.memory 20) := by
  obtain ⟨state, run, isLive⟩ := exampleHeap_run
  have live := liveBlock_of_live run (by rw [isLive]; exact Option.some_ne_none 8)
  obtain ⟨q, changed, called, lack⟩ :=
    realloc_fails_for_lack_iff exampleArea _ _ state run 1052548 live 20 (by decide)
  exact ⟨state, q, changed, called, lack.mpr (.inl (by decide))⟩

/-- A block of no bytes from the fresh heap starts where the area ends; `realloc` of it to one
byte fails, with a megabyte free. -/
theorem realloc_refuses_block_at_end : ∃ state changed,
    Run (HeapStep exampleArea) exampleHeap [.malloc 0] state ∧
      LiveBlock exampleArea state.memory 1052672 ∧
      realloc exampleArea state.memory 1052672 (1 : UInt32).toNat = some (nullPointer, changed) ∧
      ¬NoRoom exampleArea state.memory 1 := by
  have evaluated : ((malloc exampleArea exampleHeap.memory (0 : UInt32).toNat).any fun result =>
      result.1 == 1052672 && Node.used result.2 4096 == 0 &&
        Node.size result.2 4096 == 1048544) = true := by
    decide +kernel
  obtain ⟨⟨p, memory⟩, called, facts⟩ := (Option.any_eq_true _ _).mp evaluated
  simp only [Bool.and_eq_true, beq_iff_eq] at facts
  obtain ⟨⟨rfl, free⟩, size⟩ := facts
  have step : HeapStep exampleArea exampleHeap (.malloc 0)
      ⟨memory, claim exampleHeap.live 1052672 0⟩ := ⟨trivial, by rw [exec, called]; rfl⟩
  have run := Run.single step
  have live := @liveBlock_of_live _ _ _ _ run 1052672 (by simp [claim, nullPointer])
  refine ⟨_, _, run, live, realloc_of_end (by decide), fun none => ?_⟩
  obtain ⟨blocks, invariant⟩ := heapInvariant_of_run run
  have first : exampleArea.base ∈ starts exampleArea.base blocks := by
    have total := invariant.represents.total
    cases blocks with
    | nil => simp at total
    | cons block rest => exact List.mem_cons_self
  have large : 1 ≤ Node.size memory exampleArea.base := size.symm ▸ (by decide)
  exact none _ _ invariant.walk first ⟨free, large⟩

end ShedKernel.Heap
