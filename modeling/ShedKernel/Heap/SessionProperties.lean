import ShedKernel.Heap.AllocatorProperties
import ShedKernel.Heap.Session

/-! The heap invariant over arbitrary histories of its callers. -/

set_option autoImplicit false

namespace ShedKernel.Heap

open Foundation BlockList

attribute [local irreducible] memFree

/-- The recorded live pointers are the payloads of the places in use, each at
least as large as requested. -/
structure LiveMatches (live : Nat → Option Nat) (inUse : Nat × Nat → Prop) : Prop where
  placed : ∀ p requested, live p = some requested →
    ∃ place size, p = place + 16 ∧ inUse (place, size) ∧ requested ≤ size
  recorded : ∀ place size, inUse (place, size) → live (place + 16) ≠ none

namespace LiveMatches

variable {live : Nat → Option Nat} {inUse after : Nat × Nat → Prop}

private theorem claim_place (matched : LiveMatches live inUse) {place granted requested : Nat}
    (enough : requested ≤ granted)
    (places : ∀ other, after other ↔ other = (place, granted) ∨ inUse other) :
    LiveMatches (claim live (place + 16) requested) after := by
  unfold claim
  rw [if_neg (by unfold nullPointer; omega)]
  constructor
  · intro p size found
    split at found
    · next same =>
        cases found
        exact ⟨place, granted, same, (places _).mpr (.inl rfl), enough⟩
    · obtain ⟨other, otherSize, rfl, used, large⟩ := matched.placed p size found
      exact ⟨other, otherSize, rfl, (places _).mpr (.inr used), large⟩
  · intro other size used
    split
    · simp
    · next different =>
        cases (places _).mp used with
        | inl same => exact absurd (congrArg (· + 16) (congrArg Prod.fst same)) different
        | inr old => exact matched.recorded other size old

private theorem release_place (matched : LiveMatches live inUse) {place : Nat}
    (places : ∀ other, after other ↔ inUse other ∧ other.1 ≠ place) :
    LiveMatches (release live (place + 16)) after := by
  unfold release
  constructor
  · intro p size found
    split at found
    · cases found
    · next different =>
        obtain ⟨other, otherSize, rfl, used, large⟩ := matched.placed p size found
        exact ⟨other, otherSize, rfl, (places _).mpr ⟨used, by simp only; omega⟩, large⟩
  · intro other size used
    obtain ⟨old, different⟩ := (places _).mp used
    simp only at different ⊢
    rw [if_neg (by omega)]
    exact matched.recorded other size old

private theorem null_free (matched : LiveMatches live inUse) : live nullPointer = none := by
  by_contra isLive
  obtain ⟨requested, found⟩ := Option.ne_none_iff_exists'.mp isLive
  obtain ⟨place, _, same, _⟩ := matched.placed _ _ found
  unfold nullPointer at same
  omega

theorem release_null (matched : LiveMatches live inUse) : release live nullPointer = live := by
  funext p
  unfold release
  split
  · next same => rw [same, matched.null_free]
  · rfl

end LiveMatches

theorem Represents.payloadSize_eq {area : Area} {memory : Memory} {blocks : List Block}
    (represents : Represents area memory blocks) {place size : Nat}
    (member : (place, size) ∈ usedPlaces 16 area.base blocks) :
    payloadSize memory (place + 16) = size := by
  obtain ⟨front, back, rfl, rfl⟩ := mem_usedPlaces_iff.mp member
  unfold payloadSize dynamicMemNodeSize
  rw [Nat.add_sub_cancel]
  exact (NodeChain.append_iff.mp represents.chain).2.1.size

structure HeapInvariant (area : Area) (state : HeapState) (blocks : List Block) : Prop where
  represents : Represents area state.memory blocks
  live : LiveMatches state.live (· ∈ usedPlaces 16 area.base blocks)

theorem initialHeap_invariant (area : Area) (memory : Memory) :
    HeapInvariant area (initialHeap area memory) [⟨1048560, false⟩] where
  represents := initDynamicMem_represents area memory
  live := ⟨fun _ _ found => by simp [initialHeap] at found, fun _ _ used => by simp at used⟩

namespace HeapInvariant

variable {area : Area} {state : HeapState} {blocks : List Block}

/-- A live pointer cuts the block list at its block. -/
theorem place_of_live (invariant : HeapInvariant area state blocks) {p : Nat}
    (isLive : state.live p ≠ none) :
    ∃ place size, p = place + 16 ∧ (place, size) ∈ usedPlaces 16 area.base blocks := by
  obtain ⟨requested, found⟩ := Option.ne_none_iff_exists'.mp isLive
  obtain ⟨place, size, same, used, _⟩ := invariant.live.placed p requested found
  exact ⟨place, size, same, used⟩

theorem size_of_place (invariant : HeapInvariant area state blocks) {place size : Nat}
    (member : (place, size) ∈ usedPlaces 16 area.base blocks) :
    payloadSize state.memory (place + 16) = size :=
  invariant.represents.payloadSize_eq member

theorem malloc (invariant : HeapInvariant area state blocks) (size : UInt32) :
    ∃ p memory after, Heap.malloc area state.memory size.toNat = some (p, memory) ∧
      HeapInvariant area ⟨memory, claim state.live p size.toNat⟩ after ∧
      ((p = nullPointer ∧ memory = state.memory ∧ after = blocks) ∨
        ∃ place granted, p = place + 16 ∧
          Granted area state.memory blocks size.toNat place granted memory after) := by
  obtain ⟨p, memory, after, called, result⟩ :=
    malloc_spec invariant.represents size.toNat_lt
  refine ⟨p, memory, after, called, ?_⟩
  rcases result.granted with ⟨rfl, rfl, rfl, _⟩ | ⟨place, granted, rfl, grant⟩
  · exact ⟨⟨invariant.represents, invariant.live⟩, .inl ⟨rfl, rfl, rfl⟩⟩
  · exact ⟨⟨grant.represents, invariant.live.claim_place grant.enough grant.places⟩,
      .inr ⟨place, granted, rfl, grant⟩⟩

theorem memFree (invariant : HeapInvariant area state blocks) {place size : Nat}
    (member : (place, size) ∈ usedPlaces 16 area.base blocks) :
    ∃ after, Released area state.memory blocks place (Heap.memFree state.memory (place + 16))
        after ∧
      HeapInvariant area
        ⟨Heap.memFree state.memory (place + 16), release state.live (place + 16)⟩ after := by
  obtain ⟨front, back, rfl, rfl⟩ := mem_usedPlaces_iff.mp member
  have free := memFree_spec invariant.represents
  exact ⟨_, free, free.represents, invariant.live.release_place free.places⟩

theorem memFree_null (memory : Memory) : Heap.memFree memory nullPointer = memory := by
  rw [Heap.memFree, if_pos rfl]

theorem store (invariant : HeapInvariant area state blocks) {address : Nat} (value : UInt8)
    (allowed : Allowed state (.store address value)) :
    HeapInvariant area ⟨state.memory.storeByte address value, state.live⟩ blocks := by
  obtain ⟨p, isLive, low, high⟩ := allowed
  obtain ⟨place, size, rfl, member⟩ := invariant.place_of_live isLive
  rw [invariant.size_of_place member] at high
  exact ⟨(invariant.represents.store member fun other _ =>
    Memory.storeByte_of_ne (by omega)).1, invariant.live⟩

theorem realloc (invariant : HeapInvariant area state blocks) {place old : Nat} (size : UInt32)
    (member : (place, old) ∈ usedPlaces 16 area.base blocks) (positive : size.toNat ≠ 0) :
    ∃ p memory after, Heap.realloc area state.memory (place + 16) size.toNat = some (p, memory) ∧
      ReallocResult area state.memory blocks place old size.toNat p memory after ∧
      HeapInvariant area
        ⟨memory, liveAfterRealloc state.live (place + 16) size.toNat p⟩ after := by
  obtain ⟨p, memory, after, called, result⟩ :=
    realloc_spec invariant.represents member (by omega) size.toNat_lt
  refine ⟨p, memory, after, called, result, ?_⟩
  unfold liveAfterRealloc
  rw [if_neg (by unfold nullPointer; omega), if_neg positive]
  cases result with
  | outside => exact invariant
  | refused => exact invariant
  | fits enough =>
      rw [if_neg (by unfold nullPointer; omega)]
      -- the block stays, and now answers for the new request
      refine ⟨invariant.represents, ?_⟩
      have others : LiveMatches (release state.live (place + 16)) fun other =>
          other ∈ usedPlaces 16 area.base blocks ∧ other.1 ≠ place :=
        invariant.live.release_place fun _ => Iff.rfl
      refine others.claim_place enough fun other => ⟨fun used => ?_, ?_⟩
      · by_cases same : other.1 = place
        · rcases usedPlaces_disjoint member used with equal | below | above
          · exact .inl equal.symm
          · simp only at below; omega
          · simp only at above; omega
        · exact .inr ⟨used, same⟩
      · rintro (rfl | ⟨used, _⟩)
        · exact member
        · exact used
  | moved _ move =>
      rw [if_neg (by unfold nullPointer; omega)]
      have others : LiveMatches (release state.live (place + 16)) fun other =>
          other ∈ usedPlaces 16 area.base blocks ∧ other.1 ≠ place :=
        invariant.live.release_place fun _ => Iff.rfl
      exact ⟨move.represents, others.claim_place move.enough move.places⟩

/-- Every allowed call returns, keeps the invariant, and keeps the payload of
every block in use that is not its argument. -/
theorem exec (invariant : HeapInvariant area state blocks) {call : HeapCall}
    (allowed : Allowed state call) :
    ∃ next after, Heap.exec area state call = some next ∧ HeapInvariant area next after ∧
      ∀ place ∈ usedPlaces 16 area.base blocks, Spares (place.1 + 16) call →
        PayloadKept state.memory next.memory place := by
  have nullSpared : ∀ {size : UInt32}, ∃ p memory after,
      Heap.malloc area state.memory size.toNat = some (p, memory) ∧
      HeapInvariant area ⟨memory, Heap.claim state.live p size.toNat⟩ after ∧
      PayloadsKept state.memory memory (usedPlaces 16 area.base blocks) := by
    intro size
    obtain ⟨p, memory, after, called, next, result⟩ := invariant.malloc size
    refine ⟨p, memory, after, called, next, ?_⟩
    rcases result with ⟨_, rfl, _⟩ | ⟨place, granted, _, grant⟩
    · exact fun _ _ _ _ _ => rfl
    · exact grant.kept
  have freed : ∀ {place size : Nat}, (place, size) ∈ usedPlaces 16 area.base blocks →
      ∃ after, HeapInvariant area
          ⟨Heap.memFree state.memory (place + 16), Heap.release state.live (place + 16)⟩ after ∧
        ∀ other ∈ usedPlaces 16 area.base blocks, other.1 ≠ place →
          PayloadKept state.memory (Heap.memFree state.memory (place + 16)) other := by
    intro place size member
    obtain ⟨after, free, next⟩ := invariant.memFree member
    exact ⟨after, next, fun other otherMember different =>
      free.kept other ((free.places other).mpr ⟨otherMember, different⟩)⟩
  cases call with
  | malloc size =>
      obtain ⟨p, memory, after, called, next, kept⟩ := @nullSpared size
      exact ⟨_, after, by rw [Heap.exec, called]; rfl, next, fun place member _ => kept place member⟩
  | memFree p =>
      rcases allowed with rfl | isLive
      · refine ⟨_, blocks, rfl, ?_, ?_⟩
        · rw [memFree_null, invariant.live.release_null]
          exact invariant
        · rw [memFree_null]
          exact fun _ _ _ _ _ _ => rfl
      · obtain ⟨place, size, rfl, member⟩ := invariant.place_of_live isLive
        obtain ⟨after, next, kept⟩ := freed member
        exact ⟨_, after, rfl, next, fun other otherMember spared =>
          kept other otherMember fun same => spared (by rw [same])⟩
  | realloc p size =>
      rcases allowed with rfl | isLive
      · obtain ⟨p, memory, after, called, next, kept⟩ := @nullSpared size
        refine ⟨⟨memory, Heap.claim state.live p size.toNat⟩, after, ?_, next,
          fun place member _ => kept place member⟩
        rw [Heap.exec, Heap.realloc, if_pos rfl, called, Option.map_some, liveAfterRealloc,
          if_pos rfl]
      obtain ⟨place, old, rfl, member⟩ := invariant.place_of_live isLive
      by_cases zero : size.toNat = 0
      · obtain ⟨after, next, kept⟩ := freed member
        refine ⟨_, after, ?_, next, fun other otherMember spared =>
          kept other otherMember fun same => spared (by rw [same])⟩
        rw [Heap.exec, Heap.realloc, if_neg (by unfold nullPointer; omega), if_pos zero,
          Option.map_some, liveAfterRealloc, if_neg (by unfold nullPointer; omega), if_pos zero]
      · obtain ⟨p, memory, after, called, result, next⟩ := invariant.realloc size member zero
        refine ⟨_, after, by rw [Heap.exec, called]; rfl, next, ?_⟩
        intro other otherMember spared
        have different : other.1 ≠ place := fun same => spared (by rw [same])
        cases result with
        | outside => exact fun _ _ _ => rfl
        | refused => exact fun _ _ _ => rfl
        | fits => exact fun _ _ _ => rfl
        | moved _ move => exact move.kept other otherMember different
  | store address value =>
      exact ⟨_, blocks, rfl, invariant.store value allowed, fun _ _ spared => spared.elim⟩

end HeapInvariant

/-- The invariant holds wherever a history of allowed calls leads. -/
theorem heapInvariant_of_run {area : Area} {memory : Memory} {calls : List HeapCall}
    {state : HeapState} (run : Run (HeapStep area) (initialHeap area memory) calls state) :
    ∃ blocks, HeapInvariant area state blocks := by
  have preserved : ∀ current call next, (∃ blocks, HeapInvariant area current blocks) →
      HeapStep area current call next → ∃ blocks, HeapInvariant area next blocks := by
    rintro current call next ⟨blocks, invariant⟩ ⟨allowed, stepped⟩
    obtain ⟨reached, after, called, reachedInvariant, _⟩ := invariant.exec allowed
    rw [called] at stepped
    cases stepped
    exact ⟨after, reachedInvariant⟩
  exact run.invariant ⟨_, initialHeap_invariant area memory⟩ preserved

end ShedKernel.Heap
