import ShedKernel.Heap.TilingProperties

/-! Clients of the heap. A client holds some blocks of its own among the blocks in use;
each call of the allocator takes one from its list, puts one there or swaps one, and
leaves alone what the client holds besides. -/

set_option autoImplicit false

namespace ShedKernel.Heap

open Foundation BlockList

/-- A block in use, by its payload pointer and its size. -/
structure Chunk where
  p : Nat
  size : Nat

/-- The blocks in use are those of `begun` and the client's own. -/
structure OwnChunks (area : Area) (begun blocks : List Block) (own : List Chunk) : Prop where
  places : ∀ place size, (place, size) ∈ usedPlaces 16 area.base blocks ↔
    (place, size) ∈ usedPlaces 16 area.base begun ∨ ⟨place + 16, size⟩ ∈ own
  placed : ∀ chunk ∈ own, ∃ place, chunk.p = place + 16 ∧
    ∀ size, (place, size) ∉ usedPlaces 16 area.base begun
  distinct : own.Pairwise fun left right => left.p ≠ right.p

def Owns (area : Area) (begun : List Block) (memory : Memory) (own : List Chunk) : Prop :=
  ∃ blocks, Represents area memory blocks ∧ OwnChunks area begun blocks own

/-- The same bytes outside the area, in every block of `begun` and in every chunk. -/
structure Untouched (area : Area) (begun : List Block) (own : List Chunk)
    (memory changed : Memory) : Prop where
  outside : OutsideKept area memory changed
  begun : PayloadsKept memory changed (usedPlaces 16 area.base begun)
  own : ∀ chunk ∈ own, ∀ index, index < chunk.size →
    changed (chunk.p + index) = memory (chunk.p + index)

/-- Bytes outside the area, in a block of `begun` or in a chunk. -/
inductive Kept (area : Area) (begun : List Block) (own : List Chunk) (start count : Nat) : Prop where
  | below (bounded : start + count ≤ area.base)
  | above (bounded : area.base + 1048576 ≤ start)
  | begun {place size : Nat} (member : (place, size) ∈ usedPlaces 16 area.base begun)
      (low : place + 16 ≤ start) (high : start + count ≤ place + 16 + size)
  | own {chunk : Chunk} (member : chunk ∈ own) (low : chunk.p ≤ start)
      (high : start + count ≤ chunk.p + chunk.size)

/-- Bytes outside the area or in a live block. -/
def InUse (area : Area) (memory : Memory) (start count : Nat) : Prop :=
  start + count ≤ area.base ∨ area.base + dynamicMemTotalSize ≤ start ∨
    ∃ p, LiveBlock area memory p ∧ p ≤ start ∧ start + count ≤ p + payloadSize memory p

variable {area : Area} {begun : List Block} {memory middle changed : Memory} {own : List Chunk}
  {chunk : Chunk}

theorem InUse.kept (represents : Represents area memory begun) {start count : Nat}
    (inUse : InUse area memory start count) : Kept area begun own start count := by
  rcases inUse with below | above | ⟨p, live, low, high⟩
  · exact .below below
  · exact .above above
  · obtain ⟨place, size, rfl, member⟩ := (represents.liveBlock_iff p).mp live
    rw [represents.payloadSize_eq member] at high
    exact .begun member low high

/-- Some of the bytes. -/
theorem Kept.within {start count index fewer : Nat} (kept : Kept area begun own start count)
    (bounded : index + fewer ≤ count) : Kept area begun own (start + index) fewer := by
  cases kept with
  | below low => exact .below (by omega)
  | above high => exact .above (by omega)
  | begun member low high => exact .begun member (by omega) (by omega)
  | own member low high => exact .own member (by omega) (by omega)

theorem Kept.mono {start count : Nat} {more : List Chunk} (kept : Kept area begun own start count)
    (subset : ∀ chunk ∈ own, chunk ∈ more) : Kept area begun more start count := by
  cases kept with
  | below bounded => exact .below bounded
  | above bounded => exact .above bounded
  | begun member low high => exact .begun member low high
  | own member low high => exact .own (subset _ member) low high

namespace Untouched

theorem refl (memory : Memory) : Untouched area begun own memory memory :=
  ⟨fun _ _ => rfl, .refl _ _, fun _ _ _ _ => rfl⟩

theorem trans (first : Untouched area begun own memory middle)
    (second : Untouched area begun own middle changed) :
    Untouched area begun own memory changed where
  outside := first.outside.trans second.outside
  begun := first.begun.trans second.begun
  own := fun chunk member index inside =>
    (second.own chunk member index inside).trans (first.own chunk member index inside)

theorem mono {fewer : List Chunk} (untouched : Untouched area begun own memory changed)
    (subset : ∀ chunk ∈ fewer, chunk ∈ own) : Untouched area begun fewer memory changed :=
  ⟨untouched.outside, untouched.begun, fun chunk member => untouched.own chunk (subset chunk member)⟩

theorem kept (untouched : Untouched area begun own memory changed) {start count : Nat}
    (kept : Kept area begun own start count) {index : Nat} (inside : index < count) :
    changed (start + index) = memory (start + index) := by
  cases kept with
  | below bounded => exact untouched.outside _ (.inl (by omega))
  | above bounded => exact untouched.outside _ (.inr (by omega))
  | begun member low high =>
      exact untouched.begun _ member _ (by simp only; omega) (by simp only; omega)
  | @own chunk member low high =>
      have same := untouched.own chunk member (start + index - chunk.p) (by omega)
      rwa [show chunk.p + (start + index - chunk.p) = start + index by omega] at same

end Untouched

namespace Owns

theorem begin (represents : Represents area memory begun) : Owns area begun memory [] := by
  refine ⟨begun, represents, ?_, ?_, .nil⟩
  · simp
  · simp

/-- A client that holds nothing has left the block list as it was. -/
theorem restored {start : Memory} (initial : Represents area start begun)
    (owns : Owns area begun memory []) : Represents area memory begun := by
  obtain ⟨blocks, represents, places⟩ := owns
  have same : blocks = begun := by
    refine represents.determined initial fun place => ?_
    have iff := places.places place.1 place.2
    simpa using iff
  rwa [same] at represents

/-- What one client holds in addition to the blocks of another, both hold together. -/
theorem rebase {blocks : List Block} {own more : List Chunk} (chunks : OwnChunks area begun blocks own)
    (owns : Owns area blocks changed more) : Owns area begun changed (more ++ own) := by
  obtain ⟨later, represents, added⟩ := owns
  refine ⟨later, represents, fun place size => ?_, fun chunk member => ?_, ?_⟩
  · rw [added.places, chunks.places, List.mem_append, or_assoc]
    exact or_congr_right or_comm
  · cases List.mem_append.mp member with
    | inl new =>
        obtain ⟨place, payload, fresh⟩ := added.placed chunk new
        exact ⟨place, payload, fun size inBegun => fresh size ((chunks.places place size).mpr (.inl inBegun))⟩
    | inr old => exact chunks.placed chunk old
  · refine List.pairwise_append.mpr ⟨added.distinct, chunks.distinct, fun left new right old same => ?_⟩
    obtain ⟨place, payload, fresh⟩ := added.placed left new
    refine fresh right.size ((chunks.places place right.size).mpr (.inr ?_))
    rwa [← payload, same]

/-- The blocks in use are those of the beginning exactly if the client holds nothing. -/
theorem usedBlocks_iff {start : Memory} (initial : Represents area start begun)
    (owns : Owns area begun memory own) :
    usedBlocks area memory = usedBlocks area start ↔ own = [] := by
  constructor
  · intro same
    cases own with
    | nil => rfl
    | cons chunk rest =>
        obtain ⟨blocks, represents, chunks⟩ := owns
        obtain ⟨place, payload, fresh⟩ := chunks.placed chunk List.mem_cons_self
        have inUse := (chunks.places place chunk.size).mpr
          (.inr (by rw [← payload]; exact List.mem_cons_self))
        have held := (represents.mem_usedBlocks _).mpr ⟨place, chunk.size, inUse, rfl⟩
        rw [same] at held
        obtain ⟨other, size, inBegun, equal⟩ := (initial.mem_usedBlocks _).mp held
        have bounds := usedPlaces_bounds inUse
        have otherBounds := usedPlaces_bounds inBegun
        have samePlace := congrArg Prod.fst equal
        simp only at samePlace
        obtain rfl : other = place := by omega
        exact absurd inBegun (fresh size)
  · rintro rfl
    have back := owns.restored initial
    ext block
    rw [back.mem_usedBlocks, initial.mem_usedBlocks]

theorem perm {other : List Chunk} (owns : Owns area begun memory own) (perm : own.Perm other) :
    Owns area begun memory other := by
  obtain ⟨blocks, represents, places⟩ := owns
  refine ⟨blocks, represents, ?_, ?_, ?_⟩
  · intro place size
    rw [places.places, perm.mem_iff]
  · intro chunk member
    exact places.placed chunk (perm.mem_iff.mpr member)
  · exact (perm.pairwise_iff fun different => different.symm).mp places.distinct

theorem inside (owns : Owns area begun memory own) {chunk : Chunk} (member : chunk ∈ own) :
    area.base + 16 ≤ chunk.p ∧ chunk.p + chunk.size ≤ area.base + 1048576 := by
  obtain ⟨blocks, represents, places⟩ := owns
  obtain ⟨place, payload, _⟩ := places.placed chunk member
  have inUse := (places.places place chunk.size).mpr (.inr (by rw [← payload]; exact member))
  have bounds := usedPlaces_bounds inUse
  have total := represents.total
  omega

theorem pointer_lt (owns : Owns area begun memory own) {chunk : Chunk} (member : chunk ∈ own) :
    chunk.p < 4294967296 := by
  have inArea := owns.inside member
  have fits := area.fits_literal
  omega

/-- A header lies between two chunks. -/
theorem separate {chunk other : Chunk} (owns : Owns area begun memory (chunk :: own))
    (member : other ∈ own) :
    chunk.p + chunk.size + 16 ≤ other.p ∨ other.p + other.size + 16 ≤ chunk.p := by
  obtain ⟨blocks, represents, places⟩ := owns
  obtain ⟨place, payload, _⟩ := places.placed chunk (by simp)
  obtain ⟨otherPlace, otherPayload, _⟩ := places.placed other (by simp [member])
  have inUse := (places.places place chunk.size).mpr (.inr (by rw [← payload]; simp))
  have otherInUse := (places.places otherPlace other.size).mpr
    (.inr (by rw [← otherPayload]; simp [member]))
  have different := (List.pairwise_cons.mp places.distinct).1 other member
  cases usedPlaces_disjoint inUse otherInUse with
  | inl same =>
      have samePlace : place = otherPlace := congrArg Prod.fst same
      omega
  | inr apart =>
      simp only at apart
      omega

/-- A header lies between a chunk and a block of `begun`. -/
theorem separate_begun (owns : Owns area begun memory own) {chunk : Chunk} (member : chunk ∈ own)
    {place size : Nat} (inBegun : (place, size) ∈ usedPlaces 16 area.base begun) :
    chunk.p + chunk.size + 16 ≤ place + 16 ∨ place + 16 + size + 16 ≤ chunk.p := by
  obtain ⟨blocks, represents, places⟩ := owns
  obtain ⟨ownPlace, payload, fresh⟩ := places.placed chunk member
  have inUse := (places.places ownPlace chunk.size).mpr (.inr (by rw [← payload]; exact member))
  have otherInUse := (places.places place size).mpr (.inl inBegun)
  cases usedPlaces_disjoint inUse otherInUse with
  | inl same =>
      have samePlace : ownPlace = place := congrArg Prod.fst same
      rw [samePlace] at fresh
      exact absurd inBegun (fresh size)
  | inr apart =>
      simp only at apart
      omega

theorem apart (owns : Owns area begun memory (chunk :: own)) {start count : Nat}
    (kept : Kept area begun own start count) :
    start + count ≤ chunk.p ∨ chunk.p + chunk.size ≤ start := by
  have inArea := owns.inside List.mem_cons_self
  cases kept with
  | below bounded => exact .inl (by omega)
  | above bounded => exact .inr (by omega)
  | begun member low high =>
      have separate := owns.separate_begun List.mem_cons_self member
      omega
  | own member low high =>
      have separate := owns.separate member
      omega

theorem liveBlock (owns : Owns area begun memory own) (member : chunk ∈ own) :
    LiveBlock area memory chunk.p ∧ payloadSize memory chunk.p = chunk.size := by
  obtain ⟨blocks, represents, chunks⟩ := owns
  obtain ⟨place, payload, _⟩ := chunks.placed chunk member
  have inUse := (chunks.places place chunk.size).mpr (.inr (by rw [← payload]; exact member))
  rw [represents.liveBlock_iff, payload]
  exact ⟨⟨place, chunk.size, rfl, inUse⟩, represents.payloadSize_eq inUse⟩

/-- A live block is one of `begun` or one of the client's. -/
theorem of_liveBlock (owns : Owns area begun memory own) {p : Nat}
    (live : LiveBlock area memory p) :
    (∃ place, p = place + 16 ∧ (place, payloadSize memory p) ∈ usedPlaces 16 area.base begun) ∨
      ⟨p, payloadSize memory p⟩ ∈ own := by
  obtain ⟨blocks, represents, chunks⟩ := owns
  obtain ⟨place, size, rfl, inUse⟩ := (represents.liveBlock_iff p).mp live
  rw [represents.payloadSize_eq inUse]
  cases (chunks.places place size).mp inUse with
  | inl inBegun => exact .inl ⟨place, rfl, inBegun⟩
  | inr inOwn => exact .inr inOwn

/-- Stores outside the area. -/
theorem outside (owns : Owns area begun memory own)
    (same : ∀ other, area.base ≤ other → other < area.base + 1048576 → changed other = memory other) :
    Owns area begun changed own := by
  obtain ⟨blocks, represents, chunks⟩ := owns
  have total := represents.total
  refine ⟨blocks, ⟨represents.chain.congr fun other low high => ?_, total, represents.coalesced⟩,
    chunks⟩
  exact same other low (by omega)

/-- Stores outside the area or into blocks of `begun`. -/
theorem elsewhere (owns : Owns area begun memory own) {address : Nat} {value : UInt8}
    (kept : Kept area begun [] address 1) :
    Owns area begun (memory.storeByte address value) own ∧
      ∀ chunk ∈ own, ∀ index, index < chunk.size →
        memory.storeByte address value (chunk.p + index) = memory (chunk.p + index) := by
  constructor
  · obtain ⟨blocks, represents, chunks⟩ := owns
    refine ⟨blocks, ?_, chunks⟩
    have outside : (address < area.base ∨ area.base + 1048576 ≤ address) →
        Represents area (memory.storeByte address value) blocks := by
      intro notInside
      refine ⟨represents.chain.congr fun other low high => ?_, represents.total,
        represents.coalesced⟩
      have total := represents.total
      exact Memory.storeByte_of_ne (by omega)
    cases kept with
    | below bounded => exact outside (.inl (by omega))
    | above bounded => exact outside (.inr bounded)
    | @begun place size member low high =>
        have inUse := (chunks.places place size).mpr (.inl member)
        have same : ∀ other, other < place + 16 ∨ place + 16 + size ≤ other →
            memory.storeByte address value other = memory other :=
          fun other beyond => Memory.storeByte_of_ne (by omega)
        exact (represents.store inUse same).1
    | own member => cases member
  · intro chunk member index inside
    obtain ⟨front, back, rfl⟩ := List.append_of_mem member
    have separate := (owns.perm List.perm_middle).apart (kept.mono (by simp))
    exact Memory.storeByte_of_ne (by omega)

/-! The calls of the allocator. -/

/-- What leaves the used blocks alone, but for one, leaves the others of a client alone. -/
private theorem untouched_of_kept {blocks : List Block} {place : Nat} {others : List Chunk}
    (chunks : OwnChunks area begun blocks own) (outside : OutsideKept area memory changed)
    (kept : ∀ other ∈ usedPlaces 16 area.base blocks, other.1 ≠ place →
      PayloadKept memory changed other)
    (notBegun : ∀ size, (place, size) ∉ usedPlaces 16 area.base begun)
    (rest : ∀ chunk ∈ others, chunk ∈ own ∧ chunk.p ≠ place + 16) :
    Untouched area begun others memory changed := by
  refine ⟨outside, ?_, ?_⟩
  · intro other inBegun
    apply kept other
    · exact (chunks.places other.1 other.2).mpr (.inl inBegun)
    · intro same
      exact notBegun other.2 (same ▸ inBegun)
  · intro chunk member index inside
    obtain ⟨inOwn, different⟩ := rest chunk member
    obtain ⟨chunkPlace, payload, _⟩ := chunks.placed chunk inOwn
    have inUse := (chunks.places chunkPlace chunk.size).mpr (.inr (by rw [← payload]; exact inOwn))
    rw [payload]
    exact kept _ inUse (by simp only; omega) _ (by simp only; omega) (by simp only; omega)

theorem malloc (owns : Owns area begun memory own) {size : Nat} (small : size < 4294967296) :
    ∃ p changed, Heap.malloc area memory size = some (p, changed) ∧
      Untouched area begun own memory changed ∧
      ((p = nullPointer ∧ changed = memory) ∨
        (p ≠ nullPointer ∧ ∃ room, size ≤ room ∧ Owns area begun changed (⟨p, room⟩ :: own))) := by
  obtain ⟨blocks, represents, chunks⟩ := owns
  obtain ⟨p, changed, after, called, result, outside⟩ := malloc_result represents small
  refine ⟨p, changed, called, ?_⟩
  cases result.granted with
  | inl refused =>
      obtain ⟨null, same, _⟩ := refused
      rw [same]
      exact ⟨.refl memory, .inl ⟨null, rfl⟩⟩
  | inr granted =>
      obtain ⟨place, room, rfl, grant⟩ := granted
      have notOwn : ∀ chunk ∈ own, chunk.p ≠ place + 16 := by
        intro chunk member same
        have inUse := (chunks.places place chunk.size).mpr (.inr (by rw [← same]; exact member))
        exact grant.fresh _ inUse
      have notBegun : ∀ size, (place, size) ∉ usedPlaces 16 area.base begun := by
        intro size inBegun
        exact grant.fresh size ((chunks.places place size).mpr (.inl inBegun))
      refine ⟨?_, .inr ⟨by unfold nullPointer; omega, room, grant.enough, after, grant.represents,
        ?_, ?_, ?_⟩⟩
      · exact untouched_of_kept chunks outside (fun other inUse _ => grant.kept other inUse) notBegun
          fun chunk member => ⟨member, notOwn chunk member⟩
      · intro other size
        rw [grant.places, chunks.places, List.mem_cons]
        simp only [Prod.mk.injEq, Chunk.mk.injEq, Nat.add_right_cancel_iff]
        exact or_left_comm
      · intro chunk member
        cases List.mem_cons.mp member with
        | inl new => exact ⟨place, by rw [new], notBegun⟩
        | inr old => exact chunks.placed chunk old
      · refine List.pairwise_cons.mpr ⟨?_, chunks.distinct⟩
        intro chunk member
        exact (notOwn chunk member).symm

/-- What a client holds determines whether the next call is granted. -/
theorem malloc_null_iff {p other : Nat} {after otherAfter : Memory}
    (owns : Owns area begun memory own) (ownsChanged : Owns area begun changed own) {size : Nat}
    (small : size < 4294967296) (called : Heap.malloc area memory size = some (p, after))
    (calledChanged : Heap.malloc area changed size = some (other, otherAfter)) :
    p = nullPointer ↔ other = nullPointer := by
  obtain ⟨blocks, represents, chunks⟩ := owns
  obtain ⟨changedBlocks, changedRepresents, changedChunks⟩ := ownsChanged
  obtain rfl : blocks = changedBlocks := by
    refine represents.determined changedRepresents fun place => ?_
    exact (chunks.places place.1 place.2).trans (changedChunks.places place.1 place.2).symm
  obtain ⟨_, _, _, first, result, _⟩ := malloc_result represents small
  obtain ⟨_, _, _, second, changedResult, _⟩ := malloc_result changedRepresents small
  cases called.symm.trans first
  cases calledChanged.symm.trans second
  exact result.null_iff.trans changedResult.null_iff.symm

/-- The block of the first chunk, and the other chunks apart from it. -/
private theorem head_place {blocks : List Block} {chunk : Chunk}
    (chunks : OwnChunks area begun blocks (chunk :: own)) :
    ∃ place, chunk.p = place + 16 ∧ (place, chunk.size) ∈ usedPlaces 16 area.base blocks ∧
      (∀ size, (place, size) ∉ usedPlaces 16 area.base begun) ∧
      ∀ other ∈ own, other ∈ chunk :: own ∧ other.p ≠ place + 16 := by
  obtain ⟨place, payload, notBegun⟩ := chunks.placed chunk (by simp)
  have inUse := (chunks.places place chunk.size).mpr (.inr (by rw [← payload]; simp))
  refine ⟨place, payload, inUse, notBegun, fun other member => ⟨by simp [member], ?_⟩⟩
  have different := (List.pairwise_cons.mp chunks.distinct).1 other member
  omega

/-- Without its block the first chunk is gone. -/
private theorem tail_places {blocks : List Block} {chunk : Chunk} {place : Nat}
    (chunks : OwnChunks area begun blocks (chunk :: own)) (payload : chunk.p = place + 16)
    (notBegun : ∀ size, (place, size) ∉ usedPlaces 16 area.base begun) (other size : Nat) :
    (other, size) ∈ usedPlaces 16 area.base blocks ∧ other ≠ place ↔
      (other, size) ∈ usedPlaces 16 area.base begun ∨ ⟨other + 16, size⟩ ∈ own := by
  have different := (List.pairwise_cons.mp chunks.distinct).1
  rw [chunks.places, List.mem_cons]
  constructor
  · intro ⟨held, notHere⟩
    rcases held with inBegun | here | inOwn
    · exact .inl inBegun
    · exact absurd (congrArg Chunk.p here) (by simp only; omega)
    · exact .inr inOwn
  · intro held
    cases held with
    | inl inBegun =>
        refine ⟨.inl inBegun, ?_⟩
        intro same
        exact notBegun size (same ▸ inBegun)
    | inr inOwn =>
        have apart := different _ inOwn
        exact ⟨.inr (.inr inOwn), by simp only at apart; omega⟩

theorem memFree {chunk : Chunk} (owns : Owns area begun memory (chunk :: own)) :
    Owns area begun (Heap.memFree memory chunk.p) own ∧
      Untouched area begun own memory (Heap.memFree memory chunk.p) := by
  obtain ⟨blocks, represents, chunks⟩ := owns
  obtain ⟨place, payload, inUse, notBegun, rest⟩ := head_place chunks
  have others := tail_places chunks payload notBegun
  obtain ⟨front, back, rfl, rfl⟩ := mem_usedPlaces_iff.mp inUse
  have free := memFree_spec represents
  have outside := (memFree_chain represents).2.2
  rw [payload]
  refine ⟨⟨_, free.represents, ?_, ?_, (List.pairwise_cons.mp chunks.distinct).2⟩, ?_⟩
  · intro other size
    rw [free.places]
    exact others other size
  · intro other member
    exact chunks.placed other (by simp [member])
  · exact untouched_of_kept chunks outside
      (fun other member different => free.kept other ((free.places other).mpr ⟨member, different⟩))
      notBegun rest

theorem store {chunk : Chunk} (owns : Owns area begun memory (chunk :: own))
    (same : ∀ other, other < chunk.p ∨ chunk.p + chunk.size ≤ other →
      changed other = memory other) :
    Owns area begun changed (chunk :: own) ∧ Untouched area begun own memory changed := by
  have inArea := owns.inside List.mem_cons_self
  obtain ⟨blocks, represents, chunks⟩ := owns
  obtain ⟨place, payload, inUse, notBegun, rest⟩ := head_place chunks
  rw [payload] at same
  obtain ⟨stored, kept⟩ := represents.store inUse same
  refine ⟨⟨blocks, stored, chunks⟩, ?_⟩
  exact untouched_of_kept chunks (fun other outside => same other (by omega)) kept notBegun rest

theorem realloc {chunk : Chunk} (owns : Owns area begun memory (chunk :: own)) {size : Nat}
    (positive : 0 < size) (small : size < 4294967296) :
    ∃ p changed, Heap.realloc area memory chunk.p size = some (p, changed) ∧
      Untouched area begun own memory changed ∧
      ((p = nullPointer ∧ changed = memory) ∨
        (p ≠ nullPointer ∧ ∃ room, size ≤ room ∧ chunk.size ≤ room ∧
          Owns area begun changed (⟨p, room⟩ :: own) ∧
          ∀ index, index < chunk.size → changed (p + index) = memory (chunk.p + index))) := by
  obtain ⟨blocks, represents, chunks⟩ := owns
  obtain ⟨place, payload, inUse, notBegun, rest⟩ := head_place chunks
  obtain ⟨p, changed, after, called, result, outside⟩ :=
    realloc_result represents inUse positive small
  rw [payload]
  refine ⟨p, changed, called, ?_⟩
  cases result with
  | outside => exact ⟨.refl memory, .inl ⟨rfl, rfl⟩⟩
  | refused => exact ⟨.refl memory, .inl ⟨rfl, rfl⟩⟩
  | fits enough =>
      refine ⟨.refl memory, .inr ⟨by unfold nullPointer; omega, chunk.size, enough, le_rfl, ?_,
        fun _ _ => rfl⟩⟩
      rw [← payload]
      exact ⟨blocks, represents, chunks⟩
  | @moved newPlace room _ _ larger move =>
      have others := tail_places chunks payload notBegun
      have notOwn : ∀ other ∈ own, other.p ≠ newPlace + 16 := by
        intro other member same
        have used := (chunks.places newPlace other.size).mpr
          (.inr (by rw [← same]; simp [member]))
        exact move.fresh _ used
      have newNotBegun : ∀ size, (newPlace, size) ∉ usedPlaces 16 area.base begun := by
        intro size inBegun
        exact move.fresh size ((chunks.places newPlace size).mpr (.inl inBegun))
      have enough := move.enough
      refine ⟨untouched_of_kept chunks outside move.kept notBegun rest,
        .inr ⟨by unfold nullPointer; omega, room, enough, by omega,
          ⟨after, move.represents, ?_, ?_, ?_⟩, move.copied⟩⟩
      · intro other size
        rw [move.places, others, List.mem_cons]
        simp only [Prod.mk.injEq, Chunk.mk.injEq, Nat.add_right_cancel_iff]
        exact or_left_comm
      · intro other member
        cases List.mem_cons.mp member with
        | inl new => exact ⟨newPlace, by rw [new], newNotBegun⟩
        | inr old => exact chunks.placed other (by simp [old])
      · refine List.pairwise_cons.mpr ⟨?_, (List.pairwise_cons.mp chunks.distinct).2⟩
        intro other member
        exact (notOwn other member).symm

end Owns

end ShedKernel.Heap
