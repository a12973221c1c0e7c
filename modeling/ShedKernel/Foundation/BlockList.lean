import Mathlib.Data.List.Chain

/-! Address ranges cut into consecutive blocks, each with a header of fixed
width in front of its payload and either used or free. A list without two
adjacent free blocks is determined by its used blocks, so splitting and
coalescing are confluent whatever their order. -/

set_option autoImplicit false

namespace ShedKernel.Foundation

structure Block where
  size : Nat
  used : Bool
  deriving DecidableEq, Repr

namespace BlockList

/-- Bytes covered by the blocks, headers included. -/
def span (header : Nat) : List Block → Nat
  | [] => 0
  | block :: rest => header + block.size + span header rest

/-- Start and payload size of every used block, for a list laid out from `start`. -/
def usedPlaces (header : Nat) : Nat → List Block → List (Nat × Nat)
  | _, [] => []
  | start, block :: rest =>
      (if block.used then [(start, block.size)] else []) ++
        usedPlaces header (start + header + block.size) rest

/-- No two neighbouring blocks are both free. -/
def Coalesced (blocks : List Block) : Prop :=
  blocks.IsChain fun left right => left.used = true ∨ right.used = true

variable {header : Nat}

@[simp] theorem span_nil : span header [] = 0 := rfl

@[simp] theorem span_cons (block : Block) (rest : List Block) :
    span header (block :: rest) = header + block.size + span header rest := rfl

@[simp] theorem span_append (front back : List Block) :
    span header (front ++ back) = span header front + span header back := by
  induction front with
  | nil => simp
  | cons block rest ih => simp only [List.cons_append, span_cons, ih]; omega

theorem span_eq_zero_iff (positive : 0 < header) {blocks : List Block} :
    span header blocks = 0 ↔ blocks = [] := by
  cases blocks with
  | nil => simp
  | cons block rest => simp; omega

/-- What follows a block is the end or the next header. -/
theorem end_or_header {place stop : Nat} {blocks : List Block} (ends : place + span header blocks = stop) :
    place = stop ∨ place + header ≤ stop := by
  cases blocks with
  | nil => exact .inl ends
  | cons block rest =>
      rw [span_cons] at ends
      omega

@[simp] theorem usedPlaces_nil (start : Nat) : usedPlaces header start [] = [] := rfl

@[simp] theorem usedPlaces_cons_used (start size : Nat) (rest : List Block) :
    usedPlaces header start (⟨size, true⟩ :: rest) =
      (start, size) :: usedPlaces header (start + header + size) rest := rfl

@[simp] theorem usedPlaces_cons_free (start size : Nat) (rest : List Block) :
    usedPlaces header start (⟨size, false⟩ :: rest) =
      usedPlaces header (start + header + size) rest := rfl

theorem usedPlaces_append (start : Nat) (front back : List Block) :
    usedPlaces header start (front ++ back) =
      usedPlaces header start front ++ usedPlaces header (start + span header front) back := by
  induction front generalizing start with
  | nil => simp
  | cons block rest ih =>
      simp only [List.cons_append, usedPlaces, ih, span_cons, List.append_assoc]
      rw [show start + header + block.size + span header rest =
        start + (header + block.size + span header rest) by omega]

/-- A used place is a used block cut out of the list. -/
theorem mem_usedPlaces_iff {start : Nat} {blocks : List Block} {place size : Nat} :
    (place, size) ∈ usedPlaces header start blocks ↔
      ∃ front back, blocks = front ++ ⟨size, true⟩ :: back ∧
        place = start + span header front := by
  constructor
  · induction blocks generalizing start with
    | nil => simp
    | cons block rest ih =>
        intro member
        simp only [usedPlaces, List.mem_append] at member
        rcases member with here | later
        · rcases block with ⟨blockSize, used⟩
          cases used with
          | false => simp at here
          | true =>
              simp only [↓reduceIte, List.mem_singleton, Prod.mk.injEq] at here
              obtain ⟨rfl, rfl⟩ := here
              exact ⟨[], rest, rfl, by simp⟩
        · obtain ⟨front, back, rfl, same⟩ := ih later
          exact ⟨block :: front, back, rfl, by simp only [span_cons]; omega⟩
  · rintro ⟨front, back, rfl, rfl⟩
    simp [usedPlaces_append]

theorem usedPlaces_bounds {start : Nat} {blocks : List Block} {place size : Nat}
    (member : (place, size) ∈ usedPlaces header start blocks) :
    start ≤ place ∧ place + header + size ≤ start + span header blocks := by
  obtain ⟨front, back, rfl, rfl⟩ := mem_usedPlaces_iff.mp member
  simp only [span_append, span_cons]
  omega

theorem usedPlaces_sorted (start : Nat) (blocks : List Block) :
    (usedPlaces header start blocks).Pairwise fun left right =>
      left.1 + header + left.2 ≤ right.1 := by
  induction blocks generalizing start with
  | nil => exact .nil
  | cons block rest ih =>
      rcases block with ⟨size, used⟩
      cases used with
      | false => exact ih _
      | true =>
          refine List.pairwise_cons.mpr ⟨?_, ih _⟩
          rintro ⟨place, other⟩ member
          exact (usedPlaces_bounds member).1

/-- Two used places are the same or do not overlap, headers included. -/
theorem usedPlaces_disjoint {start : Nat} {blocks : List Block} {left right : Nat × Nat}
    (leftMember : left ∈ usedPlaces header start blocks)
    (rightMember : right ∈ usedPlaces header start blocks) :
    left = right ∨ left.1 + header + left.2 ≤ right.1 ∨ right.1 + header + right.2 ≤ left.1 := by
  have sorted := List.pairwise_iff_getElem.mp (@usedPlaces_sorted header start blocks)
  obtain ⟨i, iBound, rfl⟩ := List.mem_iff_getElem.mp leftMember
  obtain ⟨j, jBound, rfl⟩ := List.mem_iff_getElem.mp rightMember
  rcases Nat.lt_trichotomy i j with before | same | behind
  · exact .inr (.inl (sorted i j iBound jBound before))
  · subst same
    exact .inl rfl
  · exact .inr (.inr (sorted j i jBound iBound behind))

theorem usedPlaces_ext (positive : 0 < header) {start other : Nat} {left right : List Block}
    (same : ∀ place, place ∈ usedPlaces header start left ↔ place ∈ usedPlaces header other right) :
    usedPlaces header start left = usedPlaces header other right := by
  have leftSorted := @usedPlaces_sorted header start left
  have rightSorted := @usedPlaces_sorted header other right
  have distinct : ∀ {places : List (Nat × Nat)},
      places.Pairwise (fun left right => left.1 + header + left.2 ≤ right.1) → places.Nodup :=
    fun sorted => sorted.imp fun ordered equal => by subst equal; omega
  refine List.Perm.eq_of_pairwise (fun left right _ _ ordered reversed => ?_) leftSorted rightSorted
    ((List.perm_ext_iff_of_nodup (distinct leftSorted) (distinct rightSorted)).mpr same)
  omega

/-- In a coalesced list a free block is followed by the end or by a used block. -/
theorem Coalesced.after_free {size : Nat} {rest : List Block}
    (coalesced : Coalesced (⟨size, false⟩ :: rest)) :
    rest = [] ∨ ∃ next tail, rest = ⟨next, true⟩ :: tail := by
  rcases rest with _ | ⟨⟨next, used⟩, tail⟩
  · exact .inl rfl
  · have neighbours := (List.isChain_cons_cons.mp coalesced).1
    cases used with
    | false => simp at neighbours
    | true => exact .inr ⟨next, tail, rfl⟩

theorem Coalesced.tail {block : Block} {rest : List Block}
    (coalesced : Coalesced (block :: rest)) : Coalesced rest :=
  List.IsChain.tail coalesced

/-- The first used place of a coalesced list that begins with a free block tells
that block's size. -/
private theorem free_size_eq {start leftSize rightSize : Nat} {left right : List Block}
    (leftCoalesced : Coalesced (⟨leftSize, false⟩ :: left))
    (rightCoalesced : Coalesced (⟨rightSize, false⟩ :: right))
    (sameSpan : header + leftSize + span header left = header + rightSize + span header right)
    (samePlaces : usedPlaces header (start + header + leftSize) left =
      usedPlaces header (start + header + rightSize) right) :
    leftSize = rightSize := by
  rcases leftCoalesced.after_free with rfl | ⟨leftNext, leftTail, rfl⟩
  · rcases rightCoalesced.after_free with rfl | ⟨rightNext, rightTail, rfl⟩
    · simpa using sameSpan
    · simp at samePlaces
  · rcases rightCoalesced.after_free with rfl | ⟨rightNext, rightTail, rfl⟩
    · simp at samePlaces
    · simp only [usedPlaces_cons_used, List.cons.injEq, Prod.mk.injEq] at samePlaces
      omega

/-- The used blocks determine a coalesced list of given span. -/
theorem Coalesced.determined (positive : 0 < header) {start : Nat} {left right : List Block}
    (leftCoalesced : Coalesced left) (rightCoalesced : Coalesced right)
    (sameSpan : span header left = span header right)
    (samePlaces : usedPlaces header start left = usedPlaces header start right) :
    left = right := by
  induction left generalizing start right with
  | nil => exact ((span_eq_zero_iff positive).mp sameSpan.symm).symm
  | cons leftBlock leftRest ih =>
      rcases right with _ | ⟨rightBlock, rightRest⟩
      · exact absurd ((span_eq_zero_iff positive).mp sameSpan) (by simp)
      rcases leftBlock with ⟨leftSize, leftUsed⟩
      rcases rightBlock with ⟨rightSize, rightUsed⟩
      have leftLater : ∀ place size, (place, size) ∈
          usedPlaces header (start + header + leftSize) leftRest → start < place :=
        fun _ _ member => by have := usedPlaces_bounds member; omega
      have rightLater : ∀ place size, (place, size) ∈
          usedPlaces header (start + header + rightSize) rightRest → start < place :=
        fun _ _ member => by have := usedPlaces_bounds member; omega
      simp only [span_cons] at sameSpan
      -- a used head sits at `start`, where a free head leaves no used place
      cases leftUsed <;> cases rightUsed <;>
        simp only [usedPlaces_cons_used, usedPlaces_cons_free] at samePlaces
      · obtain rfl := free_size_eq leftCoalesced rightCoalesced sameSpan samePlaces
        rw [ih leftCoalesced.tail rightCoalesced.tail (by omega) samePlaces]
      · exact absurd (leftLater start rightSize (by simp [samePlaces])) (lt_irrefl _)
      · exact absurd (rightLater start leftSize (by simp [← samePlaces])) (lt_irrefl _)
      · simp only [List.cons.injEq, Prod.mk.injEq, true_and] at samePlaces
        obtain ⟨rfl, samePlaces⟩ := samePlaces
        rw [ih leftCoalesced.tail rightCoalesced.tail (by omega) samePlaces]

theorem coalesced_append_cons {front back : List Block} {block : Block} :
    Coalesced (front ++ block :: back) ↔
      Coalesced front ∧ Coalesced back ∧
        (∀ last ∈ front.getLast?, last.used = true ∨ block.used = true) ∧
        (∀ first ∈ back.head?, block.used = true ∨ first.used = true) := by
  unfold Coalesced
  rw [List.isChain_append, List.isChain_cons]
  simp only [List.head?_cons, Option.mem_some_iff, forall_eq']
  constructor
  · rintro ⟨frontChain, ⟨blockNext, backChain⟩, lastBlock⟩
    exact ⟨frontChain, backChain, lastBlock, blockNext⟩
  · rintro ⟨frontChain, backChain, lastBlock, blockNext⟩
    exact ⟨frontChain, ⟨blockNext, backChain⟩, lastBlock⟩

/-- Cutting a used block off the tail of a free one. -/
theorem Coalesced.carve {front back : List Block} {size rest taken : Nat}
    (coalesced : Coalesced (front ++ ⟨size, false⟩ :: back)) :
    Coalesced (front ++ ⟨rest, false⟩ :: ⟨taken, true⟩ :: back) := by
  obtain ⟨frontChain, backChain, lastUsed, _⟩ := coalesced_append_cons.mp coalesced
  refine coalesced_append_cons.mpr ⟨frontChain, ?_, lastUsed, by simp⟩
  exact List.isChain_cons.mpr ⟨by simp, backChain⟩

/-- Using a free block whole. -/
theorem Coalesced.claim {front back : List Block} {size : Nat}
    (coalesced : Coalesced (front ++ ⟨size, false⟩ :: back)) :
    Coalesced (front ++ ⟨size, true⟩ :: back) := by
  obtain ⟨frontChain, backChain, _, _⟩ := coalesced_append_cons.mp coalesced
  exact coalesced_append_cons.mpr ⟨frontChain, backChain, by simp, by simp⟩

/-- A free block of `size` bytes after it has absorbed a free right neighbour. -/
def mergeNext (header size : Nat) : List Block → Nat × List Block
  | ⟨next, false⟩ :: rest => (size + (next + header), rest)
  | rest => (size, rest)

/-- The blocks in front of a free block after the last of them, if free, has
absorbed it. -/
def mergePrevious (header : Nat) (front : List Block) (size : Nat) : List Block :=
  match front.getLast? with
  | some ⟨previous, false⟩ => front.dropLast ++ [⟨previous + (size + header), false⟩]
  | _ => front ++ [⟨size, false⟩]

/-- The block list after the used block between `front` and `back` was freed. -/
def released (header : Nat) (front : List Block) (size : Nat) (back : List Block) : List Block :=
  mergePrevious header front (mergeNext header size back).1 ++ (mergeNext header size back).2

theorem mergeNext_span (size : Nat) (back : List Block) :
    header + (mergeNext header size back).1 + span header (mergeNext header size back).2 =
      header + size + span header back := by
  rcases back with _ | ⟨⟨next, _ | _⟩, rest⟩ <;> simp [mergeNext]
  omega

theorem mergeNext_usedPlaces (start size : Nat) (back : List Block) :
    usedPlaces header (start + header + (mergeNext header size back).1)
        (mergeNext header size back).2 =
      usedPlaces header (start + header + size) back := by
  rcases back with _ | ⟨⟨next, _ | _⟩, rest⟩ <;> simp only [mergeNext, usedPlaces_cons_free]
  congr 1
  omega

theorem mergePrevious_nil (size : Nat) : mergePrevious header [] size = [⟨size, false⟩] := rfl

theorem mergePrevious_free (front : List Block) (previous size : Nat) :
    mergePrevious header (front ++ [⟨previous, false⟩]) size =
      front ++ [⟨previous + (size + header), false⟩] := by
  simp [mergePrevious]

theorem mergePrevious_used (front : List Block) (previous size : Nat) :
    mergePrevious header (front ++ [⟨previous, true⟩]) size =
      front ++ [⟨previous, true⟩] ++ [⟨size, false⟩] := by
  simp [mergePrevious]

/-- Case analysis on the block in front of the one being freed. -/
theorem front_cases (front : List Block) :
    front = [] ∨ (∃ earlier previous, front = earlier ++ [⟨previous, false⟩]) ∨
      ∃ earlier previous, front = earlier ++ [⟨previous, true⟩] := by
  rcases List.eq_nil_or_concat front with rfl | ⟨earlier, ⟨previous, used⟩, rfl⟩
  · exact .inl rfl
  · cases used with
    | false => exact .inr (.inl ⟨earlier, previous, by simp⟩)
    | true => exact .inr (.inr ⟨earlier, previous, by simp⟩)

theorem mergePrevious_span (front : List Block) (size : Nat) :
    span header (mergePrevious header front size) = span header front + (header + size) := by
  rcases front_cases front with rfl | ⟨earlier, previous, rfl⟩ | ⟨earlier, previous, rfl⟩
  · simp [mergePrevious_nil]
  · simp only [mergePrevious_free, span_append, span_cons, span_nil]
    omega
  · simp only [mergePrevious_used, span_append, span_cons, span_nil]
    omega

theorem mergePrevious_usedPlaces (start : Nat) (front : List Block) (size : Nat) :
    usedPlaces header start (mergePrevious header front size) = usedPlaces header start front := by
  rcases front_cases front with rfl | ⟨earlier, previous, rfl⟩ | ⟨earlier, previous, rfl⟩
  · simp [mergePrevious_nil]
  · simp [mergePrevious_free, usedPlaces_append]
  · simp [mergePrevious_used, usedPlaces_append]

@[simp] theorem released_span (front : List Block) (size : Nat) (back : List Block) :
    span header (released header front size back) =
      span header (front ++ ⟨size, true⟩ :: back) := by
  have next := @mergeNext_span header size back
  simp only [released, span_append, mergePrevious_span, span_cons]
  omega

theorem released_usedPlaces (start : Nat) (front : List Block) (size : Nat) (back : List Block) :
    usedPlaces header start (released header front size back) =
      usedPlaces header start front ++
        usedPlaces header (start + span header front + header + size) back := by
  have next := @mergeNext_usedPlaces header (start + span header front) size back
  rw [released, usedPlaces_append, mergePrevious_usedPlaces, mergePrevious_span, ← next]
  congr 2
  omega

/-- Freeing a block removes its place and keeps every other used place. -/
theorem mem_released_usedPlaces (positive : 0 < header) {start size : Nat} {front back : List Block}
    {place : Nat × Nat} :
    place ∈ usedPlaces header start (released header front size back) ↔
      place ∈ usedPlaces header start (front ++ ⟨size, true⟩ :: back) ∧
        place.1 ≠ start + span header front := by
  rw [released_usedPlaces, usedPlaces_append, usedPlaces_cons_used]
  simp only [List.mem_append, List.mem_cons]
  constructor
  · rintro (inFront | inBack)
    · have bounds := usedPlaces_bounds inFront
      exact ⟨.inl inFront, by omega⟩
    · have bounds := usedPlaces_bounds inBack
      exact ⟨.inr (.inr inBack), by omega⟩
  · rintro ⟨inFront | same | inBack, different⟩
    · exact .inl inFront
    · exact absurd (congrArg Prod.fst same) different
    · exact .inr inBack

theorem Coalesced.released {front back : List Block} {size : Nat}
    (coalesced : Coalesced (front ++ ⟨size, true⟩ :: back)) :
    Coalesced (released header front size back) := by
  obtain ⟨frontChain, backChain, _, _⟩ := coalesced_append_cons.mp coalesced
  -- after the right merge the next block, if any, is used
  have nextUsed : Coalesced (mergeNext header size back).2 ∧
      ∀ first ∈ (mergeNext header size back).2.head?, first.used = true := by
    rcases back with _ | ⟨⟨next, _ | _⟩, rest⟩
    · simpa [mergeNext] using backChain
    · refine ⟨backChain.tail, ?_⟩
      rcases backChain.after_free with rfl | ⟨following, tail, rfl⟩ <;> simp [mergeNext]
    · exact ⟨backChain, by simp [mergeNext]⟩
  unfold BlockList.released
  rcases front_cases front with rfl | ⟨earlier, previous, rfl⟩ | ⟨earlier, previous, rfl⟩
  · simp only [mergePrevious_nil, List.cons_append, List.nil_append]
    exact List.isChain_cons.mpr ⟨fun first member => .inr (nextUsed.2 first member), nextUsed.1⟩
  · obtain ⟨earlierChain, _, lastUsed, _⟩ := coalesced_append_cons.mp frontChain
    rw [mergePrevious_free, List.append_assoc]
    exact coalesced_append_cons.mpr ⟨earlierChain, nextUsed.1, lastUsed,
      fun first member => .inr (nextUsed.2 first member)⟩
  · rw [mergePrevious_used, List.append_assoc]
    exact coalesced_append_cons.mpr ⟨frontChain, nextUsed.1, by simp,
      fun first member => .inr (nextUsed.2 first member)⟩

/-- Releasing a block that is already free finds nothing to merge with. -/
theorem Coalesced.released_free {front back : List Block} {size : Nat}
    (coalesced : Coalesced (front ++ ⟨size, false⟩ :: back)) :
    BlockList.released header front size back = front ++ ⟨size, false⟩ :: back := by
  obtain ⟨_, _, lastUsed, nextUsed⟩ := coalesced_append_cons.mp coalesced
  have next : mergeNext header size back = (size, back) := by
    rcases back with _ | ⟨⟨next, _ | _⟩, rest⟩
    · rfl
    · simp at nextUsed
    · rfl
  rw [BlockList.released, next]
  rcases front_cases front with rfl | ⟨earlier, previous, rfl⟩ | ⟨earlier, previous, rfl⟩
  · rfl
  · simp at lastUsed
  · simp [mergePrevious_used]

end BlockList

end ShedKernel.Foundation
