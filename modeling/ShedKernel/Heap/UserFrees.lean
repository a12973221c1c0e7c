import ShedKernel.Heap.TilingProperties

/-! The heap under the syscalls of ring 3. `syscall_dispatch` hands the arguments of
syscalls 3 and 4 to `malloc` and `mem_free` unchecked, so a block may be freed twice:
this is harmless for a node still on the list, and not for one merged away. -/

set_option autoImplicit false

namespace ShedKernel.Heap

open Foundation BlockList

/-- `returned` is not kept by the kernel: it lists what syscall 3 has returned. -/
structure UserHeap where
  heap : HeapState
  returned : List Nat

inductive UserCall where
  | malloc (size : UInt32)
  | free (p : Nat)

/-- Cases 3 and 4 of `syscall_dispatch`. -/
def userExec (area : Area) (user : UserHeap) : UserCall → Option UserHeap
  | .malloc size =>
      (malloc area user.heap.memory size.toNat).map fun result =>
        ⟨⟨result.2, claim user.heap.live result.1 size.toNat⟩, result.1 :: user.returned⟩
  | .free p =>
      some ⟨⟨memFree user.heap.memory p, release user.heap.live p⟩, user.returned⟩

/-- A free is given null or a value that was returned at some time. -/
def Returned (user : UserHeap) : UserCall → Prop
  | .malloc _ => True
  | .free p => p = nullPointer ∨ p ∈ user.returned

/-- A free is given null or the payload of a node that the list still has, in use or not. -/
def Listed (area : Area) (user : UserHeap) : UserCall → Prop
  | .malloc _ => True
  | .free p => p = nullPointer ∨ ∃ nodes node, Walk user.heap.memory area.base nodes ∧
      node ∈ nodes ∧ p = node + dynamicMemNodeSize

def UserStep (area : Area) (user : UserHeap) (call : UserCall) (next : UserHeap) : Prop :=
  Returned user call ∧ userExec area user call = some next

def ListedStep (area : Area) (user : UserHeap) (call : UserCall) (next : UserHeap) : Prop :=
  UserStep area user call next ∧ Listed area user call

/-- What syscall 3 hands out: memory of the area that no live block overlaps. -/
structure FreshMemory (area : Area) (heap : HeapState) (size p : Nat) (memory : Memory) : Prop where
  enough : size ≤ payloadSize memory p
  inside : area.base ≤ p ∧ p + payloadSize memory p ≤ area.base + dynamicMemTotalSize
  apart : ∀ q, heap.live q ≠ none →
    q + payloadSize heap.memory q ≤ p ∨ p + payloadSize memory p ≤ q

/-! Frees. -/

attribute [local irreducible] memFree

private theorem starts_split {address node : Nat} {blocks : List Block} (member : node ∈ starts address blocks) :
    ∃ front block back, blocks = front ++ block :: back ∧ node = address + span 16 front := by
  induction blocks generalizing address with
  | nil => cases member
  | cons block rest ih =>
      cases List.mem_cons.mp member with
      | inl first => exact ⟨[], block, rest, rfl, first⟩
      | inr later =>
          obtain ⟨front, found, back, rfl, place⟩ := ih later
          refine ⟨block :: front, found, back, rfl, ?_⟩
          rw [place, span_cons]
          omega

namespace HeapInvariant

variable {area : Area} {state : HeapState} {blocks : List Block}

private theorem release_again (invariant : HeapInvariant area state blocks) {front back : List Block}
    {size : Nat} (split : blocks = front ++ ⟨size, false⟩ :: back) :
    release state.live (area.base + span 16 front + 16) = state.live := by
  funext p
  unfold release
  split
  · next same =>
      apply Classical.byContradiction
      intro isLive
      obtain ⟨place, granted, payload, member⟩ := invariant.place_of_live (Ne.symm isLive)
      rw [split, usedPlaces_append, usedPlaces_cons_free] at member
      cases List.mem_append.mp member with
      | inl inFront =>
          have bounds := usedPlaces_bounds inFront
          omega
      | inr inBack =>
          have bounds := usedPlaces_bounds inBack
          omega
  · rfl

/-- A node on the list may be freed any number of times. -/
theorem free_listed (invariant : HeapInvariant area state blocks) {node : Nat}
    (listed : node ∈ starts area.base blocks) :
    ∃ after, HeapInvariant area
      ⟨Heap.memFree state.memory (node + 16), release state.live (node + 16)⟩ after := by
  obtain ⟨front, ⟨size, used⟩, back, rfl, rfl⟩ := starts_split listed
  cases used with
  | true =>
      have member : (area.base + span 16 front, size) ∈
          usedPlaces 16 area.base (front ++ ⟨size, true⟩ :: back) :=
        mem_usedPlaces_iff.mpr ⟨front, back, rfl, rfl⟩
      obtain ⟨after, _, next⟩ := invariant.memFree member
      exact ⟨after, next⟩
  | false =>
      refine ⟨_, memFree_again invariant.represents, ?_⟩
      rw [invariant.release_again rfl]
      exact invariant.live

private theorem userStep (invariant : HeapInvariant area state blocks) {returned : List Nat}
    {call : UserCall} {next : UserHeap} (step : ListedStep area ⟨state, returned⟩ call next) :
    ∃ after, HeapInvariant area next.heap after := by
  obtain ⟨⟨_, ran⟩, listed⟩ := step
  cases call with
  | malloc size =>
      obtain ⟨p, memory, after, called, granted, _⟩ := invariant.malloc size
      rw [userExec, called] at ran
      cases ran
      exact ⟨after, granted⟩
  | free p =>
      obtain rfl := Option.some.inj ran
      cases listed with
      | inl null =>
          rw [null, memFree_null, invariant.live.release_null]
          exact ⟨blocks, invariant⟩
      | inr onList =>
          obtain ⟨nodes, node, walked, member, rfl⟩ := onList
          rw [walked.unique invariant.walk] at member
          exact invariant.free_listed member

private theorem freshMemory (invariant : HeapInvariant area state blocks) (size : UInt32) :
    ∃ p memory, Heap.malloc area state.memory size.toNat = some (p, memory) ∧
      (p ≠ nullPointer → FreshMemory area state size.toNat p memory) := by
  obtain ⟨p, memory, after, called, next, result⟩ := invariant.malloc size
  refine ⟨p, memory, called, fun notNull => ?_⟩
  cases result with
  | inl refused => exact absurd refused.1 notNull
  | inr granted =>
      obtain ⟨place, granted, rfl, grant⟩ := granted
      have newMember := (grant.places (place, granted)).mpr (.inl rfl)
      have newSize := next.size_of_place newMember
      have bounds := usedPlaces_bounds newMember
      have total := grant.represents.total
      refine ⟨?_, ?_, ?_⟩
      · rw [newSize]
        exact grant.enough
      · rw [newSize]
        unfold dynamicMemTotalSize
        omega
      · intro q isLive
        obtain ⟨other, otherSize, rfl, otherMember⟩ := invariant.place_of_live isLive
        have stillMember := (grant.places (other, otherSize)).mpr (.inr otherMember)
        rw [newSize, invariant.size_of_place otherMember]
        cases usedPlaces_disjoint stillMember newMember with
        | inl same =>
            cases same
            exact absurd otherMember (grant.fresh _)
        | inr separate =>
            simp only at separate
            omega

end HeapInvariant

/-- Frees of null and of nodes still on the list, in any order and repeated at will, leave
a list that tiles the area, and every later syscall 3 hands out fresh memory or null. -/
theorem userFrees_keep_heap (area : Area) (memory : Memory) (calls : List HeapCall)
    (start : HeapState) (reached : Run (HeapStep area) (initialHeap area memory) calls start)
    (userCalls : List UserCall) (user : UserHeap)
    (run : Run (ListedStep area) ⟨start, []⟩ userCalls user) :
    (∃ nodes, TilesArea area user.heap nodes) ∧
      ∀ size : UInt32, ∃ p changed, malloc area user.heap.memory size.toNat = some (p, changed) ∧
        (p ≠ nullPointer → FreshMemory area user.heap size.toNat p changed) := by
  have preserved (current : UserHeap) (call : UserCall) (next : UserHeap)
      (held : ∃ blocks, HeapInvariant area current.heap blocks)
      (step : ListedStep area current call next) :
      ∃ blocks, HeapInvariant area next.heap blocks := by
    obtain ⟨blocks, invariant⟩ := held
    exact invariant.userStep step
  obtain ⟨blocks, invariant⟩ := run.invariant (heapInvariant_of_run reached) preserved
  exact ⟨⟨_, invariant.tilesArea⟩, invariant.freshMemory⟩

/-! Two short histories of ring 3. -/

theorem UserStep.free {area : Area} {user : UserHeap} {p : Nat} (returned : p ∈ user.returned) :
    UserStep area user (.free p)
      ⟨⟨memFree user.heap.memory p, release user.heap.live p⟩, user.returned⟩ :=
  ⟨.inr returned, rfl⟩

private theorem walk_of_links {memory : Memory}
    (links : [4096, 1052532, 1052556].map (Node.next memory) = [1052532, 1052556, 0]) :
    Walk memory 4096 [4096, 1052532, 1052556] := by
  simp only [List.map_cons, List.cons.injEq] at links
  obtain ⟨base, second, last, _⟩ := links
  refine .node (by decide) ?_
  rw [base]
  refine .node (by decide) ?_
  rw [second]
  refine .node (by decide) ?_
  rw [last]
  exact .stop

/-- Between a used block and the end of the area a freed node stays on the list. -/
theorem exampleHeap_freed {first second : Memory}
    (called : malloc exampleArea exampleHeap.memory (100 : UInt32).toNat = some (1052572, first))
    (calledAgain : malloc exampleArea first (8 : UInt32).toNat = some (1052548, second)) :
    Walk second 4096 [4096, 1052532, 1052556] ∧
      Walk (memFree second 1052572) 4096 [4096, 1052532, 1052556] := by
  have evaluated : ((malloc exampleArea exampleHeap.memory (100 : UInt32).toNat).bind fun result =>
      (malloc exampleArea result.2 (8 : UInt32).toNat).map fun result =>
        ([4096, 1052532, 1052556].map (Node.next result.2),
          [4096, 1052532, 1052556].map (Node.next (memFree result.2 1052572)))) =
      some ([1052532, 1052556, 0], [1052532, 1052556, 0]) := by
    decide +kernel
  rw [called, Option.bind_some, calledAgain, Option.map_some] at evaluated
  have links := Option.some.inj evaluated
  exact ⟨walk_of_links (congrArg Prod.fst links), walk_of_links (congrArg Prod.snd links)⟩

theorem userFrees_keep_heap_twice : ∃ user,
    Run (ListedStep exampleArea) ⟨exampleHeap, []⟩
        [.malloc 100, .malloc 8, .free 1052572, .free 1052572] user ∧
      ∃ nodes, TilesArea exampleArea user.heap nodes := by
  obtain ⟨first, second, called, calledAgain⟩ := exampleHeap_mallocs
  obtain ⟨used, freed⟩ := exampleHeap_freed called calledAgain
  let start : UserHeap := ⟨exampleHeap, []⟩
  let one : UserHeap := ⟨⟨first, claim exampleHeap.live 1052572 100⟩, [1052572]⟩
  let two : UserHeap := ⟨⟨second, claim one.heap.live 1052548 8⟩, [1052548, 1052572]⟩
  let three : UserHeap := ⟨⟨memFree second 1052572, release two.heap.live 1052572⟩, two.returned⟩
  have firstStep : ListedStep exampleArea start (.malloc 100) one :=
    ⟨⟨trivial, by rw [userExec, called]; rfl⟩, trivial⟩
  have secondStep : ListedStep exampleArea one (.malloc 8) two :=
    ⟨⟨trivial, by rw [userExec, calledAgain]; rfl⟩, trivial⟩
  have thirdStep : ListedStep exampleArea two (.free 1052572) three :=
    ⟨.free (by simp [two]), Or.inr ⟨_, 1052556, used, by simp, rfl⟩⟩
  have fourthStep : ListedStep exampleArea three (.free 1052572) _ :=
    ⟨.free (by simp [three, two]), Or.inr ⟨_, 1052556, freed, by simp, rfl⟩⟩
  have run := (((Run.single firstStep).snoc secondStep).snoc thirdStep).snoc fourthStep
  exact ⟨_, run, (userFrees_keep_heap exampleArea _ _ _ .nil _ _ run).1⟩

private theorem exampleHeap_freed_twice : ∃ memory,
    malloc exampleArea exampleHeap.memory (8 : UInt32).toNat = some (1052664, memory) ∧
      Node.size (memFree (memFree memory 1052664) 1052664) 4096 = 1048584 ∧
      Node.next (memFree (memFree memory 1052664) 1052664) 4096 = nullPointer := by
  have evaluated : (malloc exampleArea exampleHeap.memory (8 : UInt32).toNat).map (fun result =>
      (result.1, Node.size (memFree (memFree result.2 1052664) 1052664) 4096,
        Node.next (memFree (memFree result.2 1052664) 1052664) 4096)) =
      some (1052664, 1048584, nullPointer) := by
    decide +kernel
  obtain ⟨⟨p, memory⟩, called, fields⟩ := Option.map_eq_some_iff.mp evaluated
  simp only [Prod.mk.injEq] at fields
  obtain ⟨rfl, size, next⟩ := fields
  exact ⟨memory, called, size, next⟩

/-- Freed twice in a row, the last block of the area is merged twice into the block before
it, which then reaches past the end. -/
theorem double_free_corrupts_heap : ∃ user,
    Run (UserStep exampleArea) ⟨exampleHeap, []⟩
        [.malloc 8, .free 1052664, .free 1052664] user ∧
      ¬∃ nodes, TilesArea exampleArea user.heap nodes := by
  obtain ⟨memory, called, size, next⟩ := exampleHeap_freed_twice
  let start : UserHeap := ⟨exampleHeap, []⟩
  let one : UserHeap := ⟨⟨memory, claim exampleHeap.live 1052664 8⟩, [1052664]⟩
  have firstStep : UserStep exampleArea start (.malloc 8) one :=
    ⟨trivial, by rw [userExec, called]; rfl⟩
  let two : UserHeap := ⟨⟨memFree memory 1052664, release one.heap.live 1052664⟩, one.returned⟩
  have secondStep : UserStep exampleArea one (.free 1052664) two := .free (by simp [one])
  have thirdStep : UserStep exampleArea two (.free 1052664) _ := .free (by simp [two, one])
  refine ⟨_, ((Run.single firstStep).snoc secondStep).snoc thirdStep, ?_⟩
  intro ⟨nodes, tiles⟩
  have walk : Walk (memFree (memFree memory 1052664) 1052664) 4096 [4096] := by
    refine .node (by decide) ?_
    rw [next]
    exact .stop
  have alone : nodes = [4096] := tiles.reached.unique walk
  have last := (tiles.last 4096 (by simp [alone])).2
  rw [show Node.size _ 4096 = 1048584 from size] at last
  exact absurd last (by decide)

end ShedKernel.Heap
