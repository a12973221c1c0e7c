import ShedKernel.Editor.RowRefinement

/-! The row operations when memory runs out. The result of `realloc` goes straight into
`E.rows` or `row->chars`, so a null pointer replaces the block that is still in use, and the
operation goes on through it. -/

set_option autoImplicit false

namespace ShedKernel.Editor

open Foundation Heap

/-- The operation returns with the rows of `after`, or with the rows there were; each is in a
live block that the store points to. -/
def Survives (area : Area) (text after : TextLines) (result : Except RowStop RowStore) : Prop :=
  ∃ next, result = .ok next ∧ (StoresLines area next after ∨ StoresLines area next text)

private theorem Settles.survives_iff {area : Area} {begun : List Block} {text after : TextLines}
    {granted : Prop} {result : Except RowStop RowStore}
    (settles : Settles granted result fun next => Keeps area begun next after) :
    Survives area text after result ↔ granted := by
  cases settles with
  | inl returns =>
      obtain ⟨holds, next, ran, keeps⟩ := returns
      exact iff_of_true ⟨next, ran, .inl keeps.storesLines⟩ holds
  | inr stops =>
      obtain ⟨refused, stopped, ran, _⟩ := stops
      refine iff_of_false ?_ refused
      rintro ⟨next, returned, _⟩
      rw [ran] at returned
      cases returned

/-- Whatever calls of the allocator are refused or fail for lack of memory, an operation
survives exactly if every call that it makes is granted. -/
theorem rowEdits_survive_iff (area : Area) (memory : Memory) (heapCalls : List HeapCall)
    (heap : HeapState) (reached : Run (HeapStep area) (initialHeap area memory) heapCalls heap)
    (calls : List RowCall) (store : RowStore) (text : TextLines)
    (ran : Run (RowStep area) (initRows heap.memory, ⟨[], false⟩) calls (store, text))
    (call : RowCall) (allowed : call.Allowed area store) (refusals : Refusals) :
    Survives area text (text.edit store.memory call) (store.execUnless refusals area call) ↔
      call.Granted refusals area store := by
  obtain ⟨begun, invariant⟩ := heapInvariant_of_run reached
  have keeps := keeps_of_run invariant.represents ran
  exact (keeps.execUnless allowed refusals).survives_iff

/-- The first row of a fresh store, with the memory for it refused. -/
theorem rowEdits_survive_iff_refused :
    Survives exampleArea ⟨[], false⟩ ⟨[[]], true⟩
        ((initRows exampleHeap.memory).execUnless ⟨true, false⟩ exampleArea (.insertRow 0 100 0)) ↔
      (RowCall.insertRow 0 100 0).Granted ⟨true, false⟩ exampleArea (initRows exampleHeap.memory) :=
  rowEdits_survive_iff exampleArea (fun _ => 0) [] exampleHeap .nil [] _ ⟨[], false⟩ .nil
    (.insertRow 0 100 0) ⟨by decide, .inl rfl⟩ ⟨true, false⟩

/-- `E.rows` where a null pointer stopped the operation. -/
def stoppedRows : Except RowStop RowStore → Option Nat
  | .error (.nullPointer stopped) => some stopped.rows
  | _ => none

private theorem exists_stopped {result : Except RowStop RowStore} {rows : Nat}
    (stops : stoppedRows result = some rows) :
    ∃ stopped, result = .error (.nullPointer stopped) ∧ stopped.rows = rows := by
  cases result with
  | ok next => cases stops
  | error stop =>
      cases stop with
      | hangs => cases stops
      | nullPointer stopped => exact ⟨stopped, rfl, Option.some.inj stops⟩

/-- A row `0` in a heap that has no room for a second one: opening it loses the first. -/
theorem rowEdits_lose_rows : ∃ heap store stopped,
    Run (HeapStep exampleArea) exampleHeap [.malloc 1048508] heap ∧
      Run (RowStep exampleArea) (initRows heap.memory, ⟨[], false⟩) [.insertRow 0 100 1]
        (store, ⟨[[0]], true⟩) ∧
      (RowCall.insertRow 1 100 1).Allowed exampleArea store ∧
      store.editorInsertRow exampleArea 1 100 1 = .error (.nullPointer stopped) ∧
      stopped.rows = nullPointer ∧
      ¬Survives exampleArea ⟨[[0]], true⟩ ⟨[[0], [0]], true⟩
        (store.execUnless noRefusals exampleArea (.insertRow 1 100 1)) := by
  have evaluated : ((malloc exampleArea exampleHeap.memory (1048508 : UInt32).toNat).any fun taken =>
      taken.2 100 == 0 &&
        ((initRows taken.2).exec exampleArea (.insertRow 0 100 1)).toOption.any fun first =>
          stoppedRows (first.editorInsertRow exampleArea 1 100 1) == some nullPointer) = true := by
    decide +kernel
  obtain ⟨⟨p, memory⟩, called, rest⟩ := (Option.any_eq_true _ _).mp evaluated
  obtain ⟨source, rest⟩ := Bool.and_eq_true_iff.mp rest
  obtain ⟨store, inserted, stops⟩ := (Option.any_eq_true _ _).mp rest
  have text : (⟨[[0]], true⟩ : TextLines) =
      TextLines.edit ⟨[], false⟩ memory (.insertRow 0 100 1) := by
    have bytes : Memory.bytesAt memory 100 1 = [0] := congrArg (· :: []) (beq_iff_eq.mp source)
    exact congrArg (fun line => (⟨[line], true⟩ : TextLines)) bytes.symm
  have taken : HeapStep exampleArea exampleHeap (.malloc 1048508)
      ⟨memory, claim exampleHeap.live p 1048508⟩ := ⟨trivial, by rw [exec, called]; rfl⟩
  have row : RowStep exampleArea (initRows memory, ⟨[], false⟩) (.insertRow 0 100 1)
      (store, ⟨[[0]], true⟩) :=
    ⟨⟨by decide, .inr (.inl (by decide))⟩, ok_of_toOption inserted, text⟩
  obtain ⟨stopped, second, null⟩ := exists_stopped (beq_iff_eq.mp stops)
  refine ⟨_, store, stopped, .single taken, .single row, ⟨by decide, .inr (.inl (by decide))⟩,
    second, null, ?_⟩
  rintro ⟨next, returned, _⟩
  cases second.symm.trans returned

end ShedKernel.Editor
