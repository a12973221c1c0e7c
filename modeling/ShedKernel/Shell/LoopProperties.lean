import ShedKernel.Shell.Commands
import ShedKernel.Shell.LineProperties
import ShedKernel.Shell.TokenProperties

/-! One turn of the shell's loop gives back what it took from the heap. -/

set_option autoImplicit false

namespace ShedKernel.Shell

open Foundation Heap FileSystem Console

/-! The commands work on the disk and the screen. -/

@[simp] theorem print_memory (state : ShellState) (format : String) (args : List KprintfArg) :
    (state.print format args).memory = state.memory := rfl

private theorem lshHelp_memory (state : ShellState) : (lshHelp state).memory = state.memory := by
  have listed (names : List (String × Builtin)) (state : ShellState) :
      (names.foldl (fun state builtin => state.print "  %s\n" [.text (literal builtin.1)])
        state).memory = state.memory := by
    induction names generalizing state with
    | nil => rfl
    | cons name names ih => rw [List.foldl_cons, ih, print_memory]
  rw [lshHelp, listed, print_memory, print_memory]

private theorem lshClear_memory (state : ShellState) : (lshClear state).memory = state.memory := by
  simp only [lshClear]

private theorem lshTouch_memory (state : ShellState) (args : Nat) :
    (lshTouch state args).memory = state.memory := by
  unfold lshTouch
  cases state.filename args <;> rfl

private theorem lshDel_memory (state : ShellState) (args : Nat) :
    (lshDel state args).memory = state.memory := by
  unfold lshDel
  cases state.filename args <;> rfl

theorem returned {state result next : ShellState} {status : Nat}
    (ran : some (1, result) = some (status, next)) (kept : result.memory = state.memory) :
    status = 1 ∧ next.memory = state.memory := by
  simp only [Option.some.injEq, Prod.mk.injEq] at ran
  rw [← ran.2]
  exact ⟨ran.1.symm, kept⟩

/-- A command that returns keeps the shell running and the heap as it is. -/
theorem runBuiltin_returns {state next : ShellState} {args status : Nat} {builtin : Builtin}
    (ran : runBuiltin state args builtin = some (status, next)) :
    status = 1 ∧ next.memory = state.memory := by
  cases builtin with
  | help => exact returned ran (lshHelp_memory state)
  | ls => exact returned ran rfl
  | touch => exact returned ran (lshTouch_memory state args)
  | del => exact returned ran (lshDel_memory state args)
  | edit =>
      simp only [runBuiltin] at ran
      split at ran
      · exact returned ran (print_memory ..)
      · cases ran
  | clear => exact returned ran (lshClear_memory state)
  | cat => exact returned ran rfl
  | ring3 => cases ran
  | ring3Shell => cases ran
  | shutdown => cases ran

private theorem lshExecute_returns {state next : ShellState} {args status : Nat}
    (ran : lshExecute state args = some (status, next)) :
    status = 1 ∧ next.memory = state.memory := by
  unfold lshExecute at ran
  split at ran
  · cases ran
    exact ⟨rfl, rfl⟩
  split at ran
  · exact runBuiltin_returns ran
  · cases ran
    exact ⟨rfl, rfl⟩

/-! One turn. -/

/-- What a turn leaves behind, if the loop goes on. -/
def Turn.Restores (area : Area) (begun : List Block) : Turn → Prop
  | .again next _ => Represents area next.memory begun
  | .finished _ _ => False
  | .halted _ => True
  | .entered _ => True

private theorem lshLoopTurn_restores {area : Area} {begun : List Block} (state : ShellState)
    (codes : List Int) (represents : Represents area state.memory begun) :
    (lshLoopTurn area state codes = none ∧ ∀ c ∈ codes, ¬EndsLine c) ∨
      ∃ turn, lshLoopTurn area state codes = some turn ∧ turn.Restores area begun := by
  unfold lshLoopTurn
  simp only [Option.bind_eq_bind]
  have reads := lshReadLine_reads (state.print "> " []).screen codes (.begin represents)
  cases reads with
  | inl waits =>
      obtain ⟨waiting, unended⟩ := waits
      refine .inl ⟨?_, unended⟩
      rw [show (state.print "> " []).memory = state.memory from rfl, waiting]
      rfl
  | inr returns =>
      obtain ⟨line, memory, screen, rest, called, read⟩ := returns
      refine .inr ?_
      rw [show (state.print "> " []).memory = state.memory from rfl, called]
      simp only [Option.bind_some]
      by_cases failed : line = nullPointer
      · rw [if_pos failed]
        exact ⟨_, rfl, trivial⟩
      rw [if_neg failed]
      cases read with
      | failed => exact absurd rfl failed
      | @line _ room length _ owns inside terminated =>
      obtain ⟨args, memory, screen, called, split⟩ := lshSplitLine_splits _ owns inside terminated
      simp only [ShellState.print] at called ⊢
      rw [called]
      simp only [Option.bind_some]
      cases split with
      | failed owns =>
          simp only [if_true]
          exact ⟨_, rfl, owns.memFree.1.restored represents⟩
      | @tokens _ tokensRoom _ notNull owns =>
          rw [if_neg notNull]
          split
          · exact ⟨_, rfl, trivial⟩
          · next status next executed =>
              obtain ⟨running, kept⟩ := lshExecute_returns executed
              rw [running]
              refine ⟨_, rfl, ?_⟩
              have freed := owns.memFree.1.memFree.1.restored represents
              simp only [Turn.Restores, kept]
              exact freed

/-- Once a line has been ended, a turn of `lsh_loop` returns, and if the loop goes on then
the node list is the one it began with. -/
theorem lshLoopTurn_keeps_heap (area : Area) (memory : Memory) (calls : List HeapCall)
    (heap : HeapState) (reached : Run (HeapStep area) (initialHeap area memory) calls heap)
    (disk kernelStack : Memory) (screen : TextScreen) (buf : Nat) (codes : List Int) :
    ((∃ c ∈ codes, EndsLine c) →
      ∃ turn, lshLoopTurn area ⟨heap.memory, disk, screen, kernelStack, buf⟩ codes = some turn) ∧
    ∀ next rest,
      lshLoopTurn area ⟨heap.memory, disk, screen, kernelStack, buf⟩ codes =
        some (.again next rest) →
      ∃ list, NodeList area heap.memory list ∧ NodeList area next.memory list := by
  obtain ⟨begun, invariant⟩ := heapInvariant_of_run reached
  have restores := lshLoopTurn_restores ⟨heap.memory, disk, screen, kernelStack, buf⟩ codes
    invariant.represents
  constructor
  · intro ⟨c, member, ends⟩
    cases restores with
    | inl waits => exact absurd ends (waits.2 c member)
    | inr returns =>
        obtain ⟨turn, called, _⟩ := returns
        exact ⟨turn, called⟩
  · intro next rest called
    cases restores with
    | inl waits =>
        rw [waits.1] at called
        cases called
    | inr returns =>
        obtain ⟨turn, calledAgain, restored⟩ := returns
        rw [called] at calledAgain
        cases calledAgain
        exact ⟨_, invariant.nodeList, restored.nodeList⟩

def Turn.goesOn : Turn → Bool
  | .again _ _ => true
  | _ => false

/-- The line `hi`, which is no command. -/
theorem lshLoopTurn_keeps_heap_hi : ∃ next rest,
    lshLoopTurn exampleArea
        ⟨exampleHeap.memory, fun _ => 0, ⟨fun _ => 0, 0, []⟩, fun _ => 0, 0⟩ [104, 105, 10] =
      some (.again next rest) ∧
    ∃ list, NodeList exampleArea exampleHeap.memory list ∧
      NodeList exampleArea next.memory list := by
  have goesOn : (lshLoopTurn exampleArea
      ⟨exampleHeap.memory, fun _ => 0, ⟨fun _ => 0, 0, []⟩, fun _ => 0, 0⟩ [104, 105, 10]).map
      Turn.goesOn = some true := by
    decide +kernel
  obtain ⟨turn, called, continued⟩ := Option.map_eq_some_iff.mp goesOn
  cases turn with
  | again next rest =>
      exact ⟨next, rest, called,
        (lshLoopTurn_keeps_heap exampleArea (fun _ => 0) [] exampleHeap .nil _ _ _ _ _).2 _ _ called⟩
  | finished | halted | entered => cases continued

end ShedKernel.Shell
