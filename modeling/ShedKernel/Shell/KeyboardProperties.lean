import ShedKernel.Drivers.LayoutProperties
import ShedKernel.Shell.InterpreterProperties

/-! From the scancodes of the keyboard to the disk. -/

set_option autoImplicit false

namespace ShedKernel.Shell

open Foundation Heap FileSystem Console Drivers

/-- Lines that the keyboard has keys for. -/
def OnKeys (lines : List (List Int)) : Prop := ∀ typed ∈ lines, ∀ code ∈ typed, Typeable code

instance (lines : List (List Int)) : Decidable (OnKeys lines) := inferInstanceAs (Decidable (∀ _ ∈ _, ∀ _ ∈ _, _))

private theorem keysOf_typeable {lines : List (List Int)} (onKeys : OnKeys lines) :
    ∀ code ∈ keysOf lines, Typeable code := by
  intro code member
  obtain ⟨typed, inLines, inLine⟩ := List.mem_flatMap.mp member
  cases List.mem_append.mp inLine with
  | inl character => exact onKeys typed inLines code character
  | inr newline =>
      rw [List.mem_singleton.mp newline]
      decide

/-- Keys go down and up for some lines, interrupts and `kbd_getchar` interleave in any way in
which the buffer is not full when a scancode arrives, and everything has been read in the end:
the shell's loop has performed the lines, and the disk holds the files that they ask for. -/
theorem scancodes_reach_disk (area : Area) (memory : Memory) (calls : List HeapCall) (heap : HeapState)
    (reached : Run (HeapStep area) (initialHeap area memory) calls heap) (roomy : Roomy area heap.memory)
    (fs : FsState) (fsCalls : List FsCall) (screen : TextScreen) (kernelStack : Memory) (buf : Nat)
    (lines : List (List Int)) (short : ∀ typed ∈ lines, ShortLine typed) (onKeys : OnKeys lines)
    (events : List (Option Unit)) (keyboard : Keyboard)
    (run : Run RoomyTurn ⟨keystrokes (keysOf lines), startKeyboard⟩ events ⟨[], keyboard⟩)
    (idle : keyboard.consumer = .outside) (empty : keyboard.driver.pending = []) (final : Desk)
    (performs : Desk.session ⟨(fsRun (fsInit fs) fsCalls).disk, screen, kernelStack, buf⟩ lines = some final) :
    ∃ changed, lshLoopTurns area lines.length
        ⟨heap.memory, (fsRun (fsInit fs) fsCalls).disk, screen, kernelStack, buf⟩ keyboard.returned =
        some (final.on changed, []) ∧
      FileSystem.Represents final.disk
        ((lines.map fun typed => wordsOf (typedBy typed).text).foldl obey (Directory.empty.afterAll fsCalls)) := by
  obtain ⟨sent, split, received, all⟩ := roomy_run startKeyboard_received rfl run
  have whole : keyboard.accepted = keysOf lines := by
    rw [List.append_nil] at split
    rw [all, ← split]
    exact decode_keystrokes (keysOf_typeable onKeys)
  have returned : keyboard.returned = keysOf lines := by
    have history := received.fifo.accepted
    simp only [idle, empty, GetChar.inHand, List.append_nil] at history
    rw [← history, whole]
  obtain ⟨begun, invariant⟩ := heapInvariant_of_run reached
  obtain ⟨changed, turned, -⟩ := lshLoopTurns_session invariant.represents roomy
    ⟨(fsRun (fsInit fs) fsCalls).disk, screen, kernelStack, buf⟩ short [] performs
  rw [List.append_nil] at turned
  rw [returned]
  exact ⟨changed, turned, @session_represents ⟨(fsRun (fsInit fs) fsCalls).disk, screen, kernelStack, buf⟩ final _
    (reachable_represents fs fsCalls) lines short performs⟩

/-- The two lines are typed ahead and then read. -/
theorem scancodes_reach_disk_touch : ∃ (keyboard : Keyboard) (final : Desk) (changed : Memory),
    lshLoopTurns exampleArea 2 ⟨exampleHeap.memory, (fsInit blankState).disk, ⟨fun _ => 0, 0, []⟩, fun _ => 0, 0⟩
        keyboard.returned = some (final.on changed, []) ∧
      FileSystem.Represents final.disk ((Directory.empty.create [97]).delete [98]) := by
  have onKeys : OnKeys exampleLines := by decide
  obtain ⟨events, keyboard, run, idle, empty⟩ := typing_completes (keysOf_typeable onKeys) (by decide)
  obtain ⟨final, performs⟩ := exampleLines_performs
    ⟨(fsRun (fsInit blankState) []).disk, ⟨fun _ => 0, 0, []⟩, fun _ => 0, 0⟩
  obtain ⟨changed, turned, stored⟩ := scancodes_reach_disk exampleArea (fun _ => 0) [] exampleHeap .nil
    exampleHeap_roomy blankState [] ⟨fun _ => 0, 0, []⟩ (fun _ => 0) 0 exampleLines exampleLines_short onKeys events
    keyboard run idle empty final performs
  rw [exampleLines_obey] at stored
  exact ⟨keyboard, final, changed, turned, stored⟩

end ShedKernel.Shell
