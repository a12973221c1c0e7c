import ShedKernel.Cpu.Launch
import Mathlib.Algebra.GroupWithZero.Nat

/-! What ring 3 starts with, and where the kernel goes on when it asks for the exit. -/

set_option autoImplicit false

namespace ShedKernel.Cpu

open Foundation Foundation.X86

/-- The first instruction of the program, with its own stack and data segments; the jump left
behind the kernel's stack pointer. -/
structure Launched (program : UserProgram) (image : KernelImage) (machine user : Machine) : Prop where
  eip : user.eip = program.entry
  cs : user.cs = 0x23
  esp : user.esp = program.stack
  ss : user.ss = 0x33
  eflags : user.eflags = machine.eflags
  ds : user.ds = ⟨0x2B, userData⟩
  es : user.es = ⟨0x2B, userData⟩
  fs : user.fs = ⟨0x2B, userData⟩
  gs : user.gs = ⟨0x2B, userData⟩
  saved : user.read image.kernelEspSave = machine.esp
  kept : ∀ other, other < machine.esp.toNat - 20 ∨ machine.esp.toNat ≤ other →
    other < image.kernelEspSave.toNat ∨ image.kernelEspSave.toNat + 4 ≤ other →
    user.memory other = machine.memory other

private theorem userData_outward : Segment.outward ⟨0x2B, userData⟩ 3 = ⟨0x2B, userData⟩ := if_neg (by decide)

private theorem loadUserSegments_eq (machine : Machine) :
    loadUserSegments machine =
      let segment := Segment.load machine.memory gdtBase 0x2B
      { machine.movAx 0x2B with ds := segment, es := segment, fs := segment, gs := segment } := by
  unfold loadUserSegments
  dsimp only
  rw [movAx_ax]
  rfl

theorem HasSegments.congr {memory changed : Memory} {tss : UInt32} (table : HasSegments memory tss)
    (same : ∀ other, gdtBase ≤ other → other < gdtBase + 64 → changed other = memory other) :
    HasSegments changed tss := by
  intro index segment found
  have inside : index < 8 := (List.getElem?_eq_some_iff.mp found).1
  rw [← table index segment found]
  exact SegmentDescriptor.decode_congr fun offset small => same _ (by omega) (by omega)

section

variable {image : KernelImage} {tss : UInt32} {machine : Machine} {program : UserProgram}

/-- The jump up to its `iret`. -/
def beforeJump (program : UserProgram) (image : KernelImage) (machine : Machine) : Machine :=
  (loadUserSegments (machine.write image.kernelEspSave machine.esp)).pushAll
    [0x33, program.stack, machine.eflags, 0x23, program.entry]

/-- The frame that the `iret` takes, and what it finds around it. -/
structure ReadyToJump (program : UserProgram) (image : KernelImage) (machine ready : Machine) : Prop where
  stack : ready.Stack [program.entry, 0x23, machine.eflags, program.stack, 0x33]
  cs : ready.cs = machine.cs
  ds : ready.ds = ⟨0x2B, userData⟩
  es : ready.es = ⟨0x2B, userData⟩
  fs : ready.fs = ⟨0x2B, userData⟩
  gs : ready.gs = ⟨0x2B, userData⟩
  below : ∀ other, machine.esp.toNat ≤ other →
    ready.memory other = (machine.write image.kernelEspSave machine.esp).memory other
  kept : ∀ other, other < machine.esp.toNat - 20 →
    ready.memory other = (machine.write image.kernelEspSave machine.esp).memory other

private theorem beforeJump_ready (layout : KernelLayout image) (inside : InKernel tss machine) :
    ReadyToJump program image machine (beforeJump program image machine) := by
  have base : gdtBase = 2048 := rfl
  have above := inside.above
  have low := inside.below
  have far := layout.kernelEspSave_inside
  have table : HasSegments (machine.write image.kernelEspSave machine.esp).memory tss :=
    inside.table.congr fun other _ high => Memory.store32_of_outside (by omega)
  have segment : Segment.load (machine.write image.kernelEspSave machine.esp).memory gdtBase 0x2B =
      ⟨0x2B, userData⟩ := table.load rfl
  have loaded := loadUserSegments_eq (machine.write image.kernelEspSave machine.esp)
  dsimp only at loaded
  rw [segment] at loaded
  unfold beforeJump
  rw [loaded]
  have fits : 4 * [0x33, program.stack, machine.eflags, 0x23, program.entry].length ≤ machine.esp.toNat := by
    simp only [List.length_cons, List.length_nil]
    omega
  have empty : ({ (machine.write image.kernelEspSave machine.esp).movAx 0x2B with
      ds := ⟨0x2B, userData⟩, es := ⟨0x2B, userData⟩, fs := ⟨0x2B, userData⟩
      gs := ⟨0x2B, userData⟩ } : Machine).Stack [] := ⟨trivial, machine.esp.toNat_lt⟩
  have kept := ({ (machine.write image.kernelEspSave machine.esp).movAx 0x2B with
      ds := ⟨0x2B, userData⟩, es := ⟨0x2B, userData⟩, fs := ⟨0x2B, userData⟩
      gs := ⟨0x2B, userData⟩ } : Machine).pushAll_keeps
    [0x33, program.stack, machine.eflags, 0x23, program.entry]
  have outside : ∀ other, other < machine.esp.toNat - 20 ∨ machine.esp.toNat ≤ other → _ := fun other apart =>
    @Machine.pushAll_memory_of_outside ({ (machine.write image.kernelEspSave machine.esp).movAx 0x2B with
      ds := ⟨0x2B, userData⟩, es := ⟨0x2B, userData⟩, fs := ⟨0x2B, userData⟩
      gs := ⟨0x2B, userData⟩ } : Machine) _ fits other apart
  exact {
    stack := empty.pushAll _ fits
    cs := kept.cs
    ds := kept.ds
    es := kept.es
    fs := kept.fs
    gs := kept.gs
    below := fun other high => outside other (.inr high)
    kept := fun other small => outside other (.inl small) }

private theorem jumpTo_launched (layout : KernelLayout image) (inside : InKernel tss machine) :
    Launched program image machine (jumpTo program image machine) := by
  have ready := @beforeJump_ready image tss machine program layout inside
  have low := inside.below
  have far := layout.kernelEspSave_inside
  have outward : ring (beforeJump program image machine).cs < ring (0x23 : UInt32).toUInt16 := by
    rw [ready.cs, inside.ring]
    decide
  have left := ready.stack.iretd outward
  have jump : jumpTo program image machine = (beforeJump program image machine).iretd := rfl
  have level : ring (0x23 : UInt32).toUInt16 = 3 := rfl
  rw [level, ready.ds, ready.es, ready.fs, ready.gs, userData_outward] at left
  rw [jump, left]
  exact {
    eip := rfl
    cs := rfl
    esp := rfl
    ss := rfl
    eflags := rfl
    ds := rfl
    es := rfl
    fs := rfl
    gs := rfl
    saved := by
      show UInt32.ofNat ((beforeJump program image machine).memory.load32 image.kernelEspSave.toNat) = _
      have same : (beforeJump program image machine).memory.load32 image.kernelEspSave.toNat =
          (machine.memory.store32 image.kernelEspSave.toNat machine.esp.toNat).load32 image.kernelEspSave.toNat :=
        Memory.load32_congr fun other high _ => ready.below other (by omega)
      rw [same, Memory.load32_store32_of_lt machine.esp.toNat_lt, UInt32.ofNat_toNat]
    kept := fun other apart away => by
      have unsaved : (machine.write image.kernelEspSave machine.esp).memory other = machine.memory other :=
        Memory.store32_of_outside away
      rw [← unsaved]
      rcases apart with small | high
      · exact ready.kept other small
      · exact ready.below other high }

/-! The exit. -/

/-- The first instruction of `lsh_loop`, in ring 0 with the kernel's segments, below the stack
pointer that the jump saved. -/
structure AtLoop (image : KernelImage) (top : Nat) (machine : Machine) : Prop where
  eip : machine.eip = image.lshLoop
  ring : ring machine.cs = 0
  esp : machine.esp.toNat = top
  behind : machine.top = image.behindLoop
  running : machine.read image.exitRequested = 0
  ds : machine.ds = ⟨0x10, kernelData⟩
  es : machine.es = ⟨0x10, kernelData⟩
  fs : machine.fs = ⟨0x10, kernelData⟩
  gs : machine.gs = ⟨0x10, kernelData⟩

private theorem HasSegments.hasKernelData {memory : Memory} (table : HasSegments memory tss) : HasKernelData memory :=
  table 2 kernelData rfl

private theorem doExit_atLoop {saved : UInt32} (layout : KernelLayout image) (inner : ring machine.cs = 0)
    (table : HasSegments machine.memory tss) (held : machine.read image.kernelEspSave = saved)
    (above : gdtBase + 84 ≤ saved.toNat) (below : saved.toNat ≤ 0x100000) :
    AtLoop image (saved.toNat - 4) (doExit image machine) := by
  have base : gdtBase = 2048 := rfl
  have high := image.exitRequested_inside
  have cleared : (machine.write image.exitRequested 0).read image.kernelEspSave = saved := by
    rw [← held]
    exact congrArg UInt32.ofNat (Memory.load32_store32_of_disjoint layout.apart)
  have segment : Segment.load (machine.write image.exitRequested 0).memory gdtBase 0x10 = ⟨0x10, kernelData⟩ :=
    table.hasKernelData.load fun other _ small => Memory.store32_of_outside (by omega)
  have zero : (machine.write image.exitRequested 0).read image.exitRequested = 0 :=
    congrArg UInt32.ofNat (Memory.load32_store32_of_lt (by decide))
  have loaded := loadDataSegments_eq (machine.write image.exitRequested 0)
  dsimp only at loaded
  rw [segment] at loaded
  unfold doExit
  rw [loaded]
  dsimp only
  have same : ({ (machine.write image.exitRequested 0).movAx 0x10 with
      ds := ⟨0x10, kernelData⟩, es := ⟨0x10, kernelData⟩, fs := ⟨0x10, kernelData⟩
      gs := ⟨0x10, kernelData⟩ } : Machine).read image.kernelEspSave = saved := cleared
  rw [same]
  generalize known : ({ (machine.write image.exitRequested 0).movAx 0x10 with
      esp := saved, ds := ⟨0x10, kernelData⟩, es := ⟨0x10, kernelData⟩, fs := ⟨0x10, kernelData⟩
      gs := ⟨0x10, kernelData⟩ } : Machine) = ready
  have esp : ready.esp = saved := by rw [← known]
  have memory : ready.memory = (machine.write image.exitRequested 0).memory := by
    rw [← known]
    rfl
  have cs : ready.cs = machine.cs := by
    rw [← known]
    rfl
  have room : 4 ≤ ready.esp.toNat := by
    rw [esp]
    omega
  have empty : ready.Stack [] := ⟨trivial, ready.esp.toNat_lt⟩
  have kept := ready.call_keeps image.lshLoop image.behindLoop
  exact {
    eip := rfl
    ring := (congrArg ring (kept.cs.trans cs)).trans inner
    esp := (Machine.call_esp room _ _).trans (by rw [esp])
    behind := (empty.call room image.lshLoop image.behindLoop).top
    running := by
      rw [← zero]
      refine congrArg UInt32.ofNat (Memory.load32_congr fun other low _ => ?_)
      rw [← memory]
      exact Machine.push_memory_of_outside room (.inr (by rw [esp]; omega))
    ds := kept.ds.trans (by rw [← known])
    es := kept.es.trans (by rw [← known])
    fs := kept.fs.trans (by rw [← known])
    gs := kept.gs.trans (by rw [← known]) }

private theorem plantResult_memory {user back : Machine} (called : Dispatched image (int80 image user) (trapFrame user)
    (dispatched image user)) (returned : CdeclReturn (dispatched image user) back 4 0x1FFF0) {other : Nat}
    (apart : other < 0x1FFD8 ∨ 0x1FFDC ≤ other) : (plantResult back).memory other = back.memory other := by
  have place := called.esp
  rw [int80_esp] at place
  have slot : (back.esp + 16 + 28).toNat = 0x1FFD8 := by
    rw [returned.esp, UInt32.toNat_add, UInt32.toNat_add, UInt32.toNat_add, place]
    rfl
  have outside : other < (back.esp + 16 + 28).toNat ∨ (back.esp + 16 + 28).toNat + 4 ≤ other := by omega
  exact Memory.store32_of_outside outside

/-- The program is not resumed: a fresh `lsh_loop` begins. -/
theorem syscallReturn_atLoop {user back : Machine} {saved : UInt32} (layout : KernelLayout image)
    (table : HasSegments user.memory tss) (request : RequestsExit image tss user back)
    (held : user.read image.kernelEspSave = saved) (above : gdtBase + 84 ≤ saved.toNat)
    (below : saved.toNat ≤ 0x100000) : AtLoop image (saved.toNat - 4) (syscallReturn image back) := by
  have called := dispatched_spec image table.hasKernelData
  have requested := request.requested
  rw [← plantResult_read called request.returned] at requested
  have kept := plantResult_keeps back
  have cs : (plantResult back).cs = 0x08 := kept.cs.trans (request.returned.cs.trans called.kept.cs)
  have level : ring (plantResult back).cs = 0 := by
    rw [cs]
    rfl
  have same {other : Nat} (apart : other < 0x1FFD8 ∨ 0x1FFDC ≤ other) :=
    plantResult_memory called request.returned apart
  have far := layout.kernelEspSave_inside
  have still : HasSegments (plantResult back).memory tss :=
    request.table.congr fun other _ small => same (.inl (by have base : gdtBase = 2048 := rfl; omega))
  have kernelEsp : (plantResult back).read image.kernelEspSave = saved := by
    rw [← held, ← request.saved]
    exact congrArg UInt32.ofNat (Memory.load32_congr fun other low _ => same (.inr (by omega)))
  unfold syscallReturn testExitRequested
  dsimp only
  rw [if_pos requested]
  exact doExit_atLoop layout level still kernelEsp above below

/-! Whole runs. -/

/-- The shell that `kernel_main` calls and those that begin in its place, or a program with the
stack pointer of the last jump in the kernel's variable. -/
def Session.Stands (image : KernelImage) (tss : UInt32) (entry : Machine) (top : Nat) : Session → Prop
  | .shell machine => machine.esp.toNat = top ∧ (machine = entry ∨ AtLoop image top machine)
  | .program user =>
      ring user.cs = 3 ∧ HasSegments user.memory tss ∧ (user.read image.kernelEspSave).toNat = top ∧
        gdtBase + 84 ≤ top ∧ top ≤ 0x100000

theorem Launched.stands {entry user : Machine} (layout : KernelLayout image) (inside : InKernel tss machine)
    (launched : Launched program image machine user) :
    (Session.program user).Stands image tss entry machine.esp.toNat := by
  have base : gdtBase = 2048 := rfl
  have above := inside.above
  have far := layout.kernelEspSave_inside
  refine ⟨by rw [launched.cs]; rfl, ?_, by rw [launched.saved], above, inside.below⟩
  exact inside.table.congr fun other _ small => launched.kept other (.inl (by omega)) (.inl (by omega))

/-- The exit starts a shell. -/
theorem SessionStep.exited {entry : Machine} {top : Nat} {current next : Session} (layout : KernelLayout image)
    (held : current.Stands image tss entry top) (step : SessionStep image tss current .exit next) :
    ∃ machine, next = .shell machine ∧ AtLoop image (top - 4) machine := by
  cases step with
  | exit request =>
      obtain ⟨-, table, saved, above, below⟩ := held
      have arrived := syscallReturn_atLoop layout table request rfl (by rw [saved]; exact above)
        (by rw [saved]; exact below)
      rw [saved] at arrived
      exact ⟨_, rfl, arrived⟩

theorem SessionStep.stands {entry : Machine} {top : Nat} {current next : Session} {event : SessionEvent}
    (layout : KernelLayout image) (held : current.Stands image tss entry top)
    (step : SessionStep image tss current event next) :
    next.Stands image tss entry (event.stackTop top) := by
  cases step with
  | launch program inside moved =>
      have place : _ - _ = _ := Nat.sub_eq_of_eq_add moved.symm
      rw [held.1] at place
      rw [SessionEvent.stackTop, place]
      exact (jumpTo_launched layout inside).stands layout inside
  | run outside =>
      obtain ⟨-, -, saved, above, below⟩ := held
      exact ⟨outside.ring, outside.table, by rw [outside.saved]; exact saved, above, below⟩
  | execEditor inside moved =>
      have called := (dispatched_spec image held.2.1.hasKernelData).esp
      rw [int80_esp] at called
      have place : _ - _ = _ := Nat.sub_eq_of_eq_add moved.symm
      rw [called] at place
      rw [SessionEvent.stackTop, place]
      exact (jumpTo_launched layout inside).stands layout inside
  | exit request =>
      obtain ⟨machine, same, arrived⟩ := (SessionStep.exit request).exited layout held
      cases same
      exact ⟨arrived.esp, .inr arrived⟩

private theorem sessions_stand {entry : Machine} {events : List SessionEvent} {final : Session}
    (layout : KernelLayout image) (run : Run (SessionStep image tss) (.shell entry) events final) :
    final.Stands image tss entry (events.foldl SessionEvent.stackTop entry.esp.toNat) := by
  induction run with
  | nil => exact ⟨rfl, .inl rfl⟩
  | snoc _ step ih =>
      rw [List.foldl_append]
      exact step.stands layout ih

/-- What a launch or an exit takes of the stack is never given back. -/
theorem sessions_spend {entry : Machine} {events : List SessionEvent} {final : Session}
    (layout : KernelLayout image) (run : Run (SessionStep image tss) (.shell entry) events final)
    (shells : ∀ event ∈ events, ¬event.IsExecEditor) :
    events.foldl SessionEvent.stackTop entry.esp.toNat + (events.map SessionEvent.spent).sum = entry.esp.toNat := by
  induction run with
  | nil => rfl
  | @snoc events current next event earlier step ih =>
      have before := ih fun event member => shells event (List.mem_append_left _ member)
      have held := sessions_stand layout earlier
      rw [List.foldl_append, List.map_append, List.sum_append]
      generalize events.foldl SessionEvent.stackTop entry.esp.toNat = top at before held ⊢
      cases step with
      | launch program inside moved =>
          have esp := held.1
          simp only [List.foldl_cons, List.foldl_nil, SessionEvent.stackTop, List.map_cons, List.map_nil,
            SessionEvent.spent, List.sum_cons, List.sum_nil]
          omega
      | run => exact before
      | execEditor => exact absurd trivial (shells _ (List.mem_append_right _ List.mem_cons_self))
      | exit =>
          obtain ⟨-, -, -, above, -⟩ := held
          simp only [List.foldl_cons, List.foldl_nil, SessionEvent.stackTop, List.map_cons, List.map_nil,
            SessionEvent.spent, List.sum_cons, List.sum_nil]
          omega

/-- A jump, from the shell or through syscall 13, starts its program in ring 3. -/
theorem SessionStep.jumped {entry : Machine} {top : Nat} {current : Session} {user : Machine} {event : SessionEvent}
    {program : UserProgram} (layout : KernelLayout image) (held : current.Stands image tss entry top)
    (step : SessionStep image tss current event (.program user)) (jump : event.Jumps program) :
    ∃ machine, InKernel tss machine ∧ machine.esp.toNat = event.stackTop top ∧ Launched program image machine user := by
  cases step with
  | launch other inside moved =>
      cases jump
      refine ⟨_, inside, ?_, jumpTo_launched layout inside⟩
      rw [SessionEvent.stackTop, ← held.1]
      omega
  | run => cases jump
  | execEditor inside moved =>
      cases jump
      have called := (dispatched_spec image held.2.1.hasKernelData).esp
      rw [int80_esp] at called
      refine ⟨_, inside, ?_, jumpTo_launched layout inside⟩
      rw [SessionEvent.stackTop]
      omega

/-- Whatever programs run and however they end: each jump, that of syscall 13 included, starts
its program in ring 3 with the program's stack and user segments and leaves the kernel's stack
pointer in the variable; the exit starts a new `lsh_loop` in ring 0 below that pointer instead
of going back to the command that jumped. Without syscall 13 all these pointers lie on the
stack of the first shell, which loses the bytes of every launch and exit for good. -/
theorem lsh_loop_sessions {entry : Machine} {events : List SessionEvent} {final : Session}
    (layout : KernelLayout image) (run : Run (SessionStep image tss) (.shell entry) events final) :
    final.Stands image tss entry (events.foldl SessionEvent.stackTop entry.esp.toNat) ∧
      (∀ earlier event program user, events = earlier ++ [event] → event.Jumps program → final = .program user →
        ∃ machine, InKernel tss machine ∧
          machine.esp.toNat = events.foldl SessionEvent.stackTop entry.esp.toNat ∧
          Launched program image machine user) ∧
      (∀ earlier, events = earlier ++ [.exit] →
        ∃ machine, final = .shell machine ∧
          AtLoop image (earlier.foldl SessionEvent.stackTop entry.esp.toNat - 4) machine) ∧
      ((∀ event ∈ events, ¬event.IsExecEditor) →
        events.foldl SessionEvent.stackTop entry.esp.toNat + (events.map SessionEvent.spent).sum =
          entry.esp.toNat) := by
  refine ⟨sessions_stand layout run, ?_, ?_, sessions_spend layout run⟩
  · rintro earlier event program user rfl jump rfl
    obtain ⟨before, first, step⟩ := run.last
    rw [List.foldl_append]
    exact step.jumped layout (sessions_stand layout first) jump
  · rintro earlier rfl
    obtain ⟨before, first, step⟩ := run.last
    exact step.exited layout (sessions_stand layout first)

end

/-- The kernel's shell below 0x90000, about to jump. -/
def jumping : Machine :=
  { keyReader 0x10 with esp := 0x8FF00, cs := 0x08, ss := 0x10, memory := gdtInit (fun _ => 0) 0x108000 0x109000 }

/-- `exit_requested = 1` and `return 0`. -/
def requestExit (image : KernelImage) (called : Machine) : Machine :=
  { called.write image.exitRequested 1 with eax := 0, esp := called.esp + 4, eip := called.top }

private theorem linkedImage_layout : KernelLayout linkedImage := ⟨by decide, by decide⟩

private theorem jumping_inside : InKernel 0x109000 jumping :=
  ⟨rfl, gdtInit_hasSegments _ _ (by decide), by decide, by decide⟩

private theorem syscallEntry_memory {image : KernelImage} {machine : Machine} {frame : List UInt32}
    (stack : machine.Stack frame) (room : gdtBase + 68 ≤ machine.esp.toNat) (table : HasKernelData machine.memory)
    {other : Nat} (outside : other < machine.esp.toNat - 52 ∨ machine.esp.toNat ≤ other) :
    (syscallEntry image machine).memory other = machine.memory other := by
  have base : gdtBase = 2048 := rfl
  have entered := enterSegments_stack stack room table
  have same := enterSegments_eq stack room table
  have esp : (enterSegments machine).esp = machine.esp := by rw [same, withKernelData]
  have first : (enterSegments machine).memory other = machine.memory other := by
    rw [same]
    exact Machine.push_memory_of_outside (by omega) (by omega)
  rw [syscallEntry, takeArguments_pusha entered (by rw [esp]; omega), ← first]
  generalize enterSegments machine = ready at esp ⊢
  have second : ready.pusha.memory other = ready.memory other :=
    Machine.pushAll_memory_of_outside [ready.eax, ready.ecx, ready.edx, ready.ebx, ready.esp, ready.ebp, ready.esi,
      ready.edi] (by rw [esp]; simp only [List.length_cons, List.length_nil]; omega)
      (by rw [esp]; simp only [List.length_cons, List.length_nil]; omega)
  have savedEsp : ready.pusha.esp.toNat = ready.esp.toNat - 32 := Machine.pusha_esp (by rw [esp]; omega)
  rw [← second]
  generalize ready.pusha = pushed at savedEsp ⊢
  have fits : 4 * [pushed.edx, pushed.ecx, pushed.ebx, pushed.eax].length ≤ pushed.esp.toNat := by
    rw [savedEsp, esp]
    simp only [List.length_cons, List.length_nil]
    omega
  have loadedEsp := Machine.pushAll_esp _ fits
  have third : (pushed.pushAll [pushed.edx, pushed.ecx, pushed.ebx, pushed.eax]).memory other = pushed.memory other := by
    refine Machine.pushAll_memory_of_outside _ fits ?_
    rw [savedEsp, esp]
    simp only [List.length_cons, List.length_nil]
    omega
  rw [← third]
  generalize pushed.pushAll _ = arguments at loadedEsp ⊢
  rw [savedEsp, esp] at loadedEsp
  simp only [List.length_cons, List.length_nil] at loadedEsp
  exact @Machine.push_memory_of_outside arguments image.behindDispatch other (by omega) (by omega)

/-- On the way to `syscall_dispatch` nothing but the stack of the task state is written. -/
theorem dispatched_memory {image : KernelImage} {user : Machine} (table : HasKernelData user.memory) {other : Nat}
    (outside : other < 0x1FFF0 - 72 ∨ 0x1FFF0 ≤ other) : (dispatched image user).memory other = user.memory other := by
  have trapped : (int80 image user).Stack (trapFrame user) := Machine.trapInward_stack _ _ (by decide)
  have place := int80_esp image user
  have same {other : Nat} (outside : other < 0x1FFF0 - 20 ∨ 0x1FFF0 ≤ other) :
      (int80 image user).memory other = user.memory other :=
    @Machine.pushAll_memory_of_outside
      { user with eip := user.eip + 2, ss := defaultTss.ss0, esp := defaultTss.esp0 }
      [user.ss.toUInt32, user.esp, user.eflags, user.cs.toUInt32, user.eip + 2]
      (show 20 ≤ defaultTss.esp0.toNat by decide) other outside
  have tableKept : HasKernelData (int80 image user).memory := by
    unfold HasKernelData
    rw [← table]
    exact SegmentDescriptor.decode_congr fun index inside => same (.inl (by have base : gdtBase = 2048 := rfl; omega))
  exact (syscallEntry_memory trapped (by rw [place]; decide) tableKept (by omega)).trans (same (by omega))

private theorem requestExit_returns (image : KernelImage) (called : Machine) :
    CdeclReturn called (requestExit image called) 4 0x1FFF0 where
  ebx := rfl
  ebp := rfl
  esi := rfl
  edi := rfl
  esp := rfl
  eip := rfl
  cs := rfl
  ss := rfl
  ds := rfl
  es := rfl
  fs := rfl
  gs := rfl
  frame := fun other _ below => Memory.store32_of_outside
    (show other < image.exitRequested.toNat ∨ _ by have high := image.exitRequested_inside; omega)

/-- The program asks for the exit at once. -/
theorem requestExit_requests {image : KernelImage} {tss : UInt32} {user : Machine} (layout : KernelLayout image)
    (table : HasSegments user.memory tss) :
    RequestsExit image tss user (requestExit image (dispatched image user)) := by
  have base : gdtBase = 2048 := rfl
  have high := image.exitRequested_inside
  have far := layout.kernelEspSave_inside
  have apart := layout.apart
  have same {other : Nat} (outside : other < 0x1FFF0 - 72 ∨ 0x1FFF0 ≤ other) :
      (dispatched image user).memory other = user.memory other := dispatched_memory table.hasKernelData outside
  have asked : (requestExit image (dispatched image user)).read image.exitRequested = 1 :=
    congrArg UInt32.ofNat (Memory.load32_store32_of_lt (by decide))
  have written {other : Nat} (outside : other < image.exitRequested.toNat ∨ image.exitRequested.toNat + 4 ≤ other) :
      (requestExit image (dispatched image user)).memory other = (dispatched image user).memory other :=
    Memory.store32_of_outside outside
  refine ⟨?_, by rw [asked]; decide, ?_, ?_⟩
  · exact requestExit_returns image (dispatched image user)
  · exact table.congr fun other _ small => (written (by omega)).trans (same (by omega))
  · refine congrArg UInt32.ofNat (Memory.load32_congr fun other low small => ?_)
    exact (written (by omega)).trans (same (by omega))

/-- A program is started from the shell and asks for the exit. -/
theorem lsh_loop_sessions_exit :
    let entry := { jumping with esp := 0x8FF40 }
    let user := jumpToUserspace linkedImage jumping
    let back := requestExit linkedImage (dispatched linkedImage user)
    Run (SessionStep linkedImage 0x109000) (.shell entry) [.launch userspace 64, .exit]
        (.shell (syscallReturn linkedImage back)) ∧
      AtLoop linkedImage 0x8FEFC (syscallReturn linkedImage back) := by
  intro entry user back
  have launched := @jumpTo_launched linkedImage _ jumping userspace linkedImage_layout jumping_inside
  have table := (@Launched.stands _ _ _ _ entry _ linkedImage_layout jumping_inside launched).2.1
  have run : Run (SessionStep linkedImage 0x109000) (.shell entry) [.launch userspace 64, .exit]
      (.shell (syscallReturn linkedImage back)) :=
    (Run.single (.launch userspace jumping_inside rfl)).snoc (.exit (requestExit_requests linkedImage_layout table))
  obtain ⟨-, -, exited, -⟩ := lsh_loop_sessions linkedImage_layout run
  obtain ⟨machine, same, arrived⟩ := exited [.launch userspace 64] rfl
  have top : [SessionEvent.launch userspace 64].foldl SessionEvent.stackTop (0x8FF40 : UInt32).toNat - 4 =
      0x8FEFC := rfl
  rw [← Session.shell.inj same] at arrived
  exact ⟨run, top ▸ arrived⟩

end ShedKernel.Cpu
