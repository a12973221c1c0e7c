import ShedKernel.Cpu.Syscall

/-! What a system call hands to `syscall_dispatch` and what it leaves its caller. -/

set_option autoImplicit false

namespace ShedKernel.Cpu

open Foundation Foundation.X86

/-! The segments. -/

/-- `kgdt[2]` -/
def kernelData : SegmentDescriptor := ⟨0x0, 0xFFFFF, 0x93, 0x0D, by decide, by decide⟩

/-- The table in memory has it in the place of selector 0x10. -/
def HasKernelData (memory : Memory) : Prop := SegmentDescriptor.decode memory (gdtBase + 16) = kernelData

private theorem gdtInit_hasKernelData (memory : Memory) {kgdt : Nat} (apart : gdtBase + 64 ≤ kgdt) (tss : UInt32) :
    HasKernelData (gdtInit memory kgdt tss) := by
  unfold HasKernelData gdtInit
  have copied (filled : Memory) : SegmentDescriptor.decode (filled.copyForward gdtBase kgdt 64) (gdtBase + 16) =
      SegmentDescriptor.decode filled (kgdt + 16) := by
    refine SegmentDescriptor.decode_congr fun index inside => ?_
    rw [Nat.add_assoc, Nat.add_assoc]
    exact Memory.copyForward_of_disjoint (.inl apart) (by omega)
  rw [copied]
  iterate 5 rw [decode_initGdtDescriptor_of_outside _ _ _ _ _ _ (by omega)]
  exact decode_initGdtDescriptor _ _ kernelData

theorem HasKernelData.load {memory changed : Memory} (table : HasKernelData memory)
    (same : ∀ other, gdtBase ≤ other → other < gdtBase + 64 → changed other = memory other) :
    Segment.load changed gdtBase 0x10 = ⟨0x10, kernelData⟩ := by
  have entry : SegmentDescriptor.decode changed (gdtBase + 16) = kernelData := by
    rw [← table]
    exact SegmentDescriptor.decode_congr fun index inside => same _ (by omega) (by omega)
  exact congrArg (Segment.mk 0x10) entry

/-- Ring 3 cannot keep a kernel segment. -/
theorem kernelData_outward : Segment.outward ⟨0x10, kernelData⟩ 3 = ⟨0, kernelData⟩ :=
  if_pos (by decide)

theorem movAx_ax (machine : Machine) (value : UInt16) : (machine.movAx value).eax.toUInt16 = value := by
  rw [← UInt16.toNat_inj, UInt32.toNat_toUInt16]
  show ((machine.eax &&& 0xFFFF0000) ||| value.toUInt32).toNat % 2 ^ 16 = value.toNat
  rw [UInt32.toNat_or, UInt32.toNat_and, UInt16.toNat_toUInt32, Nat.or_mod_two_pow, Nat.and_mod_two_pow]
  show (machine.eax.toNat % 2 ^ 16 &&& 0) ||| value.toNat % 2 ^ 16 = value.toNat
  rw [Nat.and_zero, Nat.zero_or]
  exact Nat.mod_eq_of_lt value.toNat_lt

theorem loadDataSegments_eq (machine : Machine) :
    loadDataSegments machine =
      let segment := Segment.load machine.memory gdtBase 0x10
      { machine.movAx 0x10 with ds := segment, es := segment, fs := segment, gs := segment } := by
  unfold loadDataSegments
  dsimp only
  rw [movAx_ax]
  rfl

/-! The entry. -/

def withKernelData (machine : Machine) : Machine :=
  { machine with
    ds := ⟨0x10, kernelData⟩, es := ⟨0x10, kernelData⟩, fs := ⟨0x10, kernelData⟩, gs := ⟨0x10, kernelData⟩ }

section Entry

variable {machine : Machine} {frame : List UInt32}

/-- The handler gets `eax` back, and the stack. -/
theorem enterSegments_eq (stack : machine.Stack frame) (room : gdtBase + 68 ≤ machine.esp.toNat)
    (table : HasKernelData machine.memory) :
    enterSegments machine = { withKernelData machine with memory := (machine.push machine.eax).memory } := by
  have enough : 4 ≤ machine.esp.toNat := by omega
  have segment : Segment.load (machine.push machine.eax).memory gdtBase 0x10 = ⟨0x10, kernelData⟩ :=
    table.load fun other _ high => Machine.push_memory_of_outside enough (by omega)
  have restored : (loadDataSegments (machine.push machine.eax)).top = machine.eax :=
    (stack.push enough machine.eax).top
  have back : machine.esp - 4 + 4 = machine.esp := UInt32.sub_add_cancel ..
  unfold enterSegments
  dsimp only
  rw [restored, loadDataSegments_eq, segment]
  simp only [Machine.drop, Machine.addEsp, Machine.movAx, Machine.push, Machine.write, withKernelData, back]

theorem enterSegments_stack (stack : machine.Stack frame) (room : gdtBase + 68 ≤ machine.esp.toNat)
    (table : HasKernelData machine.memory) : (enterSegments machine).Stack frame := by
  have enough : 4 ≤ machine.esp.toNat := by omega
  rw [enterSegments_eq stack room table]
  refine ⟨stack.holds.congr fun other low _ => ?_, stack.inside⟩
  exact Machine.push_memory_of_outside enough (.inr low)

/-- The words read are those that the registers hold already. -/
theorem takeArguments_pusha (stack : machine.Stack frame) (room : 32 ≤ machine.esp.toNat) :
    takeArguments machine.pusha = machine.pusha := by
  have saved := stack.pusha room
  have eax : machine.pusha.read (machine.pusha.esp + 28) = machine.eax := saved.read 7 (by simp) rfl
  have ebx : machine.pusha.read (machine.pusha.esp + 16) = machine.ebx := saved.read 4 (by simp) rfl
  have ecx : machine.pusha.read (machine.pusha.esp + 24) = machine.ecx := saved.read 6 (by simp) rfl
  have edx : machine.pusha.read (machine.pusha.esp + 20) = machine.edx := saved.read 5 (by simp) rfl
  have kept := machine.pusha_keeps
  generalize machine.pusha = pushed at eax ebx ecx edx kept ⊢
  have reads : takeArguments pushed = { pushed with
      eax := pushed.read (pushed.esp + 28), ebx := pushed.read (pushed.esp + 16)
      ecx := pushed.read (pushed.esp + 24), edx := pushed.read (pushed.esp + 20) } := rfl
  rw [reads, eax, ebx, ecx, edx, ← kept.eax, ← kept.ebx, ← kept.ecx, ← kept.edx]

/-- What `syscall_dispatch` finds: its arguments, the frame of `pusha`, and what was on the
stack before. -/
structure Dispatched (image : KernelImage) (machine : Machine) (frame : List UInt32) (called : Machine) : Prop where
  stack : called.Stack (image.behindDispatch :: [machine.eax, machine.ebx, machine.ecx, machine.edx] ++
    ([machine.edi, machine.esi, machine.ebp, machine.esp, machine.ebx, machine.edx, machine.ecx, machine.eax] ++
      frame))
  esp : called.esp.toNat = machine.esp.toNat - 52
  kept : (withKernelData machine).Keeps called

theorem syscallEntry_spec (image : KernelImage) (stack : machine.Stack frame)
    (room : gdtBase + 68 ≤ machine.esp.toNat) (table : HasKernelData machine.memory) :
    Dispatched image machine frame (syscallEntry image machine) := by
  have base : gdtBase = 2048 := rfl
  have entered := enterSegments_stack stack room table
  have same := enterSegments_eq stack room table
  have esp : (enterSegments machine).esp = machine.esp := by rw [same, withKernelData]
  have first : (withKernelData machine).Keeps (enterSegments machine) := by
    rw [same]
    exact { Machine.Keeps.refl _ with }
  have enough : 52 ≤ (enterSegments machine).esp.toNat := by
    rw [esp]
    omega
  rw [syscallEntry, takeArguments_pusha entered (by omega)]
  have saved := entered.pusha (by omega)
  have savedEsp : (enterSegments machine).pusha.esp.toNat = (enterSegments machine).esp.toNat - 32 :=
    Machine.pusha_esp (by omega)
  have second := first.trans (Machine.pusha_keeps _)
  rw [first.eax, first.ecx, first.edx, first.ebx, first.ebp, first.esi, first.edi, esp] at saved
  generalize (enterSegments machine).pusha = pushed at saved savedEsp second ⊢
  have fits : 4 * [pushed.edx, pushed.ecx, pushed.ebx, pushed.eax].length ≤ pushed.esp.toNat := by
    simp only [List.length_cons, List.length_nil]
    omega
  have loaded := saved.pushAll _ fits
  have loadedEsp := Machine.pushAll_esp _ fits
  have third := second.trans (Machine.pushAll_keeps pushed [pushed.edx, pushed.ecx, pushed.ebx, pushed.eax])
  rw [second.eax, second.ebx, second.ecx, second.edx] at loaded loadedEsp third ⊢
  generalize pushed.pushAll _ = ready at loaded loadedEsp third ⊢
  simp only [List.length_cons, List.length_nil] at loadedEsp
  refine ⟨loaded.call (by omega) _ _, ?_, third.trans (Machine.call_keeps _ _ _)⟩
  rw [Machine.call_esp (by omega), loadedEsp, savedEsp, esp]
  omega

end Entry

def trapFrame (user : Machine) : List UInt32 :=
  [user.eip + 2, user.cs.toUInt32, user.eflags, user.esp, user.ss.toUInt32]

theorem int80_esp (image : KernelImage) (user : Machine) : (int80 image user).esp.toNat = 0x1FFDC :=
  Machine.trapInward_esp _ _ (by decide)

private theorem int80_keeps (image : KernelImage) (user : Machine) : user.KeepsGeneral (int80 image user) := by
  have trapped := ({ user with eip := user.eip + 2 } : Machine).trapInward_keeps (syscallGate image) defaultTss
  exact { trapped with }

theorem dispatched_spec (image : KernelImage) {user : Machine} (table : HasKernelData user.memory) :
    Dispatched image (int80 image user) (trapFrame user) (dispatched image user) := by
  have trapped : (int80 image user).Stack (trapFrame user) := Machine.trapInward_stack _ _ (by decide)
  have tableKept : HasKernelData (int80 image user).memory := by
    unfold HasKernelData
    rw [← table]
    refine SegmentDescriptor.decode_congr fun index inside => ?_
    have below : gdtBase + 16 + index < defaultTss.esp0.toNat - 20 := by
      show 2048 + 16 + index < 131036
      omega
    exact Machine.trapInward_memory_of_below _ _ (by decide) below
  exact syscallEntry_spec image trapped (by rw [int80_esp]; decide) tableKept

/-! The return. -/

section Return

variable {image : KernelImage} {user back machine : Machine}

/-- Nothing was requested, so the two frames are taken off the stack. -/
theorem testExitRequested_spec {edi esi ebp inner ebx edx ecx eax eip cs eflags esp ss : UInt32}
    (stack : machine.Stack ([edi, esi, ebp, inner, ebx, edx, ecx, eax] ++ [eip, cs, eflags, esp, ss]))
    (running : machine.read image.exitRequested = 0) (outward : ring machine.cs < ring cs.toUInt16) :
    testExitRequested image machine =
      { machine with
        eax := eax, ecx := ecx, edx := edx, ebx := ebx, esp := esp, ebp := ebp, esi := esi, edi := edi
        eip := eip, cs := cs.toUInt16, eflags := eflags, ss := ss.toUInt16
        ds := machine.ds.outward (ring cs.toUInt16), es := machine.es.outward (ring cs.toUInt16)
        fs := machine.fs.outward (ring cs.toUInt16), gs := machine.gs.outward (ring cs.toUInt16) } := by
  have same : ({ machine with eax := 0 } : Machine).Stack
      ([edi, esi, ebp, inner, ebx, edx, ecx, eax] ++ [eip, cs, eflags, esp, ss]) := ⟨stack.holds, stack.inside⟩
  have popped := same.popa
  have left := same.behindPopa.iretd (by rw [popped]; exact outward)
  unfold testExitRequested
  dsimp only
  rw [running, if_neg (not_not_intro rfl), left, popped]

theorem plantResult_keeps (machine : Machine) : machine.Keeps (plantResult machine) :=
  { Machine.Keeps.refl machine with }

section

variable (called : Dispatched image (int80 image user) (trapFrame user) (dispatched image user))
  (returned : CdeclReturn (dispatched image user) back 4 0x1FFF0)
include called returned

/-- The result takes the place of `eax` in the frame of `pusha`. -/
theorem plantResult_stack : (plantResult back).Stack
    ([user.edi, user.esi, user.ebp, (int80 image user).esp, user.ebx, user.edx, user.ecx, back.eax] ++
      trapFrame user) := by
  have place := called.esp
  rw [int80_esp] at place
  have cleared : (back.addEsp 16).Stack _ := returned.stack called.stack
    (by simp only [trapFrame, List.length_append, List.length_cons, List.length_nil]; omega) rfl
  have planted : ((back.addEsp 16).write ((back.addEsp 16).esp + 28) back.eax).Stack _ :=
    cleared.write 7 (by simp) rfl back.eax
  have kept := int80_keeps image user
  rw [kept.edi, kept.esi, kept.ebp, kept.ebx, kept.edx, kept.ecx] at planted
  exact ⟨planted.holds, planted.inside⟩

theorem plantResult_read : (plantResult back).read image.exitRequested = back.read image.exitRequested := by
  have place := called.esp
  have above := image.exitRequested_inside
  rw [int80_esp] at place
  have slot : (back.esp + 16 + 28).toNat = 0x1FFD8 := by
    rw [returned.esp, UInt32.toNat_add, UInt32.toNat_add, UInt32.toNat_add, place]
    rfl
  have apart : (back.esp + 16 + 28).toNat + 4 ≤ image.exitRequested.toNat := by omega
  exact congrArg UInt32.ofNat (Memory.load32_store32_of_disjoint (.inr apart))

end

/-- The system call on a caller in ring 3: `eax` is the result, the data segments are gone
and everything else is back. -/
theorem syscallReturn_spec (outside : ring user.cs = 3) (table : HasKernelData user.memory)
    (returned : CdeclReturn (dispatched image user) back 4 0x1FFF0) (running : back.read image.exitRequested = 0) :
    ∃ memory, syscallReturn image back =
      { user with
        eip := user.eip + 2, eax := back.eax, memory := memory
        ds := ⟨0, kernelData⟩, es := ⟨0, kernelData⟩, fs := ⟨0, kernelData⟩, gs := ⟨0, kernelData⟩ } := by
  have called := dispatched_spec image table
  have stack := plantResult_stack called returned
  have kept := plantResult_keeps back
  rw [← plantResult_read called returned] at running
  have cs : (plantResult back).cs = 0x08 := kept.cs.trans (returned.cs.trans called.kept.cs)
  have ds : (plantResult back).ds = ⟨0x10, kernelData⟩ := kept.ds.trans (returned.ds.trans called.kept.ds)
  have es : (plantResult back).es = ⟨0x10, kernelData⟩ := kept.es.trans (returned.es.trans called.kept.es)
  have fs : (plantResult back).fs = ⟨0x10, kernelData⟩ := kept.fs.trans (returned.fs.trans called.kept.fs)
  have gs : (plantResult back).gs = ⟨0x10, kernelData⟩ := kept.gs.trans (returned.gs.trans called.kept.gs)
  have outward : ring (plantResult back).cs < ring user.cs.toUInt32.toUInt16 := by
    rw [cs, UInt16.toUInt16_toUInt32, outside]
    decide
  refine ⟨(plantResult back).memory, ?_⟩
  rw [syscallReturn, testExitRequested_spec stack running outward, ds, es, fs, gs, UInt16.toUInt16_toUInt32,
    UInt16.toUInt16_toUInt32, outside, kernelData_outward]

end Return

/-! The promise to a caller. -/

/-- The arguments that a C function called as `called` finds. -/
structure Receives (called : Machine) (number arg1 arg2 arg3 : UInt32) : Prop where
  number : called.read (called.esp + 4) = number
  arg1 : called.read (called.esp + 8) = arg1
  arg2 : called.read (called.esp + 12) = arg2
  arg3 : called.read (called.esp + 16) = arg3

private theorem Dispatched.receives {image : KernelImage} {machine called : Machine} {frame : List UInt32}
    (dispatched : Dispatched image machine frame called) :
    Receives called machine.eax machine.ebx machine.ecx machine.edx where
  number := dispatched.stack.read 1 (by simp) rfl
  arg1 := dispatched.stack.read 2 (by simp) rfl
  arg2 := dispatched.stack.read 3 (by simp) rfl
  arg3 := dispatched.stack.read 4 (by simp) rfl

/-- `syscall_dispatch` receives the caller's registers, `eax` is its result and every other
general register is as it was. -/
structure KeepsRegisters (user called back after : Machine) : Prop where
  receives : Receives called user.eax user.ebx user.ecx user.edx
  eax : after.eax = back.eax
  ecx : after.ecx = user.ecx
  edx : after.edx = user.edx
  ebx : after.ebx = user.ebx
  esp : after.esp = user.esp
  ebp : after.ebp = user.ebp
  esi : after.esi = user.esi
  edi : after.edi = user.edi

/-- What a caller is promised: its data segments are as they were, too. -/
structure Transparent (user called back after : Machine) : Prop extends KeepsRegisters user called back after where
  ds : after.ds.selector = user.ds.selector
  es : after.es.selector = user.es.selector
  fs : after.fs.selector = user.fs.selector
  gs : after.gs.selector = user.gs.selector

/-- The registers are kept for every caller, the data segments for one that has only null
ones: the kernel's, which the handler has loaded, do not survive the return to ring 3. -/
theorem syscall_transparent_iff (image : KernelImage) (dispatch : Machine → Option Machine) {user back : Machine}
    (outside : ring user.cs = 3) (table : HasKernelData user.memory)
    (dispatches : dispatch (dispatched image user) = some back)
    (returned : CdeclReturn (dispatched image user) back 4 0x1FFF0) (running : back.read image.exitRequested = 0) :
    ∃ after, syscall image dispatch user = some after ∧ KeepsRegisters user (dispatched image user) back after ∧
      (Transparent user (dispatched image user) back after ↔
        user.ds.selector = 0 ∧ user.es.selector = 0 ∧ user.fs.selector = 0 ∧ user.gs.selector = 0) := by
  obtain ⟨memory, result⟩ := syscallReturn_spec outside table returned running
  have receives := (dispatched_spec image table).receives
  have entered := int80_keeps image user
  rw [entered.eax, entered.ebx, entered.ecx, entered.edx] at receives
  have kept : KeepsRegisters user (dispatched image user) back (syscallReturn image back) := by
    rw [result]
    exact ⟨receives, rfl, rfl, rfl, rfl, rfl, rfl, rfl, rfl⟩
  refine ⟨syscallReturn image back, by rw [syscall, dispatches, Option.map_some], kept, ?_⟩
  constructor
  · intro transparent
    rw [result] at transparent
    exact ⟨transparent.ds.symm, transparent.es.symm, transparent.fs.symm, transparent.gs.symm⟩
  · rintro ⟨ds, es, fs, gs⟩
    refine ⟨kept, ?_, ?_, ?_, ?_⟩ <;> rw [result]
    · exact ds.symm
    · exact es.symm
    · exact fs.symm
    · exact gs.symm

def linkedImage : KernelImage where
  syscallHandler := 0x100100
  syscallDispatch := 0x101000
  behindDispatch := 0x100150
  lshLoop := 0x102000
  behindLoop := 0x100180
  exitRequested := 0x110000
  kernelEspSave := 0x110004
  exitRequested_inside := by decide

/-- A caller in the shell's address range that asks for a key; `selector` is in all four
data segment registers. -/
def keyReader (selector : UInt16) : Machine :=
  let memory := gdtInit (fun _ => 0) 0x108000 0x109000
  let segment := Segment.load memory gdtBase selector
  { eax := 2, ecx := 3, edx := 4, ebx := 5, esp := 0xD0000FF0, ebp := 6, esi := 7, edi := 8
    eip := 0xC0000000, eflags := 0x202, cs := 0x23, ss := 0x33
    ds := segment, es := segment, fs := segment, gs := segment, memory := memory }

/-- A key is there; the registers that a C function may clobber are clobbered. -/
def answerKey (machine : Machine) : Machine :=
  { machine with eax := 65, ecx := 0, edx := 0, esp := machine.esp + 4, eip := machine.top }

private theorem answerKey_returns (machine : Machine) : CdeclReturn machine (answerKey machine) 4 0x1FFF0 := by
  constructor <;> intros <;> rfl

/-- The caller's selector 0x2B, which `jump_to_shell` loads, is gone. -/
theorem syscall_drops_user_data :
    let user := keyReader 0x2B
    let called := dispatched linkedImage user
    ring user.cs = 3 ∧ HasKernelData user.memory ∧ CdeclReturn called (answerKey called) 4 0x1FFF0 ∧
      (answerKey called).read linkedImage.exitRequested = 0 ∧
      ∃ after, syscall linkedImage (fun machine => some (answerKey machine)) user = some after ∧
        user.ds.selector = 0x2B ∧ after.ds.selector = 0 ∧ ¬Transparent user called (answerKey called) after := by
  intro user called
  have outside : ring user.cs = 3 := by decide
  have table : HasKernelData user.memory := gdtInit_hasKernelData _ (by decide) _
  have returned : CdeclReturn called (answerKey called) 4 0x1FFF0 := answerKey_returns called
  have running : (answerKey called).read linkedImage.exitRequested = 0 := by decide +kernel
  obtain ⟨memory, result⟩ := syscallReturn_spec outside table returned running
  refine ⟨outside, table, returned, running, _, congrArg some result, rfl, rfl, ?_⟩
  have null : (0 : UInt16) ≠ 0x2B := by decide
  exact fun transparent => null transparent.ds

/-- The second call of the same program finds the null selectors that the first one left. -/
theorem syscall_transparent_second_call :
    let user := keyReader 0
    let called := dispatched linkedImage user
    ∃ after, syscall linkedImage (fun machine => some (answerKey machine)) user = some after ∧
      Transparent user called (answerKey called) after := by
  intro user called
  obtain ⟨after, result, -, kept⟩ := syscall_transparent_iff linkedImage (fun machine => some (answerKey machine))
    (show ring user.cs = 3 by decide) (gdtInit_hasKernelData _ (by decide) _) rfl (answerKey_returns called)
    (by decide +kernel)
  exact ⟨after, result, kept.mpr ⟨rfl, rfl, rfl, rfl⟩⟩

end ShedKernel.Cpu
