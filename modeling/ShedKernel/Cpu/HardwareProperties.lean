import ShedKernel.Cpu.Hardware

/-! Which interrupts reach the kernel, whenever the devices raise their lines. -/

set_option autoImplicit false

namespace ShedKernel.Cpu

open Foundation

/-! What the code sets and interrupts leave alone. -/

structure PlatformSettings where
  ports : PortSettings
  idt : Option (UInt8 → Option InterruptGate)
  interruptFlag : Bool

def PlatformSettings.exec (settings : PlatformSettings) : HardwareOp → PlatformSettings
  | .writePort port data => { settings with ports := settings.ports.write port data }
  | .andPort port mask => { settings with ports := settings.ports.write port (settings.ports.read port &&& mask) }
  | .lidt gates => { settings with idt := some gates }
  | .sti => { settings with interruptFlag := true }
  | .keyboardEnabled _ => settings

def Platform.settings (platform : Platform) : PlatformSettings :=
  ⟨platform.ports.settings, platform.idt, platform.interruptFlag⟩

private theorem Platform.settings_exec (platform : Platform) (op : HardwareOp) :
    (platform.exec op).settings = platform.settings.exec op := by
  cases op with
  | writePort port data =>
      rw [exec, Platform.settings, PcPorts.settings_write]
      rfl
  | andPort port mask =>
      rw [exec, Platform.settings, PcPorts.settings_write]
      rfl
  | lidt gates => rfl
  | sti => rfl
  | keyboardEnabled enabled => rfl

private theorem Platform.settings_sendEoi (platform : Platform) : platform.sendEoi.settings = platform.settings := by
  rw [sendEoi, Platform.settings, PcPorts.settings_write]
  rfl

private theorem runHandler_settings {image : HandlerImage} {platform next : Platform} {held : Option UInt8}
    {gate : InterruptGate} (handled : runHandler image platform held gate = some next) :
    next.settings = platform.settings := by
  unfold runHandler at handled
  split at handled
  · cases handled
    exact Platform.settings_sendEoi _
  · split at handled
    · cases handled
      exact platform.settings_sendEoi
    · cases handled

/-- An interrupt that is handled went through the gate of its vector. -/
theorem Platform.interruption_handled {image : HandlerImage} {platform next : Platform} {held : Option UInt8}
    (handled : platform.interruption image held = .handled next) :
    platform.interruptFlag = true ∧ ∃ vector ports gates gate, platform.ports.deliver = some (vector, ports) ∧
      platform.idt = some gates ∧ gates vector = some gate ∧
      runHandler image { platform with ports } held gate = some next := by
  unfold interruption at handled
  by_cases flag : platform.interruptFlag = true
  · rw [if_pos flag] at handled
    cases delivered : platform.ports.deliver with
    | none =>
        rw [delivered] at handled
        cases handled
    | some delivery =>
        obtain ⟨vector, ports⟩ := delivery
        rw [delivered] at handled
        dsimp only at handled
        cases ran : (platform.idt.bind fun gates => gates vector).bind
            (runHandler image { platform with ports } held) with
        | none =>
            rw [ran] at handled
            cases handled
        | some after =>
            rw [ran] at handled
            cases handled
            obtain ⟨gate, found, ran⟩ := Option.bind_eq_some_iff.mp ran
            obtain ⟨gates, loaded, found⟩ := Option.bind_eq_some_iff.mp found
            exact ⟨flag, vector, ports, gates, gate, rfl, loaded, found, ran⟩
  · rw [if_neg flag] at handled
    cases handled

theorem DeviceStep.settings {image : HandlerImage} {platform next : Platform} {event : DeviceEvent}
    (step : DeviceStep image platform event next) : next.settings = platform.settings := by
  cases event with
  | raise line =>
      cases step
      exact congrArg (PlatformSettings.mk · platform.idt platform.interruptFlag) (platform.ports.settings_raise line)
  | interrupt held =>
      obtain ⟨-, vector, ports, gates, gate, delivered, -, -, ran⟩ := Platform.interruption_handled step
      have kept := PcPorts.settings_deliver delivered
      rw [runHandler_settings ran]
      exact congrArg (PlatformSettings.mk · platform.idt platform.interruptFlag) kept

/-! The settings of the kernel's program. -/

/-- The processor's interrupts are off, or the first controller lets nothing through but its
lines 0 and 1 and the table is the kernel's. -/
structure Guarded (gates : UInt8 → Option InterruptGate) (settings : PlatformSettings) : Prop where
  idt : settings.idt = some gates
  vectorBase : settings.ports.master.vectorBase = 0x20
  dataPort : settings.ports.master.dataPort = .mask
  masked : ∀ line, 2 ≤ line → line < 8 → settings.ports.master.Masked line = true

section

variable {gates : UInt8 → Option InterruptGate} {settings : PlatformSettings}

/-- Writes to the first controller that keep its lines from 2 on masked. -/
theorem Guarded.setMask (guarded : Guarded gates settings) {mask : UInt8}
    (high : ∀ line, 2 ≤ line → line < 8 → mask.toNat.testBit line = true) :
    Guarded gates { settings with ports := settings.ports.write 0x21 mask } := by
  have written : settings.ports.write 0x21 mask =
      { settings.ports with master := { settings.ports.master with mask := mask } } := by
    show { settings.ports with master := settings.ports.master.data mask } = _
    rw [ControllerSettings.data_of_ready guarded.dataPort]
  rw [written]
  exact ⟨guarded.idt, guarded.vectorBase, guarded.dataPort, high⟩

private theorem testBit_high {line : Nat} (low : 2 ≤ line) (high : line < 8) : Nat.testBit 0xFC line = true := by
  have all : ∀ line : Fin 8, 2 ≤ line.val → Nat.testBit 0xFC line = true := by decide
  exact all ⟨line, high⟩ low

end

/-- The code before the first `sti`. -/
def beforeSti (gates : UInt8 → Option InterruptGate) : List HardwareOp := (idtInitPorts gates).dropLast

/-- The code from the first `sti` on. -/
def fromSti : List HardwareOp := .sti :: pitInit ++ [.andPort 0x21 0xFE, .sti] ++ kbdInit ++ kbdEnable

private theorem hardwareInit_split (gates : UInt8 → Option InterruptGate) :
    hardwareInit gates = beforeSti gates ++ fromSti := rfl

private theorem beforeSti_guarded (gates : UInt8 → Option InterruptGate) (settings : PlatformSettings) :
    Guarded gates ((beforeSti gates).foldl PlatformSettings.exec settings) :=
  ⟨rfl, rfl, rfl, fun _ low high => testBit_high low high⟩

theorem Guarded.exec {gates : UInt8 → Option InterruptGate} {settings : PlatformSettings}
    (guarded : Guarded gates settings) {op : HardwareOp} (member : op ∈ fromSti) :
    Guarded gates (settings.exec op) := by
  simp only [fromSti, pitInit, kbdInit, kbdEnable, List.cons_append, List.nil_append, List.mem_cons, List.not_mem_nil, or_false] at member
  rcases member with rfl | rfl | rfl | rfl | rfl | rfl | rfl | rfl | rfl
  · exact ⟨guarded.idt, guarded.vectorBase, guarded.dataPort, guarded.masked⟩
  · exact ⟨guarded.idt, guarded.vectorBase, guarded.dataPort, guarded.masked⟩
  · exact ⟨guarded.idt, guarded.vectorBase, guarded.dataPort, guarded.masked⟩
  · exact ⟨guarded.idt, guarded.vectorBase, guarded.dataPort, guarded.masked⟩
  · refine guarded.setMask fun line low high => ?_
    have kept : Nat.testBit 0xFE line = true := by
      have all : ∀ line : Fin 8, 2 ≤ line.val → Nat.testBit 0xFE line = true := by decide
      exact all ⟨line, high⟩ low
    have masked : (settings.ports.read 0x21).toNat.testBit line = true := guarded.masked line low high
    rw [UInt8.toNat_and, Nat.testBit_and, masked]
    exact kept
  · exact ⟨guarded.idt, guarded.vectorBase, guarded.dataPort, guarded.masked⟩
  · refine guarded.setMask fun line low high => ?_
    have all : ∀ line : Fin 8, 2 ≤ line.val → Nat.testBit 0xFD line = true := by decide
    exact all ⟨line, high⟩ low
  · exact guarded
  · exact guarded

private theorem Guarded.execAll
    {gates : UInt8 → Option InterruptGate} {ops : List HardwareOp} {settings : PlatformSettings}
    (guarded : Guarded gates settings) (within : ∀ op ∈ ops, op ∈ fromSti) :
    Guarded gates (ops.foldl PlatformSettings.exec settings) := by
  induction ops generalizing settings with
  | nil => exact guarded
  | cons op ops ih =>
      exact ih (guarded.exec (within op List.mem_cons_self)) fun later member =>
        within later (List.mem_cons_of_mem op member)

/-- Only `sti` opens the interrupts. -/
theorem interruptFlag_execAll {ops : List HardwareOp} {settings : PlatformSettings} (closed : .sti ∉ ops)
    (off : settings.interruptFlag = false) : (ops.foldl PlatformSettings.exec settings).interruptFlag = false := by
  induction ops generalizing settings with
  | nil => exact off
  | cons op ops ih =>
      refine ih (fun member => closed (List.mem_cons_of_mem op member)) ?_
      cases op with
      | sti => exact absurd List.mem_cons_self closed
      | writePort port data => exact off
      | andPort port mask => exact off
      | lidt gates => exact off
      | keyboardEnabled enabled => exact off

/-- However far the code got, open interrupts are guarded. -/
theorem executed_guarded {gates : UInt8 → Option InterruptGate} {executed left : List HardwareOp}
    {settings : PlatformSettings} (split : hardwareInit gates = executed ++ left)
    (off : settings.interruptFlag = false)
    (opened : (executed.foldl PlatformSettings.exec settings).interruptFlag = true) :
    Guarded gates (executed.foldl PlatformSettings.exec settings) := by
  rw [hardwareInit_split] at split
  rcases List.append_eq_append_iff.mp split with ⟨part, rfl, rest⟩ | ⟨part, early, -⟩
  · rw [List.foldl_append]
    refine (beforeSti_guarded gates settings).execAll fun op member => ?_
    rw [rest]
    exact List.mem_append_left left member
  · have closed : .sti ∉ executed := by
      intro member
      have before : .sti ∈ beforeSti gates := by
        rw [early]
        exact List.mem_append_left part member
      simp [beforeSti, idtInitPorts, loadIdt] at before
    rw [interruptFlag_execAll closed off] at opened
    cases opened

/-! Every interrupt ends. -/

/-- No interrupt is in service. -/
structure Idle (platform : Platform) : Prop where
  master : ∀ line, platform.ports.master.inService line = false
  slave : ∀ line, platform.ports.slave.inService line = false

theorem Idle.write {platform : Platform} (idle : Idle platform) (port : UInt16) (data : UInt8) :
    Idle { platform with ports := platform.ports.write port data } := by
  unfold PcPorts.write
  split
  · exact ⟨Controller.idle_command idle.master data, idle.slave⟩
  split
  · exact ⟨idle.master, idle.slave⟩
  split
  · exact ⟨idle.master, Controller.idle_command idle.slave data⟩
  split
  · exact ⟨idle.master, idle.slave⟩
  split
  · exact ⟨idle.master, idle.slave⟩
  split
  · exact ⟨idle.master, idle.slave⟩
  · exact idle

theorem Idle.exec {platform : Platform} (idle : Idle platform) (op : HardwareOp) : Idle (platform.exec op) := by
  cases op with
  | writePort port data => exact idle.write port data
  | andPort port mask => exact idle.write port _
  | lidt gates => exact ⟨idle.master, idle.slave⟩
  | sti => exact ⟨idle.master, idle.slave⟩
  | keyboardEnabled enabled => exact ⟨idle.master, idle.slave⟩

section

variable {image : HandlerImage} {platform next : Platform} {held : Option UInt8}

private theorem sendEoi_idle {line : Nat} (idle : Idle platform) (inside : line < 8) :
    Idle (Platform.sendEoi
      { platform with ports := { platform.ports with master := platform.ports.master.acknowledge line } }) :=
  ⟨Controller.endOfInterrupt_acknowledge idle.master inside, idle.slave⟩

/-- The two lines that are not masked from the start have a handler each. -/
theorem runHandler_gates {gate : InterruptGate} {line : Nat} (low : line < 2)
    (found : gates image (0x20 + UInt8.ofNat line) = some gate) :
    (line = 0 ∧ runHandler image platform held gate = some (timerCallback platform)) ∨
      (line = 1 ∧ runHandler image platform held gate = some (kbdHandler platform held)) := by
  have which : line = 0 ∨ line = 1 := by omega
  rcases which with rfl | rfl
  · have timer : timerGate image = gate := Option.some.inj found
    subst timer
    exact .inl ⟨rfl, if_pos rfl⟩
  · have keyboard : keyboardGate image = gate := Option.some.inj found
    subst keyboard
    exact .inr ⟨rfl, (if_neg image.handlers_apart).trans (if_pos rfl)⟩

/-- What the processor takes while only lines 0 and 1 can get through. -/
theorem Guarded.delivered (guarded : Guarded (gates image) platform.settings) {vector : UInt8} {ports : PcPorts}
    (delivered : platform.ports.deliver = some (vector, ports)) :
    ∃ line, line < 2 ∧ platform.ports.master.Masked line = false ∧ vector = 0x20 + UInt8.ofNat line ∧
      ports = { platform.ports with master := platform.ports.master.acknowledge line } := by
  obtain ⟨line, inside, clear, named, after⟩ :=
    PcPorts.deliver_spec (guarded.masked 2 (by decide) (by decide)) delivered
  refine ⟨line, ?_, clear, ?_, after⟩
  · refine Nat.lt_of_not_le fun high => ?_
    have masked : platform.ports.master.Masked line = true := guarded.masked line high inside
    rw [clear] at masked
    cases masked
  · have base : platform.ports.master.vectorBase = 0x20 := guarded.vectorBase
    rw [named, Controller.vector, base]

theorem Guarded.handled (guarded : Guarded (gates image) platform.settings) {vector : UInt8} {ports : PcPorts}
    (delivered : platform.ports.deliver = some (vector, ports)) (flag : platform.interruptFlag = true)
    (held : Option UInt8) :
    ∃ next, platform.interruption image held = .handled next ∧
      (Idle platform → Idle next) ∧
      (platform.ports.master.Masked 0 = true → next = kbdHandler { platform with ports } held) := by
  obtain ⟨line, low, clear, rfl, rfl⟩ := guarded.delivered delivered
  have loaded : platform.idt = some (gates image) := guarded.idt
  have found : ∃ gate, gates image (0x20 + UInt8.ofNat line) = some gate := by
    have which : line = 0 ∨ line = 1 := by omega
    rcases which with rfl | rfl
    · exact ⟨_, rfl⟩
    · exact ⟨_, rfl⟩
  obtain ⟨gate, found⟩ := found
  have opened : (platform.idt.bind fun gates => gates (0x20 + UInt8.ofNat line)) = some gate := by
    rw [loaded]
    exact found
  have taken : ∀ next, runHandler image
      { platform with ports := { platform.ports with master := platform.ports.master.acknowledge line } } held gate =
        some next → platform.interruption image held = .handled next := by
    intro next ran
    rw [Platform.interruption, if_pos flag, delivered]
    dsimp only
    rw [opened, Option.bind_some, ran]
  rcases @runHandler_gates image
    { platform with ports := { platform.ports with master := platform.ports.master.acknowledge line } } held gate line
    low found with ⟨rfl, ran⟩ | ⟨rfl, ran⟩
  · refine ⟨_, taken _ ran, fun idle => ?_, fun masked => ?_⟩
    · have ended := sendEoi_idle idle (show 0 < 8 by decide)
      exact ⟨ended.master, ended.slave⟩
    · rw [clear] at masked
      cases masked
  · refine ⟨_, taken _ ran, fun idle => ?_, fun _ => rfl⟩
    have ended := sendEoi_idle idle (show 1 < 8 by decide)
    exact ⟨ended.master, ended.slave⟩

private theorem runHandler_ports {gate : InterruptGate} (ran : runHandler image platform held gate = some next) :
    next.ports = platform.ports.write 0x20 0x20 := by
  unfold runHandler at ran
  split at ran
  · cases ran
    rfl
  · split at ran
    · cases ran
      rfl
    · cases ran

/-- The processor takes the interrupt of the line: its vector goes out and its handler runs and
ends it. Its request is gone, and the others are kept. -/
structure Served (image : HandlerImage) (platform : Platform) (held : Option UInt8) (line : Nat) (next : Platform) :
    Prop where
  vector : ∃ ports, platform.ports.deliver = some (0x20 + UInt8.ofNat line, ports)
  handled : platform.interruption image held = .handled next
  idle : Idle next
  requests : ∀ other, next.ports.master.requested other = (platform.ports.master.requested other && other != line)

/-- With nothing in service, the line that goes out is served. -/
theorem Guarded.served (guarded : Guarded (gates image) platform.settings) {line : Nat} (idle : Idle platform)
    (pending : platform.ports.wired.pending = some line) (flag : platform.interruptFlag = true) (held : Option UInt8) :
    ∃ next, Served image platform held line next := by
  have delivered := PcPorts.deliver_of_pending (guarded.masked 2 (by decide) (by decide)) pending
  have base : platform.ports.master.vectorBase = 0x20 := guarded.vectorBase
  rw [Controller.vector, base] at delivered
  obtain ⟨next, handled, idleAfter, -⟩ := guarded.handled delivered flag held
  refine ⟨next, ⟨_, delivered⟩, handled, idleAfter idle, fun other => ?_⟩
  obtain ⟨-, vector, ports, gates, gate, again, -, -, ran⟩ := Platform.interruption_handled handled
  obtain ⟨-, rfl⟩ := Prod.mk.inj (Option.some.inj (delivered.symm.trans again))
  rw [runHandler_ports ran]
  exact congrFun (Controller.requested_endOfInterrupt _) other

theorem DeviceStep.idle {event : DeviceEvent} (step : DeviceStep image platform event next)
    (guarded : platform.interruptFlag = true → Guarded (gates image) platform.settings) (idle : Idle platform) :
    Idle next := by
  cases event with
  | raise line =>
      cases step
      show Idle { platform with ports := platform.ports.raise line }
      unfold PcPorts.raise
      split
      · exact ⟨idle.master, idle.slave⟩
      · exact ⟨idle.master, idle.slave⟩
  | interrupt held =>
      have taken : platform.interruption image held = .handled next := step
      obtain ⟨flag, vector, ports, -, -, delivered, -⟩ := Platform.interruption_handled taken
      obtain ⟨after, handled, ended, -⟩ := (guarded flag).handled delivered flag held
      rw [handled] at taken
      cases taken
      exact ended idle

section

variable {start : Platform} {events : List (Option DeviceEvent)} {final : Configuration Platform HardwareOp}

private theorem hardwareRun_settings (run : Run (HardwareTurn image) ⟨hardwareInit (gates image), start⟩ events final) :
    ∃ executed, hardwareInit (gates image) = executed ++ final.left ∧
      final.state.settings = executed.foldl PlatformSettings.exec start.settings :=
  Run.view Platform.settings PlatformSettings.exec Platform.settings_exec (fun _ _ _ step => step.settings) run

private theorem hardwareRun_guarded (run : Run (HardwareTurn image) ⟨hardwareInit (gates image), start⟩ events final)
    (off : start.interruptFlag = false) (flag : final.state.interruptFlag = true) :
    Guarded (gates image) final.state.settings := by
  obtain ⟨executed, split, same⟩ := hardwareRun_settings run
  have opened : final.state.settings.interruptFlag = true := flag
  rw [same] at opened ⊢
  exact executed_guarded split off opened

private theorem hardwareRun_idle (run : Run (HardwareTurn image) ⟨hardwareInit (gates image), start⟩ events final)
    (off : start.interruptFlag = false) (idle : Idle start) : Idle final.state := by
  induction run with
  | nil => exact idle
  | snoc first turn ih =>
      cases turn with
      | program op left state => exact ih.exec op
      | around left step => exact step.idle (hardwareRun_guarded first off) ih

/-- The whole set-up: `kbd_init` masks all lines but the keyboard's, the timer's among them. -/
structure TimerOff (gates : UInt8 → Option InterruptGate) (settings : PlatformSettings) : Prop where
  guarded : Guarded gates settings
  mask : settings.ports.master.mask = 0xFD
  reload : settings.ports.timer.reload = pitFreq / hz

private theorem hardwareInit_timerOff (gates : UInt8 → Option InterruptGate) (settings : PlatformSettings) :
    TimerOff gates ((hardwareInit gates).foldl PlatformSettings.exec settings) where
  guarded := by
    rw [hardwareInit_split, List.foldl_append]
    exact (beforeSti_guarded gates settings).execAll fun _ member => member
  mask := rfl
  reload := by
    have divisor : (UInt16.ofNat (pitFreq / hz) &&& 0xFF).toUInt8.toNat +
        256 * (UInt16.ofNat (pitFreq / hz) >>> 8).toUInt8.toNat = pitFreq / hz := by decide
    exact divisor

theorem TimerOff.masked {gates : UInt8 → Option InterruptGate} {settings : PlatformSettings}
    (timerOff : TimerOff gates settings) {line : Nat}
    (clear : settings.ports.master.Masked line = false) (inside : line < 8) : line = 1 := by
  have all : ∀ line : Fin 8, Nat.testBit 0xFD line.val = false → line.val = 1 := by decide
  rw [ControllerSettings.Masked, timerOff.mask] at clear
  exact all ⟨line, inside⟩ clear

end

end

private theorem idtInit_table
    (image : HandlerImage) {memory : Memory} {idtPtr : Nat} (clear : ClearIdt image memory idtPtr) :
    (TableRegister.decode (idtInit image memory idtPtr) idtPtr).gate (idtInit image memory idtPtr) = gates image := by
  have register : TableRegister.decode (idtInit image memory idtPtr) idtPtr = ⟨0x800, image.idt.toNat⟩ :=
    fillIdtPtr_register image _
  rw [register]
  exact funext (idtInit_gates image clear)

/-- From the first instruction of the hardware set-up on, whatever the devices do and whenever:
the processor never meets an interrupt without a handler, every handler ends the interrupt it
serves, and as long as a line is requested and not masked, what is taken with interrupts on is
the first such line. -/
theorem hardware_interrupts_handled (image : HandlerImage) (memory : Memory) (idtPtr : Nat)
    (clear : ClearIdt image memory idtPtr) (start : Platform) (off : start.interruptFlag = false) (idle : Idle start)
    (events : List (Option DeviceEvent)) (final : Configuration Platform HardwareOp)
    (run : Run (HardwareTurn image)
      ⟨hardwareInit ((TableRegister.decode (idtInit image memory idtPtr) idtPtr).gate (idtInit image memory idtPtr)),
        start⟩ events final) :
    (∀ held vector, final.state.interruption image held ≠ .unhandled vector) ∧ Idle final.state ∧
      ∀ line held, line < 8 → line ≠ 2 → final.state.interruptFlag = true →
        final.state.ports.master.requested line = true → final.state.ports.master.Masked line = false →
        ∃ first next, first ≤ line ∧ final.state.ports.master.First first ∧
          Served image final.state held first next := by
  rw [idtInit_table image clear] at run
  have guarded := hardwareRun_guarded run off
  have ended := hardwareRun_idle run off idle
  refine ⟨fun held vector unhandled => ?_, ended, fun line held inside notWire flag requested clear => ?_⟩
  · unfold Platform.interruption at unhandled
    by_cases flag : final.state.interruptFlag = true
    · cases delivered : final.state.ports.deliver with
      | none =>
          rw [if_pos flag, delivered] at unhandled
          cases unhandled
      | some delivery =>
          obtain ⟨next, handled, -⟩ := (guarded flag).handled delivered flag held
          rw [Platform.interruption] at handled
          rw [handled] at unhandled
          cases unhandled
    · rw [if_neg flag] at unhandled
      cases unhandled
  · have wired : final.state.ports.wired.requested line = true := (if_neg notWire).trans requested
    have wireMasked : final.state.ports.master.Masked 2 = true :=
      (guarded flag).masked 2 (by decide) (by decide)
    obtain ⟨first, upTo, isFirst, pending⟩ :=
      @Controller.pending_of_idle final.state.ports.wired line ended.master inside wired clear
    obtain ⟨next, served⟩ := (guarded flag).served ended pending flag held
    have ownRequest := fun other (notTwo : other ≠ 2) =>
      (if_neg notTwo : final.state.ports.wired.requested other = final.state.ports.master.requested other)
    refine ⟨first, next, upTo, ⟨?_, isFirst.clear, fun other below asked => ?_⟩, served⟩
    · rw [← ownRequest first fun two => ?_]
      · exact isFirst.requested
      · have through : final.state.ports.master.Masked first = false := isFirst.clear
        rw [two, wireMasked] at through
        cases through
    · by_cases two : other = 2
      · rw [two]
        exact wireMasked
      · exact isFirst.before other below ((ownRequest other two).trans asked)

/-- A machine that was just switched on, its controllers as they come. -/
def coldPlatform : Platform where
  ports := ⟨⟨⟨.mask, false, false, 0x08, 0, 0xB8⟩, fun _ => false, fun _ => false⟩,
    ⟨⟨.mask, false, false, 0x70, 0, 0x8F⟩, fun _ => false, fun _ => false⟩, ⟨false, 0, 0⟩⟩
  idt := none
  interruptFlag := false
  jiffies := 0
  keyboard := Drivers.bootKeyboard.driver

def coldProgram : List HardwareOp :=
  hardwareInit ((TableRegister.decode (idtInit linkedHandlers (fun _ => 0) 0x8FF00) 0x8FF00).gate
    (idtInit linkedHandlers (fun _ => 0) 0x8FF00))

/-- The machine after the set-up, when a device then raises its line. -/
theorem coldRun_raised (line : Nat) :
    let ready := coldProgram.foldl Platform.exec coldPlatform
    Run (HardwareTurn linkedHandlers) ⟨[], ready⟩ [some (.raise line)]
      ⟨[], { ready with ports := ready.ports.raise line }⟩ :=
  .single (.around [] rfl)

private theorem coldRun_ready : Run (HardwareTurn linkedHandlers) ⟨coldProgram, coldPlatform⟩
    (List.replicate coldProgram.length none) ⟨[], coldProgram.foldl Platform.exec coldPlatform⟩ := by
  have alone := Run.alone Platform.exec (DeviceStep linkedHandlers) coldProgram [] coldPlatform
  rw [List.append_nil] at alone
  exact alone

theorem hardware_interrupts_handled_key : ∃ events ready,
    Run (HardwareTurn linkedHandlers) ⟨coldProgram, coldPlatform⟩ events ⟨[], ready⟩ ∧
      ∃ first next, first ≤ 1 ∧ ready.ports.master.First first ∧
        Served linkedHandlers ready (some 0x1E) first next := by
  refine ⟨_, _, coldRun_ready.append (coldRun_raised 1), ?_⟩
  have checked := hardware_interrupts_handled linkedHandlers (fun _ => 0) 0x8FF00 linkedHandlers_clear coldPlatform rfl
    ⟨fun _ => rfl, fun _ => rfl⟩ _ _ (coldRun_ready.append (coldRun_raised 1))
  exact checked.2.2 1 (some 0x1E) (by decide) (by decide) rfl rfl rfl

/-- Once the set-up is over, `kbd_init` has masked the timer again: whatever the devices do, no
timer interrupt is taken and `uptime` stands still. -/
theorem timer_stands_still (image : HandlerImage) (memory : Memory) (idtPtr : Nat)
    (clear : ClearIdt image memory idtPtr) (start ready : Platform)
    (events later : List (Option DeviceEvent)) (final : Configuration Platform HardwareOp)
    (booted : Run (HardwareTurn image)
      ⟨hardwareInit ((TableRegister.decode (idtInit image memory idtPtr) idtPtr).gate (idtInit image memory idtPtr)),
        start⟩ events ⟨[], ready⟩)
    (run : Run (HardwareTurn image) ⟨[], ready⟩ later final) :
    final.state.jiffies = ready.jiffies ∧ uptime final.state = uptime ready ∧
      (∀ line, line < 8 → final.state.ports.master.Masked line = false → line = 1) ∧
      final.state.ports.timer.reload = pitFreq / hz := by
  rw [idtInit_table image clear] at booted
  obtain ⟨executed, whole, same⟩ := hardwareRun_settings booted
  rw [List.append_nil] at whole
  have reached : TimerOff (gates image) ready.settings := by
    have settled := hardwareInit_timerOff (gates image) start.settings
    rw [whole, ← same] at settled
    exact settled
  have kept : ∀ {actions current}, Run (HardwareTurn image) ⟨[], ready⟩ actions current →
      current.state.settings = ready.settings := by
    intro actions current passed
    obtain ⟨executed, split, same⟩ := Run.view Platform.settings PlatformSettings.exec Platform.settings_exec
      (fun _ _ _ step => step.settings) passed
    have none : executed = [] := (List.append_eq_nil_iff.mp split.symm).1
    rw [none] at same
    exact same
  have stands : final.state.jiffies = ready.jiffies := by
    clear same
    induction run with
    | nil => rfl
    | snoc first turn ih =>
        have settled := kept first
        cases turn with
        | program op left state =>
            obtain ⟨executed, split⟩ := first.executed
            cases (List.append_eq_nil_iff.mp split.symm).2
        | @around left state next event step =>
            refine Eq.trans ?_ ih
            cases event with
            | raise line =>
                cases step
                rfl
            | interrupt held =>
                have taken : state.interruption image held = .handled next := step
                obtain ⟨flag, vector, ports, -, -, delivered, -⟩ := Platform.interruption_handled taken
                have guarded : Guarded (gates image) state.settings := by
                  rw [settled]
                  exact reached.guarded
                have masked : state.ports.master.mask = 0xFD := by
                  have mask := reached.mask
                  rw [← settled] at mask
                  exact mask
                obtain ⟨after, handled, -, keyboard⟩ := guarded.handled delivered flag held
                rw [handled] at taken
                cases taken
                rw [keyboard (by rw [ControllerSettings.Masked, masked]; rfl)]
                rfl
  have settled := kept run
  refine ⟨stands, ?_, fun line inside clear => ?_, ?_⟩
  · rw [uptime, uptime, stands]
  · have off : TimerOff (gates image) final.state.settings := by rw [settled]; exact reached
    exact off.masked clear inside
  · have off : TimerOff (gates image) final.state.settings := by rw [settled]; exact reached
    exact off.reload

theorem timer_stands_still_raised : ∃ ready,
    Run (HardwareTurn linkedHandlers) ⟨coldProgram, coldPlatform⟩ (List.replicate coldProgram.length none)
      ⟨[], ready⟩ ∧ (ready.ports.raise 0).master.requested 0 = true ∧
      uptime { ready with ports := ready.ports.raise 0 } = uptime ready := by
  refine ⟨_, coldRun_ready, rfl, ?_⟩
  exact (timer_stands_still linkedHandlers (fun _ => 0) 0x8FF00 linkedHandlers_clear coldPlatform _ _ _ _ coldRun_ready
    (coldRun_raised 0)).2.1

end ShedKernel.Cpu
