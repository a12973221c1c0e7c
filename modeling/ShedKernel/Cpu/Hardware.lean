import ShedKernel.Cpu.IdtProperties
import ShedKernel.Drivers.Keyboard
import ShedKernel.Foundation.Interleaving
import ShedKernel.Foundation.PcPorts

/-! The hardware that `kernel_main` sets up from `idt_init` to `kbd_enable`, and the interrupts
that reach the kernel meanwhile and afterwards. -/

set_option autoImplicit false

namespace ShedKernel.Cpu

open Foundation

/-- `idt` has the gate of each vector once `lidt` was executed. -/
structure Platform where
  ports : PcPorts
  idt : Option (UInt8 → Option InterruptGate)
  interruptFlag : Bool
  jiffies : UInt32
  keyboard : Drivers.KbdDriver

/-- What the code does to the hardware and the drivers. `andPort` reads a port and writes the
byte back with some bits cleared; no handler writes that port in between. -/
inductive HardwareOp where
  | writePort (port : UInt16) (data : UInt8)
  | andPort (port : UInt16) (mask : UInt8)
  | lidt (gates : UInt8 → Option InterruptGate)
  | sti
  | keyboardEnabled (enabled : Bool)

namespace Platform

def exec (platform : Platform) : HardwareOp → Platform
  | .writePort port data => { platform with ports := platform.ports.write port data }
  | .andPort port mask => { platform with ports := platform.ports.write port (platform.ports.read port &&& mask) }
  | .lidt gates => { platform with idt := some gates }
  | .sti => { platform with interruptFlag := true }
  | .keyboardEnabled enabled => { platform with keyboard := { platform.keyboard with enabled } }

end Platform

/-! The code. -/

def loadIdt (gates : UInt8 → Option InterruptGate) : List HardwareOp := [.lidt gates, .sti]

/-- `idt_init` behind the assignments to `IDT`. -/
def idtInitPorts (gates : UInt8 → Option InterruptGate) : List HardwareOp :=
  [.writePort 0x20 0x11, .writePort 0xA0 0x11, .writePort 0x21 0x20, .writePort 0xA1 0x28,
    .writePort 0x21 0x04, .writePort 0xA1 0x02, .writePort 0x21 0x01, .writePort 0xA1 0x01,
    .writePort 0x21 0xFC, .writePort 0xA1 0xFE] ++ loadIdt gates

def pitFreq : Nat := 1193180

def hz : Nat := 100

def pitInit : List HardwareOp :=
  let divisor := UInt16.ofNat (pitFreq / hz)
  [.writePort 0x43 0x36, .writePort 0x40 (divisor &&& 0xFF).toUInt8, .writePort 0x40 (divisor >>> 8).toUInt8]

/-- `kbd_init` on a driver that is not initialised yet. -/
def kbdInit : List HardwareOp := [.writePort 0x21 0xFD, .keyboardEnabled false]

def kbdEnable : List HardwareOp := [.keyboardEnabled true]

/-- `kernel_main` from `idt_init` to `kbd_enable`. -/
def hardwareInit (gates : UInt8 → Option InterruptGate) : List HardwareOp :=
  idtInitPorts gates ++ pitInit ++ [.andPort 0x21 0xFE, .sti] ++ kbdInit ++ kbdEnable

/-! The interrupts. -/

def Platform.sendEoi (platform : Platform) : Platform :=
  { platform with ports := platform.ports.write 0x20 0x20 }

def timerCallback (platform : Platform) : Platform := { platform with jiffies := platform.jiffies + 1 }.sendEoi

def uptime (platform : Platform) : UInt32 := platform.jiffies / UInt32.ofNat hz

/-- The keyboard handler's C function, with the byte that the controller holds, if any. -/
def kbdHandler (platform : Platform) (held : Option UInt8) : Platform :=
  { platform.sendEoi with keyboard := Drivers.kbdHandlerMain platform.keyboard held }

/-- The handler at the gate's offset. Both run with interrupts off, so nothing comes between. -/
def runHandler (image : HandlerImage) (platform : Platform) (held : Option UInt8) (gate : InterruptGate) :
    Option Platform :=
  if gate.offset = image.timerHandler then some (timerCallback platform)
  else if gate.offset = image.kbdHandler then some (kbdHandler platform held)
  else none

inductive Interruption where
  | none
  | handled (next : Platform)
  | unhandled (vector : UInt8)

/-- The processor between two instructions. -/
def Platform.interruption (image : HandlerImage) (platform : Platform) (held : Option UInt8) : Interruption :=
  if platform.interruptFlag then
    match platform.ports.deliver with
    | none => .none
    | some (vector, ports) =>
        match (platform.idt.bind fun gates => gates vector).bind
            (runHandler image { platform with ports } held) with
        | some next => .handled next
        | none => .unhandled vector
  else .none

inductive DeviceEvent where
  | raise (line : Nat)
  | interrupt (held : Option UInt8)

/-- A device raises its line, or the processor takes an interrupt and runs its handler. -/
def DeviceStep (image : HandlerImage) (platform : Platform) (event : DeviceEvent) (next : Platform) : Prop :=
  match event with
  | .raise line => next = { platform with ports := platform.ports.raise line }
  | .interrupt held => platform.interruption image held = .handled next

/-- Instructions of the kernel, with device events between any two of them. -/
def HardwareTurn (image : HandlerImage) :
    Configuration Platform HardwareOp → Option DeviceEvent → Configuration Platform HardwareOp → Prop :=
  Turn Platform.exec (DeviceStep image)

end ShedKernel.Cpu
