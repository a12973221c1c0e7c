import ShedKernel.Foundation.InterruptController

/-! Devices of a PC behind its ports: the pair of interrupt controllers, the second one wired
to line 2 of the first, and channel 0 of the interval timer. -/

set_option autoImplicit false

namespace ShedKernel.Foundation

/-- Channel 0, of which the access through both bytes is modelled. -/
structure IntervalTimer where
  highNext : Bool
  low : UInt8
  reload : Nat

namespace IntervalTimer

def control (timer : IntervalTimer) (data : UInt8) : IntervalTimer :=
  if data.toNat / 16 = 3 then { timer with highNext := false } else timer

def data (timer : IntervalTimer) (data : UInt8) : IntervalTimer :=
  if timer.highNext then { timer with highNext := false, reload := timer.low.toNat + 256 * data.toNat }
  else { timer with highNext := true, low := data }

end IntervalTimer

structure PcPorts where
  master : Controller
  slave : Controller
  timer : IntervalTimer

/-- What programs set and interrupts leave alone. -/
structure PortSettings where
  master : ControllerSettings
  slave : ControllerSettings
  timer : IntervalTimer

namespace PortSettings

def write (settings : PortSettings) (port : UInt16) (data : UInt8) : PortSettings :=
  if port = 0x20 then { settings with master := settings.master.command data }
  else if port = 0x21 then { settings with master := settings.master.data data }
  else if port = 0xA0 then { settings with slave := settings.slave.command data }
  else if port = 0xA1 then { settings with slave := settings.slave.data data }
  else if port = 0x40 then { settings with timer := settings.timer.data data }
  else if port = 0x43 then { settings with timer := settings.timer.control data }
  else settings

/-- Of these devices only the masks can be read. -/
def read (settings : PortSettings) (port : UInt16) : UInt8 :=
  if port = 0x21 then settings.master.mask else if port = 0xA1 then settings.slave.mask else 0xFF

end PortSettings

namespace PcPorts

def settings (ports : PcPorts) : PortSettings :=
  ⟨ports.master.toControllerSettings, ports.slave.toControllerSettings, ports.timer⟩

def write (ports : PcPorts) (port : UInt16) (data : UInt8) : PcPorts :=
  if port = 0x20 then { ports with master := ports.master.command data }
  else if port = 0x21 then { ports with master := ports.master.data data }
  else if port = 0xA0 then { ports with slave := ports.slave.command data }
  else if port = 0xA1 then { ports with slave := ports.slave.data data }
  else if port = 0x40 then { ports with timer := ports.timer.data data }
  else if port = 0x43 then { ports with timer := ports.timer.control data }
  else ports

def read (ports : PcPorts) (port : UInt16) : UInt8 := ports.settings.read port

/-- A device raises one of the lines 0 to 15. -/
def raise (ports : PcPorts) (line : Nat) : PcPorts :=
  if line < 8 then { ports with master := ports.master.raise line }
  else { ports with slave := ports.slave.raise (line - 8) }

/-- The first controller, with the wire from the second. -/
def wired (ports : PcPorts) : Controller :=
  { ports.master with
    requested := fun line => if line = 2 then ports.slave.pending.isSome else ports.master.requested line }

/-- The vector that the processor gets, and the devices after it took the interrupt. -/
def deliver (ports : PcPorts) : Option (UInt8 × PcPorts) :=
  match ports.wired.pending with
  | none => none
  | some line =>
      if line = 2 then
        ports.slave.pending.map fun inner =>
          (ports.slave.vector inner,
            { ports with master := ports.master.acknowledge 2, slave := ports.slave.acknowledge inner })
      else some (ports.master.vector line, { ports with master := ports.master.acknowledge line })

theorem settings_write (ports : PcPorts) (port : UInt16) (data : UInt8) :
    (ports.write port data).settings = ports.settings.write port data := by
  unfold write PortSettings.write
  split
  · simp [settings]
  · repeat (split; · simp [settings])
    rfl

theorem settings_raise (ports : PcPorts) (line : Nat) : (ports.raise line).settings = ports.settings := by
  unfold raise
  split <;> rfl

theorem settings_deliver {ports after : PcPorts} {vector : UInt8} (delivered : ports.deliver = some (vector, after)) :
    after.settings = ports.settings := by
  unfold deliver at delivered
  cases pending : ports.wired.pending with
  | none =>
      rw [pending] at delivered
      cases delivered
  | some line =>
      rw [pending] at delivered
      dsimp only at delivered
      by_cases wire : line = 2
      · rw [if_pos wire] at delivered
        obtain ⟨inner, -, same⟩ := Option.map_eq_some_iff.mp delivered
        cases same
        rfl
      · rw [if_neg wire] at delivered
        cases delivered
        rfl

/-- Only what is not masked at the first controller gets through; it is the vector of that line
unless the line is the wire from the second one. -/
theorem deliver_spec {ports after : PcPorts} {vector : UInt8} (wire : ports.master.Masked 2 = true)
    (delivered : ports.deliver = some (vector, after)) :
    ∃ line, line < 8 ∧ ports.master.Masked line = false ∧ vector = ports.master.vector line ∧
      after = { ports with master := ports.master.acknowledge line } := by
  unfold deliver at delivered
  cases pending : ports.wired.pending with
  | none =>
      rw [pending] at delivered
      cases delivered
  | some line =>
      obtain ⟨inside, clear, -⟩ := Controller.pending_spec pending
      have notWire : line ≠ 2 := by
        rintro rfl
        exact Bool.noConfusion (wire.symm.trans clear)
      rw [pending] at delivered
      dsimp only at delivered
      rw [if_neg notWire] at delivered
      cases delivered
      exact ⟨line, inside, clear, rfl, rfl⟩

theorem deliver_of_pending {ports : PcPorts} {line : Nat} (wire : ports.master.Masked 2 = true)
    (pending : ports.wired.pending = some line) :
    ports.deliver = some (ports.master.vector line, { ports with master := ports.master.acknowledge line }) := by
  have notWire : line ≠ 2 := by
    rintro rfl
    exact Bool.noConfusion (wire.symm.trans (Controller.pending_spec pending).2.1)
  rw [deliver, pending]
  exact if_neg notWire

end PcPorts

end ShedKernel.Foundation
