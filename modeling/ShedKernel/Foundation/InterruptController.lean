import Mathlib.Logic.Basic

/-! The 8259A interrupt controller and the pair of them in a PC: the initialisation words,
the mask, requests and interrupts in service, and the end-of-interrupt command. Rotated
priorities, polling and the register reads through the command port are left out. -/

set_option autoImplicit false

namespace ShedKernel.Foundation

/-- What the next byte at the data port means. -/
inductive DataPort where
  | icw2
  | icw3
  | icw4
  | mask
  deriving DecidableEq

/-- What a program sets: the interrupts that come and go do not touch it. -/
structure ControllerSettings where
  dataPort : DataPort
  single : Bool
  withIcw4 : Bool
  vectorBase : UInt8
  cascade : UInt8
  mask : UInt8

structure Controller extends ControllerSettings where
  requested : Nat → Bool
  inService : Nat → Bool

namespace ControllerSettings

/-- Bit 4 marks the first initialisation word; other commands set nothing. -/
def command (settings : ControllerSettings) (data : UInt8) : ControllerSettings :=
  if data.toNat / 16 % 2 = 1 then
    { settings with
      dataPort := .icw2, single := data.toNat / 2 % 2 = 1, withIcw4 := data.toNat % 2 = 1, mask := 0 }
  else settings

def afterCascade (settings : ControllerSettings) : DataPort := if settings.withIcw4 then .icw4 else .mask

def data (settings : ControllerSettings) (data : UInt8) : ControllerSettings :=
  match settings.dataPort with
  | .icw2 =>
      { settings with
        vectorBase := data &&& 0xF8
        dataPort := if settings.single then settings.afterCascade else .icw3 }
  | .icw3 => { settings with cascade := data, dataPort := settings.afterCascade }
  | .icw4 => { settings with dataPort := .mask }
  | .mask => { settings with mask := data }

/-- After the initialisation words the data port is the mask. -/
theorem data_of_ready {settings : ControllerSettings} (ready : settings.dataPort = .mask) (mask : UInt8) :
    settings.data mask = { settings with mask := mask } := by
  cases settings
  cases ready
  rfl

def Masked (settings : ControllerSettings) (line : Nat) : Bool := settings.mask.toNat.testBit line

end ControllerSettings

namespace Controller

/-- The line of the highest priority in service. -/
def serving (controller : Controller) : Option Nat := (List.range 8).find? controller.inService

/-- An unspecific end of interrupt releases the line of the highest priority. -/
def endOfInterrupt (controller : Controller) : Controller :=
  match controller.serving with
  | some line => { controller with inService := fun other => controller.inService other && other != line }
  | none => controller

def command (controller : Controller) (data : UInt8) : Controller :=
  let settings := controller.toControllerSettings.command data
  if data.toNat / 16 % 2 = 1 then { controller with toControllerSettings := settings, requested := fun _ => false }
  else if data.toNat / 8 % 2 = 0 ∧ data.toNat / 32 = 1 then controller.endOfInterrupt
  else controller

def data (controller : Controller) (data : UInt8) : Controller :=
  { controller with toControllerSettings := controller.toControllerSettings.data data }

def raise (controller : Controller) (line : Nat) : Controller :=
  { controller with requested := fun other => controller.requested other || other == line }

/-- The line whose interrupt goes out: the first one that is requested and not masked, unless
a line up to it is in service. -/
def pending (controller : Controller) : Option Nat :=
  ((List.range 8).find? fun line =>
    controller.inService line || (controller.requested line && !controller.Masked line)).filter
      fun line => !controller.inService line

/-- The processor takes the interrupt of `line`. -/
def acknowledge (controller : Controller) (line : Nat) : Controller :=
  { controller with
    requested := fun other => controller.requested other && other != line
    inService := fun other => controller.inService other || other == line }

def vector (controller : Controller) (line : Nat) : UInt8 := controller.vectorBase + UInt8.ofNat line

section

variable (controller : Controller) (line : Nat)

@[simp] theorem settings_endOfInterrupt :
    controller.endOfInterrupt.toControllerSettings = controller.toControllerSettings := by
  unfold endOfInterrupt
  cases controller.serving <;> rfl

@[simp] theorem settings_command (data : UInt8) : (controller.command data).toControllerSettings =
    controller.toControllerSettings.command data := by
  unfold command ControllerSettings.command
  dsimp only
  split
  · rfl
  · split
    · exact controller.settings_endOfInterrupt
    · rfl

@[simp] theorem settings_data (data : UInt8) : (controller.data data).toControllerSettings =
    controller.toControllerSettings.data data := rfl

@[simp] theorem settings_raise : (controller.raise line).toControllerSettings = controller.toControllerSettings := rfl

@[simp] theorem settings_acknowledge :
    (controller.acknowledge line).toControllerSettings = controller.toControllerSettings := rfl

end

theorem pending_spec {controller : Controller} {line : Nat} (pending : controller.pending = some line) :
    line < 8 ∧ controller.Masked line = false ∧ controller.inService line = false := by
  rw [Controller.pending, Option.filter_eq_some_iff] at pending
  obtain ⟨found, idle⟩ := pending
  obtain ⟨wanted, inside, -⟩ := List.find?_range_eq_some.mp found
  rw [Bool.not_eq_true'] at idle
  rw [idle, Bool.false_or, Bool.and_eq_true, Bool.not_eq_true'] at wanted
  exact ⟨List.mem_range.mp inside, wanted.2, idle⟩

/-- Of the lines that are requested and not masked, the one of the highest priority. -/
structure First (controller : Controller) (line : Nat) : Prop where
  requested : controller.requested line = true
  clear : controller.Masked line = false
  before : ∀ other, other < line → controller.requested other = true → controller.Masked other = true

/-- With nothing in service, a request that is not masked waits for no other but those of a
higher priority. -/
theorem pending_of_idle {controller : Controller} {line : Nat} (idle : ∀ other, controller.inService other = false)
    (inside : line < 8) (requested : controller.requested line = true) (clear : controller.Masked line = false) :
    ∃ first, first ≤ line ∧ controller.First first ∧ controller.pending = some first := by
  have wanted : (controller.inService line || (controller.requested line && !controller.Masked line)) = true := by
    rw [idle, requested, clear]
    rfl
  cases found : (List.range 8).find? fun line =>
      controller.inService line || (controller.requested line && !controller.Masked line) with
  | none =>
      have unwanted := List.find?_eq_none.mp found line (List.mem_range.mpr inside)
      exact absurd wanted unwanted
  | some first =>
      obtain ⟨here, -, earlier⟩ := List.find?_range_eq_some.mp found
      simp only [idle, Bool.false_or, Bool.and_eq_true, Bool.not_eq_true'] at here
      refine ⟨first, ?_, ⟨here.1, here.2, fun other below asked => ?_⟩, ?_⟩
      · refine Nat.le_of_not_lt fun behind => ?_
        have unwanted := earlier line behind
        rw [wanted] at unwanted
        cases unwanted
      · have unwanted := earlier other below
        rw [idle, asked] at unwanted
        simpa using unwanted
      · rw [Controller.pending, found, Option.filter_some, idle]
        rfl

/-- The end of the only interrupt in service leaves none. -/
theorem endOfInterrupt_acknowledge {controller : Controller} {line : Nat}
    (idle : ∀ other, controller.inService other = false) (inside : line < 8) (other : Nat) :
    (controller.acknowledge line).endOfInterrupt.inService other = false := by
  have serving : (controller.acknowledge line).serving = some line := by
    refine List.find?_range_eq_some.mpr ⟨?_, List.mem_range.mpr inside, fun earlier below => ?_⟩
    · simp [acknowledge]
    · have different : earlier ≠ line := Nat.ne_of_lt below
      simp [acknowledge, idle, different]
  rw [endOfInterrupt, serving]
  show ((controller.inService other || other == line) && !(other == line)) = false
  rw [idle, Bool.false_or]
  exact Bool.and_not_self _

@[simp] theorem requested_endOfInterrupt (controller : Controller) :
    controller.endOfInterrupt.requested = controller.requested := by
  unfold endOfInterrupt
  cases controller.serving <;> rfl

/-- Commands put nothing in service. -/
theorem idle_command {controller : Controller} (idle : ∀ line, controller.inService line = false)
    (data : UInt8) (line : Nat) : (controller.command data).inService line = false := by
  have unserved : controller.serving = none := List.find?_range_eq_none.mpr fun other _ => by rw [idle]; rfl
  have ended : controller.endOfInterrupt = controller := by rw [endOfInterrupt, unserved]
  unfold command
  split
  · exact idle line
  · split
    · rw [ended]
      exact idle line
    · exact idle line

end Controller

end ShedKernel.Foundation
