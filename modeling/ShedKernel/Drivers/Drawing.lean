import ShedKernel.Drivers.Vga13
import ShedKernel.Foundation.Raster
import Mathlib.Data.List.Induction

/-! Drawing with `vga13.c`: the stores of `vga13_put_pixel` and `vga13_clear`, and the picture
that they make. -/

set_option autoImplicit false

namespace ShedKernel.Drivers

open Foundation

namespace Vga13

def pixelsPerRow (driver : Vga13) : UInt32 := driver.fbPitch / 4

/-- `y * pixels_per_row + x`; the `int`s become `uint32_t`. -/
def pixelIndex (driver : Vga13) (x y : Int) : Nat := ((y * driver.pixelsPerRow.toNat + x) % 4294967296).toNat

/-- `fb[i] = colour` -/
def storePixel (driver : Vga13) (memory : Memory) (i : Nat) (colour : UInt32) : Memory :=
  memory.store32 (add32 driver.fb.toNat (4 * i)) colour.toNat

end Vga13

def vga13PutPixel (driver : Vga13) (memory : Memory) (x y : Int) (colour : UInt32) : Memory :=
  driver.storePixel memory (driver.pixelIndex x y) colour

/-- The first `count` turns of the loop of `vga13_clear`. -/
def clearTurns (driver : Vga13) (memory : Memory) (colour : UInt32) : Nat → Memory
  | 0 => memory
  | i + 1 => driver.storePixel (clearTurns driver memory colour i) i colour

def vga13ClearMemory (driver : Vga13) (memory : Memory) (colour : UInt32) : Memory :=
  clearTurns driver memory colour driver.totalPixels.toNat

inductive VgaCall where
  | putPixel (x y : Int) (colour : UInt32)
  | clear (colour : UInt32)

def vgaExec (driver : Vga13) (memory : Memory) : VgaCall → Memory
  | .putPixel x y colour => vga13PutPixel driver memory x y colour
  | .clear colour => vga13ClearMemory driver memory colour

/-! The picture. -/

/-- What the calls mean for a picture, in columns and rows. -/
def paint (picture : Nat → Nat → Nat) : VgaCall → Nat → Nat → Nat
  | .putPixel x y colour => fun column row => if column = x ∧ row = y then colour.toNat else picture column row
  | .clear colour => fun _ _ => colour.toNat

/-- A framebuffer of whole pixels that ends in the address space. -/
structure Vga13.Proper (driver : Vga13) : Prop where
  whole : driver.fbPitch.toNat % 4 = 0
  wide : driver.fbWidth.toNat ≤ driver.pixelsPerRow.toNat
  fits : driver.fb.toNat + driver.fbPitch.toNat * driver.fbHeight.toNat ≤ 4294967296

/-- The driver checks no coordinates. -/
def VgaCall.OnScreen (driver : Vga13) : VgaCall → Prop
  | .putPixel x y _ => 0 ≤ x ∧ x < driver.fbWidth.toNat ∧ 0 ≤ y ∧ y < driver.fbHeight.toNat
  | .clear _ => True

/-- The pixel that the display shows in a column of a row of `fb_pitch` bytes. -/
def Vga13.shows (driver : Vga13) (memory : Memory) (column row : Nat) : Nat :=
  memory.load32 (driver.fb.toNat + driver.fbPitch.toNat * row + 4 * column)

namespace Vga13.Proper

variable {driver : Vga13} {memory : Memory} (proper : driver.Proper)

include proper

theorem pitch : driver.fbPitch.toNat = 4 * driver.pixelsPerRow.toNat := by
  have whole := proper.whole
  unfold pixelsPerRow
  rw [UInt32.toNat_div, show (4 : UInt32).toNat = 4 from rfl]
  omega

private theorem area_fits : driver.fb.toNat + 4 * (driver.pixelsPerRow.toNat * driver.fbHeight.toNat) ≤ 4294967296 := by
  have fits := proper.fits
  rw [proper.pitch, Nat.mul_assoc] at fits
  exact fits

theorem total : driver.totalPixels.toNat = driver.pixelsPerRow.toNat * driver.fbHeight.toNat := by
  have fits := proper.area_fits
  show (driver.pixelsPerRow * driver.fbHeight).toNat = _
  rw [UInt32.toNat_mul]
  exact Nat.mod_eq_of_lt (by omega)

private theorem shows_eq (column row : Nat) : driver.shows memory column row =
    memory.raster driver.fb.toNat driver.pixelsPerRow.toNat column row := by
  unfold shows Memory.raster rowMajor
  rw [proper.pitch, Nat.mul_assoc, Nat.mul_add, Nat.add_assoc]

private theorem storePixel
    {i : Nat} (inside : i < driver.pixelsPerRow.toNat * driver.fbHeight.toNat) (colour : UInt32) :
    driver.storePixel memory i colour = memory.storeWord driver.fb.toNat colour.toNat i := by
  have fits := proper.area_fits
  unfold Vga13.storePixel Memory.storeWord
  rw [add32_of_lt (by omega)]

private theorem clearTurns_eq {count : Nat} (within : count ≤ driver.pixelsPerRow.toNat * driver.fbHeight.toNat)
    (colour : UInt32) :
    clearTurns driver memory colour count = memory.fillWords driver.fb.toNat colour.toNat count := by
  induction count with
  | zero => rfl
  | succ count ih =>
    rw [clearTurns, ih (Nat.le_of_succ_le within), proper.storePixel within, Memory.fillWords_succ]

private theorem clear_eq (colour : UInt32) : vga13ClearMemory driver memory colour =
    memory.fillWords driver.fb.toNat colour.toNat (driver.pixelsPerRow.toNat * driver.fbHeight.toNat) := by
  rw [vga13ClearMemory, proper.total]
  exact proper.clearTurns_eq (Nat.le_refl _) colour

/-- On the screen nothing wraps. -/
theorem putPixel_eq {column row : Nat} (inside : column < driver.fbWidth.toNat) (below : row < driver.fbHeight.toNat)
    (colour : UInt32) : vga13PutPixel driver memory column row colour =
      memory.storeWord driver.fb.toNat colour.toNat (rowMajor driver.pixelsPerRow.toNat column row) := by
  have wide := proper.wide
  have place := rowMajor_lt (show column < driver.pixelsPerRow.toNat by omega) below
  have fits := proper.area_fits
  have index : driver.pixelIndex column row = rowMajor driver.pixelsPerRow.toNat column row := by
    unfold pixelIndex
    have same : (row : Int) * driver.pixelsPerRow.toNat + column =
        (rowMajor driver.pixelsPerRow.toNat column row : Nat) := by
      unfold rowMajor
      push_cast
      rw [Int.mul_comm]
    rw [same]
    omega
  rw [vga13PutPixel, index, proper.storePixel place]

private theorem exec_shows {call : VgaCall} (onScreen : call.OnScreen driver) {column row : Nat}
    (inside : column < driver.pixelsPerRow.toNat) (below : row < driver.fbHeight.toNat) :
    driver.shows (vgaExec driver memory call) column row = paint (driver.shows memory) call column row := by
  rw [proper.shows_eq]
  cases call with
  | putPixel x y colour =>
    obtain ⟨left, right, top, bottom⟩ := onScreen
    obtain ⟨x, rfl⟩ := Int.eq_ofNat_of_zero_le left
    obtain ⟨y, rfl⟩ := Int.eq_ofNat_of_zero_le top
    have wide := proper.wide
    rw [vgaExec, proper.putPixel_eq (by omega) (by omega),
      Memory.raster_storeWord colour.toNat_lt inside (by omega)]
    simp only [paint, proper.shows_eq, Int.natCast_inj]
  | clear colour =>
    rw [vgaExec, proper.clear_eq, Memory.raster_fillWords colour.toNat_lt inside below]
    rfl

private theorem exec_outside {call : VgaCall} (onScreen : call.OnScreen driver) {address : Nat}
    (outside : address < driver.fb.toNat ∨
      driver.fb.toNat + driver.fbPitch.toNat * driver.fbHeight.toNat ≤ address) :
    vgaExec driver memory call address = memory address := by
  rw [proper.pitch, Nat.mul_assoc] at outside
  cases call with
  | putPixel x y colour =>
    obtain ⟨left, right, top, bottom⟩ := onScreen
    obtain ⟨x, rfl⟩ := Int.eq_ofNat_of_zero_le left
    obtain ⟨y, rfl⟩ := Int.eq_ofNat_of_zero_le top
    have wide := proper.wide
    have place := rowMajor_lt (show x < driver.pixelsPerRow.toNat by omega) (show y < driver.fbHeight.toNat by omega)
    rw [vgaExec, proper.putPixel_eq (by omega) (by omega)]
    exact Memory.storeWord_outside (by omega)
  | clear colour =>
    rw [vgaExec, proper.clear_eq]
    exact Memory.fillWords_outside _ outside

end Vga13.Proper

theorem vga13_draws (driver : Vga13) (proper : driver.Proper) (memory : Memory) (calls : List VgaCall)
    (onScreen : ∀ call ∈ calls, call.OnScreen driver) :
    (∀ column row, column < driver.pixelsPerRow.toNat → row < driver.fbHeight.toNat →
      driver.shows (calls.foldl (vgaExec driver) memory) column row =
        calls.foldl paint (driver.shows memory) column row) ∧
    ∀ address, address < driver.fb.toNat ∨
        driver.fb.toNat + driver.fbPitch.toNat * driver.fbHeight.toNat ≤ address →
      calls.foldl (vgaExec driver) memory address = memory address := by
  induction calls using List.reverseRecOn with
  | nil => exact ⟨fun _ _ _ _ => rfl, fun _ _ => rfl⟩
  | append_singleton earlier call ih =>
    obtain ⟨picture, rest⟩ := ih fun other member => onScreen other (List.mem_append_left _ member)
    have last := onScreen call (List.mem_append_right _ (List.mem_singleton_self call))
    simp only [List.foldl_append, List.foldl_cons, List.foldl_nil]
    constructor
    · intro column row inside below
      rw [proper.exec_shows last inside below]
      cases call with
      | putPixel x y colour => simp only [paint, picture column row inside below]
      | clear colour => rfl
    · intro address outside
      rw [proper.exec_outside last outside]
      exact rest address outside

/-- The two calls of `kernel_main`. -/
theorem vga13_draws_pixel :
    let driver := vga13Init 0xE0000000 4096 1024 768
    let memory := [VgaCall.clear 0x00FF0000, .putPixel 10 10 0x00FFFFFF].foldl (vgaExec driver) fun _ => 0
    driver.shows memory 10 10 = 0x00FFFFFF ∧ driver.shows memory 11 10 = 0x00FF0000 := by
  intro driver memory
  have proper : driver.Proper := ⟨by decide, by decide, by decide⟩
  have onScreen : ∀ call ∈ [VgaCall.clear 0x00FF0000, .putPixel 10 10 0x00FFFFFF], call.OnScreen driver := by
    intro call member
    simp only [List.mem_cons, List.not_mem_nil, or_false] at member
    rcases member with rfl | rfl
    · trivial
    · exact ⟨by decide, by decide, by decide, by decide⟩
  obtain ⟨picture, _⟩ := vga13_draws driver proper (fun _ => 0) _ onScreen
  exact ⟨picture 10 10 (by decide) (by decide), picture 11 10 (by decide) (by decide)⟩

end ShedKernel.Drivers
