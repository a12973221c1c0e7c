import ShedKernel.Foundation.Word32

/-! The framebuffer driver of `vga13.c`: the variables that `vga13_init` sets, and the
addresses that `vga13_clear` stores to. -/

set_option autoImplicit false

namespace ShedKernel.Drivers

open Foundation

/-- The static variables of the driver. -/
structure Vga13 where
  fb : UInt32
  fbPitch : UInt32
  fbWidth : UInt32
  fbHeight : UInt32

def vga13Init (physAddr pitch width height : UInt32) : Vga13 where
  fb := physAddr
  fbPitch := pitch
  fbWidth := width
  fbHeight := height

def Vga13.totalPixels (driver : Vga13) : UInt32 :=
  let pixelsPerRow := driver.fbPitch / 4
  pixelsPerRow * driver.fbHeight

/-- The four bytes of `fb[i]`. -/
def Vga13.pixelBytes (driver : Vga13) (i : Nat) : List Nat :=
  (List.range 4).map fun byte => add32 driver.fb.toNat (4 * i + byte)

/-- The addresses of the bytes that `vga13_clear` stores, in order. -/
def vga13Clear (driver : Vga13) : List Nat :=
  (List.range driver.totalPixels.toNat).flatMap driver.pixelBytes

end ShedKernel.Drivers
