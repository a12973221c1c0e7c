import ShedKernel.Foundation.AddressSpace
import ShedKernel.Paging.Kernel

/-! `kernel_main` puts the three programs into their pages. The kernel writes through the
page tables it has just edited, and reads the images where the linker left them. -/

set_option autoImplicit false

namespace ShedKernel.Paging

open Foundation PageTable

def kernelLoadByte (s : PagingState) (address : Nat) : Except KernelStop UInt8 := do
  let physical ← physicalAddress s.memory address
  pure (s.memory physical)

def kernelStoreByte (s : PagingState) (address : Nat) (value : UInt8) : Except KernelStop PagingState := do
  let physical ← physicalAddress s.memory address
  pure { s with memory := s.memory.storeByte physical value }

/-- The first `count` turns of the loop of `copy_binary`. -/
def copyBinary (s : PagingState) (dst start : Nat) : Nat → Except KernelStop PagingState
  | 0 => .ok s
  | i + 1 => do
      let s ← copyBinary s dst start i
      let c ← kernelLoadByte s (start + i)
      kernelStoreByte s (dst + i) c

def zeroRegion (s : PagingState) (ptr : Nat) : Nat → Except KernelStop PagingState
  | 0 => .ok s
  | i + 1 => do
      let s ← zeroRegion s ptr i
      kernelStoreByte s (ptr + i) 0

/-- An object file made from a flat binary: its symbols `_start` and `_end`. -/
structure Image where
  start : Nat
  stop : Nat

def Image.size (image : Image) : Nat := image.stop - image.start

structure Images where
  user : Image
  editor : Image
  shell : Image

def pagesFrom (virt count : Nat) : List Nat := (List.range count).map fun p => virt + p * 0x1000

/-- The editor's and the shell's part of `kernel_main`: twelve pages, a stack, the image. -/
def loadProgram (s : PagingState) (virt stack : Nat) (image : Image) : Except KernelStop PagingState := do
  let s ← mapNewFrames s (pagesFrom virt 12)
  let s ← mapNewFrame s stack
  let s ← zeroRegion s virt (12 * 4096)
  copyBinary s virt image.start image.size

def loadPrograms (images : Images) (s : PagingState) : Except KernelStop PagingState := do
  -- the pages of the test program are not cleared
  let s ← mapNewFrame s 0xA0000000
  let s ← mapNewFrame s 0xB0000000
  let s ← copyBinary s 0xA0000000 images.user.start images.user.size
  let s ← mapNewFrame s 0xF0000000
  let s ← zeroRegion s 0xF0000000 4096
  let s ← loadProgram s 0x70000000 0x71000000 images.editor
  loadProgram s 0xC0000000 0xD0000000 images.shell

/-- `kernel_main` from `paging_alloc_init` to the last of the programs. -/
def bootPrograms (info : BootInfo) (images : Images) : Except KernelStop PagingState := do
  let s : PagingState := {
    memory := initPaging info.memory
    nextFreePage := pagingAllocInit info.kernelEnd.toNat
    userHeapPtr := 0xE0000000 }
  let s ← if info.fbPhysAddr = 0 then pure s
    else mapFramebuffer s info.fbPhysAddr.toNat info.fbSize
  loadPrograms images s

/-! What ring 3 sees. -/

/-- The physical address behind a virtual one, where ring 3 may go. -/
def ring3Place (s : PagingState) (address : Nat) : Option Nat :=
  if address < 4294967296 then
    match translate s.memory rootFrame (address / 0x1000) with
    | some translation =>
        if translation.user then some (4096 * translation.frame + address % 0x1000) else none
    | none => none
  else none

def ring3Contents (s : PagingState) : Contents := Contents.view s.memory (ring3Place s)

end ShedKernel.Paging
