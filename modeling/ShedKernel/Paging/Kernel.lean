import ShedKernel.Foundation.PageTable
import ShedKernel.Foundation.Word32

/-! Page frames, page tables and `sbrk`, from `mm.c` and `kernel.c`. Once paging is on,
the kernel reaches memory through the page tables that it edits. -/

set_option autoImplicit false

namespace ShedKernel.Paging

open Foundation PageTable

def pageDirectory : Nat := 0x9C000

def pageTableKernel : Nat := 0x9D000

def pageTableKernel2 : Nat := 0x9E000

/-- The frame of the directory, as `cr3` names it. -/
def rootFrame : Nat := 0x9C

def physMemEnd : Nat := 0x8000000

def pagePresent : Nat := 1

def pageWrite : Nat := 2

def pageUser : Nat := 4

/-- `memory` is physical. -/
structure PagingState where
  memory : Memory
  nextFreePage : Nat
  userHeapPtr : Nat

inductive KernelStop where
  | pageFault (address : Nat)
  | endlessLoop
  deriving DecidableEq

/-! Kernel accesses to aligned words. -/

def physicalAddress (memory : Memory) (address : Nat) : Except KernelStop Nat :=
  match translate memory rootFrame (address / 0x1000) with
  | some translation => .ok (4096 * translation.frame + address % 0x1000)
  | none => .error (.pageFault address)

def kernelLoad (s : PagingState) (address : Nat) : Except KernelStop Nat := do
  let physical ← physicalAddress s.memory address
  pure (s.memory.load32 physical)

def kernelStore (s : PagingState) (address value : Nat) : Except KernelStop PagingState := do
  let physical ← physicalAddress s.memory address
  pure { s with memory := s.memory.store32 physical value }

/-! Physical frames. -/

/-- `address & ~0xFFF`. -/
def pageAlign (address : Nat) : Nat := address / 0x1000 * 0x1000

def pagingAllocInit (kernelEnd : Nat) : Nat := pageAlign (add32 kernelEnd 0xFFF)

def allocPageFrame (s : PagingState) : Nat × PagingState :=
  if physMemEnd ≤ s.nextFreePage then (0, s)
  else (s.nextFreePage, { s with nextFreePage := add32 s.nextFreePage 0x1000 })

/-! Page tables. -/

/-- The first `count` turns of the loop of `init_paging`. -/
def initPagingLoop (memory : Memory) : Nat → Memory
  | 0 => memory
  | i + 1 =>
      let memory := initPagingLoop memory i
      let memory := memory.store32 (pageDirectory + 4 * i) 0
      let memory := memory.store32 (pageTableKernel + 4 * i) (i * 0x1000 ||| pagePresent ||| pageWrite)
      memory.store32 (pageTableKernel2 + 4 * i) (0x400000 + i * 0x1000 ||| pagePresent ||| pageWrite)

/-- Paging is still off here. -/
def initPaging (memory : Memory) : Memory :=
  let memory := initPagingLoop memory 1024
  let memory := memory.store32 pageDirectory (pageTableKernel ||| pagePresent ||| pageWrite)
  memory.store32 (pageDirectory + 4) (pageTableKernel2 ||| pagePresent ||| pageWrite)

/-- The conditional of `map_user_page`. -/
def ensureTable (s : PagingState) (dirIdx : Nat) : Except KernelStop PagingState := do
  let entry ← kernelLoad s (pageDirectory + 4 * dirIdx)
  if entry &&& pagePresent = 0 then
    -- the frame keeps whatever it held
    let (newTable, s) := allocPageFrame s
    kernelStore s (pageDirectory + 4 * dirIdx) (newTable ||| pagePresent ||| pageWrite ||| pageUser)
  else pure s

def mapUserPage (s : PagingState) (virt phys : Nat) : Except KernelStop PagingState := do
  let dirIdx := virt / 0x400000
  let tableIdx := virt / 0x1000 % 0x400
  let s ← ensureTable s dirIdx
  let entry ← kernelLoad s (pageDirectory + 4 * dirIdx)
  kernelStore s (pageAlign entry + 4 * tableIdx) (phys ||| pagePresent ||| pageWrite ||| pageUser)

/-- `map_user_page(virt, alloc_page_frame())`. -/
def mapNewFrame (s : PagingState) (virt : Nat) : Except KernelStop PagingState :=
  let (phys, s) := allocPageFrame s
  mapUserPage s virt phys

/-! The framebuffer loop of `kernel_main`. -/

def clearTable (s : PagingState) (table : Nat) : Nat → Except KernelStop PagingState
  | 0 => .ok s
  | i + 1 => do
      let s ← clearTable s table i
      kernelStore s (table + 4 * i) 0

def ensureKernelTable (s : PagingState) (dirIdx : Nat) : Except KernelStop PagingState := do
  let entry ← kernelLoad s (pageDirectory + 4 * dirIdx)
  if entry &&& 1 = 0 then
    let (newTbl, s) := allocPageFrame s
    let s ← clearTable s newTbl 1024
    kernelStore s (pageDirectory + 4 * dirIdx) (newTbl ||| 3)
  else pure s

def mapFramebufferPage (s : PagingState) (addr : Nat) : Except KernelStop PagingState := do
  let dirIdx := addr / 0x400000
  let tblIdx := addr / 0x1000 % 0x400
  let s ← ensureKernelTable s dirIdx
  let entry ← kernelLoad s (pageDirectory + 4 * dirIdx)
  kernelStore s (pageAlign entry + 4 * tblIdx) (addr ||| 3)

/-- More turns than there are pages: what is still running then never ends. -/
def enoughTurns : Nat := 1048577

/-- `for (; x < bound; x += 0x1000) body(x)` on a 32-bit `x`. -/
def pageLoop (body : PagingState → Nat → Except KernelStop PagingState) (bound : Nat) :
    Nat → PagingState → Nat → Except KernelStop PagingState
  | 0, _, _ => .error .endlessLoop
  | turns + 1, s, x =>
      if x < bound then do
        let s ← body s x
        pageLoop body bound turns s (add32 x 0x1000)
      else .ok s

def mapFramebuffer (s : PagingState) (fbPhysAddr fbSize : Nat) : Except KernelStop PagingState :=
  pageLoop (fun s off => mapFramebufferPage s (add32 fbPhysAddr off)) fbSize enoughTurns s 0

/-! Boot. -/

/-- What `kernel_main` starts from: the memory the boot loader leaves, the linker's
`kernel_end` and the framebuffer fields. -/
structure BootInfo where
  memory : Memory
  kernelEnd : UInt32
  fbPhysAddr : UInt32
  fbPitch : UInt32
  fbHeight : UInt32

def BootInfo.fbSize (info : BootInfo) : Nat := (info.fbPitch * info.fbHeight).toNat

/-- The pages that `kernel_main` maps for programs, in order. -/
def programPages : List Nat :=
  [0xA0000000, 0xB0000000, 0xF0000000] ++ (List.range 12).map (fun p => 0x70000000 + p * 0x1000) ++
    [0x71000000] ++ (List.range 12).map (fun p => 0xC0000000 + p * 0x1000) ++ [0xD0000000]

def mapNewFrames (s : PagingState) : List Nat → Except KernelStop PagingState
  | [] => .ok s
  | virt :: rest => do
      let s ← mapNewFrame s virt
      mapNewFrames s rest

/-- `kernel_main`, as far as page tables go; `user_heap_ptr` is initialised statically. -/
def boot (info : BootInfo) : Except KernelStop PagingState := do
  let s : PagingState := {
    memory := initPaging info.memory
    nextFreePage := pagingAllocInit info.kernelEnd.toNat
    userHeapPtr := 0xE0000000 }
  let s ← if info.fbPhysAddr = 0 then pure s
    else mapFramebuffer s info.fbPhysAddr.toNat info.fbSize
  mapNewFrames s programPages

/-! Syscall 12. -/

def sbrk (s : PagingState) (arg1 : Nat) : Except KernelStop (Nat × PagingState) := do
  let old := s.userHeapPtr
  let newPtr := add32 old arg1
  let s ← pageLoop mapNewFrame newPtr enoughTurns s (pageAlign old)
  pure (old, { s with userHeapPtr := newPtr })

end ShedKernel.Paging
