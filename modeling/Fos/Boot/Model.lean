import Fos.Exec.Wp
import Fos.Memory.Kernel

/-!
# Building the kernel's address space

`detect_memory` and `initialize_kernel_VM` with what they call: the allocator that hands out
the memory above the kernel's image, the page tables that are made on demand, the check of
the result, and the switch to it.

Paging is still off: the segments take `KERNEL_BASE` to physical address zero, so a kernel
pointer is an address and points into the frame of its offset.
-/

namespace Fos

/-- `KERNEL_STACK_TOP`. -/
abbrev kernelStackTop : Nat := vpt

/-- `KERNEL_STACK_SIZE`. -/
abbrev kernelStackSize : Nat := 8 * pageSize

/-- `UENVS`. -/
abbrev uenvs : Nat := userTop

/-- `kernel_virtual_area`. -/
abbrev kernelVirtualArea : Nat := word32 - kernelBase

/-- `sizeof(struct Frame_Info)`. -/
abbrev sizeofFrameInfo : Nat := 24

/-- `PAGES_PER_FILE * sizeof(struct Frame_Info)`. -/
abbrev diskArraySize : Nat := 133120 * sizeofFrameInfo

/-- `envs_size`. -/
abbrev envsSize : Nat := nenv * sizeofEnv

/-- `detect_memory`: `number_of_frames`, from the CMOS registers `NVRAM_EXTLO` and `0x34`; it
stays in its loop when memory is larger than what the kernel can map. -/
def detectMemory (extLo other : BitVec 16) : Option Nat :=
  let sizeOfExtendedMem := roundDown (extLo.toNat * 1024 % word32)
  let sizeOfOtherMem := roundDown (other.toNat * 1024 * 64 % word32)
  let maxpa :=
    if sizeOfOtherMem > 0 then (sizeOfOtherMem + 16 * 1024 * 1024) % word32
    else if sizeOfExtendedMem ≠ 0 then physExtendedMem + sizeOfExtendedMem
    else sizeOfExtendedMem
  if maxpa > kernelVirtualArea then none else some (maxpa / pageSize)

/-- What the linker fixes: `end_of_kernel` and `ptr_stack_bottom`.  The image is linked from
`0xF0100000` on, the boot stack is aligned to a page in its data, and the image leaves half of
what the kernel can map. -/
structure Image where
  endOfKernel : Nat
  ptrStackBottom : Nat
  linked : 0xF0100000 ≤ ptrStackBottom
  aligned : ptrStackBottom % pageSize = 0
  stack : ptrStackBottom + kernelStackSize ≤ endOfKernel
  room : endOfKernel ≤ 0xF8000000

/-- The state while the kernel starts: physical memory and the variables that
`initialize_kernel_VM` sets, all pointers as addresses, and the register `CR3`. -/
structure BootState where
  mem : Nat → Page
  numberOfFrames : Nat
  ptrFreeMem : Nat
  ptrPageDirectory : Nat
  physPageDirectory : Nat
  framesInfo : Nat
  diskFramesInfo : Nat
  envs : Nat
  cr3 : Nat

/-- Before `initialize_kernel_VM`: the kernel's variables are zero. -/
def BootState.start (mem : Nat → Page) (numberOfFrames : Nat) : BootState :=
  ⟨mem, numberOfFrames, 0, 0, 0, 0, 0, 0, 0⟩

/-- Overwriting one word. -/
def BootState.setWord (s : BootState) (f : Nat) (i : Fin 1024) (w : Word) : BootState :=
  { s with mem := Function.update s.mem f (Function.update (s.mem f) i w) }

abbrev BootProg := EStateM Stop BootState

/-- The frame that a kernel pointer points into: the segments' base is `-KERNEL_BASE`. -/
def pointerFrame (ptr : Nat) : Nat := (ptr + kernelVirtualArea) % word32 / pageSize

/-- `ptr[i]`, for a pointer to a page. -/
def readAt (ptr : Nat) (i : Fin 1024) : BootProg Word := return (← get).mem (pointerFrame ptr) i

/-- `ptr[i] = w`, for a pointer to a page. -/
def writeAt (ptr : Nat) (i : Fin 1024) (w : Word) : BootProg Unit :=
  modify (·.setWord (pointerFrame ptr) i w)

/-- The words after `memset(ptr, 0, size)`, where `ptr` points to a page and `size` is a
number of words. -/
def clearWords (mem : Nat → Page) (ptr size : Nat) : Nat → Page := fun f i =>
  if pointerFrame ptr ≤ f ∧ (f - pointerFrame ptr) * pageSize + i * 4 < size then 0 else mem f i

/-- `memset(ptr, 0, size)`. -/
def memsetZero (ptr size : Nat) : BootProg Unit :=
  modify fun s => { s with mem := clearWords s.mem ptr size }

/-- `STATIC_KERNEL_PHYSICAL_ADDRESS(kva)`. -/
def staticKernelPhysicalAddress (kva : Nat) : BootProg Nat :=
  if kva < kernelBase then throw (.panic "K_PHYSICAL_ADDRESS called with invalid kva")
  else return kva - kernelBase

/-- `STATIC_KERNEL_VIRTUAL_ADDRESS(pa)`, as an address. -/
def kernelVirtualAddress (pa : Nat) : BootProg Nat := do
  if ppn pa ≥ (← get).numberOfFrames then
    throw (.panic "K_VIRTUAL_ADDRESS called with invalid pa")
  else
    return (pa + kernelBase) % word32

/-- `boot_allocate_space(size, PAGE_SIZE)`. -/
def bootAllocateSpace (img : Image) (size : Nat) : BootProg Nat := do
  if (← get).ptrFreeMem = 0 then
    modify fun s => { s with ptrFreeMem := img.endOfKernel }
  let ptrAllocatedMem := roundUp (← get).ptrFreeMem
  modify fun s => { s with ptrFreeMem := (ptrAllocatedMem + size) % word32 }
  return ptrAllocatedMem

/-- `boot_get_page_table(ptr_page_directory, virtual_address, create)`; a new table keeps
what was in its memory. -/
def bootGetPageTable (img : Image) (dir va : Nat) (create : Bool) : BootProg Nat := do
  let physPageTable := extractAddress (← readAt dir (pdx va))
  let ptrPageTable ← kernelVirtualAddress physPageTable
  if physPageTable = 0 then
    if create then
      let ptrPageTable ← bootAllocateSpace img pageSize
      let physPageTable ← staticKernelPhysicalAddress ptrPageTable
      writeAt dir (pdx va) (constructEntry physPageTable (permPresent ||| permWriteable))
      return ptrPageTable
    else
      return 0
  else
    return ptrPageTable

/-- The loop of `boot_map_range`, with the pages that are left. -/
def bootMapPages (img : Image) (dir : Nat) (perm : Word) : Nat → Nat → Nat → BootProg Unit
  | 0, _, _ => pure ()
  | k + 1, virtualAddress, physicalAddress => do
    let ptrPageTable ← bootGetPageTable img dir virtualAddress true
    writeAt ptrPageTable (ptx virtualAddress)
      (constructEntry physicalAddress (perm ||| permPresent))
    bootMapPages img dir perm k ((virtualAddress + pageSize) % word32)
      ((physicalAddress + pageSize) % word32)

/-- `boot_map_range(ptr_page_directory, virtual_address, size, physical_address, perm)`. -/
def bootMapRange (img : Image) (dir virtualAddress size physicalAddress : Nat) (perm : Word) :
    BootProg Unit :=
  bootMapPages img dir perm ((size + pageSize - 1) / pageSize) virtualAddress physicalAddress

/-- The loop that makes the tables for `[KERNEL_BASE, 2^32)`, with the tables that are left. -/
def bootTables (img : Image) (dir : Nat) : Nat → Nat → BootProg Unit
  | 0, _ => pure ()
  | k + 1, sva => do
    let _ ← bootGetPageTable img dir sva true
    bootTables img dir k (sva + ptSize)

/-- `setup_listing_to_all_page_tables_entries()`. -/
def setupListing : BootProg Unit := do
  let dir := (← get).ptrPageDirectory
  let physFrameAddress ← staticKernelPhysicalAddress dir
  writeAt dir (pdx vpt) (constructEntry physFrameAddress (permPresent ||| permWriteable))
  writeAt dir (pdx uvpt) (BitVec.ofNat 32 physFrameAddress ||| permUser ||| permPresent)

/-- `assert(p)`. -/
def bootAssert (p : Prop) [Decidable p] : BootProg Unit :=
  if p then pure () else throw (.panic "assertion failed")

/-- `check_va2pa(ptr_page_directory, va)`. -/
def checkVa2pa (dir va : Nat) : BootProg Nat := do
  let dirEntry ← readAt dir (pdx va)
  if present dirEntry = false then
    return 0xFFFFFFFF
  else
    let p ← kernelVirtualAddress (extractAddress dirEntry)
    let entry ← readAt p (ptx va)
    if present entry = false then return 0xFFFFFFFF else return extractAddress entry

/-- The entries of the directory that `check_boot_pgdir` wants to be set. -/
def mustBeSet (i : Fin 1024) : Bool :=
  i = pdx vpt || i = pdx uvpt || i = pdx (kernelStackTop - 1) || i = pdx uenvs ||
    pdx kernelBase ≤ i

/-- The pages of `[KERNEL_BASE, 2^32)`. -/
@[irreducible] def basePages : List Nat := List.range (kernelVirtualArea / pageSize)

/-- `check_boot_pgdir()`. -/
def checkBootPgdir (img : Image) : BootProg Unit := do
  let dir := (← get).ptrPageDirectory
  basePages.forM fun k => do
    bootAssert ((← checkVa2pa dir (kernelBase + k * pageSize)) = k * pageSize)
  (List.range 8).forM fun k => do
    let stack ← staticKernelPhysicalAddress img.ptrStackBottom
    bootAssert ((← checkVa2pa dir (kernelStackTop - kernelStackSize + k * pageSize)) =
      stack + k * pageSize)
  (List.finRange 1024).forM fun i => do
    let entry ← readAt dir i
    bootAssert (if mustBeSet i then entry ≠ 0 else entry = 0)

/-- The entries below `PDX(ptr_free_mem)` that map `KERNEL_BASE`, counted from the first. -/
@[irreducible] def lowEntries (ptrFreeMem : Nat) : List Nat :=
  List.range (pdx ptrFreeMem - pdx kernelBase : Nat)

/-- `turn_on_paging()`, as far as memory and `CR3` go. -/
def turnOnPaging : BootProg Unit := do
  let s ← get
  let dir := s.ptrPageDirectory
  let low := lowEntries s.ptrFreeMem
  low.forM fun j => do
    let entry ← readAt dir (Fin.ofNat 1024 (pdx kernelBase + j))
    writeAt dir (Fin.ofNat 1024 j) entry
  modify fun s => { s with cr3 := s.physPageDirectory }
  low.forM fun j => writeAt dir (Fin.ofNat 1024 j) 0

/-- A call of `boot_allocate_space` with the `memset` after it. -/
def bootArray (img : Image) (size : Nat) : BootProg Nat := do
  let ptr ← bootAllocateSpace img size
  memsetZero ptr size
  return ptr

/-- `initialize_kernel_VM()`: the page directory. -/
def bootDirectory (img : Image) : BootProg Nat := do
  let dir ← bootArray img pageSize
  let phys ← staticKernelPhysicalAddress dir
  modify fun s => { s with ptrPageDirectory := dir, physPageDirectory := phys }
  return dir

/-- `initialize_kernel_VM()`: the boot stack is mapped. -/
def mapBootStack (img : Image) (dir : Nat) : BootProg Unit := do
  let stack ← staticKernelPhysicalAddress img.ptrStackBottom
  bootMapRange img dir (kernelStackTop - kernelStackSize) kernelStackSize stack permWriteable

/-- `initialize_kernel_VM()`: `frames_info` and `disk_frames_info`. -/
def bootFrameArrays (img : Image) : BootProg Unit := do
  let arraySize := (← get).numberOfFrames * sizeofFrameInfo
  let framesInfo ← bootArray img arraySize
  modify fun s => { s with framesInfo := framesInfo }
  let diskFramesInfo ← bootArray img diskArraySize
  modify fun s => { s with diskFramesInfo := diskFramesInfo }

/-- `initialize_kernel_VM()`: `envs`, and its mapping for users. -/
def mapEnvs (img : Image) (dir : Nat) : BootProg Unit := do
  let envs ← bootArray img envsSize
  modify fun s => { s with envs := envs }
  let physEnvs ← staticKernelPhysicalAddress envs
  bootMapRange img dir uenvs envsSize physEnvs permUser
  let entry ← readAt dir (pdx uenvs)
  writeAt dir (pdx uenvs) (entry ||| (permUser ||| (permPresent &&& ~~~permWriteable)))

/-- `initialize_kernel_VM()`. -/
def initializeKernelVM (img : Image) : BootProg Unit := do
  let dir ← bootDirectory img
  mapBootStack img dir
  bootTables img dir (kernelVirtualArea / ptSize) kernelBase
  bootFrameArrays img
  setupListing
  mapEnvs img dir
  bootMapRange img dir kernelBase (word32 - 1 - kernelBase) 0 permWriteable
  checkBootPgdir img
  turnOnPaging

end Fos
