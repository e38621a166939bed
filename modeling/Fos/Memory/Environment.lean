import Fos.Memory.Bytes
import Fos.Memory.Fault

/-!
# Creating and freeing environments

`env_create` and `env_free` of `kern/user_environment.c`, and the system calls that
change an address space: `allocateMem`, `freeMem` and `__sys_allocate_page`.

`allocate_environment` and the scheduler's queues are modelled apart from this; here an
environment is the index of its `Env` structure.  A program image is the list of its
`PT_LOAD` segments.
-/

namespace Fos

/-! ## Bytes -/

/-- `*dst = b` at a user address. -/
def storeByte (dst : Nat) (b : BitVec 8) : Prog Unit := do
  let f ← kernelFrame dst
  writePage f (((← get).mem f).setByte (dst % pageSize) b)

/-! ## Program images -/

/-- `struct ProgramSegment`: the addresses and sizes, and the bytes from `ptr_start` on. -/
structure ProgramSegment where
  ptrStart : Nat → BitVec 8
  sizeInFile : Nat
  sizeInMemory : Nat
  virtualAddress : Nat

/-- A program of the program table; `elfMagic` says that its header is an ELF header. -/
structure UserProgram where
  name : String
  elfMagic : Bool
  segments : List ProgramSegment

/-! ## Creating an environment -/

/-- The entries of a new page directory, with the kernel's from `USER_TOP` on and the
directory itself at `VPT` and `UVPT`. -/
def newDirectory (kernelDirectory : Page) (physUserPageDirectory : Nat) : Page :=
  Function.update
    (Function.update (fun i => if i < 955 then 0 else kernelDirectory i) (pdx vpt)
      (BitVec.ofNat 32 physUserPageDirectory ||| permPresent ||| permWriteable))
    (pdx uvpt) (BitVec.ofNat 32 physUserPageDirectory ||| permPresent ||| permUser)

/-- The members that `initialize_environment` and `complete_environment_initialization`
set, less the lists. -/
def Env.initialized (dir phys : Nat) (env : Env) : Env :=
  { env with
    envPageDirectory := some dir
    envCr3 := phys
    ptrPageWorkingSet k :=
      if k < env.pageWSMaxSize then ⟨0, true⟩ else env.ptrPageWorkingSet k
    ptrTws k := if k < twsMaxSize then ⟨0, true⟩ else env.ptrTws k
    pageLastWSIndex := 0
    tableLastWSIndex := 0
    pageFaultsCounter := 0
    tableFaultsCounter := 0
    nPageIn := 0
    nPageOut := 0
    diskEnvPgdir := none
    diskEnvPgdirPA := 0 }

/-- `initialize_environment(e, ptr_user_page_directory, phys_user_page_directory)`. -/
def initializeEnvironment (e dir phys : Nat) : Prog Unit := do
  let s ← get
  writePage dir (newDirectory (s.mem s.globals.ptrPageDirectory) phys)
  (List.range (← getEnv e).pageWSMaxSize).forM fun i => do
    checkElement i
    modifyLists e (·.insertHead .pageWorkingSetList i)
  modifyEnv e (Env.initialized dir phys)

def Env.stepWSIndex (env : Env) : Env :=
  { env with pageLastWSIndex := (env.pageLastWSIndex + 1) % env.pageWSMaxSize }

/-- `page_last_WS_index++`, modulo the size of the working set, which must not be 0. -/
def nextWSIndex (e : Nat) : Prog Unit := do
  if (← getEnv e).pageWSMaxSize = 0 then throw .crash
  else modifyEnv e Env.stepWSIndex

/-- `ptr_pageWorkingSet[page_last_WS_index]` is given the page. -/
def Env.setWSElement (va : Nat) (env : Env) : Env :=
  env.setElement env.pageLastWSIndex ⟨va, false⟩

/-- `addTableToTableWorkingSet(e, tableAddress)`. -/
def Env.addTable (tableAddress : Nat) (env : Env) : Env :=
  { env with
    ptrTws := Function.update env.ptrTws env.tableLastWSIndex
      ⟨tableAddress - tableAddress % ptSize, false⟩
    tableLastWSIndex := (env.tableLastWSIndex + 1) % twsMaxSize }

/-- The element of the working set that a new page gets moves to the active list, as long
as that has less than `limit` elements, and else to the second list. -/
def addToLists (e k limit : Nat) : Prog Unit := do
  modifyLists e (·.remove .pageWorkingSetList k)
  if (← listSize e .activeList) < limit then
    modifyLists e (·.insertHead .activeList k)
  else
    modifyLists e (·.insertHead .secondList k)

/-- A pass of the first loop of `program_segment_alloc_map_copy_workingset`: the page `iVA`
is allocated, mapped and put into the working set.  The result is `lastTableNumber`. -/
def loadPage (e iVA lastTableNumber : Nat) : Prog Nat := do
  let p ← allocateFrame
  loadtimeMapFrame (← envPageDirectory e) p iVA (permUser ||| permWriteable)
  let k := (← getEnv e).pageLastWSIndex
  checkElement k
  modifyEnv e (Env.setWSElement iVA)
  -- one place of the active list is left for the stack
  addToLists e k (uint32 ((← getEnv e).activeListSize - 1))
  nextWSIndex e
  if (pdx iVA).val ≠ lastTableNumber then
    modifyEnv e (Env.addTable iVA)
    if (← getEnv e).tableLastWSIndex = 0 then
      panic ("\nenv_create: Table working set become FULL during the application loading. " ++
        "Please increase the table working set size to be able to load the program successfully\n")
    else
      return (pdx iVA).val
  else
    return lastTableNumber

/-- The first loop: the pages from `iVA` up to `endVaddr`, at most `remaining` of them.
The result is the number of pages and `lastTableNumber`. -/
def loadPages (e endVaddr : Nat) : Nat → Nat → Nat → Prog (Nat × Nat)
  | 0, _, lastTableNumber => return (0, lastTableNumber)
  | remaining + 1, iVA, lastTableNumber => do
    if iVA < endVaddr then
      let lastTableNumber ← loadPage e iVA lastTableNumber
      let (n, lastTableNumber) ←
        loadPages e endVaddr remaining ((iVA + pageSize) % word32) lastTableNumber
      return (n + 1, lastTableNumber)
    else
      return (0, lastTableNumber)

/-- `program_segment_alloc_map_copy_workingset(e, seg, &allocated_pages,
remaining_ws_pages, &lastTableNumber)`: the number of pages and `lastTableNumber`.  Of
the segment at 0x200000 six pages are loaded, except for the program `tpp`. -/
def programSegmentAllocMapCopyWorkingset (e : Nat) (seg : ProgramSegment)
    (remainingWSPages lastTableNumber : Nat) : Prog (Nat × Nat) := do
  let vaddr := seg.virtualAddress
  let endVaddr := roundUp ((vaddr + seg.sizeInMemory) % word32)
  let iVA := roundDown vaddr
  let remainingWSPages :=
    if iVA = 0x200000 ∧ (← getEnv e).progName ≠ "tpp" then min remainingWSPages 6
    else remainingWSPages
  let (allocatedPages, lastTableNumber) ←
    loadPages e endVaddr remainingWSPages iVA lastTableNumber
  let limit := (iVA + allocatedPages * pageSize) % word32
  let fileLimit := (vaddr + seg.sizeInFile) % word32
  let copied := min limit fileLimit - vaddr
  (List.range copied).forM fun k => storeByte (vaddr + k) (seg.ptrStart k)
  (List.range (limit - (vaddr + copied))).forM fun k => storeByte (vaddr + copied + k) 0
  return (allocatedPages, lastTableNumber)

/-- `panic("ERROR: Page File OUT OF SPACE. ...")` for a full page file. -/
def checkPageFile (ret : Int) : Prog Unit := do
  if ret = eNoPageFileSpace then
    panic "ERROR: Page File OUT OF SPACE. can't load the program in Page file!!"

/-- The page made up in `ptr_temp_page`: `count` bytes from `src` on at the offset
`offset`, and zeroes. -/
def tempPageOf (src : Nat → BitVec 8) (offset count : Nat) : Page :=
  pageOfBytes fun k => if offset ≤ k ∧ k < offset + count then src (k - offset) else 0

/-- Writing a segment to the page file, which is the second half of a pass of the loop of
`env_create` over the segments. -/
def writeSegment (e : Nat) (seg : ProgramSegment) : Prog Unit := do
  let segVa := seg.virtualAddress
  let startFirstPage := roundDown segVa
  let endFirstPage := roundUp segVa
  -- [1] the first page
  let first := endFirstPage - segVa
  writePage tempPage (tempPageOf seg.ptrStart (segVa - startFirstPage) first)
  checkPageFile (← pfAddEnvPage e startFirstPage ((← get).mem tempPage))
  -- [2] the pages up to the last one
  let endLastPage := (segVa + seg.sizeInFile) % word32
  let startLastPage := roundDown endLastPage
  let middle := (startLastPage - endFirstPage) / pageSize
  (List.range middle).forM fun n => do
    let src := fun k => seg.ptrStart (first + n * pageSize + k)
    checkPageFile (← pfAddEnvPage e (endFirstPage + n * pageSize) (pageOfBytes src))
  -- [3] the last page
  let src := fun k => seg.ptrStart (first + middle * pageSize + k)
  writePage tempPage (tempPageOf src 0 (endLastPage - startLastPage))
  checkPageFile (← pfAddEnvPage e startLastPage ((← get).mem tempPage))
  -- [4] the rest of the segment's memory
  let startRemainingArea := roundUp ((segVa + seg.sizeInFile) % word32)
  let remainingLength := uint32 ((segVa + seg.sizeInMemory : Int) - startRemainingArea)
  (List.range (roundUp remainingLength / pageSize)).forM fun n => do
    let va := (startRemainingArea + n * pageSize) % word32
    checkPageFile (← pfAddEmptyEnvPage e va true)

/-- The loop of `env_create` over the segments. -/
def loadSegments (e : Nat) : List ProgramSegment → Nat → Nat → Prog Unit
  | [], _, _ => return
  | seg :: segs, remainingWSPages, lastTableNumber => do
    let (allocatedPages, lastTableNumber) ←
      programSegmentAllocMapCopyWorkingset e seg remainingWSPages lastTableNumber
    writeSegment e seg
    loadSegments e segs (remainingWSPages - allocatedPages) lastTableNumber

/-- The modified bits of the pages of the working set are cleared. -/
def clearModified (e : Nat) : Prog Unit := do
  (List.range (← getEnv e).pageWSMaxSize).forM fun k => do
    let elm := (← getEnv e).ptrPageWorkingSet k
    if elm.empty = false then
      let table ← deref (← getPageTable (← envPageDirectory e) elm.virtualAddress)
      let entry ← readWord table (ptx elm.virtualAddress)
      writeWord table (ptx elm.virtualAddress) (entry &&& ~~~permModified)

/-- The page of the initial stack.  The result of adding it to the page file is not
looked at. -/
def createStack (e : Nat) : Prog Unit := do
  let stackVa := ustackTop - pageSize
  let pp ← allocateFrame
  loadtimeMapFrame (← envPageDirectory e) pp stackVa (permUser ||| permWriteable)
  writePage (← kernelFrame stackVa) zeroes
  let k := (← getEnv e).pageLastWSIndex
  if k < (← getEnv e).pageWSMaxSize then
    modifyEnv e (Env.setWSElement stackVa)
    addToLists e k (uint32 (← getEnv e).activeListSize)
    nextWSIndex e
    let _ ← pfAddEmptyEnvPage e stackVa true
  else
    panic "assertion failed: entry_index >= 0 && entry_index < e->page_WS_max_size"

/-- The present bits of the pages of the second list are cleared. -/
def resetPresent (e : Nat) : Prog Unit := do
  let _ ← wsForeach (ρ := Unit) e .secondList
    (fun _ elm => do
      ptSetPagePermissions e (← virtualAddress e elm) 0 permPresent
      return .next ())
    wsPasses (← listFirst e .secondList) ()

def Env.setProgName (name : String) (env : Env) : Env := { env with progName := name }

/-- The sizes that `env_create` sets before the initialization. -/
def Env.setSizes (pageWSSize LRUSecondListSize : Nat) (env : Env) : Env :=
  { env with
    pageWSMaxSize := pageWSSize
    secondListSize := int32 LRUSecondListSize
    activeListSize := int32 (pageWSSize - LRUSecondListSize : Int) }

/-- The longest prefix of a name that `prog_name` holds. -/
def progNameOf (name : String) : String := String.ofList (name.toList.take 63)

/-- The address space of a new environment: the frame of its page directory and the
initialization.  The result is `phys_user_page_directory`. -/
def newSpace (e pageWSSize LRUSecondListSize : Nat) : Prog Nat := do
  let p ← allocateFrame
  setReferences p 1
  let dir ← staticKernelVirtualAddress (toPhysicalAddress p)
  modifyEnv e (Env.setSizes pageWSSize LRUSecondListSize)
  initializeEnvironment e dir (toPhysicalAddress p)
  return toPhysicalAddress p

/-- `env_create(user_program_name, page_WS_size, LRU_second_list_size, ...)` for a program
of the program table and the environment `e` that `allocate_environment` found. -/
def envCreate (e : Nat) (program : UserProgram) (pageWSSize LRUSecondListSize : Nat) :
    Prog Unit := do
  modifyEnv e (Env.setProgName (progNameOf program.name))
  let phys ← newSpace e pageWSSize LRUSecondListSize
  let kernPhysPgdir := (← get).globals.cr3
  lcr3 phys
  if program.elfMagic then
    loadSegments e program.segments (uint32 (pageWSSize - 1)) 0xFFFFFFFF
    clearModified e
    createStack e
    resetPresent e
    lcr3 kernPhysPgdir
  else
    panic "Matafa2nash 3ala Keda"

/-! ## Freeing an environment -/

/-- `wse->empty = 1`. -/
def Env.setEmpty (k : Nat) (env : Env) : Env :=
  env.setElement k { env.ptrPageWorkingSet k with empty := true }

/-- The loop of `env_free` over a list: its elements go back to the working set, and their
pages are unmapped. -/
def freeList (e : Nat) (list : WSList) : Prog Unit := do
  let _ ← wsForeach (ρ := Unit) e list
    (fun _ wse => do
      modifyEnv e (Env.setEmpty wse)
      modifyLists e (·.remove list wse)
      modifyLists e (·.insertHead .pageWorkingSetList wse)
      unmapFrame (← envPageDirectory e) (← virtualAddress e wse)
      return .next ())
    wsPasses (← listFirst e list) ()

/-- The loop of `env_free` over the page directory. -/
def freeTables (e : Nat) : Prog Unit :=
  userEntries.forM fun i => do
    let entry ← readWord (← envPageDirectory e) i
    if frameOf entry ≠ 0 then
      let frameInfo1 ← toFrameInfo (frameOf entry * pageSize)
      setReferences frameInfo1 0
      freeFrame frameInfo1

/-- `env_free(e)`; `free_environment` zeroes the structure. -/
def envFree (e : Nat) : Prog Unit := do
  freeList e .activeList
  freeList e .secondList
  freeTables e
  let frameInfo2 ← toFrameInfo (← getEnv e).envCr3
  setReferences frameInfo2 0
  freeFrame frameInfo2
  pfFreeEnv e
  modifyEnv e fun _ => Env.zero

/-! ## The system calls -/

/-- `allocateMem(e, virtual_address, size)`.  The result of adding a page to the page file
is not looked at. -/
def allocateMem (e virtualAddress size : Nat) : Prog Unit :=
  (List.range (size / pageSize + if size % pageSize ≠ 0 then 1 else 0)).forM fun i => do
    let _ ← pfAddEmptyEnvPage e ((virtualAddress + i * pageSize) % word32) false

/-- What `freeMem` does with an element of the active list that holds the page: the element
leaves the list and is not put into another one, the newest page of the second list takes
its place, and the page is unmapped. -/
def freeActive (e va ptrWSElement : Nat) : Prog Unit := do
  modifyLists e (·.remove .activeList ptrWSElement)
  if (← listSize e .secondList) > 0 then
    let first ← deref (← listFirst e .secondList)
    modifyLists e (·.remove .secondList first)
    modifyLists e (·.insertTail .activeList first)
    ptSetPagePermissions e (← virtualAddress e first) permPUW 0
  unmapFrame (← envPageDirectory e) va

/-- The loop of `freeMem` over the second list; the result is `found`. -/
def freeSecond (e va : Nat) : Prog (Pass Bool Unit) := do
  wsForeach e .secondList
    (fun found ptrWSElement => do
      if (← virtualAddress e ptrWSElement) = va then
        modifyLists e (·.remove .secondList ptrWSElement)
        modifyLists e (·.insertHead .pageWorkingSetList ptrWSElement)
        unmapFrame (← envPageDirectory e) va
        return .next true
      else
        return .next found)
    wsPasses (← listFirst e .secondList) false

/-- A pass of the loop of `freeMem` over the pages.  The loop over the second list is inside
the one over the active list. -/
def freePage (e va : Nat) : Prog Unit := do
  pfRemoveEnvPage e va
  let _ ← wsForeach (ρ := Unit) e .activeList
    (fun found ptrWSElement => do
      let found ← if (← virtualAddress e ptrWSElement) = va then do
          freeActive e va ptrWSElement
          pure true
        else
          pure found
      if found then
        return .next true
      else
        freeSecond e va)
    wsPasses (← listFirst e .activeList) false

/-- A pass of the last loop of `freeMem`: a page table without entries is freed. -/
def freeEmptyTable (e va : Nat) : Prog Unit := do
  let dir ← envPageDirectory e
  match ← getPageTable dir va with
  | none => return
  | some table =>
    let s ← get
    if tableEntries.all fun j => s.mem table j = 0 then
      let pa := frameOf (← readWord dir (pdx va)) * pageSize
      freeFrame (← toFrameInfo pa)
      pdClearPageDirEntry e va

/-- The last loop of `freeMem`.  After 1024 passes the address is the first one again. -/
def freeEmptyTables (e endVa : Nat) : Nat → Nat → Prog Unit
  | 0, _ => throw .spins
  | passes + 1, va => do
    if va ≤ endVa then
      freeEmptyTable e va
      freeEmptyTables e endVa passes ((va + ptSize) % word32)

/-- `freeMem(e, virtual_address, size)`. -/
def freeMem (e virtualAddress size : Nat) : Prog Unit := do
  (List.range (roundUp size / pageSize)).forM fun i =>
    freePage e ((virtualAddress + i * pageSize) % word32)
  freeEmptyTables e ((virtualAddress + size) % word32) 1025 virtualAddress

/-- The first loop of `calculate_required_frames`: the tables that do not exist.  After 1024
passes the address is the first one again. -/
def countMissingTables (dir endVa : Nat) : Nat → Nat → Nat → Prog Nat
  | 0, _, _ => throw .spins
  | passes + 1, currentVirtualAddress, numberOfTables => do
    if currentVirtualAddress < endVa then
      let table ← getPageTable dir currentVirtualAddress
      countMissingTables dir endVa passes ((currentVirtualAddress + ptSize) % word32)
        (if table = none then numberOfTables + 1 else numberOfTables)
    else
      return numberOfTables

/-- The second loop of `calculate_required_frames`: the pages that are not mapped.  After
2^20 passes the address is the first one again. -/
def countMissingPages (dir endVa : Nat) : Nat → Nat → Nat → Prog Nat
  | 0, _, _ => throw .spins
  | passes + 1, currentVirtualAddress, numberOfPages => do
    if currentVirtualAddress < endVa then
      let (info, _) ← getFrameInfo dir currentVirtualAddress
      countMissingPages dir endVa passes ((currentVirtualAddress + pageSize) % word32)
        (if info = none then numberOfPages + 1 else numberOfPages)
    else
      return numberOfPages

/-- `calculate_required_frames(ptr_page_directory, start_virtual_address, size)`. -/
def calculateRequiredFrames (ptrPageDirectory startVirtualAddress size : Nat) : Prog Nat := do
  let endVa := (startVirtualAddress + size) % word32
  let numberOfTables ← countMissingTables ptrPageDirectory endVa 1025
    (startVirtualAddress - startVirtualAddress % ptSize) 0
  let numberOfPages ← countMissingPages ptrPageDirectory endVa (2 ^ 20 + 1)
    (roundDown startVirtualAddress) 0
  return numberOfTables + numberOfPages

/-- `__sys_allocate_page(va, perm)`; the frame is taken before the arguments are checked. -/
def sysAllocatePage (va : Nat) (perm : Word) : Prog Int := do
  let e ← deref (← get).globals.curenv
  let ptrFrameInfo ← allocateFrame
  if va ≥ userTop ∨ va % pageSize ≠ 0 then
    return eInval
  else if perm &&& (~~~permAvailable &&& ~~~permWriteable) ≠ permUser then
    return eInval
  else
    writePage (← staticKernelVirtualAddress (toPhysicalAddress ptrFrameInfo)) zeroes
    mapFrame (← envPageDirectory e) ptrFrameInfo va perm
    return 0

/-- `env_run(e)`, as far as memory is concerned. -/
def envRun (e : Nat) : Prog Unit := do
  if (← get).globals.curenv ≠ some e then
    modify fun s => s.setGlobals { s.globals with curenv := some e }
    lcr3 (← getEnv e).envCr3

end Fos
