import Fos.Memory.Entry
import Fos.Queue

/-!
# The state of the memory manager

Physical memory, the frame table, the two free lists, the disk and the `Env`
structures, as the kernel of `kern/memory_manager.c`, `kern/file_manager.c` and
`kern/trap.c` sees them.  Page directories and page tables lie in physical frames;
a pointer to one is the number of its frame, since the kernel reaches every frame
at its physical address plus `KERNEL_BASE`.

Kernel functions are programs that change the state and return, or stop: in
`panic`, at a null or wild pointer, or in a loop without end.
-/

namespace Fos

open Linked

/-- The lists that thread the `prev_next_info` member of a working-set element. -/
inductive WSList where
  | pageWorkingSetList
  | activeList
  | secondList
  deriving DecidableEq

/-- `struct WorkingSetElement`, less its links. -/
structure WorkingSetElement where
  virtualAddress : Nat
  empty : Bool

/-- The members of `struct Env` that memory management reads or writes.  The nodes of
`lists` are the indices of `ptr_pageWorkingSet`. -/
structure Env where
  envPageDirectory : Option Nat
  envCr3 : Nat
  diskEnvPgdir : Option Nat
  diskEnvPgdirPA : Nat
  pageWSMaxSize : Nat
  ptrPageWorkingSet : Nat → WorkingSetElement
  ptrTws : Nat → WorkingSetElement
  pageLastWSIndex : Nat
  tableLastWSIndex : Nat
  pageFaultsCounter : Nat
  tableFaultsCounter : Nat
  nPageIn : Nat
  nPageOut : Nat
  progName : String
  lists : Lists WSList Nat
  activeListSize : Int
  secondListSize : Int

/-- A list head in zeroed memory. -/
def ListHead.zero {α : Type} : ListHead α := ⟨none, none, none, 0⟩

theorem rep_zero (L : Links Nat) : (ListHead.zero : ListHead Nat).Rep L [] :=
  ⟨rfl, rfl, trivial, List.nodup_nil, rfl⟩

/-- `memset(e, 0, sizeof(*e))`. -/
def Env.zero : Env where
  envPageDirectory := none
  envCr3 := 0
  diskEnvPgdir := none
  diskEnvPgdirPA := 0
  pageWSMaxSize := 0
  ptrPageWorkingSet _ := ⟨0, false⟩
  ptrTws _ := ⟨0, false⟩
  pageLastWSIndex := 0
  tableLastWSIndex := 0
  pageFaultsCounter := 0
  tableFaultsCounter := 0
  nPageIn := 0
  nPageOut := 0
  progName := ""
  lists := ⟨⟨fun _ => none, fun _ => none⟩, fun _ => ListHead.zero⟩
  activeListSize := 0
  secondListSize := 0

/-- What lies outside physical memory and the frame table: the size of memory, the frame
of the kernel's page directory, the address of `envs`, the sectors of the disk, the
environments, and the register `CR3`. -/
structure Globals where
  numberOfFrames : Nat
  ptrPageDirectory : Nat
  envsAddress : Nat
  disk : Nat → Fin 128 → Word
  envs : Nat → Env
  curenv : Option Nat
  cr3 : Nat

/-- The state: physical memory, the members of `frames_info`, `free_frame_list`,
`disk_free_frame_list` with the links of `disk_frames_info`, and the rest. -/
structure Kernel where
  mem : Nat → Page
  references : Nat → BitVec 16
  frameLinks : Links Nat
  freeFrameList : ListHead Nat
  diskLinks : Links Nat
  diskFreeFrameList : ListHead Nat
  globals : Globals

/-- Why a program does not return. -/
inductive Stop where
  | panic (message : String)
  | crash
  | spins
  deriving DecidableEq

/-- A kernel function. -/
abbrev Prog := EStateM Stop Kernel

/-! ## Error codes -/

def eInval : Int := -3
def eNoPageFileSpace : Int := -8
def ePageNotExistInPF : Int := -9

/-! ## Reading and writing -/

/-- `panic(message)`. -/
def panic {α : Type} (message : String) : Prog α := throw (.panic message)

/-- Following a pointer, which stops at a null one. -/
def deref {α : Type} : Option α → Prog α
  | some x => pure x
  | none => throw .crash

/-- The word at index `i` of the frame `f`. -/
def readWord (f : Nat) (i : Fin 1024) : Prog Word := return (← get).mem f i

/-- Overwriting a frame. -/
def Kernel.setPage (s : Kernel) (f : Nat) (p : Page) : Kernel :=
  { s with mem := Function.update s.mem f p }

/-- Overwriting one word. -/
def Kernel.setWord (s : Kernel) (f : Nat) (i : Fin 1024) (w : Word) : Kernel :=
  s.setPage f (Function.update (s.mem f) i w)

def writeWord (f : Nat) (i : Fin 1024) (w : Word) : Prog Unit := modify (·.setWord f i w)

def writePage (f : Nat) (p : Page) : Prog Unit := modify (·.setPage f p)

/-- Changing the globals. -/
def Kernel.setGlobals (s : Kernel) (g : Globals) : Kernel := { s with globals := g }

/-- Changing one environment. -/
def Globals.setEnv (g : Globals) (e : Nat) (f : Env → Env) : Globals :=
  { g with envs := Function.update g.envs e (f (g.envs e)) }

def getEnv (e : Nat) : Prog Env := return (← get).globals.envs e

def modifyEnv (e : Nat) (f : Env → Env) : Prog Unit :=
  modify fun s => s.setGlobals (s.globals.setEnv e f)

def Env.setLists (env : Env) (lists : Lists WSList Nat) : Env := { env with lists := lists }

/-- Changing the lists of an environment. -/
def modifyLists (e : Nat) (f : Lists WSList Nat → Lists WSList Nat) : Prog Unit :=
  modifyEnv e fun env => env.setLists (f env.lists)

/-- The index range of `ptr_pageWorkingSet`. -/
def checkElement (k : Nat) : Prog Unit :=
  if k < pwsMaxSize then pure () else throw .crash

def Env.setElement (env : Env) (k : Nat) (elm : WorkingSetElement) : Env :=
  { env with ptrPageWorkingSet := Function.update env.ptrPageWorkingSet k elm }

/-- `to_physical_address(ptr_frame_info)`. -/
def toPhysicalAddress (f : Nat) : Nat := f * pageSize

/-- `STATIC_KERNEL_VIRTUAL_ADDRESS(pa)`, as the frame it points to. -/
def staticKernelVirtualAddress (pa : Nat) : Prog Nat := do
  if ppn pa ≥ (← get).globals.numberOfFrames then
    panic "K_VIRTUAL_ADDRESS called with invalid pa"
  else
    return ppn pa

/-- `to_frame_info(physical_address)`, as the number of the frame. -/
def toFrameInfo (pa : Nat) : Prog Nat := do
  if ppn pa ≥ (← get).globals.numberOfFrames then
    panic "to_frame_info called with invalid pa"
  else
    return ppn pa

/-- The page directory of an environment. -/
def envPageDirectory (e : Nat) : Prog Nat := do deref (← getEnv e).envPageDirectory

/-! ## The hardware -/

/-- The walk of the page tables for an access to `va`: the accessed and dirty bits are set
and the frame is found, or the access faults.  Write protection holds for the kernel
too, since `CR0_WP` is set. -/
def translate (va : Nat) (userMode write : Bool) : Prog (Option Nat) := do
  let s ← get
  let dir := ppn s.globals.cr3
  let pde := s.mem dir (pdx va)
  let pte := s.mem (frameOf pde) (ptx va)
  if present pde ∧ present pte ∧ (write → writeable pde ∧ writeable pte) ∧
      (userMode → user pde ∧ user pte) then
    writeWord dir (pdx va) (pde ||| permUsed)
    writeWord (frameOf pde) (ptx va) (pte ||| permUsed ||| if write then permModified else 0)
    return some (frameOf pte)
  else
    return none

/-- `lcr3(pa)`. -/
def lcr3 (pa : Nat) : Prog Unit := modify fun s => s.setGlobals { s.globals with cr3 := pa }

/-- A kernel access to a user address that is not mapped does not come back. -/
def kernelFrame (va : Nat) : Prog Nat := do
  deref (← translate va false true)

/-! ## The disk -/

/-- `PAGE_FILE_START_SECTOR`. -/
abbrev pageFileStartSector : Nat := 40960

/-- `SECTOR_PER_PAGE`. -/
abbrev sectorPerPage : Nat := 8

/-- `PAGES_PER_FILE`. -/
abbrev pagesPerFile : Nat := 133120

/-- `df_start_sector`. -/
def startSector (dfn : Nat) : Nat := (pageFileStartSector + dfn * sectorPerPage) % word32

/-- The page that the eight sectors from `secno` on hold. -/
def sectorsPage (disk : Nat → Fin 128 → Word) (secno : Nat) : Page :=
  fun i => disk (secno + i / 128) ⟨i % 128, Nat.mod_lt _ (by decide)⟩

/-- The sectors after a page is written to the eight from `secno` on. -/
def writeSectors (disk : Nat → Fin 128 → Word) (secno : Nat) (p : Page) :
    Nat → Fin 128 → Word :=
  fun sector i =>
    if h : secno ≤ sector ∧ sector < secno + sectorPerPage then
      p ⟨(sector - secno) * 128 + i, by simp only [sectorPerPage] at h; omega⟩
    else
      disk sector i

/-- `ide_read(secno, va, SECTOR_PER_PAGE)` to a user address. -/
def ideRead (secno va : Nat) : Prog Unit := do
  let f ← kernelFrame va
  writePage f (sectorsPage (← get).globals.disk secno)

/-- `ide_write(secno, src, SECTOR_PER_PAGE)` of the page `p`. -/
def ideWrite (secno : Nat) (p : Page) : Prog Unit :=
  modify fun s => s.setGlobals { s.globals with disk := writeSectors s.globals.disk secno p }

/-- `read_disk_page(dfn, va)`; the transfer succeeds. -/
def readDiskPage (dfn va : Nat) : Prog Int := do
  ideRead (startSector dfn) va
  return 0

/-- `write_disk_page(dfn, va)` of the page at `va`; the transfer succeeds. -/
def writeDiskPage (dfn : Nat) (p : Page) : Prog Int := do
  ideWrite (startSector dfn) p
  return 0

/-! ## `LIST_FOREACH` over the lists of an environment -/

/-- The passes that a loop over at most `__PWS_MAX_SIZE` elements can need. -/
abbrev wsPasses : Nat := pwsMaxSize + 1

/-- How a pass of a loop ends: with the loop's local variable for the next one, or by
leaving the function. -/
inductive Pass (β ρ : Type) where
  | next (b : β)
  | leave (r : ρ)

/-- `LIST_FOREACH(var, &e->list) body`, where the body has a local variable and may leave
the function.  The successor is saved in the list head before the body runs and read back
after it. -/
def wsForeach {β ρ : Type} (e : Nat) (list : WSList) (body : β → Nat → Prog (Pass β ρ)) :
    Nat → Option Nat → β → Prog (Pass β ρ)
  | 0, _, _ => throw .spins
  | fuel + 1, var, b => do
    modifyLists e fun S => S.savePtrNext list (var.bind S.links.next)
    match var with
    | none => return .next b
    | some x =>
      match ← body b x with
      | .leave r => return .leave r
      | .next b => wsForeach e list body fuel ((← getEnv e).lists.head list).ptrNext b

/-- `LIST_SIZE(&e->list)`. -/
def listSize (e : Nat) (list : WSList) : Prog Nat :=
  return ((← getEnv e).lists.head list).size.toNat

/-- `LIST_FIRST(&e->list)`. -/
def listFirst (e : Nat) (list : WSList) : Prog (Option Nat) :=
  return ((← getEnv e).lists.head list).lhFirst

/-- `LIST_LAST(&e->list)`. -/
def listLast (e : Nat) (list : WSList) : Prog (Option Nat) :=
  return ((← getEnv e).lists.head list).lhLast

end Fos
