import Fos.Memory.Frames

/-!
# The page file

`kern/file_manager.c`: the disk frame allocator, the disk page directories and disk
page tables of the environments, and the operations on pages of the page file.
An entry of a disk page table is the number of a disk frame, 0 for an absent page.
-/

namespace Fos

open Linked

/-- `LIST_REMOVE(&disk_free_frame_list, ptr_frame_info)`, and then
`initialize_frame_info(ptr_frame_info)`. -/
def Kernel.removeDiskFrame (s : Kernel) (d : Nat) : Kernel :=
  { s with
    diskLinks := ((listRemove s.diskLinks s.diskFreeFrameList d).1.setNext d none).setPrev d none
    diskFreeFrameList := (listRemove s.diskLinks s.diskFreeFrameList d).2 }

/-- `allocate_disk_frame(&dfn)`: the frame, or `E_NO_PAGE_FILE_SPACE`. -/
def allocateDiskFrame : Prog (Option Nat) := do
  match (← get).diskFreeFrameList.lhFirst with
  | none => return none
  | some d =>
    modify (·.removeDiskFrame d)
    return some d

/-- `LIST_INSERT_HEAD(&disk_free_frame_list, &disk_frames_info[dfn])`. -/
def Kernel.insertDiskFrame (s : Kernel) (d : Nat) : Kernel :=
  { s with
    diskLinks := (listInsertHead s.diskLinks s.diskFreeFrameList d).1
    diskFreeFrameList := (listInsertHead s.diskLinks s.diskFreeFrameList d).2 }

/-- `free_disk_frame(dfn)`. -/
def freeDiskFrame (dfn : Word) : Prog Unit := do
  if dfn = 0 then return
  else modify (·.insertDiskFrame dfn.toNat)

/-- `get_disk_page_table(ptr_disk_page_directory, virtual_address, 1, &ptr_disk_page_table)`,
which creates a table that does not exist. -/
def createDiskPageTable (dir va : Nat) : Prog Nat := do
  let entry ← readWord dir (pdx va)
  let old ← staticKernelVirtualAddress (extractAddress entry)
  if entry = 0 then
    let f ← allocateFrame
    let table ← staticKernelVirtualAddress (toPhysicalAddress f)
    setReferences f 1
    writeWord dir (pdx va) (constructEntry (toPhysicalAddress f) permPresent)
    writePage table zeroes
    return table
  else
    return old

/-- `get_disk_page_table(ptr_disk_page_directory, virtual_address, 0, &ptr_disk_page_table)`. -/
def getDiskPageTable (dir va : Nat) : Prog (Option Nat) := do
  let entry ← readWord dir (pdx va)
  let table ← staticKernelVirtualAddress (extractAddress entry)
  if entry = 0 then return none else return some table

/-- Setting `disk_env_pgdir` and `disk_env_pgdir_PA`. -/
def Env.setDiskDir (f : Nat) (env : Env) : Env :=
  { env with diskEnvPgdir := some f, diskEnvPgdirPA := toPhysicalAddress f }

/-- Clearing `disk_env_pgdir` and `disk_env_pgdir_PA`. -/
def Env.clearDiskDir (env : Env) : Env := { env with diskEnvPgdir := none, diskEnvPgdirPA := 0 }

/-- `ptr_env->nPageOut++`. -/
def Env.countOut (env : Env) : Env := { env with nPageOut := (env.nPageOut + 1) % word32 }

/-- `ptr_env->nPageIn++`. -/
def Env.countIn (env : Env) : Env := { env with nPageIn := (env.nPageIn + 1) % word32 }

/-- `get_disk_page_directory(ptr_env, &(ptr_env->disk_env_pgdir))`, as the directory that
`ptr_env->disk_env_pgdir` points to afterwards. -/
def getDiskPageDirectory (e : Nat) : Prog Nat := do
  match (← getEnv e).diskEnvPgdir with
  | some dir => return dir
  | none =>
    let f ← allocateFrame
    setReferences f 1
    let dir ← staticKernelVirtualAddress (toPhysicalAddress f)
    modifyEnv e (Env.setDiskDir dir)
    writePage dir zeroes
    return dir

/-- The disk frame of a page, allocated if the page has none: the part that
`pf_add_empty_env_page` and `pf_add_env_page` share. -/
def diskFrameFor (e va : Nat) : Prog (Option Nat) := do
  if va ≥ kernelBase then
    panic "assertion failed: (uint32)virtual_address < KERNEL_BASE"
  else
    let dir ← getDiskPageDirectory e
    let table ← createDiskPageTable dir va
    let dfn ← readWord table (ptx va)
    if dfn = 0 then
      match ← allocateDiskFrame with
      | none => return none
      | some d =>
        writeWord table (ptx va) (BitVec.ofNat 32 d)
        return some d
    else
      return some dfn.toNat

/-- `pf_add_env_page(ptr_env, virtual_address, dataSrc)` with the page at `dataSrc`. -/
def pfAddEnvPage (e va : Nat) (data : Page) : Prog Int := do
  match ← diskFrameFor e va with
  | none => return eNoPageFileSpace
  | some dfn => writeDiskPage dfn data

/-- The frames of `ptr_zero_page` and `ptr_temp_page`. -/
abbrev zeroPage : Nat := 1

@[inherit_doc zeroPage] abbrev tempPage : Nat := 2

/-- `pf_add_empty_env_page(ptr_env, virtual_address, initializeByZero)`. -/
def pfAddEmptyEnvPage (e va : Nat) (initializeByZero : Bool) : Prog Int := do
  if initializeByZero then
    pfAddEnvPage e va ((← get).mem zeroPage)
  else
    match ← diskFrameFor e va with
    | none => return eNoPageFileSpace
    | some _ => return 0

/-- `pf_update_env_page(ptr_env, virtual_address, modified_page_frame_info)`. -/
def pfUpdateEnvPage (e va modifiedPageFrameInfo : Nat) : Prog Int := do
  modifyEnv e Env.countOut
  if va ≥ kernelBase then
    panic "assertion failed: (uint32)virtual_address < KERNEL_BASE"
  else
    let dir ← getDiskPageDirectory e
    match ← getDiskPageTable dir va with
    | none => return ePageNotExistInPF
    | some table =>
      let dfn ← readWord table (ptx va)
      if dfn = 0 then
        return ePageNotExistInPF
      else
        let src ← staticKernelVirtualAddress (toPhysicalAddress modifiedPageFrameInfo)
        writeDiskPage dfn.toNat ((← get).mem src)

/-- `pf_read_env_page(ptr_env, virtual_address)`. -/
def pfReadEnvPage (e va : Nat) : Prog Int := do
  modifyEnv e Env.countIn
  let va := roundDown va
  match (← getEnv e).diskEnvPgdir with
  | none => return ePageNotExistInPF
  | some dir =>
    match ← getDiskPageTable dir va with
    | none => return ePageNotExistInPF
    | some table =>
      let dfn ← readWord table (ptx va)
      if dfn = 0 then
        return ePageNotExistInPF
      else
        let diskReadError ← readDiskPage dfn.toNat va
        ptSetPagePermissions (← deref (← get).globals.curenv) va 0 permModified
        return diskReadError

/-- `pf_remove_env_page(ptr_env, virtual_address)`. -/
def pfRemoveEnvPage (e va : Nat) : Prog Unit := do
  match (← getEnv e).diskEnvPgdir with
  | none => return
  | some dir =>
    match ← getDiskPageTable dir va with
    | none => return
    | some table =>
      let dfn ← readWord table (ptx va)
      writeWord table (ptx va) 0
      freeDiskFrame dfn

/-- The indices of a table, in the order of the loops. -/
@[irreducible] def tableEntries : List (Fin 1024) := List.finRange 1024

/-- The indices of the page directory entries below `USER_TOP`. -/
@[irreducible] def userEntries : List (Fin 1024) := (List.finRange 1024).filter (· < 955)

/-- The page table `pt` of a pass of `pf_free_env`: every disk frame in it is freed. -/
def pfFreeTable (pt : Nat) : Prog Unit :=
  tableEntries.forM fun pteno => do
    let dfn ← readWord pt pteno
    writeWord pt pteno 0
    freeDiskFrame dfn

/-- The loop of `pf_free_env` over the disk page directory. -/
def pfFreeTables (e : Nat) : Prog Unit :=
  userEntries.forM fun pdeno => do
    let dir ← deref (← getEnv e).diskEnvPgdir
    let entry ← readWord dir pdeno
    if entry &&& permPresent ≠ 0 then
      let pa := extractAddress entry
      let pt ← staticKernelVirtualAddress pa
      pfFreeTable pt
      writeWord dir pdeno 0
      decrementReferences (← toFrameInfo pa)

/-- `pf_free_env(ptr_env)`; no environment has a directory of tables on disk. -/
def pfFreeEnv (e : Nat) : Prog Unit := do
  pfFreeTables e
  decrementReferences (← toFrameInfo (← getEnv e).diskEnvPgdirPA)
  modifyEnv e Env.clearDiskDir

/-- The nonzero entries of a disk page table. -/
def countEntries (p : Page) : Nat := tableEntries.countP fun i => p i ≠ 0

/-- `pf_calculate_allocated_pages(ptr_env)`. -/
def pfCalculateAllocatedPages (e : Nat) : Prog Nat :=
  userEntries.foldlM
    (fun counter pdIndex => do
      let dir ← deref (← getEnv e).diskEnvPgdir
      let entry ← readWord dir pdIndex
      if entry &&& permPresent ≠ 0 then
        let pt ← staticKernelVirtualAddress (extractAddress entry)
        return counter + countEntries ((← get).mem pt)
      else
        return counter)
    0

end Fos
