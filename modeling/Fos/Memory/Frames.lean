import Fos.Memory.Kernel

/-!
# Frames and page tables

The frame allocator of `kern/memory_manager.c` and the functions that map and unmap
frames and change the bits of page table entries.  `USE_KHEAP` is 0 and page buffering
is off, so no frame is ever buffered.

* `takeFrame_rep`, `freeFrame_rep`: the free list under `allocate_frame` and `free_frame`.
-/

namespace Fos

open Linked

/-- `initialize_frame_info(ptr_frame_info)`. -/
def Kernel.initializeFrameInfo (s : Kernel) (f : Nat) : Kernel :=
  { s with
    references := Function.update s.references f 0
    frameLinks := (s.frameLinks.setNext f none).setPrev f none }

/-- `LIST_REMOVE(&free_frame_list, ptr_frame_info)`. -/
def Kernel.removeFrame (s : Kernel) (f : Nat) : Kernel :=
  { s with
    frameLinks := (listRemove s.frameLinks s.freeFrameList f).1
    freeFrameList := (listRemove s.frameLinks s.freeFrameList f).2 }

/-- `LIST_INSERT_HEAD(&free_frame_list, ptr_frame_info)`. -/
def Kernel.insertFrame (s : Kernel) (f : Nat) : Kernel :=
  { s with
    frameLinks := (listInsertHead s.frameLinks s.freeFrameList f).1
    freeFrameList := (listInsertHead s.frameLinks s.freeFrameList f).2 }

/-- `ptr_frame_info->references = n`. -/
def Kernel.setReferences (s : Kernel) (f : Nat) (n : BitVec 16) : Kernel :=
  { s with references := Function.update s.references f n }

def setReferences (f : Nat) (n : BitVec 16) : Prog Unit := modify (·.setReferences f n)

/-- `allocate_frame(&ptr_frame_info)`, which returns 0 or panics. -/
def allocateFrame : Prog Nat := do
  match (← get).freeFrameList.lhFirst with
  | none =>
    panic "ERROR: Kernel run out of memory... allocate_frame cannot find a free frame.\n"
  | some f =>
    modify (·.removeFrame f)
    modify (·.initializeFrameInfo f)
    return f

/-- `free_frame(ptr_frame_info)`. -/
def freeFrame (f : Nat) : Prog Unit := do
  modify (·.initializeFrameInfo f)
  modify (·.insertFrame f)

/-- `decrement_references(ptr_frame_info)`. -/
def decrementReferences (f : Nat) : Prog Unit := do
  setReferences f ((← get).references f - 1)
  if (← get).references f = 0 then
    freeFrame f

/-- `get_page_table(ptr_page_directory, virtual_address, &ptr_page_table)`: the table, or
null for `TABLE_NOT_EXIST`.  For a table that is not in memory it calls
`fault_handler(NULL)`, which follows the null pointer. -/
def getPageTable (dir va : Nat) : Prog (Option Nat) := do
  let entry ← readWord dir (pdx va)
  let table ← staticKernelVirtualAddress (extractAddress entry)
  if entry &&& permPresent = permPresent then
    return some table
  else if entry ≠ 0 then
    throw .crash
  else
    return none

/-- `__static_cpt(ptr_page_directory, virtual_address, &ptr_page_table)`. -/
def staticCpt (dir va : Nat) : Prog Nat := do
  let f ← allocateFrame
  let table ← staticKernelVirtualAddress (toPhysicalAddress f)
  setReferences f 1
  writeWord dir (pdx va)
    (constructEntry (toPhysicalAddress f) (permPresent ||| permUser ||| permWriteable))
  writePage table zeroes
  return table

/-- `get_frame_info(ptr_page_directory, virtual_address, &ptr_page_table)`: the frame, if
the entry is not zero, and the table, if there is one. -/
def getFrameInfo (dir va : Nat) : Prog (Option Nat × Option Nat) := do
  match ← getPageTable dir va with
  | none => return (none, none)
  | some table =>
    let entry ← readWord table (ptx va)
    if entry ≠ 0 then
      return (some (← toFrameInfo (extractAddress entry)), some table)
    else
      return (none, some table)

/-- `unmap_frame(ptr_page_directory, virtual_address)`. -/
def unmapFrame (dir va : Nat) : Prog Unit := do
  match ← getFrameInfo dir va with
  | (some f, some table) =>
    decrementReferences f
    writeWord table (ptx va) 0
  | _ => return

/-- The page table for `va`, created if there is none. -/
def tableFor (dir va : Nat) : Prog Nat := do
  match ← getPageTable dir va with
  | some table => return table
  | none => staticCpt dir va

/-- `map_frame(ptr_page_directory, ptr_frame_info, virtual_address, perm)`, which
returns 0. -/
def mapFrame (dir f va : Nat) (perm : Word) : Prog Unit := do
  let table ← tableFor dir va
  let entry ← readWord table (ptx va)
  if entry &&& permPresent = permPresent ∧ extractAddress entry = toPhysicalAddress f then
    return
  else
    if entry &&& permPresent = permPresent then
      unmapFrame dir va
    setReferences f ((← get).references f + 1)
    writeWord table (ptx va) (constructEntry (toPhysicalAddress f) (perm ||| permPresent))

/-- `loadtime_map_frame(ptr_page_directory, ptr_frame_info, virtual_address, perm)`, which
does not look at the old entry. -/
def loadtimeMapFrame (dir f va : Nat) (perm : Word) : Prog Unit := do
  let entry ← readWord dir (pdx va)
  let old ← staticKernelVirtualAddress (extractAddress entry)
  let table ← if entry = 0 then staticCpt dir va else pure old
  setReferences f ((← get).references f + 1)
  writeWord table (ptx va) (constructEntry (toPhysicalAddress f) (perm ||| permPresent))

/-- `pt_set_page_permissions(ptr_env, virtual_address, permissions_to_set,
permissions_to_clear)`.  No environment has a directory of tables on disk, so that
`__pf_read_env_table` finds none. -/
def ptSetPagePermissions (e va : Nat) (permissionsToSet permissionsToClear : Word) :
    Prog Unit := do
  let dir ← envPageDirectory e
  let entry ← readWord dir (pdx va)
  if entry &&& permPresent = permPresent then
    let table ← staticKernelVirtualAddress (extractAddress entry)
    writeWord table (ptx va) ((← readWord table (ptx va)) ||| permissionsToSet)
    writeWord table (ptx va) ((← readWord table (ptx va)) &&& ~~~permissionsToClear)
  else if entry ≠ 0 then
    panic ("pt_set_page_permissions: table not found in PF when expected to find one !. please " ++
      "revise your table fault\t\t\thandling code")
  else
    panic ("function pt_set_page_permissions() called with invalid virtual address. The " ++
      "corresponding page table doesn't exist\n")

/-- `pt_get_page_permissions(ptr_env, virtual_address)`. -/
def ptGetPagePermissions (e va : Nat) : Prog Word := do
  let dir ← envPageDirectory e
  let entry ← readWord dir (pdx va)
  if entry &&& permPresent = permPresent then
    let table ← staticKernelVirtualAddress (extractAddress entry)
    return (← readWord table (ptx va)) &&& 0xFFF
  else if entry ≠ 0 then
    panic ("pt_get_page_permissions: table not found in PF when expected to find one !. please " ++
      "revise your table fault\t\t\thandling code")
  else
    return 0

/-- `pd_clear_page_dir_entry(ptr_env, virtual_address)`. -/
def pdClearPageDirEntry (e va : Nat) : Prog Unit := do
  writeWord (← envPageDirectory e) (pdx va) 0

/-! ## The free list -/

/-- The state after `allocate_frame` has taken the first free frame. -/
def Kernel.takeFrame (s : Kernel) (f : Nat) : Kernel := (s.removeFrame f).initializeFrameInfo f

variable {s : Kernel} {h : ListHead Nat} {free rest : List Nat} {f g : Nat}

theorem initializeFrameInfo_links (ne : g ≠ f) :
    (s.initializeFrameInfo f).frameLinks.next g = s.frameLinks.next g ∧
      (s.initializeFrameInfo f).frameLinks.prev g = s.frameLinks.prev g :=
  ⟨Links.setNext_next_of_ne _ none ne, Links.setPrev_prev_of_ne _ none ne⟩

/-- A frame that is not on a list is cleared. -/
theorem rep_initializeFrameInfo (list : h.Rep s.frameLinks free) (notin : f ∉ free) :
    h.Rep (s.initializeFrameInfo f).frameLinks free :=
  list.congr (fun _ mem => (initializeFrameInfo_links (ne_of_mem_of_not_mem mem notin)).1)
    fun _ mem => (initializeFrameInfo_links (ne_of_mem_of_not_mem mem notin)).2

/-- `allocate_frame` takes the first free frame off the list. -/
theorem takeFrame_rep (list : s.freeFrameList.Rep s.frameLinks (f :: rest)) :
    (s.takeFrame f).freeFrameList.Rep (s.takeFrame f).frameLinks rest := by
  have notin := (List.nodup_cons.mp list.nodup).1
  have removed := rep_remove (show s.freeFrameList.Rep s.frameLinks ([] ++ f :: rest) from list)
  exact @rep_initializeFrameInfo (s.removeFrame f) _ rest f removed notin

/-- `free_frame` puts a frame at the head of the list. -/
theorem freeFrame_rep (list : s.freeFrameList.Rep s.frameLinks free) (notin : f ∉ free) :
    ((s.initializeFrameInfo f).insertFrame f).freeFrameList.Rep
      ((s.initializeFrameInfo f).insertFrame f).frameLinks (f :: free) :=
  rep_insertHead (rep_initializeFrameInfo list notin) notin

/-- It writes the links of that frame and of the first one only. -/
theorem freeFrame_links (list : s.freeFrameList.Rep s.frameLinks free) (notin : f ∉ free)
    (other : g ∉ f :: free) :
    ((s.initializeFrameInfo f).insertFrame f).frameLinks.next g = s.frameLinks.next g ∧
      ((s.initializeFrameInfo f).insertFrame f).frameLinks.prev g = s.frameLinks.prev g := by
  have ne : g ≠ f := fun same => other (same ▸ List.mem_cons_self)
  obtain ⟨next, prev⟩ := insertHead_frame (rep_initializeFrameInfo list notin) other
  obtain ⟨next', prev'⟩ := @initializeFrameInfo_links s f g ne
  exact ⟨next.trans next', prev.trans prev'⟩

end Fos
