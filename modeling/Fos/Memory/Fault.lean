import Fos.Memory.PageFile

/-!
# Page faults

The fault handler of `kern/trap.c` under the lists approximation of LRU
(`PG_REP_LRU_LISTS_APPROX`), with page buffering off, and the accesses of a user program
that cause the faults.
-/

namespace Fos

def Env.countPageFault (env : Env) : Env :=
  { env with pageFaultsCounter := (env.pageFaultsCounter + 1) % word32 }

def Env.countTableFault (env : Env) : Env :=
  { env with tableFaultsCounter := (env.tableFaultsCounter + 1) % word32 }

/-- `ptr_pageWorkingSet[k].virtual_address = va`. -/
def Env.setVirtualAddress (k va : Nat) (env : Env) : Env :=
  env.setElement k { env.ptrPageWorkingSet k with virtualAddress := va }

/-- `elm->virtual_address`. -/
def virtualAddress (e k : Nat) : Prog Nat :=
  return ((← getEnv e).ptrPageWorkingSet k).virtualAddress

def permPUW : Word := permPresent ||| permUser ||| permWriteable

/-- The end of `Placement`: the new element goes to the active list, and the oldest active
element to the second list if the active list is full. -/
def placeElement (e newElemant : Nat) : Prog Unit := do
  if (← listSize e .activeList) < uint32 (← getEnv e).activeListSize then
    modifyLists e (·.insertHead .activeList newElemant)
  else
    let tmp ← deref (← listLast e .activeList)
    modifyLists e (·.remove .activeList tmp)
    modifyLists e (·.insertHead .activeList newElemant)
    modifyLists e (·.insertHead .secondList tmp)
    ptSetPagePermissions e (← virtualAddress e tmp) 0 permPUW
    ptSetPagePermissions e (← virtualAddress e newElemant) permPUW 0

/-- The page of a fault is read in, or added to the page file if it is a new page of the
stack. -/
def placePage (e faultVa : Nat) : Prog Unit := do
  let ret ← pfReadEnvPage e faultVa
  if ret = ePageNotExistInPF then
    if faultVa < ustackTop ∧ faultVa ≥ ustackBottom then
      let ret ← pfAddEmptyEnvPage e faultVa false
      if ret = eNoPageFileSpace then
        panic "ERROR: No enough virtual space on the page file"
    else
      panic "illegal access \n"

/-- `Placement(curenv, fault_va)`.  `allocate_frame` and `map_frame` only return 0. -/
def placement (e faultVa : Nat) : Prog Unit := do
  let newElemant ← deref (← listLast e .pageWorkingSetList)
  modifyEnv e (Env.setVirtualAddress newElemant faultVa)
  modifyLists e (·.remove .pageWorkingSetList newElemant)
  let newFram ← allocateFrame
  mapFrame (← envPageDirectory e) newFram faultVa (permWriteable ||| permUser)
  placePage e faultVa
  placeElement e newElemant

/-- The pass of the loop of `page_fault_handler` over the second list for the element of
the page: it changes places with the oldest active element. -/
def promote (e aim : Nat) : Prog Unit := do
  modifyLists e (·.remove .secondList aim)
  let tmp ← deref (← listLast e .activeList)
  modifyLists e (·.remove .activeList tmp)
  modifyLists e (·.insertHead .activeList aim)
  modifyLists e (·.insertHead .secondList tmp)
  ptSetPagePermissions e (← virtualAddress e aim) permPUW 0
  ptSetPagePermissions e (← virtualAddress e tmp) 0 permPUW

/-- The kernel address of `ptr_pageWorkingSet[k]` of an environment: the array lies 120
bytes into the structure. -/
def elementAddress (envs e k : Nat) : Nat := envs + sizeofEnv * e + 120 + 16 * k

/-- A modified victim is written to the page file. -/
def writeBack (e victim : Nat) : Prog Unit := do
  let va ← virtualAddress e victim
  let pagePermissions ← ptGetPagePermissions e va
  if pagePermissions &&& permModified ≠ 0 then
    let dir ← envPageDirectory e
    -- the source looks up the element's own address first, and does not use the result
    let _ ← getPageTable dir (elementAddress (← get).globals.envsAddress e victim)
    let info ← getFrameInfo dir va
    -- `pf_update_env_page` follows the pointer to the frame's information
    let _ ← pfUpdateEnvPage e va (← deref info.1)

/-- The victim of a full working set leaves the list it is on. -/
def releaseVictim (e : Nat) (list : WSList) : Prog Unit := do
  let victim ← deref (← listLast e list)
  writeBack e victim
  modifyLists e (·.remove list victim)
  modifyLists e (·.insertHead .pageWorkingSetList victim)
  unmapFrame (← envPageDirectory e) (← virtualAddress e victim)
  if list = .secondList then
    ptSetPagePermissions e (← virtualAddress e victim) 0
      (permPresent ||| permUser ||| permModified ||| permWriteable)

/-- `page_fault_handler(curenv, fault_va)`. -/
def pageFaultHandler (e faultVa : Nat) : Prog Unit := do
  let faultVa := roundDown faultVa
  let found ← wsForeach e .secondList
    (fun _ ptrWSElement => do
      if (← virtualAddress e ptrWSElement) = faultVa then
        promote e ptrWSElement
        return .leave ()
      else
        return .next ())
    wsPasses (← listFirst e .secondList) ()
  match found with
  | .leave _ => return
  | .next _ =>
    if (← listSize e .pageWorkingSetList) > 0 then
      placement e faultVa
    else if (← getEnv e).secondListSize > 0 then
      releaseVictim e .secondList
      placement e faultVa
    else if (← getEnv e).secondListSize = 0 then
      releaseVictim e .activeList
      placement e faultVa

/-- `table_fault_handler(curenv, fault_va)`. -/
def tableFaultHandler (e faultVa : Nat) : Prog Unit := do
  let _ ← staticCpt (← envPageDirectory e) faultVa

/-- `fault_handler(tf)` for a fault of a user program at `fault_va`. -/
def faultHandler (faultVa : Nat) : Prog Unit := do
  if faultVa ≥ ustackTop then
    panic "User: stack underflow exception!"
  else
    let e ← deref (← get).globals.curenv
    let dir ← envPageDirectory e
    if (← readWord dir (pdx faultVa)) &&& permPresent ≠ permPresent then
      modifyEnv e Env.countTableFault
      tableFaultHandler e faultVa
    else
      modifyEnv e Env.countPageFault
      pageFaultHandler e faultVa

end Fos
