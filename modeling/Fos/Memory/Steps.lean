import Fos.Exec.Steps
import Fos.Memory.Environment

/-!
# The changes that kernel functions make

Most kernel functions have no loop that could go on for ever, and change the state by a few
kinds of edits.  What holds of every edit, as a step of a preorder, holds of the functions.

* `Edits`, `FreeEdits`: the kinds of edits, without and with those that give frames back;
* `steps_*`: the functions on frames, page tables and disk frames.
-/

namespace Fos

open Exec Linked

/-- A change of an environment that leaves the working set alone. -/
structure Env.Aside (g : Env → Env) : Prop where
  lists : ∀ env, (g env).lists = env.lists
  elements : ∀ env, (g env).ptrPageWorkingSet = env.ptrPageWorkingSet
  maxSize : ∀ env, (g env).pageWSMaxSize = env.pageWSMaxSize
  activeSize : ∀ env, (g env).activeListSize = env.activeListSize
  secondSize : ∀ env, (g env).secondListSize = env.secondListSize
  lastIndex : ∀ env, (g env).pageLastWSIndex = env.pageLastWSIndex

/-- The edits that take frames, and write to memory, to the disk and to environments, are
steps of `R`, and `P` allows every panic and crash. -/
structure Edits (R : Kernel → Kernel → Prop) (P : Stop → Prop) : Prop where
  panic : ∀ message, P (.panic message)
  crash : P .crash
  page : ∀ s f p, R s (s.setPage f p)
  references : ∀ s f n, R s (s.setReferences f n)
  take : ∀ s f, s.freeFrameList.lhFirst = some f → R s ((s.removeFrame f).initializeFrameInfo f)
  takeDisk : ∀ s d, R s (s.removeDiskFrame d)
  disk : ∀ s disk, R s (s.setGlobals { s.globals with disk := disk })
  env : ∀ s e g, Env.Aside g → R s (s.setGlobals (s.globals.setEnv e g))

/-- And so are those that give frames back. -/
structure FreeEdits (R : Kernel → Kernel → Prop) (P : Stop → Prop) : Prop extends Edits R P where
  give : ∀ s f, R s ((s.initializeFrameInfo f).insertFrame f)
  giveDisk : ∀ s d, R s (s.insertDiskFrame d)

variable {R : Kernel → Kernel → Prop} {P : Stop → Prop}

/-! ## Writing -/

theorem steps_writeWord (edits : Edits R P) (f : Nat) (i : Fin 1024) (w : Word) :
    Steps R P (writeWord f i w) :=
  steps_modify fun s => edits.page s f _

theorem steps_setReferences (edits : Edits R P) (f : Nat) (n : BitVec 16) :
    Steps R P (setReferences f n) :=
  steps_modify fun s => edits.references s f n

theorem steps_writePage (edits : Edits R P) (f : Nat) (p : Page) : Steps R P (writePage f p) :=
  steps_modify fun s => edits.page s f p

/-- Changing other members of an environment. -/
theorem steps_modifyEnv (edits : Edits R P) (e : Nat) {g : Env → Env} (aside : Env.Aside g) :
    Steps R P (modifyEnv e g) := steps_modify fun s => edits.env s e g aside

theorem steps_freeFrame (edits : FreeEdits R P) (f : Nat) :
    Steps R P (freeFrame f) := fun s => edits.give s f

/-! ## Reading -/

variable [IsPreorder Kernel R]

theorem steps_deref {α : Type} (edits : Edits R P) (x : Option α) : Steps R P (deref x) := by
  cases x with
  | none => exact steps_throw edits.crash
  | some x => exact steps_pure x

theorem steps_panic {α : Type} (edits : Edits R P) (message : String) :
    Steps R P (panic message : Prog α) := steps_throw (edits.panic message)

theorem steps_getEnv (e : Nat) : Steps R P (getEnv e) := steps_get.bind fun _ => steps_pure _

theorem steps_envPageDirectory (edits : Edits R P) (e : Nat) : Steps R P (envPageDirectory e) :=
  (steps_getEnv e).bind fun _ => steps_deref edits _

theorem steps_virtualAddress (e k : Nat) : Steps R P (virtualAddress e k) :=
  (steps_getEnv e).bind fun _ => steps_pure _

theorem steps_readWord (f : Nat) (i : Fin 1024) : Steps R P (readWord f i) :=
  steps_get.bind fun _ => steps_pure _

theorem steps_staticKernelVirtualAddress (edits : Edits R P) (pa : Nat) :
    Steps R P (staticKernelVirtualAddress pa) :=
  steps_get.bind fun _ => (steps_panic edits _).ite (steps_pure _)

theorem steps_toFrameInfo (edits : Edits R P) (pa : Nat) : Steps R P (toFrameInfo pa) :=
  steps_get.bind fun _ => (steps_panic edits _).ite (steps_pure _)

/-! ## Frames and page tables -/

theorem steps_allocateFrame (edits : Edits R P) : Steps R P allocateFrame := by
  intro s
  simp only [allocateFrame, wp_bind, wp_get]
  split
  · exact ⟨edits.panic _, refl_of R s⟩
  · rename_i f first
    exact edits.take s f first

theorem steps_getPageTable (edits : Edits R P) (dir va : Nat) :
    Steps R P (getPageTable dir va) := by
  refine (steps_readWord _ _).bind fun entry => ?_
  refine (steps_staticKernelVirtualAddress edits _).bind fun table => ?_
  exact (steps_pure _).ite ((steps_throw edits.crash).ite (steps_pure _))

theorem steps_getFrameInfo (edits : Edits R P) (dir va : Nat) :
    Steps R P (getFrameInfo dir va) := by
  refine (steps_getPageTable edits _ _).bind fun table => ?_
  cases table with
  | none => exact steps_pure _
  | some table =>
    refine (steps_readWord _ _).bind fun entry => ?_
    exact ((steps_toFrameInfo edits _).bind fun _ => steps_pure _).ite (steps_pure _)

theorem steps_staticCpt (edits : Edits R P) (dir va : Nat) : Steps R P (staticCpt dir va) := by
  refine (steps_allocateFrame edits).bind fun f => ?_
  refine (steps_staticKernelVirtualAddress edits _).bind fun table => ?_
  refine (steps_setReferences edits _ _).bind fun _ => ?_
  refine (steps_writeWord edits _ _ _).bind fun _ => ?_
  exact (steps_writePage edits _ _).bind fun _ => steps_pure _

theorem steps_loadtimeMapFrame (edits : Edits R P) (dir f va : Nat) (perm : Word) :
    Steps R P (loadtimeMapFrame dir f va perm) := by
  refine (steps_readWord _ _).bind fun entry => ?_
  refine (steps_staticKernelVirtualAddress edits _).bind fun old => ?_
  have map : ∀ table, Steps R P (do
      setReferences f ((← get).references f + 1)
      writeWord table (ptx va) (constructEntry (toPhysicalAddress f) (perm ||| permPresent))) :=
    fun table => steps_get.bind fun _ => (steps_setReferences edits _ _).bind fun _ =>
      steps_writeWord edits _ _ _
  exact ((steps_staticCpt edits _ _).bind map).ite (map old)

theorem steps_translate (edits : Edits R P) (va : Nat) (userMode write : Bool) :
    Steps R P (translate va userMode write) := by
  refine steps_get.bind fun s => Steps.ite ?_ (steps_pure _)
  exact (steps_writeWord edits _ _ _).bind fun _ => (steps_writeWord edits _ _ _).bind fun _ =>
    steps_pure _

theorem steps_kernelFrame (edits : Edits R P) (va : Nat) : Steps R P (kernelFrame va) :=
  (steps_translate edits va false true).bind fun _ => steps_deref edits _

theorem steps_storeByte (edits : Edits R P) (va : Nat) (b : BitVec 8) :
    Steps R P (storeByte va b) :=
  (steps_kernelFrame edits va).bind fun _ => steps_get.bind fun _ => steps_writePage edits _ _

theorem steps_ptSetPagePermissions (edits : Edits R P) (e va : Nat) (set clear : Word) :
    Steps R P (ptSetPagePermissions e va set clear) := by
  refine (steps_envPageDirectory edits _).bind fun dir => ?_
  refine (steps_readWord _ _).bind fun entry => ?_
  refine Steps.ite ?_ ((steps_panic edits _).ite (steps_panic edits _))
  refine (steps_staticKernelVirtualAddress edits _).bind fun table => ?_
  refine (steps_readWord _ _).bind fun _ => (steps_writeWord edits _ _ _).bind fun _ => ?_
  exact (steps_readWord _ _).bind fun _ => steps_writeWord edits _ _ _

theorem steps_pdClearPageDirEntry (edits : Edits R P) (e va : Nat) :
    Steps R P (pdClearPageDirEntry e va) :=
  (steps_envPageDirectory edits _).bind fun _ => steps_writeWord edits _ _ _

theorem steps_ptGetPagePermissions (edits : Edits R P) (e va : Nat) :
    Steps R P (ptGetPagePermissions e va) := by
  refine (steps_envPageDirectory edits e).bind fun dir => (steps_readWord _ _).bind fun entry => ?_
  refine Steps.ite ?_ ((steps_panic edits _).ite (steps_pure _))
  refine (steps_staticKernelVirtualAddress edits _).bind fun table => ?_
  exact (steps_readWord _ _).bind fun _ => steps_pure _

theorem steps_tableFor (edits : Edits R P) (dir va : Nat) : Steps R P (tableFor dir va) := by
  refine (steps_getPageTable edits _ _).bind fun table => ?_
  cases table with
  | none => exact steps_staticCpt edits _ _
  | some table => exact steps_pure _

/-! ## The page file -/

theorem steps_getDiskPageTable (edits : Edits R P) (dir va : Nat) :
    Steps R P (getDiskPageTable dir va) := by
  refine (steps_readWord _ _).bind fun entry => ?_
  exact (steps_staticKernelVirtualAddress edits _).bind fun _ => (steps_pure _).ite (steps_pure _)

theorem steps_createDiskPageTable (edits : Edits R P) (dir va : Nat) :
    Steps R P (createDiskPageTable dir va) := by
  refine (steps_readWord _ _).bind fun entry => ?_
  refine (steps_staticKernelVirtualAddress edits _).bind fun old => Steps.ite ?_ (steps_pure _)
  refine (steps_allocateFrame edits).bind fun f => ?_
  refine (steps_staticKernelVirtualAddress edits _).bind fun table => ?_
  refine (steps_setReferences edits _ _).bind fun _ => ?_
  refine (steps_writeWord edits _ _ _).bind fun _ => ?_
  exact (steps_writePage edits _ _).bind fun _ => steps_pure _

theorem steps_getDiskPageDirectory (edits : Edits R P) (e : Nat) :
    Steps R P (getDiskPageDirectory e) := by
  refine (steps_getEnv _).bind fun env => ?_
  split
  · exact steps_pure _
  · refine (steps_allocateFrame edits).bind fun f => ?_
    refine (steps_setReferences edits _ _).bind fun _ => ?_
    refine (steps_staticKernelVirtualAddress edits _).bind fun dir => ?_
    refine Steps.bind ?_ fun _ => (steps_writePage edits _ _).bind fun _ => steps_pure _
    exact steps_modifyEnv edits e ⟨fun _ => rfl, fun _ => rfl, fun _ => rfl, fun _ => rfl,
      fun _ => rfl, fun _ => rfl⟩

theorem steps_diskFrameFor (edits : Edits R P) (e va : Nat) : Steps R P (diskFrameFor e va) := by
  refine (steps_panic edits _).ite ?_
  refine (steps_getDiskPageDirectory edits _).bind fun dir => ?_
  refine (steps_createDiskPageTable edits _ _).bind fun table => ?_
  refine (steps_readWord _ _).bind fun dfn => Steps.ite ?_ (steps_pure _)
  have allocate : Steps R P allocateDiskFrame := by
    refine steps_get.bind fun s => ?_
    split
    · exact steps_pure _
    · exact (steps_modify fun s => edits.takeDisk s _).bind fun _ => steps_pure _
  refine allocate.bind fun d => ?_
  cases d with
  | none => exact steps_pure _
  | some d => exact (steps_writeWord edits _ _ _).bind fun _ => steps_pure _

theorem steps_pfAddEnvPage (edits : Edits R P) (e va : Nat) (data : Page) :
    Steps R P (pfAddEnvPage e va data) := by
  refine (steps_diskFrameFor edits _ _).bind fun dfn => ?_
  cases dfn with
  | none => exact steps_pure _
  | some dfn =>
    exact (steps_modify fun s => edits.disk s _).bind fun _ => steps_pure _

theorem steps_pfAddEmptyEnvPage (edits : Edits R P) (e va : Nat) (initializeByZero : Bool) :
    Steps R P (pfAddEmptyEnvPage e va initializeByZero) := by
  refine Steps.ite (steps_get.bind fun _ => steps_pfAddEnvPage edits _ _ _) ?_
  refine (steps_diskFrameFor edits _ _).bind fun dfn => ?_
  cases dfn with
  | none => exact steps_pure _
  | some dfn => exact steps_pure _

theorem steps_pfReadEnvPage (edits : Edits R P) (e va : Nat) :
    Steps R P (pfReadEnvPage e va) := by
  have counted : Env.Aside Env.countIn :=
    ⟨fun _ => rfl, fun _ => rfl, fun _ => rfl, fun _ => rfl, fun _ => rfl, fun _ => rfl⟩
  refine (steps_modifyEnv edits e counted).bind fun _ => (steps_getEnv e).bind fun env => ?_
  split
  · exact steps_pure _
  · refine (steps_getDiskPageTable edits _ _).bind fun table => ?_
    cases table with
    | none => exact steps_pure _
    | some table =>
      refine (steps_readWord _ _).bind fun dfn => (steps_pure _).ite ?_
      have read : Steps R P (readDiskPage dfn.toNat (roundDown va)) := by
        refine Steps.bind ?_ fun _ => steps_pure _
        refine (steps_kernelFrame edits _).bind fun f => steps_get.bind fun _ => ?_
        exact steps_writePage edits _ _
      refine read.bind fun r => steps_get.bind fun _ => (steps_deref edits _).bind fun c => ?_
      exact (steps_ptSetPagePermissions edits _ _ _ _).bind fun _ => steps_pure _

theorem steps_pfUpdateEnvPage (edits : Edits R P) (e va f : Nat) :
    Steps R P (pfUpdateEnvPage e va f) := by
  have counted : Env.Aside Env.countOut :=
    ⟨fun _ => rfl, fun _ => rfl, fun _ => rfl, fun _ => rfl, fun _ => rfl, fun _ => rfl⟩
  refine (steps_modifyEnv edits e counted).bind fun _ => (steps_panic edits _).ite ?_
  refine (steps_getDiskPageDirectory edits e).bind fun dir => ?_
  refine (steps_getDiskPageTable edits _ _).bind fun table => ?_
  cases table with
  | none => exact steps_pure _
  | some table =>
    refine (steps_readWord _ _).bind fun dfn => (steps_pure _).ite ?_
    refine (steps_staticKernelVirtualAddress edits _).bind fun src => steps_get.bind fun _ => ?_
    exact (steps_modify fun s => edits.disk s _).bind fun _ => steps_pure _

/-! ## Loading -/

theorem steps_checkPageFile (edits : Edits R P) (ret : Int) : Steps R P (checkPageFile ret) :=
  (steps_panic edits _).ite (steps_pure _)

theorem steps_writeSegment (edits : Edits R P) (e : Nat) (seg : ProgramSegment) :
    Steps R P (writeSegment e seg) := by
  have check := steps_checkPageFile edits
  refine (steps_writePage edits _ _).bind fun _ => steps_get.bind fun _ => ?_
  refine (steps_pfAddEnvPage edits _ _ _).bind fun _ => (check _).bind fun _ => ?_
  refine (Steps.forM fun k _ => (steps_pfAddEnvPage edits _ _ _).bind check).bind fun _ => ?_
  refine (steps_writePage edits _ _).bind fun _ => steps_get.bind fun _ => ?_
  refine (steps_pfAddEnvPage edits _ _ _).bind fun _ => (check _).bind fun _ => ?_
  exact Steps.forM fun k _ => (steps_pfAddEmptyEnvPage edits _ _ _).bind check

theorem steps_clearModified (edits : Edits R P) (e : Nat) : Steps R P (clearModified e) := by
  refine (steps_getEnv e).bind fun env => Steps.forM fun k _ => ?_
  refine (steps_getEnv e).bind fun env => Steps.ite ?_ (steps_pure _)
  refine (steps_envPageDirectory edits e).bind fun dir => ?_
  refine (steps_getPageTable edits _ _).bind fun t => (steps_deref edits _).bind fun table => ?_
  exact (steps_readWord _ _).bind fun entry => steps_writeWord edits _ _ _

/-! ## Giving frames back -/

theorem steps_decrementReferences (edits : FreeEdits R P) (f : Nat) :
    Steps R P (decrementReferences f) :=
  steps_get.bind fun _ => (steps_setReferences edits.toEdits f _).bind fun _ =>
    steps_get.bind fun _ =>
    (steps_freeFrame edits f).ite (steps_pure _)

theorem steps_unmapFrame (edits : FreeEdits R P) (dir va : Nat) :
    Steps R P (unmapFrame dir va) := by
  refine (steps_getFrameInfo edits.toEdits _ _).bind fun info => ?_
  split
  · exact (steps_decrementReferences edits _).bind fun _ => steps_writeWord edits.toEdits _ _ _
  · exact steps_pure _

theorem steps_mapFrame (edits : FreeEdits R P) (dir f va : Nat) (perm : Word) :
    Steps R P (mapFrame dir f va perm) := by
  refine (steps_tableFor edits.toEdits _ _).bind fun table => ?_
  refine (steps_readWord _ _).bind fun entry => (steps_pure _).ite ?_
  have map : Steps R P (do
      setReferences f ((← get).references f + 1)
      writeWord table (ptx va) (constructEntry (toPhysicalAddress f) (perm ||| permPresent))) :=
    steps_get.bind fun _ => (steps_setReferences edits.toEdits _ _).bind fun _ =>
      steps_writeWord edits.toEdits _ _ _
  exact ((steps_unmapFrame edits _ _).bind fun _ => map).ite map

theorem steps_freeEmptyTable (edits : FreeEdits R P) (e va : Nat) :
    Steps R P (freeEmptyTable e va) := by
  refine (steps_envPageDirectory edits.toEdits _).bind fun dir => ?_
  refine (steps_getPageTable edits.toEdits _ _).bind fun table => ?_
  cases table with
  | none => exact steps_pure _
  | some table =>
    refine steps_get.bind fun s => Steps.ite ?_ (steps_pure _)
    refine (steps_readWord _ _).bind fun entry => ?_
    refine (steps_toFrameInfo edits.toEdits _).bind fun f => ?_
    exact (steps_freeFrame edits _).bind fun _ => steps_pdClearPageDirEntry edits.toEdits _ _

theorem steps_freeDiskFrame (edits : FreeEdits R P) (dfn : Word) : Steps R P (freeDiskFrame dfn) :=
  (steps_pure _).ite (steps_modify fun s => edits.giveDisk s _)

theorem steps_pfRemoveEnvPage (edits : FreeEdits R P) (e va : Nat) :
    Steps R P (pfRemoveEnvPage e va) := by
  refine (steps_getEnv _).bind fun env => ?_
  split
  · exact steps_pure _
  · refine (steps_getDiskPageTable edits.toEdits _ _).bind fun table => ?_
    cases table with
    | none => exact steps_pure _
    | some table =>
      refine (steps_readWord _ _).bind fun dfn => ?_
      exact (steps_writeWord edits.toEdits _ _ _).bind fun _ => steps_freeDiskFrame edits _

end Fos
