import Fos.Exec.Wp
import Fos.Memory.Boot

/-!
# `initialize_paging`

The four loops of `initialize_paging` of `kern/memory_manager.c`, on any state and any amount
of memory.

* `initializePaging`: the function;
* `RightFreeList`: which frames are to be free;
* `initializePaging_free`: just these are;
* `initializePaging_boot`: on a machine whose kernel has been loaded it leaves `Machine.boot`.
-/

namespace Fos

open Exec Linked

/-- `STATIC_KERNEL_PHYSICAL_ADDRESS(kva)`. -/
def Paging.staticKernelPhysicalAddress (kva : Nat) : Prog Nat :=
  if kva < kernelBase then
    panic "K_PHYSICAL_ADDRESS called with invalid kva"
  else
    return kva - kernelBase

/-- `frames_info[i].references = 1` for the frames from `lo` up to `hi`. -/
def Kernel.useFrames (s : Kernel) (lo hi : Nat) : Kernel :=
  (List.range' lo (hi - lo)).foldl (fun s i => s.setReferences i 1) s

/-- The frames `xs` are initialized and go to the head of `free_frame_list`. -/
@[irreducible] def Kernel.giveAll (s : Kernel) (xs : List Nat) : Kernel :=
  xs.foldl (fun s f => (s.initializeFrameInfo f).insertFrame f) s

/-- That for the frames from `lo` up to `hi`. -/
def Kernel.giveFrames (s : Kernel) (lo hi : Nat) : Kernel := s.giveAll (List.range' lo (hi - lo))

/-- `initialize_disk_page_file()`.  The links that `initialize_frame_info` clears are set at
once. -/
def Kernel.initializeDiskPageFile (s : Kernel) : Kernel :=
  Machine.diskFrames.foldl Kernel.insertDiskFrame
    { s with diskFreeFrameList := listInit s.diskFreeFrameList }

/-- The first bytes of `ptr_zero_page` and of `ptr_temp_page` are cleared. -/
def Kernel.clearPages (s : Kernel) : Kernel :=
  let s := s.setPage zeroPage (Machine.clearPage (s.mem zeroPage))
  s.setPage tempPage (Machine.clearPage (s.mem tempPage))

/-- `initialize_paging()`. -/
def initializePaging (ptrFreeMem : Nat) : Prog Unit := do
  modify fun s => { s with freeFrameList := listInit s.freeFrameList }
  modify (·.setReferences 0 1)
  modify (·.setReferences 1 1)
  modify (·.setReferences 2 1)
  modify (·.clearPages)
  let rangeEnd := roundUp physIOMem
  modify (·.giveFrames 3 (rangeEnd / pageSize))
  modify (·.useFrames (physIOMem / pageSize) (physExtendedMem / pageSize))
  let rangeEnd := roundUp (← Paging.staticKernelPhysicalAddress ptrFreeMem)
  modify (·.useFrames (physExtendedMem / pageSize) (rangeEnd / pageSize))
  modify fun s => s.giveFrames (rangeEnd / pageSize) s.globals.numberOfFrames
  modify (·.initializeDiskPageFile)

/-! ## The loops -/

section Loops

variable (s : Kernel)

/-- `frames_info` with other numbers of references. -/
def Kernel.withReferences (refs : Nat → BitVec 16) : Kernel := { s with references := refs }

theorem useFrames_eq (lo hi : Nat) : s.useFrames lo hi =
    s.withReferences fun f => if lo ≤ f ∧ f < hi then 1 else s.references f := by
  have fold : ∀ (k lo : Nat) (s : Kernel),
      (List.range' lo k).foldl (fun s i => s.setReferences i 1) s =
        s.withReferences fun f => if lo ≤ f ∧ f < lo + k then 1 else s.references f := by
    intro k
    induction k with
    | zero =>
      intro lo s
      have none : ∀ f, ¬ (lo ≤ f ∧ f < lo + 0) := by omega
      simp only [none, if_false]
      rfl
    | succ k ih =>
      intro lo s
      rw [List.range'_succ, List.foldl_cons, ih]
      refine congrArg s.withReferences (funext fun f => ?_)
      simp only [Kernel.setReferences, Function.update_apply]
      by_cases eq : f = lo
      · rw [eq, if_neg (by omega), if_pos rfl, if_pos (by omega)]
      · have iff : lo + 1 ≤ f ∧ f < lo + 1 + k ↔ lo ≤ f ∧ f < lo + (k + 1) := by omega
        simp only [iff, eq, if_false]
  rw [Kernel.useFrames, fold]
  have iff : ∀ f, lo ≤ f ∧ f < lo + (hi - lo) ↔ lo ≤ f ∧ f < hi := by omega
  simp only [iff]

/-- Freeing frames does not read their references. -/
theorem giveAll_withReferences (xs : List Nat) (refs : Nat → BitVec 16) :
    (s.withReferences refs).giveAll xs =
      (s.giveAll xs).withReferences fun f => if f ∈ xs then 0 else refs f := by
  induction xs generalizing s refs with
  | nil => simp [Kernel.giveAll, Kernel.withReferences]
  | cons x xs ih =>
    have first : ((s.withReferences refs).initializeFrameInfo x).insertFrame x =
        ((s.initializeFrameInfo x).insertFrame x).withReferences (Function.update refs x 0) := rfl
    unfold Kernel.giveAll at ih ⊢
    rw [List.foldl_cons, List.foldl_cons, first, ih]
    refine congrArg (Kernel.withReferences _) (funext fun f => ?_)
    simp only [List.mem_cons, Function.update_apply]
    split <;> split <;> simp_all

/-- The frames that are freed have no references. -/
theorem giveAll_references (xs : List Nat) :
    (s.giveAll xs).references = fun f => if f ∈ xs then 0 else s.references f := by
  have same : s.withReferences s.references = s := rfl
  rw [← same, giveAll_withReferences]
  rfl

end Loops

/-! ## The free list -/

/-- `ROUNDUP(STATIC_KERNEL_PHYSICAL_ADDRESS(ptr_free_mem), PAGE_SIZE)`. -/
def kernelEnd (ptrFreeMem : Nat) : Nat := roundUp (ptrFreeMem - kernelBase)

/-- The frame holds the interrupt vectors, a page of the kernel, a device or the kernel. -/
def InUse (ptrFreeMem f : Nat) : Prop :=
  f = 0 ∨ f = 1 ∨ f = 2 ∨ (physIOMem ≤ f * pageSize ∧ f * pageSize < physExtendedMem) ∨
    (physExtendedMem ≤ f * pageSize ∧ f * pageSize < kernelEnd ptrFreeMem)

/-- The free frames are those that are not in use, each listed once. -/
structure RightFreeList (ptrFreeMem : Nat) (s : Kernel) (free : List Nat) : Prop where
  list : s.freeFrameList.Rep s.frameLinks free
  mem : ∀ f, f ∈ free ↔ f < s.globals.numberOfFrames ∧ ¬ InUse ptrFreeMem f
  nodup : free.Nodup
  unreferenced : ∀ f ∈ free, s.references f = 0
  referenced : ∀ f < s.globals.numberOfFrames, f ∉ free → s.references f = 1
  size : s.freeFrameList.size.toNat = free.length

/-- The state before the loops. -/
def Kernel.beforeLoops (s : Kernel) : Kernel :=
  (((({ s with freeFrameList := listInit s.freeFrameList }).setReferences 0 1).setReferences
    1 1).setReferences 2 1).clearPages

/-- The state after them. -/
def Kernel.afterLoops (s : Kernel) (rangeEnd : Nat) : Kernel :=
  ((((s.giveFrames 3 160).useFrames 160 256).useFrames 256 rangeEnd).giveFrames rangeEnd
    s.globals.numberOfFrames)

variable {s : Kernel} {ptrFreeMem : Nat}

theorem giveAll_globals (xs : List Nat) (s : Kernel) : (s.giveAll xs).globals = s.globals := by
  unfold Kernel.giveAll
  induction xs generalizing s with
  | nil => rfl
  | cons x xs ih => exact ih _

theorem rep_giveAll {xs : List Nat} (empty : s.freeFrameList.Rep s.frameLinks [])
    (nodup : xs.Nodup) :
    (s.giveAll xs).freeFrameList.Rep (s.giveAll xs).frameLinks xs.reverse := by
  have list := (Machine.freeList_foldl xs s [] empty
    ((List.append_nil _).symm ▸ List.nodup_reverse.mpr nodup)).1
  unfold Kernel.giveAll
  rwa [List.append_nil] at list

/-- The function runs to its end. -/
theorem initializePaging_wp {Q : Unit → Kernel → Prop} {E : Stop → Kernel → Prop}
    (ge : kernelBase ≤ ptrFreeMem)
    (done : Q ()
      (s.beforeLoops.afterLoops (kernelEnd ptrFreeMem / pageSize)).initializeDiskPageFile) :
    wp (initializePaging ptrFreeMem) Q E s := by
  have addr : Paging.staticKernelPhysicalAddress ptrFreeMem = pure (ptrFreeMem - kernelBase) :=
    if_neg (Nat.not_lt.mpr ge)
  have io : roundUp physIOMem / pageSize = 160 := by decide
  have hole : physIOMem / pageSize = 160 ∧ physExtendedMem / pageSize = 256 := by decide
  have number : (((s.beforeLoops.giveFrames 3 160).useFrames 160 256).useFrames 256
      (kernelEnd ptrFreeMem / pageSize)).globals.numberOfFrames =
      s.beforeLoops.globals.numberOfFrames := by
    rw [useFrames_eq, useFrames_eq, Kernel.withReferences, Kernel.withReferences,
      Kernel.giveFrames, giveAll_globals]
  rw [Kernel.afterLoops, ← number, kernelEnd, Kernel.beforeLoops] at done
  simp only [initializePaging, wp_bind, wp_modify, addr, wp_pure, io, hole]
  exact done

/-- The frames that the loops free, in their order. -/
def freed (rangeEnd numberOfFrames : Nat) : List Nat :=
  List.range' 3 157 ++ List.range' rangeEnd (numberOfFrames - rangeEnd)

theorem mem_freed {rangeEnd n f : Nat} (le : rangeEnd ≤ n) :
    f ∈ freed rangeEnd n ↔ 3 ≤ f ∧ f < 160 ∨ rangeEnd ≤ f ∧ f < n := by
  simp only [freed, List.mem_append, List.mem_range'_1]
  omega

theorem nodup_freed {rangeEnd n : Nat} (ge : 256 ≤ rangeEnd) : (freed rangeEnd n).Nodup := by
  refine List.nodup_append.mpr ⟨List.nodup_range', List.nodup_range', ?_⟩
  rintro f mem g mem' rfl
  rw [List.mem_range'_1] at mem mem'
  omega

theorem length_freed_le {rangeEnd n : Nat} (ge : 256 ≤ rangeEnd) (le : rangeEnd ≤ n) :
    (freed rangeEnd n).length ≤ n := by
  simp only [freed, List.length_append, List.length_range']
  omega

/-- The references that the loops leave: 0 for the frames that are freed, and 1 for those from
640 KB to the end of the kernel. -/
def freedReferences (rangeEnd numberOfFrames : Nat) (refs : Nat → BitVec 16) (f : Nat) :
    BitVec 16 :=
  if f ∈ freed rangeEnd numberOfFrames then 0
  else if 160 ≤ f ∧ f < rangeEnd then 1
  else refs f

/-- The loops of either kind do not disturb each other. -/
theorem afterLoops_eq {rangeEnd : Nat} (ge : 256 ≤ rangeEnd)
    (le : rangeEnd ≤ s.globals.numberOfFrames) :
    s.afterLoops rangeEnd = (s.giveAll (freed rangeEnd s.globals.numberOfFrames)).withReferences
      (freedReferences rangeEnd s.globals.numberOfFrames s.references) := by
  have low : (s.giveFrames 3 160).references =
      fun f => if f ∈ List.range' 3 157 then 0 else s.references f := giveAll_references ..
  have both : ∀ (t : Kernel) refs refs', (t.withReferences refs).withReferences refs' =
    t.withReferences refs' := fun _ _ _ => rfl
  rw [Kernel.afterLoops, useFrames_eq, useFrames_eq, both, Kernel.giveFrames,
    giveAll_withReferences]
  have all : (s.giveFrames 3 160).giveAll
      (List.range' rangeEnd (s.globals.numberOfFrames - rangeEnd)) =
      s.giveAll (freed rangeEnd s.globals.numberOfFrames) := by
    unfold Kernel.giveFrames freed Kernel.giveAll
    rw [List.foldl_append]
  rw [all]
  refine congrArg (Kernel.withReferences _) (funext fun f => ?_)
  simp only [Kernel.withReferences, low, freedReferences, mem_freed le, List.mem_range'_1]
  by_cases high : rangeEnd ≤ f ∧ f < s.globals.numberOfFrames
  · rw [if_pos (by omega), if_pos (Or.inr high)]
  · rw [if_neg (by omega)]
    by_cases kernel : 256 ≤ f ∧ f < rangeEnd
    · rw [if_pos kernel, if_neg (by omega), if_pos (by omega)]
    · rw [if_neg kernel]
      by_cases hole : 160 ≤ f ∧ f < 256
      · rw [if_pos hole, if_neg (by omega), if_pos (by omega)]
      · rw [if_neg hole]
        by_cases base : 3 ≤ f ∧ f < 160
        · rw [if_pos (by omega), if_pos (Or.inl base)]
        · rw [if_neg (by omega), if_neg (by omega), if_neg (by omega)]

/-- A frame is in use, or the loops free it. -/
theorem mem_freed_iff {f n : Nat} (ge : kernelBase + physExtendedMem ≤ ptrFreeMem)
    (lt : ptrFreeMem < word32) (le : kernelEnd ptrFreeMem / pageSize ≤ n) :
    f ∈ freed (kernelEnd ptrFreeMem / pageSize) n ↔ f < n ∧ ¬ InUse ptrFreeMem f := by
  rw [mem_freed le]
  simp only [InUse, kernelEnd, roundUp, roundDown, physIOMem, physExtendedMem, pageSize,
    kernelBase, word32] at *
  omega

theorem kernelEnd_ge (ge : kernelBase + physExtendedMem ≤ ptrFreeMem) (lt : ptrFreeMem < word32) :
    256 ≤ kernelEnd ptrFreeMem / pageSize := by
  simp only [kernelEnd, roundUp, roundDown, physExtendedMem, pageSize, kernelBase, word32] at *
  omega

/-- The frames are not concerned in `initialize_disk_page_file`. -/
theorem initializeDiskPageFile_frames (s : Kernel) :
    s.initializeDiskPageFile.globals = s.globals ∧
    s.initializeDiskPageFile.frameLinks = s.frameLinks ∧
    s.initializeDiskPageFile.freeFrameList = s.freeFrameList ∧
    s.initializeDiskPageFile.references = s.references := by
  unfold Kernel.initializeDiskPageFile
  have nodup := Machine.nodup_diskFrames
  generalize Machine.diskFrames = xs at *
  obtain ⟨-, -, globals, links, head, references⟩ := Machine.diskList_foldl xs
    { s with diskFreeFrameList := listInit s.diskFreeFrameList } [] (rep_listInit _ _)
    ((List.append_nil _).symm ▸ List.nodup_reverse.mpr nodup)
  exact ⟨globals, links, head, references⟩

/-- The free list and the references after the loops. -/
theorem afterLoops_list {rangeEnd : Nat} (ge : 256 ≤ rangeEnd)
    (le : rangeEnd ≤ s.globals.numberOfFrames)
    (empty : s.freeFrameList.Rep s.frameLinks []) :
    (s.afterLoops rangeEnd).freeFrameList.Rep (s.afterLoops rangeEnd).frameLinks
      (freed rangeEnd s.globals.numberOfFrames).reverse ∧
    (s.afterLoops rangeEnd).globals = s.globals ∧
    (s.afterLoops rangeEnd).references =
      freedReferences rangeEnd s.globals.numberOfFrames s.references := by
  rw [afterLoops_eq ge le]
  exact ⟨rep_giveAll empty (nodup_freed ge), giveAll_globals _ s, rfl⟩

/-- `initialize_paging` frees the frames that are not in use, each once, and gives the other
frames a reference. -/
theorem initializePaging_free (s : Kernel)
    (ge : kernelBase + physExtendedMem ≤ ptrFreeMem) (lt : ptrFreeMem < word32)
    (le : kernelEnd ptrFreeMem / pageSize ≤ s.globals.numberOfFrames)
    (int : s.globals.numberOfFrames < 2 ^ 31) :
    ∃ s' free, initializePaging ptrFreeMem s = .ok () s' ∧
      s'.globals.numberOfFrames = s.globals.numberOfFrames ∧ RightFreeList ptrFreeMem s' free := by
  have start := kernelEnd_ge ge lt
  have member := fun f => mem_freed_iff (f := f) ge lt le
  have short := length_freed_le start le
  have left := afterLoops_list (s := s.beforeLoops) start le (rep_listInit _ _)
  have refs : ∀ f < 3, s.beforeLoops.references f = 1 := by
    intro f lt
    simp only [Kernel.beforeLoops, Kernel.clearPages, Kernel.setPage, Kernel.setReferences,
      Function.update_apply]
    obtain rfl | rfl | rfl : f = 0 ∨ f = 1 ∨ f = 2 := by omega
    all_goals rfl
  have number : s.beforeLoops.globals = s.globals := rfl
  have run := initializePaging_wp (s := s) (Q := fun _ s' => ∃ free,
    s'.globals.numberOfFrames = s.globals.numberOfFrames ∧ RightFreeList ptrFreeMem s' free)
    (E := fun _ _ => False) (le_trans (Nat.le_add_right _ _) ge) ?_
  · obtain ⟨⟨⟩, s', ends, free, right⟩ := wp_returns run
    exact ⟨s', free, ends, right⟩
  rw [number] at left
  generalize s.beforeLoops.afterLoops (kernelEnd ptrFreeMem / pageSize) = t at *
  obtain ⟨list, globals, listed⟩ := left
  obtain ⟨globals', links, head, references⟩ := initializeDiskPageFile_frames t
  refine ⟨_, by rw [globals', globals], ⟨?_, fun f => ?_, list.nodup, fun f mem => ?_,
    fun f lt' out => ?_, ?_⟩⟩
  · rw [links, head]
    exact list
  · rw [globals', globals, List.mem_reverse, member]
  · rw [references, listed, freedReferences, if_pos (List.mem_reverse.mp mem)]
  · rw [globals', globals] at lt'
    rw [List.mem_reverse] at out
    rw [references, listed, freedReferences, if_neg out]
    rw [mem_freed le] at out
    split
    · rfl
    · exact refs f (by omega)
  · rw [head]
    apply list.size_toNat
    rw [List.length_reverse]
    omega

/-- On `smallMachine` the kernel ends at 2 MB. -/
theorem initializePaging_small : ∃ s' free,
    initializePaging 0xF0200000 smallMachine.start = .ok () s' ∧
      s'.globals.numberOfFrames = 1024 ∧ RightFreeList 0xF0200000 s' free :=
  initializePaging_free smallMachine.start (by decide) (by decide) (by decide) (by decide)

/-! ## The machine that is started -/

namespace Machine

/-- The state in which `initialize_paging` is called: `frames_info` is zeroed. -/
def loaded (m : Machine) : Kernel :=
  { m.start with
    mem := m.mem
    references := fun f => if f < m.numberOfFrames then 0 else 1 }

variable {m : Machine}

theorem beforeLoops_loaded : m.loaded.beforeLoops =
    m.start.withReferences m.loaded.beforeLoops.references := by
  have mem : m.loaded.beforeLoops.mem = m.start.mem := by
    funext f
    have ne : tempPage ≠ zeroPage := by decide
    simp only [Kernel.beforeLoops, Kernel.clearPages, Kernel.setPage, Kernel.setReferences, loaded,
      start, Function.update_apply, ne, if_false]
    by_cases temp : f = tempPage
    · simp [temp]
    · by_cases zero : f = zeroPage <;> simp [temp, zero]
  rw [Kernel.withReferences, ← mem]
  rfl

theorem references_loaded (f : Nat) : m.loaded.beforeLoops.references f =
    if f = 2 then 1 else if f = 1 then 1 else if f = 0 then 1 else if f < m.numberOfFrames then 0
    else 1 := by
  simp only [Kernel.beforeLoops, Kernel.clearPages, Kernel.setPage, Kernel.setReferences, loaded,
    Function.update_apply]

/-- The loops leave the free list of `boot`. -/
theorem afterLoops_loaded : m.loaded.beforeLoops.afterLoops m.rangeEnd =
    m.start.giveAll m.freshFrames := by
  have ge : 256 ≤ m.rangeEnd := m.dir_ge.trans m.dir_lt.le
  have le := m.rangeEnd_le
  have frames : freed m.rangeEnd m.numberOfFrames = m.freshFrames := by
    rw [freed, freshFrames]
  have number : m.loaded.beforeLoops.globals.numberOfFrames = m.numberOfFrames := rfl
  have refs : (m.start.giveAll m.freshFrames).references = freedReferences m.rangeEnd
      m.numberOfFrames m.loaded.beforeLoops.references := by
    funext f
    rw [giveAll_references, freedReferences, frames, references_loaded]
    simp only [start]
    by_cases fresh : f ∈ m.freshFrames
    · rw [if_pos fresh, if_pos fresh]
    · rw [if_neg fresh, if_neg fresh, if_neg fresh]
      rw [m.mem_freshFrames] at fresh
      by_cases kernel : 160 ≤ f ∧ f < m.rangeEnd
      · rw [if_pos kernel]
      · rw [if_neg kernel]
        by_cases low : f < 3
        · obtain rfl | rfl | rfl : f = 0 ∨ f = 1 ∨ f = 2 := by omega
          all_goals rfl
        · rw [if_neg (by omega), if_neg (by omega), if_neg (by omega), if_neg (by omega)]
  rw [afterLoops_eq ge (number.symm ▸ le), number, ← refs, frames, beforeLoops_loaded,
    giveAll_withReferences]
  rfl

/-- What `initialize_paging` leaves is the state that `boot` gives. -/
theorem initializePaging_boot (m : Machine) {ptrFreeMem : Nat}
    (ge : kernelBase ≤ ptrFreeMem) (ends : kernelEnd ptrFreeMem / pageSize = m.rangeEnd) :
    initializePaging ptrFreeMem m.loaded = .ok () m.boot := by
  have run := initializePaging_wp (s := m.loaded) (Q := fun _ s' => s' = m.boot)
    (E := fun _ _ => False) ge ?_
  · obtain ⟨⟨⟩, s', ends, rfl⟩ := wp_returns run
    exact ends
  have nodup : (m.freshFrames.reverse ++ []).Nodup := by simpa using m.nodup_freshFrames
  obtain ⟨-, -, -, -, head, -⟩ := freeList_foldl m.freshFrames m.start [] (rep_zero _) nodup
  rw [ends, afterLoops_loaded]
  unfold Kernel.initializeDiskPageFile Kernel.giveAll boot
  refine congrArg (diskFrames.foldl Kernel.insertDiskFrame) ?_
  rw [head]
  generalize m.freshFrames.foldl _ m.start = t at head ⊢
  obtain ⟨_, _, _, _, _, _⟩ := t
  cases head
  rfl

end Machine

end Fos
