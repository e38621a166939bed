import Fos.Memory.Bytes
import Fos.Memory.DiskFrames
import Fos.Memory.Sound

/-!
# The memory of a freshly started kernel

`initialize_paging` of `kern/memory_manager.c` and `initialize_disk_page_file` of
`kern/file_manager.c`, on a machine whose kernel has been loaded and has mapped its own
half of the address space.

* `Machine.rep_boot`: the state they leave is consistent, and no environment holds
  anything;
* `Machine.pageFile_boot`: every disk frame is free;
* `boot_smallMachine`: the start of a small machine, with the heads of its free lists at hand.
-/

namespace Fos

open Arena Linked

/-- A machine that `initialize_paging` finds: its memory, the first frame after the
kernel, and the kernel's page directory, which has nothing below `USER_TOP`. -/
structure Machine where
  numberOfFrames : Nat
  rangeEnd : Nat
  ptrPageDirectory : Nat
  envsAddress : Nat
  mem : Nat → Page
  disk : Nat → Fin 128 → Word
  frames_le : numberOfFrames ≤ 65536
  rangeEnd_le : rangeEnd ≤ numberOfFrames
  dir_ge : 256 ≤ ptrPageDirectory
  dir_lt : ptrPageDirectory < rangeEnd
  user : ∀ i, i < 955 → mem ptrPageDirectory i = 0
  kernel : ∀ i, 960 ≤ i → mem ptrPageDirectory i ≠ 0 →
    present (mem ptrPageDirectory i) ∧ frameOf (mem ptrPageDirectory i) < numberOfFrames
  envs_ge : kernelBase ≤ envsAddress
  envs_lt : envsAddress + nenv * sizeofEnv ≤ word32

namespace Machine

variable (m : Machine)

/-- The frames that `initialize_paging` frees, in its order: the base memory from frame 3
on and the memory after the kernel. -/
def freshFrames : List Nat :=
  List.range' 3 157 ++ List.range' m.rangeEnd (m.numberOfFrames - m.rangeEnd)

/-- `disk_frames_info[1]` to the last. -/
@[irreducible] def diskFrames : List Nat := List.range' 1 (pagesPerFile - 1)

/-- `ptr_zero_page[i] = 0` for `i` from 0 to 1023; the pointer is a `uint8*`. -/
@[irreducible] def clearPage (p : Page) : Page :=
  (List.range 1024).foldl (fun p i => p.setByte i 0) p

/-- The state before the lists are filled: `ptr_zero_page` and `ptr_temp_page` have been
cleared. -/
def start : Kernel where
  mem f := if f = zeroPage ∨ f = tempPage then clearPage (m.mem f) else m.mem f
  references f := if f ∈ m.freshFrames then 0 else 1
  frameLinks := ⟨fun _ => none, fun _ => none⟩
  freeFrameList := ListHead.zero
  diskLinks := ⟨fun _ => none, fun _ => none⟩
  diskFreeFrameList := ListHead.zero
  globals :=
    { numberOfFrames := m.numberOfFrames
      ptrPageDirectory := m.ptrPageDirectory
      envsAddress := m.envsAddress
      disk := m.disk
      envs := fun _ => Env.zero
      curenv := none
      cr3 := toPhysicalAddress m.ptrPageDirectory }

theorem start_zeroPage : m.start.mem zeroPage = clearPage (m.mem zeroPage) := by
  simp [start]

/-- `initialize_paging()`. -/
def boot : Kernel :=
  diskFrames.foldl Kernel.insertDiskFrame
    (m.freshFrames.foldl (fun s f => (s.initializeFrameInfo f).insertFrame f) m.start)

/-- What the frames hold: the kernel's page directory and the page of zeroes. -/
def bootArena : Arena.View Obj (Fin 1024) Word where
  use f :=
    if f ∈ m.freshFrames then .free
    else if f = m.ptrPageDirectory then .holds .kernelDir
    else if f = zeroPage then .holds .zeroPage
    else .reserved
  place
    | .kernelDir => some m.ptrPageDirectory
    | .zeroPage => some zeroPage
    | _ => none
  page
    | .kernelDir => m.mem m.ptrPageDirectory
    | .zeroPage => clearPage (m.mem zeroPage)
    | _ => zeroes

def bootView : View where
  toView := m.bootArena
  free := m.freshFrames.reverse
  diskFree := diskFrames.reverse
  globals := m.start.globals

theorem mem_freshFrames {f : Nat} : f ∈ m.freshFrames ↔
    3 ≤ f ∧ f < 160 ∨ m.rangeEnd ≤ f ∧ f < m.numberOfFrames := by
  have le := m.rangeEnd_le
  simp only [freshFrames, List.mem_append, List.mem_range'_1]
  omega

theorem dir_notin : m.ptrPageDirectory ∉ m.freshFrames := by
  have ge := m.dir_ge
  have lt := m.dir_lt
  rw [mem_freshFrames]
  omega

theorem nodup_freshFrames : m.freshFrames.Nodup := by
  have ge := m.dir_ge
  have lt := m.dir_lt
  refine List.nodup_append.mpr ⟨List.nodup_range', List.nodup_range', ?_⟩
  rintro f mem g mem' rfl
  rw [List.mem_range'_1] at mem mem'
  omega

theorem nodup_diskFrames : diskFrames.Nodup := by
  unfold diskFrames
  exact List.nodup_range'

theorem mem_diskFrames {d : Nat} : d ∈ diskFrames ↔ 1 ≤ d ∧ d < pagesPerFile := by
  unfold diskFrames
  rw [List.mem_range'_1]
  rfl

theorem zero_notin : zeroPage ∉ m.freshFrames := by
  have ge := m.dir_ge
  have lt := m.dir_lt
  rw [mem_freshFrames]
  simp only [zeroPage]
  omega

theorem dir_ne_zero : m.ptrPageDirectory ≠ zeroPage := by
  have ge := m.dir_ge
  simp only [zeroPage]
  omega

theorem place_bootArena {o : Obj} (ne : o ≠ .kernelDir) (ne' : o ≠ .zeroPage) :
    m.bootArena.place o = none := by
  cases o <;> simp_all [bootArena]

theorem page_bootArena {o : Obj} (ne : o ≠ .kernelDir) (ne' : o ≠ .zeroPage) :
    m.bootArena.page o = zeroes := by
  cases o <;> simp_all [bootArena]

theorem use_bootArena {o : Obj} {f : Nat} : m.bootArena.use f = .holds o ↔
    o = .kernelDir ∧ f = m.ptrPageDirectory ∨ o = .zeroPage ∧ f = zeroPage := by
  have dir := m.dir_notin
  have zero := m.zero_notin
  have ne := m.dir_ne_zero
  simp only [bootArena]
  constructor
  · split
    · rintro ⟨⟩
    · split
      · rename_i eq
        rintro ⟨⟩
        exact Or.inl ⟨rfl, eq⟩
      · split
        · rename_i eq
          rintro ⟨⟩
          exact Or.inr ⟨rfl, eq⟩
        · rintro ⟨⟩
  · rintro (⟨rfl, rfl⟩ | ⟨rfl, rfl⟩)
    · rw [if_neg dir, if_pos rfl]
    · rw [if_neg zero, if_neg ne.symm, if_pos rfl]

theorem wf_bootArena : m.bootArena.Wf shape := by
  refine ⟨fun o f => ?_, fun o absent => ?_, fun o i c child f => ?_⟩
  · rw [use_bootArena]
    cases o with
    | kernelDir =>
      simp only [bootArena, Option.some.injEq, true_and, reduceCtorEq, false_and, or_false]
      exact eq_comm
    | zeroPage =>
      simp only [bootArena, Option.some.injEq, true_and, reduceCtorEq, false_and, false_or]
      exact eq_comm
    | _ => simp only [bootArena, reduceCtorEq, false_and, or_self]
  · cases o <;> first | rfl | cases absent
  · have kernel : c ≠ .kernelDir ∧ o ≠ .kernelDir := by
      constructor <;> rintro rfl
      · cases o <;> simp [shape, Obj.child] at child
      · simp [shape, Obj.child] at child
    have zero : c ≠ .zeroPage ∧ o ≠ .zeroPage := by
      constructor <;> rintro rfl
      · cases o <;> simp [shape, Obj.child] at child
      · simp [shape, Obj.child] at child
    rw [m.place_bootArena kernel.1 zero.1, m.page_bootArena kernel.2 zero.2]
    simp [zeroes, shape]

/-- The frames go to the head of the free list one after another. -/
theorem freeList_foldl (xs : List Nat) (s : Kernel) (old : List Nat)
    (list : s.freeFrameList.Rep s.frameLinks old) (nodup : (xs.reverse ++ old).Nodup) :
    let s' := xs.foldl (fun s f => (s.initializeFrameInfo f).insertFrame f) s
    s'.freeFrameList.Rep s'.frameLinks (xs.reverse ++ old) ∧ s'.mem = s.mem ∧
      s'.globals = s.globals ∧ s'.diskLinks = s.diskLinks ∧
      s'.diskFreeFrameList = s.diskFreeFrameList ∧
      ∀ f, f ∉ xs → s'.references f = s.references f := by
  induction xs generalizing s old with
  | nil => exact ⟨list, rfl, rfl, rfl, rfl, fun _ _ => rfl⟩
  | cons x xs ih =>
    simp only [List.reverse_cons, List.append_assoc, List.singleton_append] at nodup
    have notin : x ∉ old := (List.nodup_cons.mp (List.nodup_append.mp nodup).2.1).1
    obtain ⟨rep, mem, globals, links, disk, refs⟩ :=
      ih ((s.initializeFrameInfo x).insertFrame x) (x :: old) (freeFrame_rep list notin) nodup
    refine ⟨?_, mem, globals, links, disk, fun f out => ?_⟩
    · simpa only [List.foldl_cons, List.reverse_cons, List.append_assoc, List.singleton_append]
        using rep
    · rw [List.mem_cons, not_or] at out
      have old := refs f out.2
      simpa [Kernel.initializeFrameInfo, Kernel.insertFrame, Function.update_of_ne out.1] using old

theorem diskList_foldl (xs : List Nat) (s : Kernel) (old : List Nat)
    (list : s.diskFreeFrameList.Rep s.diskLinks old) (nodup : (xs.reverse ++ old).Nodup) :
    let s' := xs.foldl Kernel.insertDiskFrame s
    s'.diskFreeFrameList.Rep s'.diskLinks (xs.reverse ++ old) ∧ s'.mem = s.mem ∧
      s'.globals = s.globals ∧ s'.frameLinks = s.frameLinks ∧
      s'.freeFrameList = s.freeFrameList ∧ s'.references = s.references := by
  induction xs generalizing s old with
  | nil => exact ⟨list, rfl, rfl, rfl, rfl, rfl⟩
  | cons x xs ih =>
    simp only [List.reverse_cons, List.append_assoc, List.singleton_append] at nodup
    have notin : x ∉ old := (List.nodup_cons.mp (List.nodup_append.mp nodup).2.1).1
    obtain ⟨rep, mem, globals, links, free, refs⟩ :=
      ih (s.insertDiskFrame x) (x :: old) (rep_insertHead list notin) nodup
    refine ⟨?_, mem, globals, links, free, refs⟩
    simpa only [List.foldl_cons, List.reverse_cons, List.append_assoc, List.singleton_append]
      using rep

theorem rep_boot : Rep m.boot m.bootView := by
  have le := m.rangeEnd_le
  have ge := m.dir_ge
  have lt := m.dir_lt
  have nodup : (m.freshFrames.reverse ++ []).Nodup := by
    simpa using m.nodup_freshFrames
  obtain ⟨free, mem, globals, links, disk, refs⟩ :=
    freeList_foldl m.freshFrames m.start [] (rep_zero _) nodup
  have diskNodup : (diskFrames.reverse ++ []).Nodup := by
    rw [List.append_nil]
    exact List.nodup_reverse.mpr nodup_diskFrames
  obtain ⟨free', mem', globals', links', list', refs'⟩ :=
    diskList_foldl diskFrames (m.freshFrames.foldl
      (fun s f => (s.initializeFrameInfo f).insertFrame f) m.start) [] (by
        rw [links, disk]
        exact rep_zero _) diskNodup
  rw [List.append_nil] at free free'
  exact
    { wf := m.wf_bootArena
      stores := fun o f here => by
        have kept : m.boot.mem = m.start.mem := by rw [boot, mem', mem]
        have ne : ¬ (m.ptrPageDirectory = zeroPage ∨ m.ptrPageDirectory = tempPage) := by
          simp only [zeroPage, tempPage]
          omega
        rw [kept]
        cases o with
        | kernelDir =>
          obtain rfl : m.ptrPageDirectory = f := Option.some.inj here
          exact if_neg ne
        | zeroPage =>
          obtain rfl : zeroPage = f := Option.some.inj here
          exact m.start_zeroPage
        | _ => cases here
      freeList := by
        rw [boot, links', list']
        exact free
      free_use := fun f => by
        simp only [bootView, bootArena, List.mem_reverse]
        constructor
        · intro mem
          rw [if_pos mem]
        · intro use
          by_contra out
          rw [if_neg out] at use
          split at use
          · cases use
          · split at use <;> cases use
      bound := fun f use => by
        simp only [bootView, bootArena] at use ⊢
        split at use
        · rename_i mem
          rw [mem_freshFrames] at mem
          simp only [start]
          omega
        · split at use
          · rename_i eq
            rw [eq]
            simp only [start]
            omega
          · split at use
            · rename_i eq
              rw [eq]
              simp only [start, zeroPage]
              omega
            · exact absurd rfl use
      low := fun f small ne => by
        have out : f ∉ m.freshFrames := by
          rw [mem_freshFrames]
          omega
        simp only [bootView, bootArena]
        rw [if_neg out, if_neg (by omega), if_neg ne]
      small := m.frames_le
      refs := fun f o use => by
        simp only [bootView, bootArena] at use
        split at use
        · cases use
        · rename_i out
          rw [boot, refs', refs f out]
          simp [start, out]
      taken := fun f use => by
        simp only [bootView, bootArena] at use
        split at use
        · cases use
        · split at use
          · cases use
          · split at use <;> cases use
      words := fun o i => by
        cases o with
        | kernelDir => exact ⟨m.user i, m.kernel i⟩
        | zeroPage => trivial
        | _ => exact wordOk_zero ..
      kernelDir := rfl
      zeroPage := rfl
      diskFree := free'
      globals := by
        rw [boot, globals', globals]
        rfl }

theorem place_bootView {o : Obj} (ne : o ≠ .kernelDir) (ne' : o ≠ .zeroPage) :
    m.bootView.place o = none := m.place_bootArena ne ne'

theorem page_bootView {o : Obj} (ne : o ≠ .kernelDir) (ne' : o ≠ .zeroPage) :
    m.bootView.page o = zeroes := m.page_bootArena ne ne'

theorem free_bootView : 157 ≤ m.bootView.free.length := by
  have length : m.bootView.free.length = m.freshFrames.length := List.length_reverse
  rw [length, freshFrames, List.length_append, List.length_range']
  omega

/-- No environment has anything. -/
theorem linked_boot (e : Nat) : m.bootView.Linked e := by
  rw [View.Linked, place_bootView _ (by simp) (by simp)]
  rfl

theorem diskLinked_boot (e : Nat) : m.bootView.DiskLinked e := by
  refine ⟨?_, fun d here => ?_⟩
  · rw [place_bootView _ (by simp) (by simp)]
    rfl
  · rw [place_bootView _ (by simp) (by simp)] at here
    cases here

theorem pageFile_boot : PageFile m.bootView := by
  have empty : ∀ e i j, m.bootView.page (.diskTable e i) j = 0 := fun e i j => by
    rw [page_bootView _ (by simp) (by simp)]
    rfl
  refine ⟨⟨?_, fun d mem => ?_, fun e i j page => absurd (empty e i j) page,
    fun e i j page => absurd (empty e i j) page, fun e i j _ _ _ page => absurd (empty e i j) page,
    fun d pos lt => Or.inl ?_⟩, fun e i _ => ?_⟩
  · exact List.nodup_reverse.mpr nodup_diskFrames
  · exact mem_diskFrames.mp (List.mem_reverse.mp mem)
  · exact List.mem_reverse.mpr (mem_diskFrames.mpr ⟨pos, lt⟩)
  · rw [page_bootView _ (by simp) (by simp)]
    rfl

theorem sound_boot : Sound m.boot m.bootView where
  linked := m.linked_boot
  cr3 e d here := by
    rw [m.place_bootView (by simp) (by simp)] at here
    cases here
  diskLinked := m.diskLinked_boot
  rep := m.rep_boot
  pageFile := m.pageFile_boot

end Machine

/-- A machine with 4 MB of memory, whose kernel ends at 2 MB. -/
def smallMachine : Machine where
  numberOfFrames := 1024
  rangeEnd := 512
  ptrPageDirectory := 256
  envsAddress := 0xF0110000
  mem _ := zeroes
  disk _ _ := 0
  frames_le := by decide
  rangeEnd_le := by decide
  dir_ge := by decide
  dir_lt := by decide
  user _ _ := rfl
  kernel _ _ page := absurd rfl page
  envs_ge := by decide
  envs_lt := by decide

/-! ## The start of a small machine -/

theorem ListHead.first_eta {α : Type} {list : ListHead α} {x : α} (first : list.lhFirst = some x) :
    { list with lhFirst := some x } = list := by
  cases list
  cases first
  rfl

/-- `initialize_paging` frees a frame. -/
def Kernel.giveFrame (s : Kernel) (f : Nat) : Kernel := (s.initializeFrameInfo f).insertFrame f

/-- The free frames are those of `t`, and the first one is `f`. -/
def Kernel.withFrames (s t : Kernel) (f : Nat) : Kernel :=
  { s with
    references := t.references
    frameLinks := t.frameLinks
    freeFrameList := { t.freeFrameList with lhFirst := some f } }

/-- The free disk frames are those of `t`, and the first one is `d`. -/
def Kernel.withDiskFrames (s t : Kernel) (d : Nat) : Kernel :=
  { s with
    diskLinks := t.diskLinks
    diskFreeFrameList := { t.diskFreeFrameList with lhFirst := some d } }

/-- Nothing but the free frames depends on them. -/
theorem foldl_giveFrame (l : List Nat) (f : Nat) (s : Kernel) :
    (l ++ [f]).foldl Kernel.giveFrame s =
      s.withFrames ((l ++ [f]).foldl Kernel.giveFrame s) f := by
  have first : ((l ++ [f]).foldl Kernel.giveFrame s).freeFrameList.lhFirst = some f := by
    rw [List.foldl_append]
    exact lhFirst_listInsertHead ..
  rw [Kernel.withFrames, ListHead.first_eta first]
  generalize l ++ [f] = l'
  clear first
  induction l' generalizing s with
  | nil => rfl
  | cons f' l' ih =>
    rw [List.foldl_cons, ih]
    rfl

/-- Nothing but the free disk frames depends on them. -/
theorem foldl_insertDiskFrame (l : List Nat) (d : Nat) (s : Kernel) :
    (l ++ [d]).foldl Kernel.insertDiskFrame s =
      s.withDiskFrames ((l ++ [d]).foldl Kernel.insertDiskFrame s) d := by
  have first : ((l ++ [d]).foldl Kernel.insertDiskFrame s).diskFreeFrameList.lhFirst = some d := by
    rw [List.foldl_append]
    exact lhFirst_listInsertHead ..
  rw [Kernel.withDiskFrames, ListHead.first_eta first]
  generalize l ++ [d] = l'
  clear first
  induction l' generalizing s with
  | nil => rfl
  | cons d' l' ih =>
    rw [List.foldl_cons, ih]
    rfl

/-- The frames that `smallMachine` frees before the last thirty-two. -/
def earlyFrames : List Nat := (List.range' 3 157 ++ List.range' 512 479) ++ [991]

def earlyDiskFrames : List Nat := List.range' 1 133086 ++ [133087]

/-- `smallMachine` before it frees disk frames. -/
def frameKernel : Kernel :=
  (List.range' 992 32).foldl Kernel.giveFrame
    (smallMachine.start.withFrames (earlyFrames.foldl Kernel.giveFrame smallMachine.start) 991)

/-- The state that `smallMachine` starts in, with the last frames of the free lists at hand. -/
def bootKernel : Kernel :=
  (List.range' 133088 32).foldl Kernel.insertDiskFrame
    (frameKernel.withDiskFrames (earlyDiskFrames.foldl Kernel.insertDiskFrame frameKernel) 133087)

theorem boot_smallMachine : smallMachine.boot = bootKernel := by
  have frames : smallMachine.freshFrames = earlyFrames ++ List.range' 992 32 := by
    have one : [991] = List.range' 991 1 := rfl
    have next : List.range' 991 1 ++ List.range' 992 32 = List.range' 991 33 :=
      List.range'_append_1
    have all : List.range' 512 479 ++ List.range' 991 33 = List.range' 512 512 :=
      List.range'_append_1
    rw [earlyFrames, one, List.append_assoc, List.append_assoc, next, all]
    rfl
  have diskFrames : Machine.diskFrames = earlyDiskFrames ++ List.range' 133088 32 := by
    have one : [133087] = List.range' 133087 1 := rfl
    have next : List.range' 1 133086 ++ List.range' 133087 1 = List.range' 1 133087 :=
      List.range'_append_1
    have all : List.range' 1 133087 ++ List.range' 133088 32 = List.range' 1 133119 :=
      List.range'_append_1
    have number : pagesPerFile - 1 = 133119 := rfl
    rw [earlyDiskFrames, one, next, all, Machine.diskFrames, number]
  have fresh : smallMachine.freshFrames.foldl Kernel.giveFrame smallMachine.start =
      frameKernel := by
    rw [frames, List.foldl_append, frameKernel, earlyFrames, ← foldl_giveFrame]
  show Machine.diskFrames.foldl Kernel.insertDiskFrame
    (smallMachine.freshFrames.foldl Kernel.giveFrame smallMachine.start) = _
  rw [fresh, diskFrames, List.foldl_append, bootKernel, earlyDiskFrames, ← foldl_insertDiskFrame]

end Fos
