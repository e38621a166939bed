import Fos.PageFile.Conservation
import Fos.System.Orderly

/-!
# Who has which frame

The frames that `initialize_paging` frees are on the free list, or they are the page directory,
a page table, a page, the disk page directory or a disk page table of one environment.

* `Kernel.frameOfObj`: where the pointers and the entries of the kernel's tables lead to;
* `Machine.Run.frames_shared_out`: they lead to no frame twice, and to no frame that is free;
* `Machine.Run.restored`: when all environments are gone, everything is free again.
-/

namespace Fos

open Arena Exec

variable {m : Machine} {s s' : Kernel} {v v' : View} {e f : Nat} {o c : Obj} {i : Fin 1024}

/-- The frame that entry `i` of a table refers to. -/
def Kernel.entryFrame (s : Kernel) (table : Option Nat) (i : Fin 1024) : Option Nat :=
  table.bind fun t => if s.mem t i = 0 then none else some (frameOf (s.mem t i))

/-- The page table for directory index `i`.  The entries from `USER_TOP` on are the kernel's. -/
def Kernel.tableFrame (s : Kernel) (e : Nat) (i : Fin 1024) : Option Nat :=
  if i < 955 then s.entryFrame (s.globals.envs e).envPageDirectory i else none

/-- The frame that the pointers of the kernel and the entries of its tables lead to. -/
def Kernel.frameOfObj (s : Kernel) : Obj → Option Nat
  | .kernelDir => some s.globals.ptrPageDirectory
  | .zeroPage => some zeroPage
  | .pageDir e => (s.globals.envs e).envPageDirectory
  | .pageTable e i => s.tableFrame e i
  | .userPage e i j => s.entryFrame (s.tableFrame e i) j
  | .diskDir e => (s.globals.envs e).diskEnvPgdir
  | .diskTable e i => s.entryFrame (s.globals.envs e).diskEnvPgdir i

theorem Rep.entryFrame (rep : Rep s v) (child : o.child i = some c) :
    s.entryFrame (v.place o) i = v.place c := by
  cases here : v.place o with
  | none =>
    exact ((rep.place_none child).mpr (congrFun (rep.wf.absent _ here) i)).symm
  | some t =>
    show (if s.mem t i = 0 then none else some (frameOf (s.mem t i))) = v.place c
    rw [rep.mem here]
    split
    · rename_i zero
      exact ((rep.place_none child).mpr zero).symm
    · rename_i entry
      exact (rep.place_child child entry).symm

/-- The kernel's tables lead to where the objects lie. -/
theorem Orderly.frameOfObj (orderly : Orderly m s v) (o : Obj) : s.frameOfObj o = v.place o := by
  have rep := orderly.rep
  have table : ∀ e i, s.tableFrame e i = v.place (.pageTable e i) := by
    intro e i
    rw [Kernel.tableFrame, orderly.dir]
    split
    · rename_i user
      exact rep.entryFrame (Obj.child_pageDir user)
    · rename_i high
      exact (orderly.low e i (Fin.not_lt.mp high)).symm
  have diskDir : ∀ e, (s.globals.envs e).diskEnvPgdir = v.place (.diskDir e) := fun e => by
    rw [rep.globals]
    exact (orderly.diskLinked e).dir
  cases o with
  | kernelDir =>
    rw [rep.kernelDir, ← rep.globals]
    rfl
  | zeroPage => exact rep.zeroPage.symm
  | pageDir e => exact orderly.dir
  | pageTable e i => exact table e i
  | userPage e i j =>
    rw [Kernel.frameOfObj, table]
    exact rep.entryFrame rfl
  | diskDir e => exact diskDir e
  | diskTable e i =>
    rw [Kernel.frameOfObj, diskDir]
    exact rep.entryFrame rfl

/-- The frames that were free at the start are free, or an environment has them. -/
theorem Orderly.mem_freshFrames (orderly : Orderly m s v) :
    f ∈ m.freshFrames ↔ f ∈ v.free ∨ ∃ e o, Obj.Of e o ∧ v.place o = some f := by
  have rep := orderly.rep
  have boot := m.rep_boot
  have use := orderly.keeps.use f
  have kernel : ∀ o, (¬ ∃ e, Obj.Of e o) → (v.use f = .holds o ↔ m.bootView.use f = .holds o) :=
    fun o none => by
      rw [← rep.wf.place_use, ← boot.wf.place_use, orderly.keeps.place o none]
  have fresh : f ∈ m.freshFrames ↔ m.bootView.use f = .free := by
    rw [← boot.free_use]
    exact List.mem_reverse.symm
  simp only [fresh, rep.free_use, rep.wf.place_use]
  constructor
  · intro free
    cases now : v.use f with
    | free => exact Or.inl rfl
    | taken => simp [(use _ (Or.inl rfl)).mp now] at free
    | lost => simp [(use _ (Or.inr (Or.inl rfl))).mp now] at free
    | reserved => simp [(use _ (Or.inr (Or.inr rfl))).mp now] at free
    | holds o =>
      by_cases mine : ∃ e, Obj.Of e o
      · obtain ⟨e, mine⟩ := mine
        exact Or.inr ⟨e, o, mine, rfl⟩
      · simp [(kernel o mine).mp now] at free
  · intro now
    cases start : m.bootView.use f with
    | free => rfl
    | taken => simp [(use _ (Or.inl rfl)).mpr start] at now
    | lost => simp [(use _ (Or.inr (Or.inl rfl))).mpr start] at now
    | reserved => simp [(use _ (Or.inr (Or.inr rfl))).mpr start] at now
    | holds o =>
      have mine : ¬ ∃ e, Obj.Of e o := by
        rcases m.use_bootArena.mp start with ⟨rfl, -⟩ | ⟨rfl, -⟩ <;>
          simp [Obj.Of, Obj.UserOf, Obj.DiskOf]
      rcases now with free | ⟨e, o', mine', here⟩
      · simp [(kernel o mine).mpr start] at free
      · rw [(kernel o mine).mpr start] at here
        obtain rfl := Use.holds.inj here
        exact absurd ⟨e, mine'⟩ mine

/-- **No frame is lost, and none is used twice.**  In every state that the system comes to, the
frames that `initialize_paging` freed are those on the free list and those that the kernel's
tables lead to for some environment; they lead to no frame that is free, to no frame twice, and
to frames whose reference count is 1. -/
theorem Machine.Run.frames_shared_out (run : m.Run s) :
    ∃ free, s.freeFrameList.Rep s.frameLinks free ∧ ∀ f,
      (f ∈ m.freshFrames ↔ f ∈ free ∨ ∃ e o, Obj.Of e o ∧ s.frameOfObj o = some f) ∧
      ∀ o, s.frameOfObj o = some f →
        f ∉ free ∧ s.references f = 1 ∧ ∀ o', s.frameOfObj o' = some f → o' = o := by
  obtain ⟨v, orderly⟩ := run.orderly
  have rep := orderly.rep
  simp only [orderly.frameOfObj]
  refine ⟨v.free, rep.freeList, fun f => ⟨orderly.mem_freshFrames, fun o here => ?_⟩⟩
  have use := (rep.wf.place_use o f).mp here
  refine ⟨fun free => ?_, rep.refs f o use, fun o' here' => rep.wf.place_inj here' here⟩
  rw [rep.free_use, use] at free
  cases free

/-- Two environments run: one allocates two pages of its heap and stores to the first, and the
other one stores to its program's page. -/
abbrev heapAndProgram : List Event :=
  [.create 0 emptyProgram 3 1, .create 1 (byteProgram 0x800000) 1 0, .run 0,
    .allocateMem 0x80000000 0x2000, .fault 0x80000000, .fault 0x80000000, .store 0x80000010 7,
    .fault 0x80001000, .run 1, .fault 0x800000, .fault 0x800000, .store 0x800000 9]

/-- These pages have frames of their own, which are not free. -/
theorem frames_two : ∃ s free f g, heapAndProgram.foldlM Kernel.exec bootKernel = some s ∧
    s.freeFrameList.Rep s.frameLinks free ∧
    (∀ f, f ∈ smallMachine.freshFrames ↔ f ∈ free ∨ ∃ e o, Obj.Of e o ∧ s.frameOfObj o = some f) ∧
    s.frameOfObj (userPageAt 0 0x80000000) = some f ∧
    s.frameOfObj (userPageAt 1 0x800000) = some g ∧
    f ∉ free ∧ g ∉ free ∧ s.references f = 1 ∧ s.references g = 1 ∧ f ≠ g := by
  have ends : (heapAndProgram.foldlM Kernel.exec bootKernel).any (fun s =>
      (s.frameOfObj (userPageAt 0 0x80000000)).isSome ∧
      (s.frameOfObj (userPageAt 1 0x800000)).isSome) = true := by
    decide +kernel
  obtain ⟨s, runs, ends⟩ := (Option.any_eq_true _ _).mp ends
  obtain ⟨first, second⟩ := of_decide_eq_true ends
  obtain ⟨f, first⟩ := Option.isSome_iff_exists.mp first
  obtain ⟨g, second⟩ := Option.isSome_iff_exists.mp second
  obtain ⟨run, -⟩ := run_bootKernel.execs runs
  obtain ⟨free, rep, shared⟩ := run.frames_shared_out
  obtain ⟨out, refs, -⟩ := (shared f).2 _ first
  obtain ⟨out', refs', once⟩ := (shared g).2 _ second
  refine ⟨s, free, f, g, runs, rep, fun f => (shared f).1, first, second, out, out', refs, refs',
    ?_⟩
  rintro rfl
  exact absurd (once _ first) (by decide)

/-- The machine when all environments are gone. -/
theorem Orderly.restores (orderly : Orderly m s v) (none : ∀ e, ¬ s.Live e) :
    v.free.Perm m.freshFrames ∧ v.diskFree.Perm Machine.diskFrames ∧
      ∀ e, s.globals.envs e = Env.zero := by
  have rep := orderly.rep
  have vacant : ∀ e, v.Vacant e := fun e =>
      (orderly.slot e).resolve_left fun ⟨env, w, runnable⟩ => by
    obtain ⟨d, dir⟩ := runnable.dir
    exact none e (orderly.live.mpr (by simp [dir]))
  refine ⟨?_, ?_, fun e => ?_⟩
  · refine (List.perm_ext_iff_of_nodup rep.freeList.nodup m.nodup_freshFrames).mpr fun f => ?_
    rw [orderly.mem_freshFrames]
    refine ⟨Or.inl, fun here => here.resolve_right ?_⟩
    rintro ⟨e, o, mine, here⟩
    rw [(vacant e).2 o mine] at here
    cases here
  · have pf := orderly.pageFile
    refine (List.perm_ext_iff_of_nodup pf.nodup Machine.nodup_diskFrames).mpr fun d => ?_
    rw [Machine.mem_diskFrames]
    refine ⟨pf.free_range d, fun ⟨pos, lt⟩ => (pf.cover d pos lt).resolve_right ?_⟩
    rintro ⟨e, i, j, rfl⟩
    have absent : v.place (.diskTable e i) = .none := (vacant e).2 _ (Or.inr rfl)
    rw [congrFun (rep.wf.absent _ absent) j] at pos
    exact absurd pos (by decide)
  · rw [rep.globals]
    exact (vacant e).1

/-- **Nothing leaks.**  Whatever the environments did, when all of them have been freed the same
frames and the same disk frames are free as when the machine was started, all `Env` structures
are empty, and the kernel's page directory and the page of zeroes have not been touched. -/
theorem Machine.Run.restored (run : m.Run s) (none : ∀ e, ¬ s.Live e) :
    (∃ free, s.freeFrameList.Rep s.frameLinks free ∧ free.Perm m.freshFrames) ∧
      (∃ free, s.diskFreeFrameList.Rep s.diskLinks free ∧ free.Perm Machine.diskFrames) ∧
      (∀ e, s.globals.envs e = Env.zero) ∧
      s.mem m.ptrPageDirectory = m.boot.mem m.ptrPageDirectory ∧
      s.mem zeroPage = m.boot.mem zeroPage := by
  obtain ⟨v, orderly⟩ := run.orderly
  obtain ⟨free, diskFree, envs⟩ := orderly.restores none
  have kernel : ∀ o f,
      (¬ ∃ e, Obj.Of e o) → m.bootView.place o = some f → s.mem f = m.boot.mem f := by
    intro o f other here
    rw [m.rep_boot.mem here, orderly.rep.mem ((orderly.keeps.place o other).trans here),
      orderly.keeps.page o other]
  refine ⟨⟨_, orderly.rep.freeList, free⟩, ⟨_, orderly.rep.diskFree, diskFree⟩, envs,
    kernel .kernelDir _ ?_ rfl, kernel .zeroPage _ ?_ rfl⟩ <;> simp [Obj.Of, Obj.UserOf, Obj.DiskOf]

/-- A program of one byte runs and stores, and its pages are read in and evicted. -/
abbrev usedOnce : List Event :=
  [.create 0 (byteProgram 0x800000) 1 0, .run 0, .fault 0x800000, .fault 0x800000,
    .store 0x800000 7, .fault 0xEEBFD000, .prompt]

/-- It is freed from the prompt. -/
theorem restored_byte : ∃ s s', usedOnce.foldlM Kernel.exec bootKernel = some s ∧
    envFree 0 s = .ok () s' ∧
    (∃ free, s'.freeFrameList.Rep s'.frameLinks free ∧ free.Perm smallMachine.freshFrames) ∧
    ∃ free, s'.diskFreeFrameList.Rep s'.diskLinks free ∧ free.Perm Machine.diskFrames := by
  have ends : (usedOnce.foldlM Kernel.exec bootKernel).any (fun s =>
      s.Live 0 ∧ s.globals.curenv ≠ some 0 ∧ s.pageFileEntry 0 0x800000 ≠ 0) = true := by
    decide +kernel
  obtain ⟨s, runs, ends⟩ := (Option.any_eq_true _ _).mp ends
  obtain ⟨live, other, file⟩ := of_decide_eq_true ends
  obtain ⟨run, created⟩ := run_bootKernel.execs runs
  obtain ⟨v, orderly⟩ := run.orderly
  obtain ⟨env, w, runnable⟩ := orderly.runnable live
  rw [orderly.toSound.file.pageFileEntry] at file
  obtain ⟨_, s', freed, -⟩ := wp_returns (runnable.envFree_wp (Q := fun _ _ => True) (orderly.low 0)
    (fun _ _ _ _ => trivial) fun none _ => file (congrFun none _))
  obtain ⟨v', orderly', spares, vacant, -⟩ := orderly.free live other freed
  have gone : ∀ e, ¬ s'.Live e := by
    intro e live'
    rcases eq_or_ne e 0 with rfl | ne
    · exact orderly'.live.mp live' (vacant.2 _ (Or.inl rfl))
    · have before : s.Live e := by
        rw [orderly.live, ← (spares.same ne).dir]
        exact orderly'.live.mp live'
      rcases created e before with boot | creates
      · exact boot rfl
      · simp only [List.exists_mem_cons_iff, Event.Creates, List.not_mem_nil, false_and,
          exists_false, or_false] at creates
        exact ne creates.symm
  obtain ⟨frames, disk, -⟩ :=
    Machine.Run.restored (run.step (.free 0) ⟨live, other⟩ freed) gone
  exact ⟨s, s', runs, freed, frames, disk⟩

end Fos
