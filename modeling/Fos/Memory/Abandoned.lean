import Fos.Memory.Steps
import Fos.Memory.Tables
import Fos.Sched.Conservation
import Fos.WorkingSet.FreeMem

/-!
# What a failed `env_create` leaves behind

`env_create` panics when the page file is full at one of its writes, and does nothing
before that to give back what it took.

* `Shrinks`: no frame has come to `free_frame_list`, and `steps_envCreate`: so it is after
  every run of `env_create`;
* `Undone`: the structure, the frames and the disk frames are back;
* `FailedCreate.not_undone`: they never are.
-/

namespace Fos

open Arena Linked Exec

/-- Frames have come off the front of `free_frame_list` and none to it. -/
def Shrinks (s s' : Kernel) : Prop :=
  ∀ free, s.freeFrameList.Rep s.frameLinks free →
    ∃ n, s'.freeFrameList.Rep s'.frameLinks (free.drop n)

theorem Shrinks.same {s s' : Kernel} (list : s'.freeFrameList = s.freeFrameList)
    (links : s'.frameLinks = s.frameLinks) : Shrinks s s' :=
  fun free rep => ⟨0, by rwa [list, links]⟩

instance : IsPreorder Kernel Shrinks where
  refl _ := Shrinks.same rfl rfl
  trans _ _ _ first second free rep := by
    obtain ⟨n, rep'⟩ := first free rep
    obtain ⟨k, rep''⟩ := second _ rep'
    exact ⟨n + k, by rwa [List.drop_drop] at rep''⟩

/-- Any stop. -/
abbrev AnyStop : Stop → Prop := fun _ => True

theorem edits_shrinks : Edits Shrinks AnyStop where
  panic _ := trivial
  crash := trivial
  page _ _ _ := Shrinks.same rfl rfl
  references _ _ _ := Shrinks.same rfl rfl
  take s f first free rep := by
    cases free with
    | nil =>
      rw [rep.first] at first
      cases first
    | cons g rest =>
      obtain rfl : g = f := by
        rw [rep.first] at first
        exact Option.some.inj first
      exact ⟨1, takeFrame_rep rep⟩
  takeDisk _ _ := Shrinks.same rfl rfl
  disk _ _ := Shrinks.same rfl rfl
  env _ _ _ _ := Shrinks.same rfl rfl

/-! ## The parts of `env_create` -/

section Steps

variable (e : Nat)

/-- Every change of an environment. -/
theorem shrinks_modifyEnv (g : Env → Env) : Steps Shrinks AnyStop (modifyEnv e g) :=
  steps_modify fun _ => Shrinks.same rfl rfl

theorem shrinks_addToLists (k limit : Nat) : Steps Shrinks AnyStop (addToLists e k limit) := by
  refine (shrinks_modifyEnv e _).bind fun _ => ?_
  refine ((steps_getEnv e).bind fun _ => steps_pure _).bind fun _ => ?_
  exact (shrinks_modifyEnv e _).ite (shrinks_modifyEnv e _)

theorem shrinks_nextWSIndex : Steps Shrinks AnyStop (nextWSIndex e) :=
  (steps_getEnv e).bind fun _ => (steps_throw trivial).ite (shrinks_modifyEnv e _)

theorem shrinks_loadPage (iVA last : Nat) : Steps Shrinks AnyStop (loadPage e iVA last) := by
  refine (steps_allocateFrame edits_shrinks).bind fun p => ?_
  refine (steps_envPageDirectory edits_shrinks e).bind fun dir => ?_
  refine (steps_loadtimeMapFrame edits_shrinks _ _ _ _).bind fun _ => ?_
  refine (steps_getEnv e).bind fun env => ?_
  refine ((steps_pure _).ite (steps_throw trivial)).bind fun _ => ?_
  refine (shrinks_modifyEnv e _).bind fun _ => (steps_getEnv e).bind fun env' => ?_
  refine (shrinks_addToLists e _ _).bind fun _ => (shrinks_nextWSIndex e).bind fun _ => ?_
  refine Steps.ite ?_ (steps_pure _)
  refine (shrinks_modifyEnv e _).bind fun _ => (steps_getEnv e).bind fun _ => ?_
  exact (steps_panic edits_shrinks _).ite (steps_pure _)

theorem shrinks_loadPages (endVaddr remaining iVA last : Nat) :
    Steps Shrinks AnyStop (loadPages e endVaddr remaining iVA last) := by
  induction remaining generalizing iVA last with
  | zero => exact steps_pure _
  | succ remaining ih =>
    refine Steps.ite ?_ (steps_pure _)
    exact (shrinks_loadPage e _ _).bind fun last' => (ih _ last').bind fun _ => steps_pure _

theorem shrinks_programSegment (seg : ProgramSegment) (remaining last : Nat) :
    Steps Shrinks AnyStop (programSegmentAllocMapCopyWorkingset e seg remaining last) := by
  refine (steps_getEnv e).bind fun env => (shrinks_loadPages e _ _ _ _).bind fun r => ?_
  refine (Steps.forM fun k _ => steps_storeByte edits_shrinks _ _).bind fun _ => ?_
  exact (Steps.forM fun k _ => steps_storeByte edits_shrinks _ _).bind fun _ => steps_pure _

theorem shrinks_loadSegments (segs : List ProgramSegment) (remaining last : Nat) :
    Steps Shrinks AnyStop (loadSegments e segs remaining last) := by
  induction segs generalizing remaining last with
  | nil => exact steps_pure _
  | cons seg segs ih =>
    refine (shrinks_programSegment e seg _ _).bind fun r => ?_
    exact (steps_writeSegment edits_shrinks e seg).bind fun _ => ih _ _

theorem shrinks_createStack : Steps Shrinks AnyStop (createStack e) := by
  refine (steps_allocateFrame edits_shrinks).bind fun p => ?_
  refine (steps_envPageDirectory edits_shrinks e).bind fun dir => ?_
  refine (steps_loadtimeMapFrame edits_shrinks _ _ _ _).bind fun _ => ?_
  refine (steps_kernelFrame edits_shrinks _).bind fun f => ?_
  refine (steps_writePage edits_shrinks _ _).bind fun _ => (steps_getEnv e).bind fun env => ?_
  refine (steps_getEnv e).bind fun env' => Steps.ite ?_ (steps_panic edits_shrinks _)
  refine (shrinks_modifyEnv e _).bind fun _ => (steps_getEnv e).bind fun _ => ?_
  refine (shrinks_addToLists e _ _).bind fun _ => (shrinks_nextWSIndex e).bind fun _ => ?_
  exact (steps_pfAddEmptyEnvPage edits_shrinks _ _ _).bind fun _ => steps_pure _

theorem shrinks_wsForeach {β ρ : Type} {list : WSList} {body : β → Nat → Prog (Pass β ρ)}
    (pass : ∀ b x, Steps Shrinks AnyStop (body b x)) (fuel : Nat) (var : Option Nat) (b : β) :
    Steps Shrinks AnyStop (wsForeach e list body fuel var b) := by
  induction fuel generalizing var b with
  | zero => exact steps_throw trivial
  | succ fuel ih =>
    refine (shrinks_modifyEnv e _).bind fun _ => ?_
    cases var with
    | none => exact steps_pure _
    | some x =>
      refine (pass b x).bind fun r => ?_
      cases r with
      | leave r => exact steps_pure _
      | next b => exact (steps_getEnv e).bind fun _ => ih _ _

theorem shrinks_resetPresent : Steps Shrinks AnyStop (resetPresent e) := by
  refine ((steps_getEnv e).bind fun _ => steps_pure _).bind fun first => ?_
  refine (shrinks_wsForeach e (fun _ elm => ?_) _ _ _).bind fun _ => steps_pure _
  refine (steps_virtualAddress e elm).bind fun va => ?_
  exact (steps_ptSetPagePermissions edits_shrinks e _ _ _).bind fun _ => steps_pure _

theorem shrinks_initializeEnvironment (dir phys : Nat) :
    Steps Shrinks AnyStop (initializeEnvironment e dir phys) := by
  refine steps_get.bind fun s => (steps_writePage edits_shrinks _ _).bind fun _ => ?_
  refine (steps_getEnv e).bind fun env => ?_
  refine (Steps.forM fun i _ => ?_).bind fun _ => shrinks_modifyEnv e _
  exact ((steps_pure _).ite (steps_throw trivial)).bind fun _ => shrinks_modifyEnv e _

end Steps

/-- The panic of `env_create` when the page file is full. -/
def pageFileFull : Stop :=
  .panic "ERROR: Page File OUT OF SPACE. can't load the program in Page file!!"

variable {s s' : Kernel} {free : List Nat} {e n second : Nat} {program : UserProgram}

/-- The frame of the page directory is gone, wherever `env_create` stops. -/
theorem envCreate_takes (rep : s.freeFrameList.Rep s.frameLinks free) :
    wp (envCreate e program n second) (fun _ _ => True) (fun x s' => x ≠ outOfMemory →
      ∃ f rest k, free = f :: rest ∧ s'.freeFrameList.Rep s'.frameLinks (rest.drop k)) s := by
  have space : ∀ p, Steps Shrinks AnyStop (do
      setReferences p 1
      let dir ← staticKernelVirtualAddress (toPhysicalAddress p)
      modifyEnv e (Env.setSizes n second)
      initializeEnvironment e dir (toPhysicalAddress p)
      return toPhysicalAddress p) := fun p => by
    refine (steps_setReferences edits_shrinks _ _).bind fun _ => ?_
    refine (steps_staticKernelVirtualAddress edits_shrinks _).bind fun dir => ?_
    refine (shrinks_modifyEnv e _).bind fun _ => ?_
    exact (shrinks_initializeEnvironment e _ _).bind fun _ => steps_pure _
  have lcr3 : ∀ phys, Steps Shrinks AnyStop (lcr3 phys) := fun phys =>
    steps_modify fun _ => Shrinks.same rfl rfl
  have load : ∀ phys, Steps Shrinks AnyStop (do
      let kernPhysPgdir := (← get).globals.cr3
      Fos.lcr3 phys
      if program.elfMagic then
        loadSegments e program.segments (uint32 (n - 1)) 0xFFFFFFFF
        clearModified e
        createStack e
        resetPresent e
        Fos.lcr3 kernPhysPgdir
      else
        panic "Matafa2nash 3ala Keda") := fun phys => by
    refine steps_get.bind fun t => (lcr3 _).bind fun _ => ?_
    refine Steps.ite ?_ (steps_panic edits_shrinks _)
    refine (shrinks_loadSegments e _ _ _).bind fun _ => ?_
    refine (steps_clearModified edits_shrinks e).bind fun _ => ?_
    exact (shrinks_createStack e).bind fun _ => (shrinks_resetPresent e).bind fun _ => lcr3 _
  rw [envCreate, wp_bind, wp_modifyEnv, wp_bind, newSpace, wp_bind]
  refine allocateFrame_listed_wp (s := s.setGlobals _) rep ?_ ?_
  · rintro f rest rfl
    have taken := takeFrame_rep (s := s.setGlobals _) rep
    apply (space f).wp
    · intro phys s₂ step
      apply (load phys).wp fun _ _ _ => trivial
      intro x s₃ _ step' _
      obtain ⟨k, rep'⟩ := trans_of Shrinks step step' rest taken
      exact ⟨f, rest, k, rfl, rep'⟩
    · intro x s₂ _ step _
      obtain ⟨k, rep'⟩ := step rest taken
      exact ⟨f, rest, k, rfl, rep'⟩
  · exact fun _ other => absurd rfl other

/-! ## What is not undone -/

/-- `env_create` has found the structure `e`, and panics since the page file is full. -/
structure FailedCreate (sched sched' : Sched) (s s' : Kernel) (e : Nat) (program : UserProgram)
    (pageWSSize LRUSecondListSize : Nat) : Prop where
  found : sched.envCreate true = (some e, sched')
  panics : envCreate e program pageWSSize LRUSecondListSize s = .error pageFileFull s'

/-- The structure, the frames and the disk frames are on their free lists again, and the
other environments are as they were. -/
structure Undone (sched sched' : Sched) (s s' : Kernel) (e : Nat) : Prop where
  structures : ∀ seqs, sched'.lists.Rep seqs → e ∈ seqs .envFreeList
  frames : ∀ free, s.freeFrameList.Rep s.frameLinks free →
    ∃ free', s'.freeFrameList.Rep s'.frameLinks free' ∧ ∀ f ∈ free, f ∈ free'
  diskFrames : ∀ free, s.diskFreeFrameList.Rep s.diskLinks free →
    ∃ free', s'.diskFreeFrameList.Rep s'.diskLinks free' ∧ ∀ d ∈ free, d ∈ free'
  others : ∀ e', e' ≠ e → sched'.envs e' = sched.envs e' ∧ s'.globals.envs e' = s.globals.envs e'

variable {sched sched' : Sched}

/-- A frame is missing. -/
theorem FailedCreate.frame_lost (failed : FailedCreate sched sched' s s' e program n second)
    (rep : s.freeFrameList.Rep s.frameLinks free) :
    ∃ f ∈ free, ∀ free', s'.freeFrameList.Rep s'.frameLinks free' → f ∉ free' := by
  obtain ⟨f, rest, k, rfl, rep'⟩ :=
    (wp_error failed.panics).mp (envCreate_takes rep) (by decide)
  refine ⟨f, by simp, fun free' there member => ?_⟩
  rw [there.seg.unique rep'.seg (there.first.symm.trans rep'.first)] at member
  exact (List.nodup_cons.mp rep.nodup).1 (List.mem_of_mem_drop member)

/-- The structure is on no list of free ones. -/
theorem FailedCreate.structure_lost (failed : FailedCreate sched sched' s s' e program n second)
    {seqs : EnvList → List Nat} (rep : sched.lists.Rep seqs) :
    ∃ seqs', sched'.lists.Rep seqs' ∧ e ∉ seqs' .envFreeList := by
  have found := failed.found
  rw [Sched.envCreate, if_pos rfl, Sched.allocateEnvironment, rep.first] at found
  cases free : seqs .envFreeList with
  | nil =>
    rw [free] at found
    cases found
  | cons e' es =>
    rw [free] at found
    obtain ⟨here, rfl⟩ := Prod.ext_iff.mp found
    obtain rfl : e' = e := Option.some.inj here
    have member : e' ∈ seqs .envFreeList := by simp [free]
    refine ⟨_, rep.remove member, ?_⟩
    rw [Function.update_self, free, List.erase_cons_head]
    have nodup := (rep.list .envFreeList).nodup
    rw [free] at nodup
    exact (List.nodup_cons.mp nodup).1

/-- **A failed `env_create` is never undone**: the frame of the page directory is not given
back, and neither is the structure. -/
theorem FailedCreate.not_undone (failed : FailedCreate sched sched' s s' e program n second)
    (rep : s.freeFrameList.Rep s.frameLinks free) : ¬ Undone sched sched' s s' e := by
  intro undone
  obtain ⟨f, member, lost⟩ := failed.frame_lost rep
  obtain ⟨free', rep', all⟩ := undone.frames free rep
  exact lost free' rep' (all f member)

/-! ## A full page file -/

/-- `pairKernel` with three free frames and no free disk frame. -/
def spareKernel : Kernel := ((pairKernel.insertFrame 20).insertFrame 21).insertFrame 22

theorem rep_spare : spareKernel.freeFrameList.Rep spareKernel.frameLinks [22, 21, 20] :=
  rep_insertHead (rep_insertHead (rep_insertHead (rep_zero _) (by simp)) (by simp)) (by simp)

/-- A program with one empty segment. -/
def emptyProgram : UserProgram where
  name := "a"
  elfMagic := true
  segments := [⟨fun _ => 0, 0, 0, 0x800000⟩]

/-- Why a run does not return. -/
def stopOf {α : Type} : EStateM.Result Stop Kernel α → Option Stop
  | .ok _ _ => none
  | .error x _ => some x

theorem stopOf_some {α : Type} {r : EStateM.Result Stop Kernel α} {x : Stop}
    (stop : stopOf r = some x) : ∃ s', r = .error x s' := by
  cases r with
  | ok a s' => cases stop
  | error y s' =>
    obtain rfl : y = x := Option.some.inj stop
    exact ⟨s', rfl⟩

theorem failedCreate_spare : ∃ sched' s',
    FailedCreate (Sched.boot.envCreate true).2 sched' spareKernel s' 1 emptyProgram 1 0 := by
  have stops : stopOf (envCreate 1 emptyProgram 1 0 spareKernel) = some pageFileFull := by
    decide +kernel
  obtain ⟨s', panics⟩ := stopOf_some stops
  have found : ((Sched.boot.envCreate true).2.envCreate true).1 = some 1 := by decide +kernel
  exact ⟨_, s', Prod.ext found rfl, panics⟩

/-- The frame of the page directory of the second environment is lost. -/
theorem envCreate_abandons : ¬ ∀ (sched sched' : Sched) (s s' : Kernel) (e : Nat)
    (program : UserProgram) (pageWSSize LRUSecondListSize : Nat) (free : List Nat),
    s.freeFrameList.Rep s.frameLinks free →
    FailedCreate sched sched' s s' e program pageWSSize LRUSecondListSize →
    Undone sched sched' s s' e := by
  intro undone
  obtain ⟨sched', s', failed⟩ := failedCreate_spare
  obtain ⟨f, member, lost⟩ := failed.frame_lost rep_spare
  obtain ⟨free', rep', all⟩ := (undone _ _ _ _ _ _ _ _ _ rep_spare failed).frames _ rep_spare
  exact lost free' rep' (all f member)

/-- So it is with an empty program. -/
theorem failedCreate_empty : ∃ sched' s', ¬ Undone (Sched.boot.envCreate true).2 sched'
    spareKernel s' 1 := by
  obtain ⟨sched', s', failed⟩ := failedCreate_spare
  exact ⟨sched', s', failed.not_undone rep_spare⟩

end Fos
