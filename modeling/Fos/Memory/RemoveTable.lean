import Fos.Command
import Fos.Memory.Environment
import Fos.Memory.Tables
import Fos.Sched.EnvIds
import Fos.WorkingSet.Faults

/-!
# The command `rut`

`command_remove_table` of `kern/command_prompt.c` frees a page table of an environment.  It
does not ask whether there is one, and leaves the number of its frame in the page directory.

* `RemovesSoundly`: what the command is for;
* `freedTables`: what the loop of `env_free` frees as page tables;
* `removeTable_never`: whatever it is given, it does not do that;
* `removeTable_twice`: the second time it is given an address, the free list is destroyed.
-/

namespace Fos

open Exec Linked

/-- `command_remove_table`, for an environment and an address. -/
def removeTable (e address : Nat) : Prog Unit := do
  let tablePa := extractAddress (← readWord (← envPageDirectory e) (pdx address))
  let tableFrameInfo ← toFrameInfo tablePa
  setReferences tableFrameInfo 0
  freeFrame tableFrameInfo
  let dir ← envPageDirectory e
  writeWord dir (pdx address) ((← readWord dir (pdx address)) &&& ~~~permPresent)

/-- `command_remove_table(number_of_arguments, arguments)`. -/
def commandRemoveTable (sched : Sched) (arguments : List String) : Prog Int := do
  let envId := strtol (← deref arguments[1]?) 10
  match ← deref (sched.envid2env (BitVec.ofInt 32 envId) false) with
  | (_, none) => return 0
  | (_, some e) =>
    let address := uint32 (strtol (← deref arguments[2]?) 16)
    removeTable e address
    return 0

/-! ## What it is for -/

/-- The frames that the loop of `env_free` over the page directory `d` frees. -/
def freedTables (mem : Nat → Page) (d : Nat) (entries : List (Fin 1024)) : List Nat :=
  (entries.map fun i => frameOf (mem d i)).filter (· ≠ 0)

/-- The frame of the table for `va` is free, and neither `get_page_table` nor `env_free` takes
it for the environment's any more. -/
structure TableGivenUp (s s' : Kernel) (free : List Nat) (d va : Nat) : Prop where
  freed : s'.freeFrameList.Rep s'.frameLinks (frameOf (s.mem d (pdx va)) :: free)
  frame : frameOf (s.mem d (pdx va)) ≠ 0
  unused : getPageTable d va s' = .ok none s'
  notFreed : frameOf (s.mem d (pdx va)) ∉ freedTables s'.mem d userEntries

/-- The command gives up a table that is there, and frees nothing if there is none. -/
def RemovesSoundly (s s' : Kernel) (free : List Nat) (d va : Nat) : Prop :=
  if present (s.mem d (pdx va)) then
    TableGivenUp s s' free d va
  else
    s'.freeFrameList.Rep s'.frameLinks free

/-! ## `env_free` -/

variable {s s' : Kernel} {free : List Nat} {d e f va : Nat} {Q : Unit → Kernel → Prop}
  {E : Stop → Kernel → Prop}

/-- Freeing a frame whatever its references. -/
def giveBack (f : Nat) : Prog Unit := do
  setReferences f 0
  freeFrame f

/-- The state in which the frame `f` has been freed. -/
def Kernel.givenBack (s : Kernel) (f : Nat) : Kernel :=
  ((s.setReferences f 0).initializeFrameInfo f).insertFrame f

theorem wp_giveBack : wp (giveBack f) Q E s ↔ Q () (s.givenBack f) := Iff.rfl

/-- A pass of the loop. -/
theorem freeTables_pass {i : Fin 1024} (dir : (s.globals.envs e).envPageDirectory = some d)
    (lt : frameOf (s.mem d i) < s.globals.numberOfFrames) :
    wp (do
      let entry ← readWord (← envPageDirectory e) i
      if frameOf entry ≠ 0 then
        let frameInfo1 ← toFrameInfo (frameOf entry * pageSize)
        setReferences frameInfo1 0
        freeFrame frameInfo1) Q E s ↔
      if frameOf (s.mem d i) = 0 then Q () s else Q () (s.givenBack (frameOf (s.mem d i))) := by
  have frame : ppn (frameOf (s.mem d i) * pageSize) = frameOf (s.mem d i) :=
    Nat.mul_div_cancel _ (by decide)
  simp only [envPageDirectory, getEnv, wp_bind, wp_get, wp_pure, dir, wp_deref_some, wp_readWord,
    wp_ite, ite_not, toFrameInfo, frame, if_neg (Nat.not_le_of_lt lt)]
  rfl

/-- The loop frees these frames, one after another. -/
theorem freeTables_frees {entries : List (Fin 1024)}
    (dir : (s.globals.envs e).envPageDirectory = some d)
    (bound : ∀ i ∈ entries, frameOf (s.mem d i) < s.globals.numberOfFrames) :
    wp (entries.forM fun i => do
      let entry ← readWord (← envPageDirectory e) i
      if frameOf entry ≠ 0 then
        let frameInfo1 ← toFrameInfo (frameOf entry * pageSize)
        setReferences frameInfo1 0
        freeFrame frameInfo1) Q E s ↔
      wp ((freedTables s.mem d entries).forM giveBack) Q E s := by
  induction entries generalizing s with
  | nil => rfl
  | cons i rest ih =>
    have lt := bound i (by simp)
    have later : ∀ j ∈ rest, frameOf (s.mem d j) < s.globals.numberOfFrames :=
      fun j mem => bound j (List.mem_cons_of_mem i mem)
    rw [wp_forM_cons, freeTables_pass dir lt]
    by_cases zero : frameOf (s.mem d i) = 0
    · rw [if_pos zero, ih dir later]
      simp [freedTables, zero]
    · have next : freedTables s.mem d (i :: rest) =
          frameOf (s.mem d i) :: freedTables (s.givenBack (frameOf (s.mem d i))).mem d rest := by
        simp [freedTables, zero, Kernel.givenBack, Kernel.insertFrame, Kernel.initializeFrameInfo,
          Kernel.setReferences]
      rw [if_neg zero, next, wp_forM_cons, wp_giveBack]
      exact ih (s := s.givenBack _) dir later

/-- The loop of `env_free`. -/
theorem freeTables_eq (dir : (s.globals.envs e).envPageDirectory = some d)
    (bound : ∀ i ∈ userEntries, frameOf (s.mem d i) < s.globals.numberOfFrames) :
    wp (freeTables e) Q E s ↔ wp ((freedTables s.mem d userEntries).forM giveBack) Q E s :=
  freeTables_frees dir bound

/-! ## What the command does -/

/-- The state in which the command has freed the frame and cleared the bit of the entry. -/
def Kernel.tableRemoved (s : Kernel) (d va : Nat) : Kernel :=
  (s.givenBack (frameOf (s.mem d (pdx va)))).setWord d (pdx va)
    (s.mem d (pdx va) &&& ~~~permPresent)

/-- It does so whatever the entry is, or panics since there is no such frame. -/
theorem removeTable_wp (dir : (s.globals.envs e).envPageDirectory = some d)
    (done : frameOf (s.mem d (pdx va)) < s.globals.numberOfFrames → Q () (s.tableRemoved d va))
    (stops : ¬ frameOf (s.mem d (pdx va)) < s.globals.numberOfFrames →
      ∀ message, E (.panic message) s) : wp (removeTable e va) Q E s := by
  simp only [removeTable, envPageDirectory, getEnv, wp_bind, wp_get, wp_pure, dir, wp_deref_some,
    wp_readWord]
  apply toFrameInfo_cases
  · rw [ppn_extractAddress]
    intro lt
    simp only [wp_setReferences, freeFrame, wp_bind, wp_modify]
    change wp (deref (s.globals.envs e).envPageDirectory) _ _ _
    rw [dir]
    exact done lt
  · rw [ppn_extractAddress]
    exact stops

/-- The freed frame comes first, and the one that was first comes next. -/
theorem givenBack_list {xs : List Nat}
    (rep : (s.givenBack f).freeFrameList.Rep (s.givenBack f).frameLinks xs) :
    ∃ rest, xs = f :: rest ∧ rest.head? = s.freeFrameList.lhFirst := by
  have first : xs.head? = some f :=
    rep.first.symm.trans (lhFirst_listInsertHead _ _ _)
  obtain ⟨rest, rfl⟩ := List.head?_eq_some_iff.mp first
  refine ⟨rest, rfl, ?_⟩
  have next : (s.givenBack f).frameLinks.next f = rest.head?.or none := rep.seg.2.1
  rw [Option.or_none] at next
  exact next.symm.trans (next_listInsertHead _ _ _)

/-- A frame that is first on the list cannot be freed again. -/
theorem givenBack_again {xs : List Nat} (first : s.freeFrameList.lhFirst = some f) :
    ¬ (s.givenBack f).freeFrameList.Rep (s.givenBack f).frameLinks xs := by
  intro rep
  obtain ⟨rest, rfl, head⟩ := givenBack_list rep
  rw [first] at head
  exact (List.nodup_cons.mp rep.nodup).1 (List.mem_of_mem_head? head)

/-- Freeing a frame changes the list. -/
theorem givenBack_changes (rep : s.freeFrameList.Rep s.frameLinks free) :
    ¬ (s.givenBack f).freeFrameList.Rep (s.givenBack f).frameLinks free := by
  intro rep'
  obtain ⟨rest, rfl, -⟩ := givenBack_list rep'
  exact givenBack_again rep.first rep'

/-- The entry still has the frame, for `env_free` to free it again. -/
theorem tableRemoved_kept (user : UserVa va) (frame : frameOf (s.mem d (pdx va)) ≠ 0) :
    frameOf (s.mem d (pdx va)) ∈ freedTables (s.tableRemoved d va).mem d userEntries := by
  have entry : (s.tableRemoved d va).mem d (pdx va) = s.mem d (pdx va) &&& ~~~permPresent := by
    simp [Kernel.tableRemoved, Kernel.setWord, Kernel.setPage]
  refine List.mem_filter.mpr ⟨List.mem_map.mpr ⟨pdx va, (mem_userEntries _).mpr user, ?_⟩, by
    simpa using frame⟩
  rw [entry, frameOf_andNot _ (by decide)]

/-- Whether there is a table or not. -/
theorem tableRemoved_unsound (rep : s.freeFrameList.Rep s.frameLinks free) (user : UserVa va) :
    ¬ RemovesSoundly s (s.tableRemoved d va) free d va := by
  rw [RemovesSoundly]
  split
  · intro gone
    exact gone.notFreed (tableRemoved_kept user gone.frame)
  · exact givenBack_changes rep

/-- `command_remove_table` with an environment and an address. -/
theorem commandRemoveTable_wp {Q : Int → Kernel → Prop} {sched : Sched} {arguments : List String}
    {id address : String} {r : Int} (env : arguments[1]? = some id)
    (addr : arguments[2]? = some address)
    (found : sched.envid2env (BitVec.ofInt 32 (strtol id 10)) false = some (r, some e))
    (run : wp (removeTable e (uint32 (strtol address 16))) (fun _ => Q 0) E s) :
    wp (commandRemoveTable sched arguments) Q E s := by
  simp only [commandRemoveTable, env, addr, found, wp_bind, wp_deref_some, wp_pure]
  exact run

/-- **The remove-table command is never sound.**  For no environment and no user address does it
give up the table of the address, or free nothing when there is none. -/
theorem removeTable_never {sched : Sched} {arguments : List String} {id address : String} {r : Int}
    (env : arguments[1]? = some id) (addr : arguments[2]? = some address)
    (found : sched.envid2env (BitVec.ofInt 32 (strtol id 10)) false = some (r, some e))
    (dir : (s.globals.envs e).envPageDirectory = some d)
    (rep : s.freeFrameList.Rep s.frameLinks free) (user : uint32 (strtol address 16) < userTop) :
    ¬ ∃ s', commandRemoveTable sched arguments s = .ok 0 s' ∧
      RemovesSoundly s s' free d (uint32 (strtol address 16)) := by
  rintro ⟨s', run, sound⟩
  have ends : wp (commandRemoveTable sched arguments)
      (fun _ s' => ¬ RemovesSoundly s s' free d (uint32 (strtol address 16)))
      (fun _ _ => True) s := by
    apply commandRemoveTable_wp env addr found
    apply removeTable_wp dir
    · exact fun _ => tableRemoved_unsound rep (userVa_of_lt user)
    · exact fun _ _ => trivial
  rw [wp_ok run] at ends
  exact ends sound

/-- After a second call for the address there is no free list any more, whether the first one
found a table or not. -/
theorem removeTable_twice (dir : (s.globals.envs e).envPageDirectory = some d)
    (lt : frameOf (s.mem d (pdx va)) < s.globals.numberOfFrames) :
    wp (do removeTable e va; removeTable e va)
      (fun _ s' => ∀ xs, ¬ s'.freeFrameList.Rep s'.frameLinks xs) (fun _ _ => False) s := by
  have entry : (s.tableRemoved d va).mem d (pdx va) = s.mem d (pdx va) &&& ~~~permPresent := by
    simp [Kernel.tableRemoved, Kernel.setWord, Kernel.setPage]
  have frame : frameOf ((s.tableRemoved d va).mem d (pdx va)) = frameOf (s.mem d (pdx va)) := by
    rw [entry, frameOf_andNot _ (by decide)]
  rw [wp_bind]
  apply removeTable_wp dir
  · intro _
    apply removeTable_wp (s := s.tableRemoved d va) dir
    · intro _ xs
      have first : (s.tableRemoved d va).freeFrameList.lhFirst =
          some (frameOf ((s.tableRemoved d va).mem d (pdx va))) := by
        rw [frame]
        exact lhFirst_listInsertHead ..
      exact givenBack_again first
    · rw [frame]
      exact absurd lt
  · exact absurd lt

/-! ## Runs on fixed arguments -/

theorem envid2env_4096 : ∃ sched : Sched,
    sched.envid2env (BitVec.ofInt 32 (strtol "4096" 10)) false = some (0, some 0) := by
  have first : Sched.Reach _ := .step (.newEnv true) .boot trivial (.inl rfl)
  have id : BitVec.ofInt 32 (strtol "4096" 10) = usedEnvId 0 := by decide +kernel
  have found := first.envid2env_usedEnvId (e := 0) (by decide)
  rw [if_pos ⟨by decide, by decide, by decide +kernel⟩, ← id] at found
  exact ⟨_, found⟩

/-- `rut` with the first environment and the table of its two pages. -/
theorem removeTable_pair : ∃ sched, ¬ ∃ s',
    commandRemoveTable sched ["rut", "4096", "80000000"] pairKernel = .ok 0 s' ∧
    RemovesSoundly pairKernel s' [] 5 (uint32 (strtol "80000000" 16)) := by
  obtain ⟨sched, found⟩ := envid2env_4096
  exact ⟨sched, removeTable_never rfl rfl found rfl (rep_zero _) (by decide +kernel)⟩

/-- And with an address for which there is no table: the frame 0 is freed. -/
theorem removeTable_zero : ∃ (sched : Sched) (s' : Kernel),
    commandRemoveTable sched ["rut", "4096", "800000"] pairKernel = .ok 0 s' ∧
    pairKernel.mem 5 (pdx 0x800000) = 0 ∧ pairKernel.freeFrameList.Rep pairKernel.frameLinks [] ∧
    s'.freeFrameList.lhFirst = some 0 ∧ ¬ RemovesSoundly pairKernel s' [] 5 0x800000 := by
  obtain ⟨sched, found⟩ := envid2env_4096
  have address : uint32 (strtol "800000" 16) = 0x800000 := by decide +kernel
  have frame : frameOf (pairKernel.mem 5 (pdx 0x800000)) = 0 := by decide
  have ends : wp (commandRemoveTable sched ["rut", "4096", "800000"]) (fun r s' => r = 0 ∧
      s' = pairKernel.tableRemoved 5 0x800000) (fun _ _ => False) pairKernel := by
    apply commandRemoveTable_wp rfl rfl found
    rw [address]
    apply removeTable_wp (d := 5) rfl
    · exact fun _ => ⟨rfl, rfl⟩
    · rw [frame]
      exact absurd (by decide)
  obtain ⟨r, s', run, rfl, rfl⟩ := wp_returns ends
  refine ⟨sched, _, run, by decide, rep_zero _, ?_, tableRemoved_unsound (rep_zero _) (by decide)⟩
  exact (lhFirst_listInsertHead ..).trans (congrArg some frame)

end Fos
