import Fos.Command
import Fos.Memory.Boot
import Fos.Memory.Spaces
import Fos.WorkingSet.Quiet

/-!
# The working set while a program is loaded

The intermediate cuts of a run of `env_create`: the states before a segment, before a page
and at the moment when the working set takes a page.

* `AtSegment`, `AtPage`, `Takes`: the cuts, whether or not the run comes to its end;
* `Filling e n j s`: `j` of the `n` elements are taken, in order;
* `Takes.filling`: so it is at every cut, if `1 ≤ n ≤ __PWS_MAX_SIZE`;
* `Creation.safe_iff_usable`: when nothing goes wrong, by the two ways to create an environment.
-/

namespace Fos

open Exec Linked

/-! ## Cuts -/

/-- A call of `env_create`, with the environment and the program that it found. -/
structure Creation where
  e : Nat
  program : UserProgram
  pageWSSize : Nat
  LRUSecondListSize : Nat

/-- A run of `env_create` from `s` has come to the segments `segs`, with `remaining_ws_pages`
and `lastTableNumber`. -/
inductive AtSegment (c : Creation) (s : Kernel) :
    List ProgramSegment → Nat → Nat → Kernel → Prop
  | start {phys : Nat} {s₁ s₂ : Kernel} (elf : c.program.elfMagic = true)
    (space : (do
      modifyEnv c.e (Env.setProgName (progNameOf c.program.name))
      newSpace c.e c.pageWSSize c.LRUSecondListSize) s = .ok phys s₁)
    (switch : lcr3 phys s₁ = .ok () s₂) :
    AtSegment c s c.program.segments (uint32 (c.pageWSSize - 1)) 0xFFFFFFFF s₂
  | next {seg : ProgramSegment} {segs : List ProgramSegment}
    {remaining lastTableNumber n lastTableNumber' : Nat} {s₁ s₂ s₃ : Kernel}
    (before : AtSegment c s (seg :: segs) remaining lastTableNumber s₁)
    (load : programSegmentAllocMapCopyWorkingset c.e seg remaining lastTableNumber s₁ =
      .ok (n, lastTableNumber') s₂)
    (write : writeSegment c.e seg s₂ = .ok () s₃) :
    AtSegment c s segs (remaining - n) lastTableNumber' s₃

/-- The loop of `program_segment_alloc_map_copy_workingset`, entered in `s`, has come to the
page `iVA`, with so many pages still allowed. -/
inductive AtPage (e endVaddr : Nat) (s : Kernel) (remaining₀ iVA₀ lastTableNumber₀ : Nat) :
    Nat → Nat → Nat → Kernel → Prop
  | start : AtPage e endVaddr s remaining₀ iVA₀ lastTableNumber₀ remaining₀ iVA₀
      lastTableNumber₀ s
  | next {remaining iVA lastTableNumber lastTableNumber' : Nat} {s₁ s₂ : Kernel}
    (before : AtPage e endVaddr s remaining₀ iVA₀ lastTableNumber₀ (remaining + 1) iVA
      lastTableNumber s₁)
    (more : iVA < endVaddr) (load : loadPage e iVA lastTableNumber s₁ = .ok lastTableNumber' s₂) :
    AtPage e endVaddr s remaining₀ iVA₀ lastTableNumber₀ remaining ((iVA + pageSize) % word32)
      lastTableNumber' s₂

/-- The pages that may be loaded of a segment. -/
def segmentPages (env : Env) (seg : ProgramSegment) (remainingWSPages : Nat) : Nat :=
  if roundDown seg.virtualAddress = 0x200000 ∧ env.progName ≠ "tpp" then min remainingWSPages 6
  else remainingWSPages

/-- A run of `env_create` from `s` has come to a state where the working set takes a page, of
a segment or of the stack. -/
inductive Takes (c : Creation) (s : Kernel) : Kernel → Prop
  | page {seg : ProgramSegment} {segs : List ProgramSegment}
    {remaining₀ lastTableNumber₀ remaining iVA lastTableNumber : Nat} {s₁ s₂ s₃ : Kernel}
    (segment : AtSegment c s (seg :: segs) remaining₀ lastTableNumber₀ s₁)
    (at_ : AtPage c.e (roundUp ((seg.virtualAddress + seg.sizeInMemory) % word32)) s₁
      (segmentPages (s₁.globals.envs c.e) seg remaining₀) (roundDown seg.virtualAddress)
      lastTableNumber₀ (remaining + 1) iVA lastTableNumber s₂)
    (more : iVA < roundUp ((seg.virtualAddress + seg.sizeInMemory) % word32))
    (map : (do
      let p ← allocateFrame
      loadtimeMapFrame (← envPageDirectory c.e) p iVA (permUser ||| permWriteable)) s₂ =
        .ok () s₃) :
    Takes c s s₃
  | stack {remaining lastTableNumber : Nat} {s₁ s₂ s₃ : Kernel}
    (loaded : AtSegment c s [] remaining lastTableNumber s₁)
    (clear : clearModified c.e s₁ = .ok () s₂)
    (map : (do
      let pp ← allocateFrame
      loadtimeMapFrame (← envPageDirectory c.e) pp (ustackTop - pageSize)
        (permUser ||| permWriteable)
      writePage (← kernelFrame (ustackTop - pageSize)) zeroes) s₂ = .ok () s₃) :
    Takes c s s₃

/-! ## Filling the working set -/

/-- `j` of the `n` elements of the working set are taken. -/
structure Filling (n j : Nat) (env : Env) : Prop where
  lists : ∃ seqs, env.lists.Rep seqs ∧ (∀ k < n, j ≤ k → k ∈ seqs .pageWorkingSetList) ∧
    ∀ i ≠ .pageWorkingSetList, ∀ k ∈ seqs i, k < j
  index : env.pageLastWSIndex = j
  maxSize : env.pageWSMaxSize = n

/-- The next element is on the list of those that are free. -/
theorem Filling.listed {n j : Nat} {env : Env} (filling : Filling n j env) (lt : j < n) :
    ∃ seqs, env.lists.Rep seqs ∧ j ∈ seqs .pageWorkingSetList := by
  obtain ⟨seqs, rep, free, -⟩ := filling.lists
  exact ⟨seqs, rep, free j lt (Nat.le_refl j)⟩

/-- The next element goes to another list. -/
theorem Filling.take {n j : Nat} {env env' : Env} {i : WSList} (filling : Filling n j env)
    (lt : j + 1 < n) (other : i ≠ .pageWorkingSetList)
    (lists : env'.lists = (env.lists.remove .pageWorkingSetList j).insertHead i j)
    (index : env'.pageLastWSIndex = (env.pageLastWSIndex + 1) % env.pageWSMaxSize)
    (maxSize : env'.pageWSMaxSize = env.pageWSMaxSize) : Filling n (j + 1) env' := by
  obtain ⟨seqs, rep, free, taken⟩ := filling.lists
  have mem : j ∈ seqs .pageWorkingSetList := free j (by omega) (Nat.le_refl j)
  have loose : ∀ i, j ∉ Function.update seqs .pageWorkingSetList
      ((seqs .pageWorkingSetList).erase j) i := by
    intro i
    rcases eq_or_ne i .pageWorkingSetList with rfl | ne
    · rw [Function.update_self]
      exact (rep.list _).nodup.not_mem_erase
    · rw [Function.update_of_ne ne]
      exact fun mem' => (taken i ne j mem').false
  refine ⟨⟨_, lists ▸ (rep.remove mem).insertHead i loose, fun k lt' le => ?_, fun i' ne k => ?_⟩,
    ?_, maxSize.trans filling.maxSize⟩
  · rw [Function.update_of_ne other.symm, Function.update_self]
    exact (List.mem_erase_of_ne (by omega)).mpr (free k lt' (by omega))
  · rcases eq_or_ne i' i with rfl | ne'
    · rw [Function.update_self, Function.update_of_ne ne, List.mem_cons]
      rintro (rfl | mem')
      · exact Nat.lt_succ_self _
      · exact (taken i' ne k mem').trans (Nat.lt_succ_self j)
    · rw [Function.update_of_ne ne', Function.update_of_ne ne]
      exact fun mem' => (taken i' ne k mem').trans (Nat.lt_succ_self j)
  · rw [index, filling.index, filling.maxSize, Nat.mod_eq_of_lt lt]

/-- What is carried along while the elements are taken: `P j` when `j` are. -/
structure Carried (n : Nat) (P : Nat → Env → Prop) : Prop where
  same {j : Nat} {env env' : Env} (carried : P j env) (lists : env'.lists = env.lists)
    (elements : env'.ptrPageWorkingSet = env.ptrPageWorkingSet) : P j env'
  take {j va : Nat} {env env' : Env} {i : WSList} (carried : P j env)
    (filling : Filling n j env) (lt : j < n) (other : i ≠ .pageWorkingSetList)
    (lists : env'.lists = (env.lists.remove .pageWorkingSetList j).insertHead i j)
    (elements : env'.ptrPageWorkingSet = Function.update env.ptrPageWorkingSet j ⟨va, false⟩) :
    P (j + 1) env'

theorem Carried.trivial (n : Nat) : Carried n fun _ _ => True where
  same _ _ _ := True.intro
  take _ _ _ _ _ _ := True.intro

/-- `Filling` with what is carried along. -/
def FillingWith (P : Nat → Env → Prop) (n j : Nat) (env : Env) : Prop := Filling n j env ∧ P j env

theorem Filling.alone {n j : Nat} {env : Env} (filling : Filling n j env) :
    FillingWith (fun _ _ => True) n j env := ⟨filling, trivial⟩

section Run

variable {e n j : Nat} {s : Kernel} {P : Nat → Env → Prop}

@[simp] theorem setEnv_envs (f : Env → Env) :
    (s.setGlobals (s.globals.setEnv e f)).globals.envs e = f (s.globals.envs e) :=
  Function.update_self ..

/-- A quiet part of a run. -/
theorem FillingWith.quiet {α : Type} {m : Prog α} {Q : α → Kernel → Prop}
    (filling : FillingWith P n j (s.globals.envs e)) (carries : Carried n P) (quiet : Quiet e m)
    (done : ∀ a s', FillingWith P n j (s'.globals.envs e) → Q a s') :
    wp m Q (fun _ _ => True) s := by
  obtain ⟨filling, carried⟩ := filling
  refine quiet.wp (fun a s' same => done a s' ⟨⟨?_, ?_, ?_⟩, ?_⟩) fun _ _ _ _ => trivial
  · rw [same.lists]
    exact filling.lists
  · exact same.lastIndex.trans filling.index
  · exact same.maxSize.trans filling.maxSize
  · exact carries.same carried same.lists same.elements

/-- The next element goes to the active or the second list. -/
theorem moveElement_wp {va limit : Nat} {Q : Unit → Kernel → Prop} (carries : Carried n P)
    (filling : FillingWith P n j (s.globals.envs e)) (lt : j < n)
    (done : ∀ i s', i ≠ .pageWorkingSetList → (s'.globals.envs e).lists =
        ((s.globals.envs e).lists.remove .pageWorkingSetList j).insertHead i j →
      (s'.globals.envs e).pageLastWSIndex = ((s.globals.envs e).pageLastWSIndex + 1) %
        (s.globals.envs e).pageWSMaxSize →
      (s'.globals.envs e).pageWSMaxSize = (s.globals.envs e).pageWSMaxSize →
      P (j + 1) (s'.globals.envs e) → Q () s') :
    wp (addToLists e j limit) (fun _ s' => wp (nextWSIndex e) Q (fun _ _ => True) s')
      (fun _ _ => True) (s.setGlobals (s.globals.setEnv e (Env.setWSElement va))) := by
  obtain ⟨filling, carried⟩ := filling
  have size : (s.globals.envs e).pageWSMaxSize ≠ 0 := by
    rw [filling.maxSize]
    omega
  have element : ((s.globals.envs e).setWSElement va).ptrPageWorkingSet =
      Function.update (s.globals.envs e).ptrPageWorkingSet j ⟨va, false⟩ := by
    rw [← filling.index]
    rfl
  simp only [addToLists, nextWSIndex, modifyLists, listSize, wp_bind, wp_modifyEnv, wp_getEnv,
    wp_ite, wp_pure, wp_throw, setEnv_envs]
  have maxSize : ∀ S S' : Lists WSList Nat, ((((s.globals.envs e).setWSElement va).setLists
      S).setLists S').pageWSMaxSize ≠ 0 := fun _ _ => size
  split
  · rw [if_neg (maxSize _ _)]
    refine done .activeList _ (by decide) (by simp; rfl) (by simp; rfl) (by simp; rfl) ?_
    exact carries.take (i := .activeList) carried filling lt (by decide) (by simp; rfl)
      ((by simp; rfl : _ = _).trans element)
  · rw [if_neg (maxSize _ _)]
    refine done .secondList _ (by decide) (by simp; rfl) (by simp; rfl) (by simp; rfl) ?_
    exact carries.take (i := .secondList) carried filling lt (by decide) (by simp; rfl)
      ((by simp; rfl : _ = _).trans element)

/-- The working set takes a page. -/
theorem takeElement_wp {va limit : Nat} {Q : Unit → Kernel → Prop} (carries : Carried n P)
    (filling : FillingWith P n j (s.globals.envs e)) (lt : j + 1 < n)
    (done : ∀ s', FillingWith P n (j + 1) (s'.globals.envs e) → Q () s') :
    wp (addToLists e j limit) (fun _ s' => wp (nextWSIndex e) Q (fun _ _ => True) s')
      (fun _ _ => True) (s.setGlobals (s.globals.setEnv e (Env.setWSElement va))) :=
  moveElement_wp carries filling (by omega) fun _ s' other lists index maxSize carried =>
    done s' ⟨filling.1.take lt other lists index maxSize, carried⟩

/-- A pass of the loop over the pages of a segment. -/
theorem loadPage_wp (iVA lastTableNumber : Nat) {Q : Nat → Kernel → Prop} (carries : Carried n P)
    (filling : FillingWith P n j (s.globals.envs e)) (lt : j + 1 < n)
    (done : ∀ last s', FillingWith P n (j + 1) (s'.globals.envs e) → Q last s') :
    wp (loadPage e iVA lastTableNumber) Q (fun _ _ => True) s := by
  rw [loadPage, wp_bind]
  apply filling.quiet carries (quiet_allocateFrame e)
  intro p s₁ filling₁
  rw [wp_bind]
  apply filling₁.quiet carries (quiet_envPageDirectory e e)
  intro dir s₂ filling₂
  rw [wp_bind]
  apply filling₂.quiet carries (quiet_loadtimeMapFrame e _ _ _ _)
  intro _ s₃ filling₃
  simp only [wp_bind, wp_getEnv, checkElement, wp_ite, wp_pure, wp_throw, filling₃.1.index]
  split
  · apply takeElement_wp carries filling₃ lt
    intro s' filling'
    split
    · simp only [wp_modifyEnv, wp_panic, setEnv_envs]
      split
      · trivial
      · refine done _ _ ?_
        rw [setEnv_envs]
        exact ⟨⟨filling'.1.lists, filling'.1.index, filling'.1.maxSize⟩,
          carries.same filling'.2 rfl rfl⟩
    · exact done _ _ filling'
  · trivial

/-- The loop over the pages of a segment. -/
theorem loadPages_wp {endVaddr remaining iVA lastTableNumber : Nat}
    {Q : Nat × Nat → Kernel → Prop} (carries : Carried n P)
    (filling : FillingWith P n j (s.globals.envs e)) (lt : j + remaining < n)
    (done : ∀ m last s', m ≤ remaining → FillingWith P n (j + m) (s'.globals.envs e) →
      Q (m, last) s') :
    wp (loadPages e endVaddr remaining iVA lastTableNumber) Q (fun _ _ => True) s := by
  induction remaining generalizing j iVA lastTableNumber s Q with
  | zero => exact done 0 lastTableNumber s (Nat.le_refl 0) filling
  | succ remaining ih =>
    simp only [loadPages, wp_ite, wp_bind, wp_pure]
    split
    · apply loadPage_wp _ _ carries filling (by omega)
      intro last s₁ filling₁
      apply ih filling₁ (by omega)
      intro m last' s₂ le filling₂
      exact done (m + 1) last' s₂ (by omega) (by rwa [Nat.add_assoc, Nat.add_comm 1] at filling₂)
    · exact done 0 lastTableNumber s (Nat.zero_le _) filling

/-- The part of the loader that fills the working set. -/
theorem programSegment_wp (seg : ProgramSegment) (remaining lastTableNumber : Nat)
    {Q : Nat × Nat → Kernel → Prop} (carries : Carried n P)
    (filling : FillingWith P n j (s.globals.envs e)) (lt : j + remaining < n)
    (done : ∀ m last s', m ≤ remaining → FillingWith P n (j + m) (s'.globals.envs e) →
      Q (m, last) s') :
    wp (programSegmentAllocMapCopyWorkingset e seg remaining lastTableNumber) Q
      (fun _ _ => True) s := by
  have le : segmentPages (s.globals.envs e) seg remaining ≤ remaining := by
    rw [segmentPages]
    split <;> omega
  simp only [programSegmentAllocMapCopyWorkingset, wp_bind, wp_getEnv, wp_pure]
  apply loadPages_wp carries filling (lt.trans_le' (Nat.add_le_add_left le j))
  intro m last s₁ le' filling₁
  apply filling₁.quiet carries (Steps.forM fun k _ => quiet_storeByte e _ _)
  intro _ s₂ filling₂
  apply filling₂.quiet carries (Steps.forM fun k _ => quiet_storeByte e _ _)
  intro _ s₃ filling₃
  exact done m last s₃ (le'.trans le) filling₃

/-- The whole loader. -/
theorem loadSegments_wp {segs : List ProgramSegment} {remaining lastTableNumber : Nat}
    {Q : Unit → Kernel → Prop} (carries : Carried n P)
    (filling : FillingWith P n j (s.globals.envs e)) (lt : j + remaining < n)
    (done : ∀ j' s', j' < n → FillingWith P n j' (s'.globals.envs e) → Q () s') :
    wp (loadSegments e segs remaining lastTableNumber) Q (fun _ _ => True) s := by
  induction segs generalizing j remaining lastTableNumber s with
  | nil => exact done j s (by omega) filling
  | cons seg segs ih =>
    rw [loadSegments, wp_bind]
    apply programSegment_wp seg remaining lastTableNumber carries filling lt
    intro m last s₁ le filling₁
    simp only [wp_bind]
    apply filling₁.quiet carries (steps_writeSegment (edits_wsSame e) e seg)
    intro _ s₂ filling₂
    exact ih filling₂ (by omega)

/-- The elements go to the list of those that are free. -/
theorem listElements_wp {Q : PUnit → Kernel → Prop}
    (lists : (s.globals.envs e).lists.Rep fun _ => [])
    (done : ∀ s', (s'.globals.envs e).lists.Rep (startLists n) →
      (s'.globals.envs e).pageWSMaxSize = (s.globals.envs e).pageWSMaxSize → Q ⟨⟩ s') :
    wp ((List.range n).forM fun i => do
      checkElement i
      modifyLists e (·.insertHead .pageWorkingSetList i)) Q (fun _ _ => True) s := by
  rw [List.range_eq_range']
  apply wp_forM fun rest s' => ∃ k, k + rest.length = n ∧ rest = List.range' k rest.length ∧
    (s'.globals.envs e).lists.Rep (startLists k) ∧
      (s'.globals.envs e).pageWSMaxSize = (s.globals.envs e).pageWSMaxSize
  · rintro i rest s₁ ⟨k, total, range, rep, maxSize⟩
    simp only [List.length_cons, List.range'_succ, List.cons.injEq] at total range
    obtain ⟨rfl, range⟩ := range
    simp only [checkElement, wp_bind, wp_ite, wp_pure, wp_throw, modifyLists, wp_modifyEnv]
    split
    · refine ⟨i + 1, by omega, range, ?_, ?_⟩
      · have inserted := rep.insertHead .pageWorkingSetList (x := i) fun j => by
          cases j <;> simp [startLists]
        rw [startLists_succ] at inserted
        rw [setEnv_envs]
        exact inserted
      · rw [setEnv_envs]
        exact maxSize
    · trivial
  · rintro s₁ ⟨k, total, -, rep, maxSize⟩
    obtain rfl : k = n := by simpa using total
    exact done s₁ rep maxSize
  · refine ⟨0, by simp, by simp, ?_, rfl⟩
    have none : startLists 0 = fun _ => [] := by
      funext i
      cases i <;> rfl
    rwa [none]

/-- A new environment: no element is taken. -/
theorem newSpace_fills (name : String) (second : Nat) (free : s.globals.envs e = Env.zero) :
    wp (do
      modifyEnv e (Env.setProgName name)
      newSpace e n second) (fun _ s' => Filling n 0 (s'.globals.envs e) ∧
        (s'.globals.envs e).lists.Rep (startLists n) ∧
        ∀ k < n, ((s'.globals.envs e).ptrPageWorkingSet k).empty = true) (fun _ _ => True) s := by
  have start : ∀ name, (Env.zero.setProgName name).lists.Rep fun _ => [] := fun name =>
    ⟨fun i => rep_zero _, fun _ _ _ => by simp⟩
  simp only [wp_bind, wp_modifyEnv, newSpace]
  apply (quiet_allocateFrame e).wp _ fun _ _ _ _ => trivial
  intro p s₁ same₁
  apply (quiet_setReferences e _ _).wp _ fun _ _ _ _ => trivial
  intro _ s₂ same₂
  apply (quiet_staticKernelVirtualAddress e _).wp _ fun _ _ _ _ => trivial
  intro dir s₃ same₃
  have same := (same₁.trans same₂).trans same₃
  simp only [wp_modifyEnv, initializeEnvironment, wp_bind, wp_get, wp_writePage, wp_getEnv,
    wp_pure]
  have lists := same.lists
  rw [setEnv_envs, free] at lists
  have sized : ∀ f p, ((s₃.setGlobals (s₃.globals.setEnv e (Env.setSizes n second))).setPage f
      p).globals.envs e = (s₃.globals.envs e).setSizes n second := fun _ _ => setEnv_envs _
  refine listElements_wp ?_ fun s₄ rep maxSize => ?_
  · rw [sized]
    change (s₃.globals.envs e).lists.Rep _
    rw [lists]
    exact start name
  · rw [sized] at rep maxSize
    rw [setEnv_envs]
    refine ⟨⟨⟨startLists n, rep, fun k lt _ => ?_, fun i ne k mem => ?_⟩, rfl, maxSize⟩, rep,
      fun k lt => ?_⟩
    · simpa [startLists] using lt
    · simp [startLists, Function.update_of_ne ne] at mem
    · have lt' : k < (s₄.globals.envs e).pageWSMaxSize := maxSize.symm ▸ lt
      simp only [Env.initialized, if_pos lt']

end Run

/-! ## Every cut -/

variable {c : Creation} {s s' : Kernel}

theorem AtPage.filling {e n j endVaddr remaining₀ iVA₀ last₀ remaining iVA last : Nat}
    (at_ : AtPage e endVaddr s remaining₀ iVA₀ last₀ remaining iVA last s')
    (filling : Filling n j (s.globals.envs e)) (lt : j + remaining₀ < n) :
    ∃ j', Filling n j' (s'.globals.envs e) ∧ j' + remaining < n := by
  induction at_ with
  | start => exact ⟨j, filling, lt⟩
  | @next remaining iVA last last' s₁ s₂ _ _ load ih =>
    obtain ⟨j', filling₁, lt₁⟩ := ih
    have filled := loadPage_wp iVA last
      (Q := fun _ s' => Filling n (j' + 1) (s'.globals.envs e)) (Carried.trivial n)
      filling₁.alone (by omega) fun _ _ filling' => filling'.1
    exact ⟨j' + 1, (wp_ok load).mp filled, by omega⟩

theorem AtSegment.filling {segs : List ProgramSegment} {remaining last : Nat}
    (at_ : AtSegment c s segs remaining last s') (free : s.globals.envs c.e = Env.zero)
    (positive : 1 ≤ c.pageWSSize) (small : c.pageWSSize ≤ pwsMaxSize) :
    ∃ j, Filling c.pageWSSize j (s'.globals.envs c.e) ∧ j + remaining < c.pageWSSize := by
  induction at_ with
  | start _ space switch =>
    obtain ⟨filled, -⟩ := (wp_ok space).mp (newSpace_fills (n := c.pageWSSize) _ _ free)
    cases switch
    refine ⟨0, filled, ?_⟩
    have lt : c.pageWSSize < word32 := small.trans_lt (by decide)
    have remaining : (uint32 (c.pageWSSize - 1) : Int) = c.pageWSSize - 1 :=
      uint32_of_nonneg (by omega) (by simp only [word32] at lt; omega)
    omega
  | @next seg segs remaining last n last' s₁ s₂ s₃ _ load write ih =>
    obtain ⟨j, filling₁, lt⟩ := ih
    have filled := programSegment_wp seg remaining last
      (Q := fun r s' => r.1 ≤ remaining ∧ Filling c.pageWSSize (j + r.1) (s'.globals.envs c.e))
      (Carried.trivial _) filling₁.alone lt fun _ _ _ le filling' => ⟨le, filling'.1⟩
    obtain ⟨le, filling₂⟩ := (wp_ok load).mp filled
    have written := filling₂.alone.quiet (Carried.trivial _)
      (steps_writeSegment (edits_wsSame c.e) c.e seg)
      (Q := fun _ s' => Filling c.pageWSSize (j + n) (s'.globals.envs c.e)) fun _ _ h => h.1
    exact ⟨j + n, (wp_ok write).mp written, by simp only at le; omega⟩

/-- Whenever the working set takes a page, an element is left. -/
theorem Takes.filling (takes : Takes c s s') (free : s.globals.envs c.e = Env.zero)
    (positive : 1 ≤ c.pageWSSize) (small : c.pageWSSize ≤ pwsMaxSize) :
    ∃ j < c.pageWSSize, Filling c.pageWSSize j (s'.globals.envs c.e) := by
  cases takes with
  | @page seg segs remaining₀ last₀ remaining iVA last s₁ s₂ s₃ segment at_ more map =>
    obtain ⟨j, filling, lt⟩ := segment.filling free positive small
    have le : segmentPages (s₁.globals.envs c.e) seg remaining₀ ≤ remaining₀ := by
      rw [segmentPages]
      split <;> omega
    obtain ⟨j', filling', lt'⟩ := at_.filling filling (lt.trans_le' (Nat.add_le_add_left le j))
    refine ⟨j', by omega, ?_⟩
    have mapped : Quiet c.e (do
        let p ← allocateFrame
        loadtimeMapFrame (← envPageDirectory c.e) p iVA (permUser ||| permWriteable)) :=
      (quiet_allocateFrame c.e).bind fun _ => (quiet_envPageDirectory c.e c.e).bind fun _ =>
        quiet_loadtimeMapFrame c.e _ _ _ _
    exact (wp_ok map).mp (filling'.alone.quiet (Carried.trivial _) mapped fun _ _ h => h.1)
  | @stack remaining last s₁ s₂ s₃ loaded clear map =>
    obtain ⟨j, filling, lt⟩ := loaded.filling free positive small
    refine ⟨j, by omega, ?_⟩
    have cleared := (wp_ok clear).mp (filling.alone.quiet (Carried.trivial _)
      (steps_clearModified (edits_wsSame c.e) c.e)
      (Q := fun _ s' => Filling c.pageWSSize j (s'.globals.envs c.e)) fun _ _ h => h.1)
    refine (wp_ok map).mp (cleared.alone.quiet (Carried.trivial _) ?_ fun _ _ h => h.1)
    refine (quiet_allocateFrame c.e).bind fun _ => (quiet_envPageDirectory c.e c.e).bind fun _ => ?_
    refine (quiet_loadtimeMapFrame c.e _ _ _ _).bind fun _ => ?_
    exact (quiet_kernelFrame c.e _).bind fun _ => quiet_writePage c.e _ _

/-! ## Usable sizes -/

/-- The sizes that `env_create` sets; `lruLists` is
`isPageReplacmentAlgorithmLRU(PG_REP_LRU_LISTS_APPROX)`, and the others have no lists. -/
def Env.createSizes (lruLists : Bool) (pageWSSize LRUSecondListSize : Nat) (env : Env) : Env :=
  if lruLists then env.setSizes pageWSSize LRUSecondListSize
  else { env with pageWSMaxSize := pageWSSize }

/-- The sizes that the loader and the fault handler rely on. -/
structure Env.Usable (env : Env) : Prop where
  positive : 1 ≤ env.pageWSMaxSize
  small : env.pageWSMaxSize ≤ pwsMaxSize
  active : 1 ≤ env.activeListSize
  second : 0 ≤ env.secondListSize
  fits : env.secondListSize ≤ env.pageWSMaxSize - 1

/-- The working set can take a page: its next element exists and is on the list of those that
are free, and the modulus is not 0. -/
structure Env.CanTake (env : Env) : Prop where
  index : env.pageLastWSIndex < pwsMaxSize
  listed : ∃ seqs, env.lists.Rep seqs ∧ env.pageLastWSIndex ∈ seqs .pageWorkingSetList
  modulus : env.pageWSMaxSize ≠ 0

/-- The sizes of the new environment are usable, and in a run from `s` the working set can take
every page that it is given. -/
structure Creation.Safe (lruLists : Bool) (c : Creation) (s : Kernel) : Prop where
  usable : (Env.zero.createSizes lruLists c.pageWSSize c.LRUSecondListSize).Usable
  takes : lruLists = true → ∀ s', Takes c s s' → (s'.globals.envs c.e).CanTake

theorem usable_iff {lruLists : Bool} {size second : Nat}
    (lt : lruLists = true → second < word32) :
    (Env.zero.createSizes lruLists size second).Usable ↔
      lruLists = true ∧ 1 ≤ size ∧ size ≤ pwsMaxSize ∧ second < size := by
  cases lruLists with
  | false =>
    refine ⟨fun usable => ?_, fun h => by simp at h⟩
    have active : (1 : Int) ≤ 0 := usable.active
    omega
  | true =>
    have lt := lt rfl
    constructor
    · rintro ⟨positive, small, -, nonneg, fits⟩
      simp only [Env.createSizes, Env.setSizes, if_true, int32, word32] at *
      exact ⟨trivial, positive, small, by omega⟩
    · rintro ⟨-, positive, small, fits⟩
      have active : int32 (size - second : Int) = size - second :=
        int32_of_small (by omega) (by simp only [pwsMaxSize] at small; omega)
      have second' : int32 second = second :=
        int32_of_small (by omega) (by simp only [pwsMaxSize] at small; omega)
      constructor <;> simp only [Env.createSizes, Env.setSizes, if_true, active, second'] <;> omega

theorem Creation.safe_iff_usable {lruLists : Bool} (free : s.globals.envs c.e = Env.zero)
    (lt : lruLists = true → c.LRUSecondListSize < word32) : c.Safe lruLists s ↔
      lruLists = true ∧ 1 ≤ c.pageWSSize ∧ c.pageWSSize ≤ pwsMaxSize ∧
        c.LRUSecondListSize < c.pageWSSize := by
  rw [← usable_iff lt]
  refine ⟨Safe.usable, fun usable => ⟨usable, fun lists s' takes => ?_⟩⟩
  obtain ⟨-, positive, small, -⟩ := (usable_iff lt).mp usable
  obtain ⟨j, lt', filling⟩ := takes.filling free positive small
  refine ⟨?_, ?_, ?_⟩
  · rw [filling.index]
    omega
  · rw [filling.index]
    exact filling.listed lt'
  · rw [filling.maxSize]
    omega

/-- A way to create an environment: a command line of the prompt, or the system call. -/
inductive Entry where
  | command (arguments : List String)
  | syscall (programName : String) (pageWSSize LRUSecondListSize percent : Word)

/-- The call of `env_create` that it ends in. -/
def Entry.call (lruLists : Bool) : Entry → Except Refusal CreateCall
  | command arguments => createEnv lruLists arguments
  | syscall programName pageWSSize LRUSecondListSize percent =>
    .ok (sysCreateEnv programName pageWSSize LRUSecondListSize percent)

/-- The arguments with which nothing goes wrong.  The checks of `CreateEnv` let one bad size
through, and those of the system call are missing. -/
def Entry.Sound : Entry → Prop
  | command arguments => ∃ size, arguments[2]? = some size ∧ uint32 (strtol size 10) ≠ 0
  | syscall _ pageWSSize LRUSecondListSize _ =>
    1 ≤ pageWSSize.toNat ∧ pageWSSize.toNat ≤ pwsMaxSize ∧ LRUSecondListSize < pageWSSize

/-- **An environment that gets created has a usable working set** exactly when the lists are
in use, a command line gives a size that is not 0, and the arguments of the system call are
in the range that `CreateEnv` checks. -/
theorem Entry.safe_iff {lruLists : Bool} {entry : Entry} {call : CreateCall} {s : Kernel} {e : Nat}
    (program : UserProgram) (accepted : entry.call lruLists = .ok call)
    (free : s.globals.envs e = Env.zero) :
    (Creation.mk e program call.pageWSSize call.LRUSecondListSize).Safe lruLists s ↔
      lruLists = true ∧ entry.Sound := by
  cases entry with
  | command arguments =>
    obtain ⟨size, arg, eq, small, fits⟩ := createEnv_accepts accepted
    have bound : ∀ z : Int, uint32 z < word32 := fun z => by
      simp only [uint32, word32]
      omega
    rw [Creation.safe_iff_usable free fun lists => (fits lists).trans_lt (bound _)]
    refine and_congr_right fun lists => ?_
    have fits := fits lists
    constructor
    · rintro ⟨positive, -⟩
      exact ⟨size, arg, by simp only at positive; omega⟩
    · rintro ⟨size', arg', ne⟩
      obtain rfl : size = size' := Option.some.inj (arg.symm.trans arg')
      have positive : 1 ≤ call.pageWSSize := by omega
      have last : (uint32 (call.pageWSSize - 1) : Int) = call.pageWSSize - 1 :=
        uint32_of_nonneg (by omega) (by simp only [pwsMaxSize] at small; omega)
      exact ⟨positive, small, by simp only; omega⟩
  | syscall programName pageWSSize LRUSecondListSize percent =>
    cases accepted
    rw [Creation.safe_iff_usable free fun _ => LRUSecondListSize.isLt]
    exact Iff.rfl

theorem smallMachine_free (e : Nat) : smallMachine.boot.globals.envs e = Env.zero := by
  rw [smallMachine.rep_boot.globals]
  rfl

/-- The command `run fos_add 0 3` gets through. -/
theorem entry_unsafe : ¬ ∀ (lruLists : Bool) (entry : Entry) (call : CreateCall) (s : Kernel)
    (e : Nat) (program : UserProgram), entry.call lruLists = .ok call →
    s.globals.envs e = Env.zero →
    (Creation.mk e program call.pageWSSize call.LRUSecondListSize).Safe lruLists s := by
  intro safe
  have usable := (safe true (.command ["run", "fos_add", "0", "3"]) ⟨"fos_add", 0, 3, 0⟩
    smallMachine.boot 0 ⟨"fos_add", true, []⟩ rfl (smallMachine_free 0)).usable
  exact absurd usable.positive (by decide)

/-- The command `run fos_add 5 2`. -/
theorem entry_safe_five : ∃ s, (Creation.mk 0 ⟨"fos_add", true, []⟩ 5 2).Safe true s := by
  have accepted : (Entry.command ["run", "fos_add", "5", "2"]).call true =
      .ok ⟨"fos_add", 5, 2, 0⟩ := rfl
  exact ⟨smallMachine.boot, (Entry.safe_iff _ accepted (smallMachine_free 0)).mpr
    ⟨rfl, "5", rfl, by decide⟩⟩

end Fos
