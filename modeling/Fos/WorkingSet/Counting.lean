import Fos.Loader.Create
import Fos.Memory.Abandoned
import Fos.WorkingSet.Flags

/-!
# Runs that keep the size of the working set

* `envCreate_marks`: a new environment has the right flags, whatever its sizes;
* `WsReach`: runs of the calls that use the working set;
* `WsReach.reported`: the size is right as long as no fault takes a free element and no page in
  use is freed;
* `Marked.placed`, `placement_miscounts`: a fault that takes one makes it wrong.
-/

namespace Fos

open Exec Linked

variable {e n j : Nat} {s s' : Kernel} {env env' : Env} {seqs : WSList → List Nat}

/-! ## A new environment -/

/-- The `j` elements on the active and the second list are those whose flag is 0. -/
def Fresh (n j : Nat) (env : Env) : Prop :=
  ∃ seqs, env.lists.Rep seqs ∧ (∀ k ∈ seqs .pageWorkingSetList, k < n) ∧
    (∀ k, k ∈ seqs .activeList ∨ k ∈ seqs .secondList ↔ k < j) ∧
    ∀ k < n, (env.ptrPageWorkingSet k).empty = false ↔ k < j

theorem Fresh.take {va : Nat} {i : WSList} (fresh : Fresh n j env) (filling : Filling n j env)
    (lt : j < n) (other : i ≠ .pageWorkingSetList)
    (lists : env'.lists = (env.lists.remove .pageWorkingSetList j).insertHead i j)
    (elements : env'.ptrPageWorkingSet = Function.update env.ptrPageWorkingSet j ⟨va, false⟩) :
    Fresh n (j + 1) env' := by
  obtain ⟨seqs, rep, small, busy, flags⟩ := fresh
  obtain ⟨seqs', rep', free, -⟩ := filling.lists
  obtain rfl := rep.unique rep'
  have mem : j ∈ seqs .pageWorkingSetList := free j lt (Nat.le_refl j)
  have loose : ∀ i, j ∉ Function.update seqs .pageWorkingSetList
      ((seqs .pageWorkingSetList).erase j) i := by
    intro i
    rcases eq_or_ne i .pageWorkingSetList with rfl | ne
    · rw [Function.update_self]
      exact (rep.list _).nodup.not_mem_erase
    · rw [Function.update_of_ne ne]
      exact fun mem' => rep.disjoint i _ ne mem' mem
  refine ⟨_, lists ▸ (rep.remove mem).insertHead i loose, fun k mem' => ?_, fun k => ?_,
    fun k lt' => ?_⟩
  · rw [Function.update_of_ne other.symm, Function.update_self] at mem'
    exact small k (List.mem_of_mem_erase mem')
  · rw [Nat.lt_succ_iff_lt_or_eq, ← busy k]
    cases i with
    | pageWorkingSetList => exact absurd rfl other
    | activeList =>
      simp only [Function.update_self, List.mem_cons, ne_eq, reduceCtorEq, not_false_eq_true,
        Function.update_of_ne]
      tauto
    | secondList =>
      simp only [Function.update_self, List.mem_cons, ne_eq, reduceCtorEq, not_false_eq_true,
        Function.update_of_ne]
      tauto
  · rw [elements]
    rcases eq_or_ne k j with rfl | ne
    · simp
    · rw [Function.update_of_ne ne, flags k lt']
      omega

theorem carried_fresh (n : Nat) : Carried n (Fresh n) where
  same carried lists elements := by
    obtain ⟨seqs, rep, rest⟩ := carried
    rw [Fresh, lists, elements]
    exact ⟨seqs, rep, rest⟩
  take carried filling lt other lists elements := carried.take filling lt other lists elements

theorem Fresh.marked (fresh : Fresh n j env) (max : env.pageWSMaxSize = n) (le : j ≤ n)
    (fits : n ≤ pwsMaxSize) : ∃ seqs, Marked env seqs := by
  obtain ⟨seqs, rep, small, busy, flags⟩ := fresh
  refine ⟨seqs, rep, fun i k mem => ?_, max ▸ fits, fun k lt => ?_⟩
  · rw [max]
    cases i with
    | pageWorkingSetList => exact small k mem
    | activeList => exact ((busy k).mp (Or.inl mem)).trans_le le
    | secondList => exact ((busy k).mp (Or.inr mem)).trans_le le
  · rw [flags k (max ▸ lt), busy]

/-- An environment has at most `__PWS_MAX_SIZE` elements. -/
theorem newSpace_small (name : String) (second : Nat) :
    wp (do
      modifyEnv e (Env.setProgName name)
      newSpace e n second) (fun _ _ => n ≤ pwsMaxSize) (fun _ _ => True) s := by
  simp only [wp_bind, wp_modifyEnv, newSpace]
  apply (quiet_allocateFrame e).wp _ fun _ _ _ _ => trivial
  intro p s₁ _
  apply (quiet_setReferences e _ _).wp _ fun _ _ _ _ => trivial
  intro _ s₂ _
  apply (quiet_staticKernelVirtualAddress e _).wp _ fun _ _ _ _ => trivial
  intro dir s₃ _
  simp only [wp_modifyEnv, initializeEnvironment, wp_bind, wp_get, wp_writePage, wp_getEnv,
    wp_pure]
  have size : ∀ f p, ((s₃.setGlobals (s₃.globals.setEnv e (Env.setSizes n second))).setPage f
      p).globals.envs e = (s₃.globals.envs e).setSizes n second := fun _ _ => setEnv_envs _
  rw [size, show ((s₃.globals.envs e).setSizes n second).pageWSMaxSize = n from rfl,
    List.range_eq_range']
  apply wp_forM fun rest _ => ∃ k ≤ pwsMaxSize, k + rest.length = n ∧
    rest = List.range' k rest.length
  · rintro i rest s₄ ⟨k, -, total, range⟩
    simp only [List.length_cons, List.range'_succ, List.cons.injEq] at total range
    obtain ⟨rfl, range⟩ := range
    simp only [checkElement, wp_bind, wp_ite, wp_pure, wp_throw, modifyLists, wp_modifyEnv]
    split
    · exact ⟨i + 1, ‹_›, by omega, range⟩
    · trivial
  · rintro s₄ ⟨k, small, total, -⟩
    rw [List.length_nil, Nat.add_zero] at total
    exact total ▸ small
  · exact ⟨0, Nat.zero_le _, by simp, by simp⟩

section Zero

/-- With a working set of size 0, the first page does not come to its end. -/
theorem loadPage_zero (iVA last : Nat) (zero : (s.globals.envs e).pageWSMaxSize = 0) :
    wp (loadPage e iVA last) (fun _ _ => False) (fun _ _ => True) s := by
  rw [loadPage, wp_bind]
  refine (quiet_allocateFrame e).wp (fun p s₁ same₁ => ?_) fun _ _ _ _ => trivial
  rw [wp_bind]
  refine (quiet_envPageDirectory e e).wp (fun dir s₂ same₂ => ?_) fun _ _ _ _ => trivial
  rw [wp_bind]
  refine (quiet_loadtimeMapFrame e _ _ _ _).wp (fun _ s₃ same₃ => ?_) fun _ _ _ _ => trivial
  have zero₃ : (s₃.globals.envs e).pageWSMaxSize = 0 :=
    (((same₁.trans same₂).trans same₃).maxSize).trans zero
  simp only [wp_bind, wp_getEnv, checkElement, wp_ite, wp_pure, wp_throw, addToLists, nextWSIndex,
    modifyLists, listSize, wp_modifyEnv, setEnv_envs]
  have zero₄ : ∀ S S' : Lists WSList Nat, ((((s₃.globals.envs e).setWSElement iVA).setLists
      S).setLists S').pageWSMaxSize = 0 := fun _ _ => zero₃
  split
  · split
    · rw [if_pos (zero₄ _ _)]
      trivial
    · rw [if_pos (zero₄ _ _)]
      trivial
  · trivial

theorem programSegment_zero (seg : ProgramSegment) (remaining last : Nat)
    (zero : (s.globals.envs e).pageWSMaxSize = 0) :
    wp (programSegmentAllocMapCopyWorkingset e seg remaining last)
      (fun _ s' => (s'.globals.envs e).pageWSMaxSize = 0) (fun _ _ => True) s := by
  have pages : ∀ endVaddr remaining iVA,
      wp (loadPages e endVaddr remaining iVA last) (fun _ s' => s' = s) (fun _ _ => True) s := by
    intro endVaddr remaining iVA
    cases remaining with
    | zero => exact rfl
    | succ remaining =>
      simp only [loadPages, wp_ite, wp_bind, wp_pure]
      split
      · exact wp_mono (loadPage_zero _ _ zero) (fun _ _ never => never.elim) fun _ _ h => h
      · trivial
  simp only [programSegmentAllocMapCopyWorkingset, wp_bind, wp_getEnv, wp_pure]
  refine wp_mono (pages _ _ _) ?_ fun _ _ h => h
  rintro ⟨m, last'⟩ s₁ rfl
  have stores : ∀ {xs : List Nat} {body : Nat → Prog PUnit}, (∀ k, Quiet e (body k)) →
      Quiet e (xs.forM body) := fun pass => Steps.forM fun k _ => pass k
  refine (stores fun k => quiet_storeByte e _ _).wp (fun _ s₂ same₂ => ?_) fun _ _ _ _ => trivial
  refine (stores fun k => quiet_storeByte e _ _).wp (fun _ s₃ same₃ => ?_) fun _ _ _ _ => trivial
  exact (same₂.trans same₃).maxSize.trans zero

theorem loadSegments_zero {segs : List ProgramSegment} {remaining last : Nat}
    (zero : (s.globals.envs e).pageWSMaxSize = 0) :
    wp (loadSegments e segs remaining last)
      (fun _ s' => (s'.globals.envs e).pageWSMaxSize = 0) (fun _ _ => True) s := by
  induction segs generalizing remaining last s with
  | nil => exact zero
  | cons seg segs ih =>
    rw [loadSegments, wp_bind]
    refine wp_mono (programSegment_zero seg remaining last zero) ?_ fun _ _ h => h
    rintro ⟨m, last'⟩ s₁ zero₁
    simp only [wp_bind]
    refine (steps_writeSegment (edits_wsSame e) e seg).wp
      (fun _ s₂ same => ?_) fun _ _ _ _ => trivial
    exact ih (same.maxSize.trans zero₁)

theorem createStack_zero (zero : (s.globals.envs e).pageWSMaxSize = 0) :
    wp (createStack e) (fun _ _ => False) (fun _ _ => True) s := by
  rw [createStack, wp_bind]
  refine (quiet_allocateFrame e).wp (fun pp s₁ same₁ => ?_) fun _ _ _ _ => trivial
  rw [wp_bind]
  refine (quiet_envPageDirectory e e).wp (fun dir s₂ same₂ => ?_) fun _ _ _ _ => trivial
  rw [wp_bind]
  refine (quiet_loadtimeMapFrame e _ _ _ _).wp (fun _ s₃ same₃ => ?_) fun _ _ _ _ => trivial
  rw [wp_bind]
  refine (quiet_kernelFrame e _).wp (fun f s₄ same₄ => ?_) fun _ _ _ _ => trivial
  rw [wp_bind]
  refine (quiet_writePage e _ _).wp (fun _ s₅ same₅ => ?_) fun _ _ _ _ => trivial
  have zero₅ : (s₅.globals.envs e).pageWSMaxSize = 0 :=
    ((((same₁.trans same₂).trans same₃).trans same₄).trans same₅).maxSize.trans zero
  simp only [wp_bind, wp_getEnv, wp_ite, zero₅, Nat.not_lt_zero, if_false, wp_panic]

end Zero

/-- The page of the stack is put into the working set. -/
theorem createStack_marks (filling : FillingWith (Fresh n) n j (s.globals.envs e)) (lt : j < n)
    (fits : n ≤ pwsMaxSize) : wp (createStack e)
      (fun _ s' => ∃ seqs, Marked (s'.globals.envs e) seqs) (fun _ _ => True) s := by
  have carries := carried_fresh n
  rw [createStack, wp_bind]
  apply filling.quiet carries (quiet_allocateFrame e)
  intro pp s₁ filling₁
  rw [wp_bind]
  apply filling₁.quiet carries (quiet_envPageDirectory e e)
  intro dir s₂ filling₂
  rw [wp_bind]
  apply filling₂.quiet carries (quiet_loadtimeMapFrame e _ _ _ _)
  intro _ s₃ filling₃
  rw [wp_bind]
  apply filling₃.quiet carries (quiet_kernelFrame e _)
  intro f s₄ filling₄
  rw [wp_bind]
  apply filling₄.quiet carries (quiet_writePage e _ _)
  intro _ s₅ filling₅
  simp only [wp_bind, wp_getEnv, wp_ite, filling₅.1.index, filling₅.1.maxSize, if_pos lt,
    wp_modifyEnv]
  apply moveElement_wp carries filling₅ lt
  intro i s₆ other lists index maxSize fresh
  refine (quiet_pfAddEmptyEnvPage e e _ _).wp (fun _ s₇ same => ?_) fun _ _ _ _ => trivial
  exact (carries.same fresh same.lists same.elements).marked
    ((same.maxSize.trans maxSize).trans filling₅.1.maxSize) lt fits

/-- A step that leaves the working set alone. -/
theorem Marked.same (marked : Marked (s.globals.envs e) seqs) (same : WsSame e s s') :
    Marked (s'.globals.envs e) seqs where
  lists := same.lists ▸ marked.lists
  small := same.maxSize ▸ marked.small
  fits := same.maxSize ▸ marked.fits
  flags := by
    rw [same.maxSize, same.elements]
    exact marked.flags

theorem resetPresent_marks (marked : Marked (s.globals.envs e) seqs) : wp (resetPresent e)
    (fun _ s' => ∃ seqs, Marked (s'.globals.envs e) seqs) (fun _ _ => True) s := by
  have listed := marked.listed
  simp only [resetPresent, wp_bind]
  apply listFirst_wp listed
  refine wsForeach_wp [] (fun n todo w' _ => todo.length = n ∧ w'.seqs = seqs)
    (fun n todo w' b p inv => inv) ?_ ?_ ?_ (n := (seqs .secondList).length) ⟨rfl, rfl⟩ listed rfl
    (Nat.lt_succ_of_le (listed.length_le _))
  · rintro n x rest before w' b s' ⟨length, seqs'⟩ listed' at' next'
    simp only [wp_bind]
    apply virtualAddress_wp listed'
    apply listed'.quiet (quiet_ptSetPagePermissions e e _ 0 permPresent)
    intro _ s₂ listed₂
    exact ⟨rest, before ++ [x], w', ⟨by simpa using length, seqs'⟩, listed₂, by simpa using at',
      next'⟩
  · rintro x rest w' b ⟨length, -⟩
    simp at length
  · rintro n w' b s' ⟨-, seqs'⟩ listed'
    exact ⟨_, marked.after (w := ⟨seqs, w'.next⟩) listed' (Alike.of_seqs seqs')⟩

theorem quiet_lcr3 (pa : Nat) : Quiet e (lcr3 pa) := fun _ => ⟨rfl, rfl, rfl, rfl, rfl, rfl⟩

/-- What `env_create` does after the initialization. -/
theorem load_marks {program : UserProgram} {pa pa₀ : Nat} (fits : n ≤ pwsMaxSize)
    (filling : FillingWith (Fresh n) n 0 (s.globals.envs e)) :
    wp (do
      lcr3 pa
      if program.elfMagic then
        loadSegments e program.segments (uint32 (n - 1)) 0xFFFFFFFF
        clearModified e
        createStack e
        resetPresent e
        lcr3 pa₀
      else panic "Matafa2nash 3ala Keda")
      (fun _ s' => ∃ seqs, Marked (s'.globals.envs e) seqs) (fun _ _ => True) s := by
  have carries := carried_fresh n
  have cleared := steps_clearModified (edits_wsSame e) e
  rw [wp_bind]
  apply filling.quiet carries (quiet_lcr3 pa)
  intro _ s₁ filling₁
  rw [wp_ite]
  split
  · rw [wp_bind]
    rcases Nat.eq_zero_or_pos n with zero | pos
    · refine wp_mono (loadSegments_zero (filling₁.1.maxSize.trans zero)) ?_ fun _ _ h => h
      intro _ s₂ zero₂
      rw [wp_bind]
      refine cleared.wp (fun _ s₃ same => ?_) fun _ _ _ _ => trivial
      rw [wp_bind]
      exact wp_mono (createStack_zero (same.maxSize.trans zero₂)) (fun _ _ never => never.elim)
        fun _ _ h => h
    · have remaining : (uint32 (n - 1) : Int) = n - 1 :=
        uint32_of_nonneg (by omega) (by simp only [pwsMaxSize] at fits; omega)
      apply loadSegments_wp carries filling₁ (by omega)
      intro j s₂ lt filling₂
      rw [wp_bind]
      apply filling₂.quiet carries cleared
      intro _ s₃ filling₃
      rw [wp_bind]
      refine wp_mono (createStack_marks filling₃ lt fits) ?_ fun _ _ h => h
      rintro _ s₄ ⟨seqs, marked⟩
      rw [wp_bind]
      refine wp_mono (resetPresent_marks marked) ?_ fun _ _ h => h
      rintro _ s₅ ⟨seqs', marked'⟩
      refine (quiet_lcr3 (e := e) pa₀).wp (fun _ s₆ same => ?_) fun _ _ _ _ => trivial
      exact ⟨seqs', marked'.same same⟩
  · trivial

/-- **A new environment** has the right flags, if `env_create` returns. -/
theorem envCreate_marks {program : UserProgram} {second : Nat}
    (free : s.globals.envs e = Env.zero) : wp (envCreate e program n second)
      (fun _ s' => ∃ seqs, Marked (s'.globals.envs e) seqs) (fun _ _ => True) s := by
  have small := newSpace_small (e := e) (n := n) (s := s) (progNameOf program.name) second
  have fills := newSpace_fills (n := n) (progNameOf program.name) second free
  rw [wp_bind, wp_modifyEnv] at small fills
  rw [envCreate, wp_bind, wp_modifyEnv, wp_bind]
  rw [wp] at small fills ⊢
  split
  · rename_i pa s₁ run
    rw [run] at small fills
    obtain ⟨filling, rep, empty⟩ := fills
    rw [wp_bind, wp_get]
    refine load_marks small ⟨filling, startLists n, rep, fun k mem => ?_, fun k => ?_,
      fun k lt => ?_⟩
    · simpa [startLists] using mem
    · simp [startLists]
    · simp [empty k lt]
  · trivial

/-! ## Runs -/

/-- The calls that use the working set of an environment. -/
inductive WsOp where
  | create (program : UserProgram) (pageWSSize LRUSecondListSize : Nat)
  | fault (va : Nat)
  | freeMem (va size : Nat)
  | envFree

def WsOp.run (e : Nat) : WsOp → Prog Unit
  | create program pageWSSize LRUSecondListSize => envCreate e program pageWSSize LRUSecondListSize
  | fault va => pageFaultHandler e va
  | freeMem va size => Fos.freeMem e va size
  | envFree => Fos.envFree e

/-- `allocate_environment` gives `env_create` a structure that is zero. -/
def WsOp.Finds (env : Env) : WsOp → Prop
  | create _ _ _ => env = Env.zero
  | _ => True

/-- The runs of such calls for the environment `e`, all of which return, and of anything that
leaves its working set alone; `ok` may restrict the calls. -/
inductive WsReach (e : Nat) (ok : Env → WsOp → Prop) : Kernel → Prop
  | start {s : Kernel} (free : s.globals.envs e = Env.zero) : WsReach e ok s
  | aside {s s' : Kernel} (reach : WsReach e ok s) (same : WsSame e s s') : WsReach e ok s'
  | call {s s' : Kernel} (op : WsOp) (reach : WsReach e ok s) (finds : op.Finds (s.globals.envs e))
    (holds : ok (s.globals.envs e) op) (run : op.run e s = .ok () s') : WsReach e ok s'

/-- A fault finds no free element, or its page on the second list; and no page that `freeMem` is
to free is on a list, if it looks for them at all. -/
def WsOp.KeepsFlags (env : Env) (op : WsOp) : Prop :=
  ∀ seqs, env.lists.Rep seqs → match op with
    | create _ _ _ => True
    | fault va => seqs .pageWorkingSetList = [] ∨
        ∃ k ∈ seqs .secondList, env.address k = roundDown va
    | freeMem va size => seqs .activeList = [] ∨
        ∀ k, k ∈ seqs .activeList ∨ k ∈ seqs .secondList → env.address k ∉ freedPages va size
    | envFree => True

theorem marked_zero : Marked Env.zero fun _ => [] :=
  ⟨⟨fun _ => rep_zero _, fun _ _ _ => by simp⟩, fun _ _ mem => by simp at mem, by decide,
    fun _ lt => absurd lt (Nat.not_lt_zero _)⟩

/-- A call that meets the condition. -/
theorem Marked.call {op : WsOp} (marked : Marked (s.globals.envs e) seqs)
    (finds : op.Finds (s.globals.envs e)) (keeps : op.KeepsFlags (s.globals.envs e)) :
    wp (op.run e) (fun _ s' => ∃ seqs', Marked (s'.globals.envs e) seqs') (fun _ _ => True) s := by
  have listed := marked.listed
  have ends : ∀ s' env₁ w', Listed e env₁ s' w' → Alike (s.globals.envs e) env₁
      ⟨seqs, fun i => ((s.globals.envs e).lists.head i).ptrNext⟩ w' →
      ∃ seqs', Marked (s'.globals.envs e) seqs' := fun s' env₁ w' listed' alike =>
    ⟨_, marked.after (w := ⟨seqs, fun i => ((s.globals.envs e).lists.head i).ptrNext⟩)
    listed' alike⟩
  cases op with
  | create program n second => exact envCreate_marks finds
  | fault va =>
    refine listed.pageFaultHandler_marks (fun _ => ends) fun unseen s' x w' mem _ _ => ?_
    rcases keeps seqs marked.lists with none | ⟨k, there, here⟩
    · simp [none] at mem
    · exact absurd here (unseen k there)
  | freeMem va size =>
    apply listed.freeMem_marks
    · exact (keeps seqs marked.lists).imp_right fun out k busy => out k
        (WorkingSet.busy_iff.mp busy)
    · exact fun s' w' => ends s' _ w'
  | envFree =>
    simp only [WsOp.run, Fos.envFree, wp_bind, wp_modifyEnv]
    iterate 8 refine wp_of_forall (fun _ _ => ?_) fun _ _ => trivial
    rw [setEnv_envs]
    exact ⟨_, marked_zero⟩

/-- In every such run the flags are right. -/
theorem WsReach.marked (reach : WsReach e WsOp.KeepsFlags s) :
    ∃ seqs, Marked (s.globals.envs e) seqs := by
  induction reach with
  | start free => exact ⟨_, free ▸ marked_zero⟩
  | aside _ same ih =>
    obtain ⟨seqs, marked⟩ := ih
    exact ⟨seqs, marked.same same⟩
  | call op _ finds keeps run ih =>
    obtain ⟨seqs, marked⟩ := ih
    exact (wp_ok run).mp (marked.call finds keeps)

/-- **The size of the working set** is right in every run in which no page fault takes a free
element and no page on a list is freed. -/
theorem WsReach.reported (reach : WsReach e WsOp.KeepsFlags s) : Reported (s.globals.envs e) := by
  obtain ⟨seqs, marked⟩ := reach.marked
  exact marked.size_eq

/-- A page fault that takes a free element makes it wrong. -/
theorem Marked.placed {va : Nat} (marked : Marked (s.globals.envs e) seqs)
    (free : seqs .pageWorkingSetList ≠ [])
    (new : ∀ k ∈ seqs .secondList, (s.globals.envs e).address k ≠ roundDown va)
    (run : pageFaultHandler e va s = .ok () s') : ¬ Reported (s'.globals.envs e) := by
  refine (wp_ok run).mp (marked.listed.pageFaultHandler_marks (Q := fun _ s' =>
    ¬ Reported (s'.globals.envs e)) ?_ ?_)
  · rintro (none | ⟨k, mem, here⟩)
    · exact absurd none free
    · exact absurd here (new k mem)
  · rintro - s₁ x w₁ mem listed₁ busy ⟨seqs₁, rep, flags, -⟩
    have lt := marked.small _ x mem
    obtain rfl : seqs₁ = w₁.seqs := rep.unique listed₁.rep
    have taken : ((s₁.globals.envs e).ptrPageWorkingSet x).empty = false := by
      rw [flags x (listed₁.maxSize ▸ lt)]
      exact WorkingSet.busy_iff.mp busy
    rw [listed₁.elements, Env.empty_setVirtualAddress, marked.flags x lt] at taken
    rcases taken with there | there
    · exact marked.lists.disjoint _ _ (by simp) mem there
    · exact marked.lists.disjoint _ _ (by simp) mem there

/-! ## The first fault of a program -/

/-- The environment is run. -/
def Kernel.runs (s : Kernel) (e : Nat) : Kernel :=
  s.setGlobals { s.globals with curenv := some e, cr3 := (s.globals.envs e).envCr3 }

theorem wsSame_runs (s : Kernel) (e : Nat) : WsSame e s (s.runs e) := ⟨rfl, rfl, rfl, rfl, rfl, rfl⟩

/-- An environment with so many elements is created and run, and its second stack page
faults; the first free element, and the first one of the second list, before the fault. -/
def firstFault (size second : Nat) (s : Kernel) : Option (Option Nat × Option Nat) :=
  match envCreate 0 emptyProgram size second s with
  | .ok _ s₁ =>
    if returns (pageFaultHandler 0 0xEEBFC000 (s₁.runs 0)) then
      some (((s₁.globals.envs 0).lists.head .pageWorkingSetList).lhFirst,
        ((s₁.globals.envs 0).lists.head .secondList).lhFirst)
    else none
  | .error _ _ => none

theorem firstFault_runs {size second : Nat} {free old : Option Nat}
    (ends : firstFault size second bootKernel = some (free, old)) :
    ∃ (s₁ s₂ : Kernel) (seqs : WSList → List Nat),
      (∀ ok : Env → WsOp → Prop, (∀ env program n m, ok env (.create program n m)) →
        WsReach 0 ok (s₁.runs 0)) ∧
      Marked ((s₁.runs 0).globals.envs 0) seqs ∧ (seqs .pageWorkingSetList).head? = free ∧
      (seqs .secondList).head? = old ∧ pageFaultHandler 0 0xEEBFC000 (s₁.runs 0) = .ok () s₂ := by
  have zero : bootKernel.globals.envs 0 = Env.zero := boot_smallMachine ▸ smallMachine_free 0
  rw [firstFault] at ends
  split at ends
  · rename_i u s₁ run
    split at ends
    · rename_i faults
      obtain ⟨⟨⟩, s₂, fault⟩ := returns_iff.mp faults
      obtain ⟨rfl, rfl⟩ := Prod.ext_iff.mp (Option.some.inj ends)
      obtain ⟨seqs, marked⟩ := (wp_ok run).mp (envCreate_marks zero)
      have reach : ∀ ok : Env → WsOp → Prop, (∀ env program n m, ok env (.create program n m)) →
          WsReach 0 ok (s₁.runs 0) := fun ok creates =>
        .aside (.call (.create emptyProgram size second) (.start zero) zero
          (creates _ _ _ _) run) (wsSame_runs s₁ 0)
      exact ⟨s₁, s₂, seqs, reach, marked.same (wsSame_runs s₁ 0), (marked.lists.first _).symm,
        (marked.lists.first _).symm, fault⟩
    · cases ends
  · cases ends

/-- A working set of one page: the fault finds no free element. -/
theorem reported_full : ∃ s, WsReach 0 WsOp.KeepsFlags s ∧ Reported (s.globals.envs 0) := by
  have ends : firstFault 1 0 bootKernel = some (none, none) := by decide +kernel
  obtain ⟨s₁, s₂, seqs, reach, marked, free, -, fault⟩ := firstFault_runs ends
  have keeps : WsOp.KeepsFlags ((s₁.runs 0).globals.envs 0) (.fault 0xEEBFC000) := by
    intro seqs' rep
    obtain rfl := rep.unique marked.lists
    exact Or.inl (List.head?_eq_none_iff.mp free)
  have next :=
    WsReach.call (.fault 0xEEBFC000) (reach _ fun _ _ _ _ _ _ => trivial) trivial keeps fault
  exact ⟨s₂, next, next.reported⟩

/-- The first page fault of a program takes a free element. -/
theorem placement_miscounts : ¬ ∀ (e : Nat) (s : Kernel), WsReach e (fun _ _ => True) s →
    Reported (s.globals.envs e) := by
  intro right
  have ends : firstFault 3 1 bootKernel = some (some 2, none) := by decide +kernel
  obtain ⟨s₁, s₂, seqs, reach, marked, free, old, fault⟩ := firstFault_runs ends
  refine marked.placed ?_ ?_ fault (right 0 s₂
    (.call (.fault 0xEEBFC000) (reach _ fun _ _ _ _ => trivial) trivial trivial fault))
  · intro none
    simp [none] at free
  · intro k mem
    simp [List.head?_eq_none_iff.mp old] at mem

end Fos
