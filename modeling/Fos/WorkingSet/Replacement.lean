import Fos.Recency.Queue
import Fos.WorkingSet.Stage
import Fos.WriteBack.Tiers

/-!
# The page fault handler

The active list and the second list of a running environment are one queue of pages, and a
page fault touches it.

* `Running`: what holds of an environment between two faults;
* `Runnable`, `Underway`: the same where elements of the working set may be on no list, and
  `Underway.arrive`;
* `View.tiers`: its pages in memory and in the page file;
* `Underway.releaseVictim_wp`: the last page of the queue goes;
* `Underway.placement_wp`: a new page comes to the front of it;
* `Underway.promote_wp`: a page of the second list does.
-/

namespace Fos

open Arena Exec Linked

variable {s s' : Kernel} {v : View} {e va x t : Nat} {env₀ env₁ : Env} {T D : PageNo → Word}
  {w w' : WorkingSet} {i : WSList} {n : Nat} {E : Stop → Kernel → Prop}
  {m g : PageNo → Option Page}

/-! ## Lists -/

theorem erase_middle {α : Type} [DecidableEq α] {xs ys : List α} {x : α} (out : x ∉ xs) :
    (xs ++ x :: ys).erase x = xs ++ ys := by
  rw [List.erase_append_right _ out, List.erase_cons_head]

/-- Taking an element out of a list. -/
theorem Listed.remove_middle {xs ys : List Nat} (listed : Listed e env₀ s w)
    (at_ : w.seqs i = xs ++ x :: ys) : (w.remove i x).seqs i = xs ++ ys := by
  have nodup := listed.nodup i
  rw [at_, List.nodup_middle, List.nodup_cons] at nodup
  have out : x ∉ xs := fun mem => nodup.1 (List.mem_append_left _ mem)
  rw [WorkingSet.remove_seqs, Function.update_self, at_, erase_middle out]

/-- The pages on the two lists, those touched last in front. -/
def WorkingSet.queue (w : WorkingSet) (env : Env) : List Nat :=
  w.addresses env .activeList ++ w.addresses env .secondList

theorem WorkingSet.length_queue (w : WorkingSet) (env : Env) : (w.queue env).length =
    (w.seqs .activeList).length + (w.seqs .secondList).length := by
  simp [WorkingSet.queue, WorkingSet.addresses]

theorem WorkingSet.mem_queue (mem : x ∈ w.seqs i) (ne : i ≠ .pageWorkingSetList) :
    env₀.address x ∈ w.queue env₀ := by
  cases i with
  | pageWorkingSetList => exact absurd rfl ne
  | activeList => exact List.mem_append_left _ (List.mem_map_of_mem mem)
  | secondList => exact List.mem_append_right _ (List.mem_map_of_mem mem)

/-- The element that holds another page now is not on the list. -/
theorem WorkingSet.addresses_setElement (elm : WorkingSetElement) (out : x ∉ w.seqs i) :
    w.addresses (env₀.setElement x elm) i = w.addresses env₀ i := by
  refine List.map_congr_left fun k mem => ?_
  have ne : k ≠ x := fun eq => out (eq ▸ mem)
  simp [Env.address, Env.setElement, ne]

theorem WorkingSet.addresses_setVirtualAddress (va : Nat) (out : x ∉ w.seqs i) :
    w.addresses (env₀.setVirtualAddress x va) i = w.addresses env₀ i :=
  WorkingSet.addresses_setElement _ out

theorem Env.address_setVirtualAddress : (env₀.setVirtualAddress x va).address x = va := by
  simp [Env.address, Env.setVirtualAddress, Env.setElement]

/-! ## A new environment -/

theorem mem_startLists {k size : Nat} (mem : k ∈ startLists size i) : k < size := by
  cases i with
  | pageWorkingSetList => simpa [startLists] using mem
  | activeList => simp [startLists] at mem
  | secondList => simp [startLists] at mem

/-- All elements of a new environment are free. -/
theorem listed_created {env : Env} {f size second : Nat} {L : Lists WSList Nat}
    (here : s.globals.envs e = Env.created f size second L env) (lists : L.Rep (startLists size))
    (fits : size ≤ pwsMaxSize) : Listed e (Env.created f size second L env) s
      ⟨startLists size, fun i => (L.head i).ptrNext⟩ := by
  refine ⟨?_, ?_, fun i k mem => ?_, ?_, ?_, ?_, ?_⟩ <;> try rw [here]
  · exact lists
  · exact fun _ => rfl
  · exact (mem_startLists mem).trans_le fits

/-- The sizes of the lists. -/
theorem setSizes_of_lt {size second : Nat} (lt : second < size) (fits : size ≤ pwsMaxSize) :
    (Env.zero.setSizes size second).activeListSize = size - second ∧
      (Env.zero.setSizes size second).secondListSize = second := by
  simp only [pwsMaxSize] at fits
  exact ⟨int32_of_small (by omega) (by omega), int32_of_small (by omega) (by omega)⟩

/-! ## Between two faults -/

/-- The sizes of the working set of an environment. -/
structure Env.SameSizes (env env' : Env) : Prop where
  max : env.pageWSMaxSize = env'.pageWSMaxSize
  active : env.activeListSize = env'.activeListSize
  second : env.secondListSize = env'.secondListSize

/-- The environment runs, its lists share out the elements of its working set, and the
mapped pages are those on the active and the second list. -/
structure Running (e : Nat) (env₀ : Env) (s : Kernel) (v : View) (w : WorkingSet) : Prop
    extends Resident e env₀ s v w where
  all : ∀ k, w.Has k ↔ k < env₀.pageWSMaxSize
  fits : env₀.pageWSMaxSize ≤ pwsMaxSize
  sum : env₀.activeListSize + env₀.secondListSize = env₀.pageWSMaxSize
  active : ((w.seqs .activeList).length : Int) ≤ env₀.activeListSize
  second : 0 ≤ env₀.secondListSize
  curenv : v.globals.curenv = some e
  current : v.Current e
  high : ∀ k < pwsMaxSize, 960 ≤ pdx (elementAddress v.globals.envsAddress e k)

/-- The environment can run: the mapped pages are those on the active and the second list.  Some
elements of its working set may be on no list. -/
structure Runnable (e : Nat) (env₀ : Env) (s : Kernel) (v : View) (w : WorkingSet) : Prop
    extends Resident e env₀ s v w where
  few : ∀ k, w.Has k → k < env₀.pageWSMaxSize
  fits : env₀.pageWSMaxSize ≤ pwsMaxSize
  sum : env₀.activeListSize + env₀.secondListSize = env₀.pageWSMaxSize
  active : ((w.seqs .activeList).length : Int) ≤ env₀.activeListSize
  second : 0 ≤ env₀.secondListSize
  high : ∀ k < pwsMaxSize, 960 ≤ pdx (elementAddress v.globals.envsAddress e k)

/-- And it does run. -/
structure Underway (e : Nat) (env₀ : Env) (s : Kernel) (v : View) (w : WorkingSet) : Prop
    extends Runnable e env₀ s v w where
  curenv : v.globals.curenv = some e
  current : v.Current e

theorem Running.underway (running : Running e env₀ s v w) : Underway e env₀ s v w :=
  { running with few := fun k => (running.all k).mp }

theorem Underway.running (underway : Underway e env₀ s v w)
    (all : ∀ k, w.Has k ↔ k < env₀.pageWSMaxSize) : Running e env₀ s v w :=
  { underway with all := all }

/-- What a step of the environment leaves: the sizes of its lists, the elements that are on one,
and the other environments. -/
structure Moved (e : Nat) (env₀ : Env) (v : View) (w : WorkingSet) (env₁ : Env) (v' : View)
    (w' : WorkingSet) : Prop where
  sizes : env₁.SameSizes env₀
  has : ∀ k, w'.Has k ↔ w.Has k
  beside : v.Beside v' e

theorem Env.SameSizes.trans {env env' env'' : Env} (first : env.SameSizes env')
    (second : env'.SameSizes env'') : env.SameSizes env'' :=
  ⟨first.max.trans second.max, first.active.trans second.active, first.second.trans second.second⟩

theorem Moved.refl (e : Nat) (env₀ : Env) (v : View) (w : WorkingSet) :
    Moved e env₀ v w env₀ v w :=
  ⟨⟨rfl, rfl, rfl⟩, fun _ => Iff.rfl, .refl v e⟩

theorem Moved.trans {v' v'' : View} {env₂ : Env} {w'' : WorkingSet}
    (first : Moved e env₀ v w env₁ v' w') (second : Moved e env₁ v' w' env₂ v'' w'') :
    Moved e env₀ v w env₂ v'' w'' :=
  ⟨second.sizes.trans first.sizes, fun k => (second.has k).trans (first.has k),
    first.beside.trans second.beside⟩

/-- No element is lost on the way. -/
theorem Underway.runs {v' : View} (underway : Underway e env₁ s' v' w')
    (moved : Moved e env₀ v w env₁ v' w') (all : ∀ k, w.Has k ↔ k < env₀.pageWSMaxSize) :
    Running e env₁ s' v' w' :=
  underway.running fun k => by rw [moved.has, moved.sizes.max, all]

/-- The lists after a step. -/
structure Ordered (env : Env) (T : PageNo → Word) (w : WorkingSet) : Prop where
  mapped : Mapped T (w.addresses env .activeList) (w.addresses env .secondList)
  active : ((w.seqs .activeList).length : Int) ≤ env.activeListSize
  full : w.seqs .secondList ≠ [] → ((w.seqs .activeList).length : Int) = env.activeListSize

theorem Runnable.ordered (runnable : Runnable e env₀ s v w) : Ordered env₀ (v.ptes e) w :=
  ⟨runnable.mapped, runnable.active, runnable.full⟩

/-- The pages in memory and in the page file; those with a modified entry are dirty. -/
def tiersOf (T : PageNo → Word) (m g : PageNo → Option Page) : WriteBack.Tiers PageNo Page :=
  ⟨m, fun p => modified (T p), g⟩

def View.tiers (v : View) (e : Nat) : WriteBack.Tiers PageNo Page :=
  tiersOf (v.ptes e) (v.memory e) (v.stored e)

theorem tiersOf_congr {T' : PageNo → Word} (same : ∀ p, modified (T' p) = modified (T p)) :
    tiersOf T' m g = tiersOf T m g := by
  simp only [tiersOf, same]

theorem tiersOf_update (p : PageNo) (y : Word) : tiersOf (Function.update T p y) m g =
    ⟨m, Function.update (fun q => modified (T q)) p (modified y), g⟩ := by
  rw [tiersOf]
  congr 1
  exact Function.comp_update (f := modified) T p y

/-- A run from one fault to the next. -/
theorem Underway.reach {v' : View} (underway : Underway e env₀ s v w)
    (space : Space e env₁ s' v' w') (next : v.Then v' e T D n) (sizes : env₁.SameSizes env₀)
    (ordered : Ordered env₁ T w') (has : ∀ k, w'.Has k ↔ w.Has k) : Underway e env₁ s' v' w' := by
  refine ⟨⟨⟨space, ?_, ?_, ordered.full⟩, fun k => ?_, ?_, ?_, ordered.active, ?_, ?_⟩, ?_, ?_⟩
  · rw [next.ptes]
    exact ordered.mapped
  · rw [sizes.active]
    exact underway.pos
  · rw [has, sizes.max]
    exact underway.few k
  · rw [sizes.max]
    exact underway.fits
  · rw [sizes.active, sizes.second, sizes.max]
    exact underway.sum
  · rw [sizes.second]
    exact underway.second
  · rw [next.envsAddress]
    exact underway.high
  · exact next.curenv.trans underway.curenv
  · rw [View.Current, next.dir, next.cr3]
    exact underway.current

theorem Underway.arrive (underway : Underway e env₀ s v w)
    (followed : Followed e env₁ v T D m g n s' w') (sizes : env₁.SameSizes env₀)
    (ordered : Ordered env₁ T w') (has : ∀ k, w'.Has k ↔ w.Has k) :
    ∃ v', Underway e env₁ s' v' w' ∧ Moved e env₀ v w env₁ v' w' ∧ v.Then v' e T D n ∧
      v'.tiers e = tiersOf T m g := by
  obtain ⟨v', space, next, rfl, rfl⟩ := followed
  refine ⟨v', underway.reach space next sizes ordered has, ⟨sizes, has, next.beside⟩, next, ?_⟩
  rw [View.tiers, next.ptes]

/-- A page in memory lies below the kernel. -/
theorem lt_kernelBase_of_userVa (user : UserVa va) (lt : va < word32) : va < kernelBase := by
  simp only [UserVa, Fin.lt_def, pdx, ptSize, word32, kernelBase] at *
  have := Nat.mod_eq_of_lt (show va / 4194304 < 1024 by omega)
  simp at user
  omega

/-! ## The end of `Placement` -/

/-- The lists as sequences of pages. -/
theorem WorkingSet.addresses_eq (env₀ : Env) {xs : List Nat} (at_ : w.seqs i = xs) :
    w.addresses env₀ i = xs.map env₀.address := by
  rw [WorkingSet.addresses, at_]

theorem modified_readInEntry (w : Word) : modified (readInEntry w) = false := by
  have bit : permModified.getLsbD 6 = true := by decide
  simp only [modified, readInEntry, BitVec.getLsbD_and, BitVec.getLsbD_not, bit]
  simp

theorem Followed.mono {n' : Nat} (followed : Followed e env₀ v T D m g n s w) (le : n ≤ n') :
    Followed e env₀ v T D m g n' s w := by
  obtain ⟨v', space, next, pages⟩ := followed
  exact ⟨v', space, next.mono le, pages⟩

theorem Followed.stored_ne_none {p : PageNo} (followed : Followed e env₀ v T D m g n s w) :
    g p ≠ none ↔ D p ≠ 0 := by
  obtain ⟨v', space, next, -, rfl⟩ := followed
  rw [View.stored_ne_none, next.entry]

/-- An entry that is not zero is not zero either with other permissions. -/
theorem Stage.entry_ne_zero {set clear : Word} (stage : Stage e env₀ v T D n s w)
    (entry : T (pageNo va) ≠ 0) (isSet : IsPerm set) (isClear : IsPerm clear) :
    (T (pageNo va) ||| set) &&& ~~~clear ≠ 0 := by
  obtain ⟨v', space, next⟩ := stage
  rw [← next.ptes] at entry ⊢
  exact space.entry_ne_zero entry isSet isClear

theorem isPerm_permPUW : IsPerm permPUW := by decide

theorem modified_permPUW (w : Word) : modified ((w ||| permPUW) &&& ~~~0) = modified w ∧
    modified ((w ||| 0) &&& ~~~permPUW) = modified w := by
  have bit : permPUW.getLsbD 6 = false := by decide
  constructor <;> simp only [modified, BitVec.getLsbD_and, BitVec.getLsbD_or, BitVec.getLsbD_not,
    bit] <;> simp

theorem allows_permPUW (w : Word) : Allows ((w ||| permPUW) &&& ~~~0) true true := by
  have bits : permPUW.getLsbD 0 ∧ permPUW.getLsbD 1 ∧ permPUW.getLsbD 2 := by decide
  obtain ⟨bit₀, bit₁, bit₂⟩ := bits
  refine ⟨?_, fun _ => ?_, fun _ => ?_⟩ <;> simp only [present, writeable, user, BitVec.getLsbD_and,
    BitVec.getLsbD_or, BitVec.getLsbD_not, bit₀, bit₁, bit₂] <;> simp

/-- The page is as modified as before. -/
theorem modified_update {p : PageNo} {y : Word} (same : modified y = modified (T p)) (q : PageNo) :
    modified (Function.update T p y q) = modified (T q) := by
  rcases eq_or_ne q p with rfl | ne
  · rw [Function.update_self, same]
  · rw [Function.update_of_ne ne]

/-- An element goes in front of the active list, and the last active one to the second
list. -/
theorem Followed.exchange_wp {front : List Nat} {Q : Unit → Kernel → Prop}
    (followed : Followed e env₀ v T D m g n s w) (loose : ¬ w.Has x) (lt : x < pwsMaxSize)
    (at_ : w.seqs .activeList = front ++ [t])
    (done : ∀ s' w', Followed e env₀ v T D m g n s' w' → w'.seqs .activeList = x :: front →
      w'.seqs .secondList = t :: w.seqs .secondList → (∀ k, w'.Has k ↔ w.Has k ∨ k = x) →
      Q () s') :
    wp (modifyLists e (·.remove .activeList t)) (fun _ s' =>
      wp (modifyLists e (·.insertHead .activeList x)) (fun _ s' =>
        wp (modifyLists e (·.insertHead .secondList t)) Q E s') E s') E s := by
  have listed := followed.listed
  have mem : t ∈ w.seqs .activeList := by simp [at_]
  have ne : t ≠ x := fun eq => loose (eq ▸ ⟨_, mem⟩)
  apply followed.remove_wp mem
  intro s₁ followed₁
  have gone : ¬ (w.remove .activeList t).Has x :=
    fun has => loose ((listed.has_remove mem).mp has).1
  apply followed₁.insertHead_wp gone lt
  intro s₂ followed₂
  have gone' : ¬ ((w.remove .activeList t).insertHead .activeList x).Has t := by
    rw [WorkingSet.has_insertHead]
    rintro (has | eq)
    · exact listed.loose mem has
    · exact ne eq
  apply followed₂.insertHead_wp gone' (listed.small _ t mem)
  intro s₃ followed₃
  have removed : (w.remove .activeList t).seqs .activeList = front := by
    rw [listed.remove_middle at_, List.append_nil]
  refine done s₃ _ followed₃ ?_ ?_ fun k => ?_
  · simp only [WorkingSet.insertHead_seqs, ne_eq, reduceCtorEq, not_false_eq_true,
      Function.update_of_ne, Function.update_self, removed]
  · simp
  · rw [WorkingSet.has_insertHead, WorkingSet.has_insertHead, or_right_comm, listed.has_back mem]

theorem placeElement_wp {Q : Unit → Kernel → Prop} (followed : Followed e env₀ v T D m g n s w)
    (loose : ¬ w.Has x) (lt : x < pwsMaxSize) (pos : 0 < env₀.activeListSize)
    (small : env₀.activeListSize ≤ pwsMaxSize)
    (active : ((w.seqs .activeList).length : Int) ≤ env₀.activeListSize)
    (full : w.seqs .secondList ≠ [] → ((w.seqs .activeList).length : Int) = env₀.activeListSize)
    (mapped : Mapped T (env₀.address x :: w.addresses env₀ .activeList)
      (w.addresses env₀ .secondList))
    (allowed : Allows (T (pageNo (env₀.address x))) true true)
    (done : ∀ s' T' w', (∀ p, modified (T' p) = modified (T p)) →
      Allows (T' (pageNo (env₀.address x))) true true →
      Followed e env₀ v T' D m g n s' w' → Ordered env₀ T' w' →
      w'.queue env₀ = env₀.address x :: w.queue env₀ → (∀ k, w'.Has k ↔ w.Has k ∨ k = x) →
      Q () s') : wp (placeElement e x) Q E s := by
  have listed := followed.listed
  have size : (uint32 env₀.activeListSize : Int) = env₀.activeListSize :=
    uint32_of_nonneg (by omega) (small.trans_lt (by decide))
  rw [placeElement, wp_bind]
  apply listSize_wp listed
  simp only [wp_bind, wp_getEnv, wp_ite, listed.activeSize]
  split
  · -- there is room on the active list
    rename_i room
    apply followed.insertHead_wp loose lt
    intro s' followed'
    have none : w.seqs .secondList = [] := by
      by_contra some
      have eq := full some
      omega
    have front : (w.insertHead .activeList x).seqs .activeList = x :: w.seqs .activeList := by simp
    have back : (w.insertHead .activeList x).seqs .secondList = w.seqs .secondList := by simp
    have front' := WorkingSet.addresses_eq env₀ front
    have back' := WorkingSet.addresses_eq env₀ back
    refine done s' T _ (fun _ => rfl) allowed followed'
      ⟨?_, ?_, ?_⟩ ?_ fun k => WorkingSet.has_insertHead
    · rw [front', back']
      exact mapped
    · rw [front, List.length_cons]
      omega
    · rw [back]
      exact fun some => absurd none some
    · rw [WorkingSet.queue, front', back']
      rfl
  · -- the last active page goes to the second list
    rename_i noRoom
    have some : w.seqs .activeList ≠ [] := by
      intro none
      rw [none, List.length_nil] at noRoom
      omega
    obtain ⟨front, last, at_⟩ : ∃ front last, w.seqs .activeList = front ++ [last] :=
      ⟨_, _, (List.dropLast_append_getLast some).symm⟩
    have at' := WorkingSet.addresses_eq env₀ at_
    rw [List.map_append, List.map_singleton] at at'
    apply listLast_wp listed
    simp only [at_, List.getLast?_append, List.getLast?_singleton, Option.some_or, wp_deref_some]
    apply followed.exchange_wp loose lt at_
    intro s₁ w₁ followed₁ front₁ back₁ has
    rw [at', ← List.cons_append] at mapped
    obtain ⟨aligned, user⟩ := mapped.user (env₀.address last) (by simp)
    obtain ⟨aligned', user'⟩ := mapped.user (env₀.address x) (by simp)
    have nonzero := (mapped.entry _ aligned user).mpr (by simp)
    have demoted := mapped.demote (followed.stage.entry_ne_zero nonzero (by decide) isPerm_permPUW)
      (not_present_permPUW _)
    apply virtualAddress_wp followed₁.listed
    apply followed₁.ptSetPagePermissions_wp user (by decide) isPerm_permPUW (Or.inl nonzero)
    intro s₂ followed₂
    apply virtualAddress_wp followed₂.listed
    have nonzero' := (demoted.entry _ aligned' user').mpr (by simp)
    apply followed₂.ptSetPagePermissions_wp user' isPerm_permPUW (by decide) (Or.inl nonzero')
    intro s₃ followed₃
    have front' := WorkingSet.addresses_eq env₀ front₁
    have back' := WorkingSet.addresses_eq env₀ back₁
    have length : (w₁.seqs .activeList).length = (w.seqs .activeList).length := by
      rw [front₁, at_, List.length_cons, List.length_append, List.length_singleton]
    refine done s₃ _ w₁ (fun p => ?_) ?_ followed₃ ⟨?_, ?_, fun _ => ?_⟩ ?_ has
    · rw [modified_update (modified_permPUW _).1, modified_update (modified_permPUW _).2]
    · rw [Function.update_self]
      exact allows_permPUW _
    · rw [front', back']
      exact demoted.keep (List.mem_cons_self ..) (present_permPUW _)
    · rw [length]
      exact active
    · rw [length]
      omega
    · rw [WorkingSet.queue, WorkingSet.queue, front', back', at']
      simp [WorkingSet.addresses]

/-! ## The steps of the handler -/

/-- The page at `va` can be read in or is one of the stack. -/
def Legal (D : PageNo → Word) (va : Nat) : Prop :=
  D (pageNo va) ≠ 0 ∨ (ustackBottom ≤ va ∧ va < ustackTop)

def illegalAccess : Stop := .panic "illegal access \n"

/-- The page file is full. -/
def noVirtualSpace : Stop := .panic "ERROR: No enough virtual space on the page file"

/-- The entry of a page that is placed. -/
theorem allows_placed (f : Nat) : Allows (constructEntry (toPhysicalAddress f)
    (permWriteable ||| permUser ||| permPresent)) true true := by
  refine ⟨present_constructEntry f _, fun _ => ?_, fun _ => ?_⟩
  · rw [writeable, getLsbD_constructEntry f _ (by decide)]
    rfl
  · rw [user, getLsbD_constructEntry f _ (by decide)]
    rfl

theorem allows_readInEntry {y : Word} (allowed : Allows y true true) :
    Allows (readInEntry y) true true := by
  obtain ⟨isPresent, isWriteable, isUser⟩ := allowed
  refine ⟨(present_readInEntry y).trans isPresent, fun _ => ?_, fun _ => ?_⟩
  · have bit := isWriteable rfl
    simp only [writeable] at bit
    simp [writeable, readInEntry, accessed, permModified, permUsed, bit]
  · have bit := isUser rfl
    simp only [user] at bit
    simp [user, readInEntry, accessed, permModified, permUsed, bit]

/-- The pages after one that has a frame has been read in or made. -/
def Furnished (m g : PageNo → Option Page) (p : PageNo) (m' g' : PageNo → Option Page) : Prop :=
  g p ≠ none ∧ m' = Function.update m p (g p) ∧ g' = g ∨
    g p = none ∧ m' = m ∧ ∃ q, g' = Function.update g p (some q)

theorem placePage_wp {Q : Unit → Kernel → Prop} (followed : Followed e env₀ v T D m g n s w)
    (curenv : v.globals.curenv = some e) (current : v.Current e) (aligned : Aligned va)
    (user : UserVa va) (allowed : Allows (T (pageNo va)) true true)
    (clean : modified (T (pageNo va)) = false)
    (done : ∀ s' x D' m' g', Legal D va → Allows x true true → modified x = false →
      Furnished m g (pageNo va) m' g' →
      Followed e env₀ v (Function.update T (pageNo va) x) D' m' g' (n + 2) s' w → Q () s')
    (illegal : ∀ s', ¬ Legal D va → Followed e env₀ v T D m g n s' w → E illegalAccess s')
    (noSpace : ∀ s', D (pageNo va) = 0 → Legal D va → E noVirtualSpace s')
    (full : v.free.length < n + 2 → ∀ s', E outOfMemory s') : wp (placePage e va) Q E s := by
  have stored := followed.stored_ne_none (p := pageNo va)
  rw [placePage, wp_bind]
  apply followed.pfReadEnvPage_wp curenv current aligned user ⟨allowed.1, allowed.2.1, nofun⟩
  · intro s' entry followed'
    rw [if_neg (by decide)]
    exact done s' _ D _ g (Or.inl entry) (allows_readInEntry allowed) (modified_readInEntry _)
      (Or.inl ⟨stored.mpr entry, rfl, rfl⟩) (followed'.mono (Nat.le_add_right n 2))
  · intro s₁ absent followed₁
    rw [if_pos rfl, wp_ite]
    split
    · rename_i stack
      rw [wp_bind]
      refine followed₁.pfAddEmptyEnvPage_wp user (lt_kernelBase_of_userVa user aligned.lt)
        (fun s₂ y q _ _ followed₂ => ?_) (fun s₂ followed₂ => ?_) full
      · have none : g (pageNo va) = none := by
          by_contra some
          exact stored.mp some absent
        rw [if_neg (by decide)]
        refine done s₂ (T (pageNo va)) (Function.update D (pageNo va) y) m _
          (Or.inr ⟨stack.2, stack.1⟩) allowed clean (Or.inr ⟨none, rfl, q, rfl⟩) ?_
        rwa [Function.update_eq_self]
      · rw [if_pos rfl]
        exact noSpace s₂ absent (Or.inr ⟨stack.2, stack.1⟩)
    · rename_i elsewhere
      refine illegal s₁ (fun legal => ?_) followed₁
      exact legal.elim (fun entry => entry absent) fun stack => elsewhere ⟨stack.2, stack.1⟩

theorem modified_placed (f : Nat) : modified (constructEntry (toPhysicalAddress f)
    (permWriteable ||| permUser ||| permPresent)) = false := by
  rw [modified, getLsbD_constructEntry f _ (by decide)]
  rfl

/-- The page that has had a frame of its own is placed. -/
theorem Furnished.placed {m' g' : PageNo → Option Page} {p : PageNo} {q : Page} {y : Word}
    (furnished : Furnished (Function.update m p (some q)) g p m' g') (clean : modified y = false) :
    (tiersOf T m g).Placed p (tiersOf (Function.update T p y) m' g') := by
  rw [tiersOf_update, clean]
  rcases furnished with ⟨some, rfl, rfl⟩ | ⟨none, rfl, q', rfl⟩
  · refine Or.inl ⟨some, ?_⟩
    rw [Function.update_idem]
    rfl
  · exact Or.inr ⟨none, q, q', rfl⟩

/-- A fault has been given up half way: there is a frame at the address, and one of the `n`
elements is on no list. -/
def GivenUp (e n va : Nat) (s : Kernel) : Prop :=
  ∃ env v w x, Space e env s v w ∧ v.ptes e (pageNo va) ≠ 0 ∧ x < n ∧ ¬ w.Has x

/-- **`Placement`**: the page comes to the front of the queue. -/
theorem Underway.placement_wp {Q : Unit → Kernel → Prop} (underway : Underway e env₀ s v w)
    (room : w.seqs .pageWorkingSetList ≠ []) (aligned : Aligned va) (user : UserVa va)
    (new : va ∉ w.queue env₀)
    (done : ∀ s' env₁ v' w', Legal (v.entry e) va → Underway e env₁ s' v' w' →
      Moved e env₀ v w env₁ v' w' → w'.queue env₁ = va :: w.queue env₀ →
      (v.tiers e).Placed (pageNo va) (v'.tiers e) →
      Allows (v'.ptes e (pageNo va)) true true → Q () s')
    (illegal : ∀ s', ¬ Legal (v.entry e) va → GivenUp e env₀.pageWSMaxSize va s' →
      E illegalAccess s')
    (noSpace : ∀ s', v.entry e (pageNo va) = 0 → Legal (v.entry e) va → E noVirtualSpace s')
    (full : v.free.length < 4 → ∀ s', E outOfMemory s') : wp (placement e va) Q E s := by
  have listed := underway.listed
  obtain ⟨front, x, at_⟩ : ∃ front x, w.seqs .pageWorkingSetList = front ++ [x] :=
    ⟨_, _, (List.dropLast_append_getLast room).symm⟩
  have mem : x ∈ w.seqs .pageWorkingSetList := by simp [at_]
  have active : x ∉ w.seqs .activeList := fun there => nomatch listed.only mem there
  have second : x ∉ w.seqs .secondList := fun there => nomatch listed.only mem there
  have front' : (w.remove .pageWorkingSetList x).addresses (env₀.setVirtualAddress x va)
      .activeList = w.addresses env₀ .activeList := by
    rw [← WorkingSet.addresses_setVirtualAddress va active]
    simp [WorkingSet.addresses]
  have back' : (w.remove .pageWorkingSetList x).addresses (env₀.setVirtualAddress x va)
      .secondList = w.addresses env₀ .secondList := by
    rw [← WorkingSet.addresses_setVirtualAddress va second]
    simp [WorkingSet.addresses]
  have sum := underway.sum
  have fits := underway.fits
  have nonneg := underway.second
  simp only [placement, wp_bind]
  apply listLast_wp listed
  simp only [at_, List.getLast?_append, List.getLast?_singleton, Option.some_or, wp_deref_some]
  apply underway.toSpace.followed.setVirtualAddress_wp
  intro s₁ followed₁
  apply followed₁.remove_wp mem
  intro s₂ followed₂
  have zero : v.ptes e (pageNo va) = 0 := by
    by_contra entry
    exact new ((underway.mapped.entry va aligned user).mp entry)
  refine followed₂.mapNew_wp user zero (by decide)
    (fun f p s₃ followed₃ => ?_) fun short => full (by omega)
  refine placePage_wp followed₃ underway.curenv underway.current aligned user ?_ ?_ ?_
    (fun s' unread followed => illegal s' unread ?_) noSpace full
  · rw [Function.update_self]
    exact allows_placed f
  · rw [Function.update_self]
    exact modified_placed f
  · intro s₄ y D' m' g' legal allowed clean furnished followed₄
    rw [Function.update_idem] at followed₄
    have placed := underway.mapped.place aligned user new allowed.1
    apply placeElement_wp followed₄ (listed.loose mem) (listed.small _ x mem) underway.pos
    · show env₀.activeListSize ≤ _
      omega
    · simpa [Env.setVirtualAddress, Env.setElement] using underway.active
    · simpa [Env.setVirtualAddress, Env.setElement] using underway.full
    · rw [Env.address_setVirtualAddress, front', back']
      exact placed
    · rw [Env.address_setVirtualAddress, Function.update_self]
      exact allowed
    · intro s' T' w' same allowed' followed ordered queue has
      have sizes : (env₀.setVirtualAddress x va).SameSizes env₀ := ⟨rfl, rfl, rfl⟩
      obtain ⟨v', arrived, moved, next, tiers⟩ := underway.arrive followed sizes ordered
        fun k => (has k).trans (listed.has_back mem)
      rw [Env.address_setVirtualAddress] at allowed'
      refine done s' _ v' w' legal arrived moved ?_ ?_ (next.ptes.symm ▸ allowed')
      · rw [queue, Env.address_setVirtualAddress, WorkingSet.queue, front', back', WorkingSet.queue]
      · rw [tiers, tiersOf_congr same]
        exact furnished.placed clean
  · obtain ⟨v', space, next, -⟩ := followed
    refine ⟨_, v', _, x, space, ?_, underway.few x ⟨_, mem⟩, listed.loose mem⟩
    rw [next.ptes, Function.update_self]
    exact ne_zero_of_present (allows_placed f).1

/-- The victim is in the queue. -/
theorem WorkingSet.victim_mem {list : WSList} (mem : x ∈ w.seqs list)
    (last : list = .secondList ∨ list = .activeList ∧ w.seqs .secondList = []) :
    env₀.address x ∈ w.queue env₀ := by
  refine WorkingSet.mem_queue mem ?_
  rcases last with rfl | ⟨rfl, -⟩ <;> simp

/-- The lists without the victim. -/
theorem Underway.evicted {front : List Nat} {list : WSList} (underway : Underway e env₀ s v w)
    (at_ : w.seqs list = front ++ [x])
    (last : list = .secondList ∨ list = .activeList ∧ w.seqs .secondList = []) :
    Ordered env₀ (Function.update (v.ptes e) (pageNo (env₀.address x)) 0)
        ((w.remove list x).insertHead .pageWorkingSetList x) ∧
      ((w.remove list x).insertHead .pageWorkingSetList x).queue env₀ =
        (w.queue env₀).dropLast := by
  have removed := underway.listed.remove_middle at_
  rw [List.append_nil] at removed
  have nodup := underway.mapped.nodup
  have mem : env₀.address x ∈ w.queue env₀ := WorkingSet.victim_mem (by simp [at_]) last
  have evicted := underway.mapped.evict mem
  have at' := WorkingSet.addresses_eq env₀ at_
  rw [List.map_append, List.map_singleton] at at'
  rcases last with rfl | ⟨rfl, none⟩
  · -- from the second list
    have whole := nodup
    rw [at', ← List.append_assoc, List.nodup_append] at whole
    have out : ∀ va ∈ w.addresses env₀ .activeList ++ front.map env₀.address,
        va ≠ env₀.address x := fun va here => whole.2.2 va here _ (by simp)
    have active : ((w.remove .secondList x).insertHead .pageWorkingSetList x).addresses env₀
        .activeList = w.addresses env₀ .activeList := by simp [WorkingSet.addresses]
    have second : ((w.remove .secondList x).insertHead .pageWorkingSetList x).seqs .secondList =
        front := by simpa using removed
    have second' := WorkingSet.addresses_eq env₀ second
    refine ⟨⟨?_, ?_, fun _ => ?_⟩, ?_⟩
    · rw [active, second']
      rw [at', List.erase_of_not_mem fun here => out _ (List.mem_append_left _ here) rfl,
        erase_middle fun here => out _ (List.mem_append_right _ here) rfl, List.append_nil]
        at evicted
      exact evicted
    · simpa using underway.active
    · simpa using underway.full (by simp [at_])
    · rw [WorkingSet.queue, WorkingSet.queue, active, second', at', ← List.append_assoc,
        List.dropLast_concat]
  · -- from the active list, which is the only one
    have back : w.addresses env₀ .secondList = [] := WorkingSet.addresses_eq env₀ none
    rw [at', back, List.append_nil, List.nodup_append] at nodup
    have out : env₀.address x ∉ front.map env₀.address :=
      fun here => nodup.2.2 _ here _ (by simp) rfl
    have active : ((w.remove .activeList x).insertHead .pageWorkingSetList x).seqs .activeList =
        front := by simpa using removed
    have active' := WorkingSet.addresses_eq env₀ active
    have second : ((w.remove .activeList x).insertHead .pageWorkingSetList x).addresses env₀
        .secondList = [] := WorkingSet.addresses_eq env₀ (by simpa using none)
    have short := underway.active
    rw [at_, List.length_append, List.length_singleton] at short
    refine ⟨⟨?_, ?_, fun some => absurd ?_ some⟩, ?_⟩
    · rw [active', second]
      rw [at', back, erase_middle out, List.append_nil] at evicted
      exact evicted
    · rw [active]
      omega
    · simpa using none
    · rw [WorkingSet.queue, WorkingSet.queue, active', second, at', back, List.append_nil,
        List.append_nil, List.dropLast_concat]

/-- The pages in memory are those of the queue. -/
theorem Resident.memory_ne_none (resident : Resident e env₀ s v w) (aligned : Aligned va)
    (user : UserVa va) : v.memory e (pageNo va) ≠ none ↔ va ∈ w.queue env₀ :=
  resident.rep.memory_ne_none.trans (resident.mapped.entry va aligned user)

/-- The victim leaves the end of the queue, and is written back if it is modified. -/
theorem Underway.releaseVictim_wp {front : List Nat} {list : WSList} {Q : Unit → Kernel → Prop}
    (underway : Underway e env₀ s v w) (at_ : w.seqs list = front ++ [x])
    (last : list = .secondList ∨ list = .activeList ∧ w.seqs .secondList = [])
    (done : ∀ s' v' w', Underway e env₀ s' v' w' → Moved e env₀ v w env₀ v' w' →
      w'.seqs .pageWorkingSetList ≠ [] →
      w'.queue env₀ = (w.queue env₀).dropLast → v'.entry e = v.entry e →
      v.free.length ≤ v'.free.length + 1 → (v.stored e (pageNo (env₀.address x)) ≠ none →
        v'.tiers e = (v.tiers e).evict (pageNo (env₀.address x))) → Q () s')
    (full : v.free.length < 1 → ∀ s', E outOfMemory s') : wp (releaseVictim e list) Q E s := by
  have listed := underway.listed
  have mem : x ∈ w.seqs list := by simp [at_]
  have queued : env₀.address x ∈ w.queue env₀ := WorkingSet.victim_mem mem last
  obtain ⟨aligned, user⟩ := underway.mapped.user _ queued
  have entry := (underway.mapped.entry _ aligned user).mpr queued
  have small := listed.small _ x mem
  obtain ⟨ordered, queue⟩ := underway.evicted at_ last
  simp only [releaseVictim, wp_bind]
  apply listLast_wp listed
  simp only [at_, List.getLast?_append, List.getLast?_singleton, Option.some_or, wp_deref_some]
  refine underway.toSpace.followed.writeBack_wp user (lt_kernelBase_of_userVa user aligned.lt) entry
    (underway.high x small) (fun s₁ g' written followed₁ => ?_) full
  apply followed₁.remove_wp mem
  intro s₂ followed₂
  apply followed₂.insertHead_wp (listed.loose mem) small
  intro s₃ followed₃
  apply followed₃.envPageDirectory_wp
  intro d dir
  apply virtualAddress_wp followed₃.listed
  apply followed₃.unmapFrame_wp dir user
  intro s₄ followed₄
  have finish : ∀ s', Followed e env₀ v (Function.update (v.ptes e) (pageNo (env₀.address x)) 0)
      (v.entry e) (Function.update (v.memory e) (pageNo (env₀.address x)) none) g' (0 + 1) s'
      ((w.remove list x).insertHead .pageWorkingSetList x) → Q () s' := by
    intro s' followed
    obtain ⟨v', arrived, moved, next, tiers⟩ := underway.arrive followed ⟨rfl, rfl, rfl⟩ ordered
      fun k => WorkingSet.has_insertHead.trans (listed.has_back mem)
    refine done s' v' _ arrived moved (by simp) queue next.entry next.free fun stored => ?_
    rw [tiers, tiersOf_update, written (View.stored_ne_none.mp stored)]
    rfl
  rw [wp_ite]
  split
  · rw [wp_bind]
    apply virtualAddress_wp followed₄.listed
    apply followed₄.ptSetPagePermissions_wp user (by decide) (by decide)
      (Or.inr ⟨rfl, underway.toSpace.table entry⟩)
    intro s₅ followed₅
    rw [Function.update_idem, Function.update_self] at followed₅
    apply finish s₅
    simpa using followed₅
  · exact finish s₄ followed₄

/-- **A page of the second list** comes to the front of the queue. -/
theorem Underway.promote_wp {before after : List Nat} {Q : Unit → Kernel → Prop}
    (underway : Underway e env₀ s v w) (at_ : w.seqs .secondList = before ++ x :: after)
    (done : ∀ s' v' w', Underway e env₀ s' v' w' → Moved e env₀ v w env₀ v' w' →
      w'.queue env₀ = env₀.address x :: (w.queue env₀).erase (env₀.address x) →
      v'.tiers e = v.tiers e → Allows (v'.ptes e (pageNo (env₀.address x))) true true → Q () s') :
    wp (promote e x) Q E s := by
  have listed := underway.listed
  have mem : x ∈ w.seqs .secondList := by simp [at_]
  have filled := underway.full (List.ne_nil_of_mem mem)
  have pos := underway.pos
  have some : w.seqs .activeList ≠ [] := by
    intro none
    rw [none, List.length_nil] at filled
    omega
  obtain ⟨front, t, active⟩ : ∃ front t, w.seqs .activeList = front ++ [t] :=
    ⟨_, _, (List.dropLast_append_getLast some).symm⟩
  have second := listed.remove_middle at_
  simp only [promote, wp_bind]
  apply underway.toSpace.followed.remove_wp mem
  intro s₁ followed₁
  have active₁ : (w.remove .secondList x).seqs .activeList = front ++ [t] := by simpa using active
  apply listLast_wp followed₁.listed
  simp only [active₁, List.getLast?_append, List.getLast?_singleton, Option.some_or, wp_deref_some]
  apply followed₁.exchange_wp (listed.loose mem) (listed.small _ x mem) active₁
  intro s₂ w₂ followed₂ front₂ back₂ has
  rw [second] at back₂
  have at' := WorkingSet.addresses_eq env₀ at_
  have active' := WorkingSet.addresses_eq env₀ active
  rw [List.map_append, List.map_cons] at at'
  rw [List.map_append, List.map_singleton] at active'
  have mapped := underway.mapped
  rw [at', active'] at mapped
  have whole := mapped.nodup
  rw [List.nodup_append] at whole
  have out : ∀ va ∈ front.map env₀.address ++ [env₀.address t], va ≠ env₀.address x :=
    fun va here => whole.2.2 va here _ (by simp)
  have out' : env₀.address x ∉ before.map env₀.address := by
    have nodup := whole.2.1
    rw [List.nodup_middle, List.nodup_cons] at nodup
    exact fun here => nodup.1 (List.mem_append_left _ here)
  obtain ⟨-, user⟩ := mapped.user (env₀.address x) (by simp)
  obtain ⟨alignedt, usert⟩ := mapped.user (env₀.address t) (by simp)
  obtain ⟨alignedx, -⟩ := mapped.user (env₀.address x) (by simp)
  have entry := (mapped.entry _ alignedx user).mpr (by simp)
  apply virtualAddress_wp followed₂.listed
  apply followed₂.ptSetPagePermissions_wp user isPerm_permPUW (by decide) (Or.inl entry)
  intro s₃ followed₃
  have here : env₀.address x ∈ before.map env₀.address ++ env₀.address x ::
      after.map env₀.address := by simp
  have promoted := mapped.promote here (List.Perm.refl _)
    (present_permPUW (v.ptes e (pageNo (env₀.address x))))
  rw [erase_middle out', ← List.cons_append] at promoted
  have entry' := (promoted.entry _ alignedt usert).mpr (by simp)
  apply virtualAddress_wp followed₃.listed
  apply followed₃.ptSetPagePermissions_wp usert (by decide) isPerm_permPUW (Or.inl entry')
  intro s₄ followed₄
  have demoted := promoted.demote (followed₃.stage.entry_ne_zero entry' (by decide) isPerm_permPUW)
    (not_present_permPUW _)
  have front' := WorkingSet.addresses_eq env₀ front₂
  have back' := WorkingSet.addresses_eq env₀ back₂
  have length : (w₂.seqs .activeList).length = (w.seqs .activeList).length := by
    rw [front₂, active, List.length_cons, List.length_append, List.length_singleton]
  rw [List.map_cons] at front'
  rw [List.map_cons, List.map_append] at back'
  rw [← front', ← back'] at demoted
  rw [← length] at filled
  obtain ⟨v', arrived, moved, next, tiers⟩ := underway.arrive followed₄ ⟨rfl, rfl, rfl⟩
    ⟨demoted, le_of_eq filled, fun _ => filled⟩ fun k => (has k).trans (listed.has_back mem)
  have other : pageNo (env₀.address x) ≠ pageNo (env₀.address t) := fun same =>
    out (env₀.address t) (by simp) (alignedx.pageNo_inj alignedt same).symm
  refine done s₄ v' w₂ arrived moved ?_ (tiers.trans (tiersOf_congr fun p => ?_)) ?_
  rotate_left
  · rw [modified_update (modified_permPUW _).2, modified_update (modified_permPUW _).1]
  · rw [next.ptes, Function.update_of_ne other, Function.update_self]
    exact allows_permPUW _
  rw [WorkingSet.queue, WorkingSet.queue, front', back', active', at',
    List.erase_append_right _ fun here => out _ here rfl, erase_middle out']
  simp

end Fos
