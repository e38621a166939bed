import Fos.Loader.Image
import Fos.WorkingSet.Counting
import Fos.WorkingSet.Replacement

/-!
# The lists of a new environment

`env_create` puts the pages that it loads on the lists of the working set, and in the end
clears the present bits of those on the second list.

* `Loader`: while the program is loaded, the pages that have an entry are those on the lists,
  and all are present;
* `Loaded.*`: the parts of `env_create` keep this, if no two segments share a page;
* `Sound.envCreate_resident`: in the end the pages of the second list are not present.
-/

namespace Fos

open Arena Exec Linked

variable {s s' : Kernel} {v v' : View} {e va f : Nat} {env₀ env₁ : Env} {w w' : WorkingSet}
  {T D : PageNo → Word} {n : Nat} {base : View}

/-! ## Functions of the loader -/

theorem Rep.ptes_loadMap (rep : Rep s v) (e va f : Nat) (w : Word) (p : Page) :
    (v.loadMap e va f w p).ptes e = Function.update (v.ptes e) (pageNo va) w := by
  rw [View.loadMap, View.ptes_mapPage]
  funext q
  rcases eq_or_ne q (pageNo va) with rfl | ne
  · rw [Function.update_self, Function.update_self]
  · rw [Function.update_of_ne ne, Function.update_of_ne ne, View.ptes_lose_of_ne ne]
    exact congrFun (View.ptes_withTable (v := v.take f) (fun i none => rep.wf.absent _ none) _) q

/-- A table that is there stays. -/
theorem View.loadMap_place_table {p : Page} {i : Fin 1024} {x : Word}
    (table : v.place (.pageTable e i) ≠ none) :
    (v.loadMap e va f x p).place (.pageTable e i) ≠ none := by
  have mapped : (v.loadMap e va f x p).place (.pageTable e i) =
      ((v.take f).withTable e (pdx va)).place (.pageTable e i) := by
    rw [View.loadMap, ← View.lose_place_table ((v.take f).withTable e (pdx va)) e va]
    simp [View.mapPage, View.setPte]
  rw [mapped]
  exact View.withTable_place_table table

theorem Rep.spares_loadMap {rest : List Nat} (rep : Rep s v) (free : v.free = f :: rest)
    (user : UserVa va) (zero : v.pte e va = 0) (w : Word) (p : Page) :
    v.Spares (v.loadMap e va f w p) e := by
  rw [View.loadMap, rep.lose_withTable free zero]
  exact rep.spares_mapPage free user w p

/-- `allocate_frame` and `loadtime_map_frame` for a page of the environment. -/
theorem Space.loadMap_wp {Q : Unit → Kernel → Prop} {perm : Word} (space : Space e env₀ s v w)
    (user : UserVa va) (isPerm : IsPerm (perm ||| permPresent)) (zero : v.ptes e (pageNo va) = 0)
    (done : ∀ f s' v', Space e env₀ s' v' w → WsSame e s s' →
    v.Then v' e (Function.update (v.ptes e)
      (pageNo va) (constructEntry (toPhysicalAddress f) (perm ||| permPresent))) (v.entry e) 2 →
      Q () s') :
    wp allocateFrame (fun f s' => wp (envPageDirectory e) (fun d s' =>
      wp (loadtimeMapFrame d f va perm) Q (fun _ _ => True) s') (fun _ _ => True) s')
      (fun _ _ => True) s := by
  obtain ⟨d, dir⟩ := space.dir
  have quiet : Quiet e (do
      let f ← allocateFrame
      loadtimeMapFrame (← envPageDirectory e) f va perm) :=
    (quiet_allocateFrame e).bind fun f => (quiet_envPageDirectory e e).bind fun d =>
      quiet_loadtimeMapFrame e d f va perm
  have run := quiet.and (s := s) (E := fun _ _ => True) (Q := Q) (F := fun _ _ => True)
    (P := fun _ s' => ∃ f rest p, v.free = f :: rest ∧ Rep s' (v.loadMap e va f
      (constructEntry (toPhysicalAddress f) (perm ||| permPresent)) p)) ?_ ?_ fun _ _ h => h
  · simpa only [wp_bind] using run
  · simp only [wp_bind]
    refine allocateFrame_wp space.rep (fun f rest s₁ free taken _ => ?_) fun _ => trivial
    have linked : (v.take f).Linked e := space.linked e
    apply Fos.envPageDirectory_wp taken linked dir
    apply loadtimeMapFrame_wp taken dir user (by simp) isPerm
    · exact fun s₂ p mapped => ⟨f, rest, p, free, mapped⟩
    · exact fun _ _ => trivial
  · rintro _ s' ⟨f, rest, p, free, rep⟩ same
    have edit := View.UserEdit.loadMap v e va f
      (constructEntry (toPhysicalAddress f) (perm ||| permPresent)) p
    exact done f s' _ ⟨space.toSound.editUser edit rep, ⟨d, edit.dir.trans dir⟩,
      space.listed.same same⟩ same (edit.then (space.rep.ptes_loadMap e va f _ p)
        (fun i => View.loadMap_place_table) (fun zero => by cases zero)
        (View.length_loadMap v e va f _ p) (space.rep.spares_loadMap free user zero _ p))

/-- `pf_add_env_page`, whatever it returns. -/
theorem Space.pfAddEnvPage_wp {data : Page} (space : Space e env₀ s v w) (lt : va < userTop) :
    wp (pfAddEnvPage e va data) (fun _ s' => ∃ v' D, Space e env₀ s' v' w ∧
      v.Then v' e (v.ptes e) D 2) (fun _ _ => True) s := by
  obtain ⟨d, dir⟩ := space.dir
  have user := userVa_of_lt lt
  apply space.quiet (steps_pfAddEnvPage (edits_wsSame e) e va data) (F := fun _ _ => True)
    (P := fun _ s' => (v.addPage e va).dfn e va ≠ 0 ∧
    Rep s' ((v.addPage e va).storePage e va data) ∨
      Rep s' (v.withTables e va))
  · apply Fos.pfAddEnvPage_wp space.rep (space.diskLinked e) space.pageFile.toSharedOut
      (lt_kernelBase lt)
    · exact fun s' rep page => Or.inl ⟨page, rep⟩
    · exact fun s' rep _ _ => Or.inr rep
    · exact fun _ _ _ _ _ _ => trivial
  · rintro _ s' (⟨page, rep⟩ | rep) listed
    · have added := space.rep.then_addPage e va
      have stored := View.spares_storePage
        (space.pageFile.addPage (e := e) space.rep user).toSharedOut page data
      have next : v.Then ((v.addPage e va).storePage e va data) e (v.ptes e) _ 2 :=
        ⟨added.dir, added.tables, added.kept, added.curenv, added.cr3,
        added.envsAddress, added.ptes,
          added.entry, added.free, added.spares.trans stored⟩
      exact ⟨_, _, ⟨space.toSound.storeAdded user rep, ⟨d, next.dir.trans dir⟩, listed⟩, next⟩
    · have next := space.rep.then_withTables e va
      exact ⟨_, _, ⟨space.toSound.withTables user rep, ⟨d, next.dir.trans dir⟩, listed⟩, next⟩
  · exact fun _ _ _ => trivial

/-! ## Taking elements -/

/-- `j` of the `n` elements are taken, in order; at most `limit` are active, and only then the
second list has some. -/
structure WorkingSet.Fills (w : WorkingSet) (n j limit : Nat) : Prop where
  free : ∀ k, k ∈ w.seqs .pageWorkingSetList ↔ j ≤ k ∧ k < n
  taken : ∀ k, k ∈ w.seqs .activeList ∨ k ∈ w.seqs .secondList ↔ k < j
  active : (w.seqs .activeList).length ≤ limit
  full : w.seqs .secondList ≠ [] → (w.seqs .activeList).length = limit

/-- The list for the next element, where up to `limit` may be active. -/
def WorkingSet.target (w : WorkingSet) (limit : Nat) : WSList :=
  if (w.seqs .activeList).length < limit then .activeList else .secondList

variable {j limit limit' : Nat}

/-- The next element is taken. -/
theorem WorkingSet.Fills.take (fills : w.Fills n j limit)
    (nodup : (w.seqs .pageWorkingSetList).Nodup) (room : limit' = limit ∨ limit' = limit + 1) :
    ((w.remove .pageWorkingSetList j).insertHead (w.target limit') j).Fills n (j + 1) limit' := by
  have active := fills.active
  have free : ∀ k, k ∈ (w.seqs .pageWorkingSetList).erase j ↔ j + 1 ≤ k ∧ k < n := by
    intro k
    rw [nodup.mem_erase_iff, fills.free]
    omega
  unfold WorkingSet.target
  split
  · rename_i more
    refine ⟨by simpa using free, fun k => ?_, by simpa using Nat.succ_le_of_lt more, fun some => ?_⟩
    · have taken := fills.taken k
      simp only [insertHead_seqs, remove_seqs, Function.update_self, List.mem_cons, ne_eq,
        reduceCtorEq, not_false_eq_true, Function.update_of_ne, or_assoc, taken]
      omega
    · have full := fills.full (by simpa using some)
      simp
      omega
  · rename_i none
    refine ⟨by simpa using free, fun k => ?_, ?_, fun _ => ?_⟩
    · have taken := fills.taken k
      simp only [insertHead_seqs, remove_seqs, Function.update_self, List.mem_cons, ne_eq,
        reduceCtorEq, not_false_eq_true, Function.update_of_ne, or_left_comm, taken]
      omega
    · simp
      omega
    · simp
      omega

/-- Its page is in the queue then. -/
theorem WorkingSet.Fills.queue_take (fills : w.Fills n j limit) (env₀ : Env) (limit' va : Nat) :
    (((w.remove .pageWorkingSetList j).insertHead (w.target limit') j).queue
      (env₀.setElement j ⟨va, false⟩)).Perm (va :: w.queue env₀) := by
  have out : ∀ i, i ≠ .pageWorkingSetList → j ∉ w.seqs i := by
    intro i ne mem
    have lt : j < j := by
      cases i with
      | pageWorkingSetList => exact absurd rfl ne
      | activeList => exact (fills.taken j).mp (Or.inl mem)
      | secondList => exact (fills.taken j).mp (Or.inr mem)
    exact Nat.lt_irrefl j lt
  have here : (env₀.setElement j ⟨va, false⟩).address j = va := by
    simp [Env.address, Env.setElement]
  have same : ∀ i, i ≠ .pageWorkingSetList →
      (w.seqs i).map (env₀.setElement j ⟨va, false⟩).address = w.addresses env₀ i := fun i ne =>
    WorkingSet.addresses_setElement _ (out i ne)
  unfold WorkingSet.target
  split
  · have front : ((w.remove .pageWorkingSetList j).insertHead .activeList j).addresses
        (env₀.setElement j ⟨va, false⟩) .activeList = va :: w.addresses env₀ .activeList := by
      rw [WorkingSet.addresses_eq _ (show _ = j :: w.seqs .activeList by simp), List.map_cons, here,
        same _ (by decide)]
    have back : ((w.remove .pageWorkingSetList j).insertHead .activeList j).addresses
        (env₀.setElement j ⟨va, false⟩) .secondList = w.addresses env₀ .secondList := by
      rw [WorkingSet.addresses_eq _ (show _ = w.seqs .secondList by simp), same _ (by decide)]
    rw [WorkingSet.queue, front, back]
    exact List.Perm.refl _
  · have front : ((w.remove .pageWorkingSetList j).insertHead .secondList j).addresses
        (env₀.setElement j ⟨va, false⟩) .activeList = w.addresses env₀ .activeList := by
      rw [WorkingSet.addresses_eq _ (show _ = w.seqs .activeList by simp), same _ (by decide)]
    have back : ((w.remove .pageWorkingSetList j).insertHead .secondList j).addresses
        (env₀.setElement j ⟨va, false⟩) .secondList = va :: w.addresses env₀ .secondList := by
      rw [WorkingSet.addresses_eq _ (show _ = j :: w.seqs .secondList by simp), List.map_cons, here,
        same _ (by decide)]
    rw [WorkingSet.queue, front, back]
    exact List.perm_middle

theorem addToLists_eq (e k limit : Nat) : addToLists e k limit = (do
    modifyLists e (·.remove .pageWorkingSetList k)
    let size ← listSize e .activeList
    modifyLists e (·.insertHead (if size < limit then .activeList else .secondList) k)) := by
  unfold addToLists
  congr 1
  funext _
  congr 1
  funext size
  split <;> rfl

/-- The index of the next element. -/
theorem index_take (e k limit : Nat) (s : Kernel) :
    wp (addToLists e k limit) (fun _ s' => wp (nextWSIndex e) (fun _ s' =>
      (s'.globals.envs e).pageLastWSIndex =
        ((s.globals.envs e).pageLastWSIndex + 1) % (s.globals.envs e).pageWSMaxSize)
      (fun _ _ => True) s') (fun _ _ => True) s := by
  simp only [addToLists, nextWSIndex, modifyLists, listSize, wp_bind, wp_modifyEnv, wp_getEnv,
    wp_ite, wp_pure, wp_throw, setEnv_envs]
  split <;> split <;> trivial

/-- The element of the index is given a page. -/
theorem Stage.setWSElement {m : Nat} (stage : Stage e env₀ v T D m s w) (va : Nat)
    (index : (s.globals.envs e).pageLastWSIndex = j) :
    Stage e (env₀.setElement j ⟨va, false⟩) v T D m
      (s.setGlobals (s.globals.setEnv e (Env.setWSElement va))) w := by
  have listed := stage.listed
  refine stage.edit (fun _ => rfl) (fun _ => rfl) (fun _ => rfl) (fun _ => rfl) ?_
  refine ⟨?_, ?_, listed.small, ?_, ?_, ?_, ?_⟩ <;> rw [setEnv_envs]
  · exact listed.rep
  · exact listed.next
  · simp only [Env.setWSElement, Env.setElement, index, listed.elements]
  · exact listed.maxSize
  · exact listed.activeSize
  · exact listed.secondSize

/-- The element goes to its list. -/
theorem Stage.take_wp {m : Nat} (stage : Stage e env₀ v T D m s w) (fills : w.Fills n j limit)
    (lt : j < n) (small : n ≤ pwsMaxSize) (limit' : Nat) :
    wp (addToLists e j limit') (fun _ s' => wp (nextWSIndex e) (fun _ s' =>
      Stage e env₀ v T D m s' ((w.remove .pageWorkingSetList j).insertHead (w.target limit') j))
      (fun _ _ => True) s') (fun _ _ => True) s := by
  have listed := stage.listed
  have mem : j ∈ w.seqs .pageWorkingSetList := (fills.free j).mpr ⟨Nat.le_refl j, lt⟩
  rw [addToLists_eq, wp_bind]
  apply stage.remove_wp mem
  intro s₁ stage₁
  rw [wp_bind]
  apply listSize_wp stage₁.listed
  have same : (w.remove .pageWorkingSetList j).seqs .activeList = w.seqs .activeList := by simp
  rw [same]
  apply stage₁.insertHead_wp (listed.loose mem) (lt.trans_le small)
  intro s₂ stage₂
  simp only [nextWSIndex, wp_bind, wp_getEnv, wp_ite, wp_throw, wp_modifyEnv]
  split
  · trivial
  · refine stage₂.edit (fun _ => rfl) (fun _ => rfl) (fun _ => rfl) (fun _ => rfl) ?_
    have listed₂ := stage₂.listed
    refine ⟨?_, ?_, listed₂.small, ?_, ?_, ?_, ?_⟩ <;> rw [setEnv_envs]
    · exact listed₂.rep
    · exact listed₂.next
    · exact listed₂.elements
    · exact listed₂.maxSize
    · exact listed₂.activeSize
    · exact listed₂.secondSize

/-! ## While the program is loaded -/

theorem View.Beside.lcr3 (v : View) (e pa : Nat) :
    v.Beside (v.setGlobals { v.globals with cr3 := pa }) e :=
  ⟨.setGlobals (fun _ _ => rfl) rfl, rfl, rfl⟩

/-- The pages that have an entry are those on the lists, and all are present. -/
structure Loader (e : Nat) (env₀ : Env) (s : Kernel) (v : View) (w : WorkingSet) : Prop
    extends Space e env₀ s v w where
  current : v.Current e
  mapped : Mapped (v.ptes e) (w.queue env₀) []
  pages : ∀ k, Aligned (env₀.address k) ∧ UserVa (env₀.address k)
  high : ∀ k < pwsMaxSize, 960 ≤ pdx (elementAddress v.globals.envsAddress e k)

theorem Loader.next {m : Nat} (loader : Loader e env₀ s v w) (stage : Stage e env₁ v T D m s' w')
    (mapped : Mapped T (w'.queue env₁) [])
    (pages : ∀ k, Aligned (env₁.address k) ∧ UserVa (env₁.address k)) :
    ∃ v', Loader e env₁ s' v' w' ∧ v.Beside v' e := by
  obtain ⟨v', space, next⟩ := stage
  refine ⟨v', ⟨space, ?_, ?_, pages, ?_⟩, next.beside⟩
  · rw [View.Current, next.dir, next.cr3]
    exact loader.current
  · rw [next.ptes]
    exact mapped
  · rw [next.envsAddress]
    exact loader.high

/-- `j` elements of the working set are taken, for pages whose numbers are in `P`, and the other
environments are as they were in `base`. -/
def Loaded (e : Nat) (base : View) (sizes : Env) (j limit : Nat) (P : Nat → Prop) (s : Kernel) :
    Prop :=
  ∃ env₀ v w, Loader e env₀ s v w ∧ base.Beside v e ∧ env₀.SameSizes sizes ∧
    (s.globals.envs e).pageLastWSIndex = j % sizes.pageWSMaxSize ∧
    w.Fills sizes.pageWSMaxSize j limit ∧ ∀ va ∈ w.queue env₀, P (va / pageSize)

/-- The same, and the page at `va` has a frame and no element yet. -/
def Framed (e : Nat) (base : View) (sizes : Env) (j limit : Nat) (P : Nat → Prop) (va : Nat)
    (s : Kernel) : Prop :=
  ∃ env₀ s₀ v w T D m, Loader e env₀ s₀ v w ∧ base.Beside v e ∧ env₀.SameSizes sizes ∧
    Stage e env₀ v T D m s w ∧
    Mapped T (va :: w.queue env₀) [] ∧
    (s.globals.envs e).pageLastWSIndex = j % sizes.pageWSMaxSize ∧
    w.Fills sizes.pageWSMaxSize j limit ∧ ∀ va' ∈ w.queue env₀, P (va' / pageSize)

variable {sizes : Env} {P P' : Nat → Prop}

namespace Loaded

theorem mono (loaded : Loaded e base sizes j limit P s) (imp : ∀ q, P q → P' q) :
    Loaded e base sizes j limit P' s := by
  obtain ⟨env₀, v, w, loader, beside, same, index, fills, within⟩ := loaded
  exact ⟨env₀, v, w, loader, beside, same, index, fills, fun va mem => imp _ (within va mem)⟩

/-- A function that leaves the working set alone. -/
theorem quiet {α : Type} {m : Prog α} (loaded : Loaded e base sizes j limit P s) (quiet : Quiet e m)
    (run : ∀ env₀ v w, Loader e env₀ s v w → wp m (fun _ s' => ∃ T D n,
      Stage e env₀ v T D n s' w ∧ Mapped T (w.queue env₀) []) (fun _ _ => True) s) :
    wp m (fun _ s' => Loaded e base sizes j limit P s') (fun _ _ => True) s := by
  obtain ⟨env₀, v, w, loader, beside, same, index, fills, within⟩ := loaded
  refine quiet.and (run env₀ v w loader) (fun _ s' ends unchanged => ?_) fun _ _ _ => trivial
  obtain ⟨T, D, n, stage, mapped⟩ := ends
  obtain ⟨v', loader', beside'⟩ := loader.next stage mapped loader.pages
  exact ⟨env₀, v', w, loader', beside.trans beside', same, unchanged.lastIndex.trans index, fills,
    within⟩

/-- A byte is stored in a page of the environment. -/
theorem storeByte (loaded : Loaded e base sizes j limit P s) (lt : va < userTop) (b : BitVec 8) :
    wp (storeByte va b) (fun _ s' => Loaded e base sizes j limit P s') (fun _ _ => True) s := by
  refine loaded.quiet (quiet_storeByte e va b) fun env₀ v w loader => ?_
  have user := userVa_of_lt lt
  simp only [Fos.storeByte, kernelFrame, wp_bind]
  refine wp_mono (loader.translate_wp loader.current user false true) ?_ fun _ _ h => h.elim
  rintro (_ | f) s₁ found
  · trivial
  · obtain ⟨allowed, -, stored⟩ := found f rfl
    refine ⟨_, _, 0, (stored _).stage, ?_⟩
    have aligned := roundDown_aligned (lt.trans (show userTop < word32 by decide))
    rw [← pageNo_roundDown va] at allowed ⊢
    refine loader.mapped.rewrite aligned user.roundDown ?_ (present_accessed _ _)
    exact iff_of_true (ne_zero_of_present ((present_accessed _ _).trans allowed.1))
      (ne_zero_of_present allowed.1)

/-- A page is stored in the page file. -/
theorem add {data : Page} (loaded : Loaded e base sizes j limit P s) (lt : va < userTop) :
    wp (pfAddEnvPage e va data) (fun _ s' => Loaded e base sizes j limit P s')
    (fun _ _ => True) s := by
  refine loaded.quiet (steps_pfAddEnvPage (edits_wsSame e) e va data) fun env₀ v w loader => ?_
  refine wp_mono (loader.pfAddEnvPage_wp lt) ?_ fun _ _ h => h
  rintro _ s' ⟨v', D, space, next⟩
  exact ⟨_, D, 2, ⟨v', space, next⟩, loader.mapped⟩

/-- And the result is looked at. -/
theorem addChecked {data : Page} (loaded : Loaded e base sizes j limit P s) (lt : va < userTop) :
    wp (pfAddEnvPage e va data) (fun r s' => wp (checkPageFile r)
      (fun _ s' => Loaded e base sizes j limit P s') (fun _ _ => True) s') (fun _ _ => True) s := by
  refine wp_mono (loaded.add lt) (fun r s' loaded' => ?_) fun _ _ h => h
  rw [checkPageFile, wp_ite]
  split
  · trivial
  · exact loaded'

/-- A frame that holds no object is overwritten. -/
theorem writeTemp (loaded : Loaded e base sizes j limit P s) (p : Page) :
    Loaded e base sizes j limit P (s.setPage tempPage p) := by
  obtain ⟨env₀, v, w, loader, rest⟩ := loaded
  have loose : (v.use tempPage).Loose := by
    rw [loader.rep.low tempPage (by decide) (by decide)]
    rintro o ⟨⟩
  have listed := loader.listed
  exact ⟨env₀, v, w, { loader with
    rep := loader.rep.loosePage loose p
    listed := ⟨listed.rep, listed.next, listed.small, listed.elements, listed.maxSize,
      listed.activeSize, listed.secondSize⟩ }, rest⟩

/-- The second half of a pass of the loop over the segments. -/
theorem writeSegment {seg : ProgramSegment} (loaded : Loaded e base sizes j limit P s)
    (fits : seg.Fits) :
    wp (writeSegment e seg) (fun _ s' => Loaded e base sizes j limit P s') (fun _ _ => True) s := by
  simp only [Fos.writeSegment, wp_bind, wp_writePage, wp_get]
  refine wp_mono ((loaded.writeTemp _).addChecked fits.first_lt) (fun r s₁ first => ?_)
    fun _ _ h => h
  refine wp_mono first (fun _ s₁ loaded₁ => ?_) fun _ _ h => h
  refine wp_mono (wp_forM_keeps (fun i mem s' loaded' => ?_) loaded₁) (fun _ s₂ loaded₂ => ?_)
    fun _ _ h => h
  · rw [wp_bind]
    exact loaded'.addChecked (fits.middle_lt (List.mem_range.mp mem))
  refine wp_mono ((loaded₂.writeTemp _).addChecked fits.last_lt) (fun r s₃ last => ?_)
    fun _ _ h => h
  refine wp_mono last (fun _ s₃ loaded₃ => ?_) fun _ _ h => h
  refine wp_forM_keeps (fun i mem s' loaded' => ?_) loaded₃
  simp only [pfAddEmptyEnvPage, if_true, wp_bind, wp_get]
  exact loaded'.addChecked (fits.rest_lt (List.mem_range.mp mem))

/-- A new page gets a frame. -/
theorem map {Q : Unit → Kernel → Prop} (loaded : Loaded e base sizes j limit P s)
    (aligned : Aligned va)
    (lt : va < userTop) (new : ¬ P (va / pageSize))
    (done : ∀ s', Framed e base sizes j limit P va s' → Q () s') :
    wp allocateFrame (fun f s' => wp (envPageDirectory e) (fun d s' =>
      wp (loadtimeMapFrame d f va (permUser ||| permWriteable)) Q (fun _ _ => True) s')
      (fun _ _ => True) s') (fun _ _ => True) s := by
  obtain ⟨env₀, v, w, loader, beside, same, index, fills, within⟩ := loaded
  have out : va ∉ w.queue env₀ ++ [] := by
    rw [List.append_nil]
    exact fun mem => new (within va mem)
  have zero : v.ptes e (pageNo va) = 0 :=
    not_not.mp ((loader.mapped.entry va aligned (userVa_of_lt lt)).not.mpr out)
  apply loader.loadMap_wp (userVa_of_lt lt) (by decide) zero
  intro f s' v' space unchanged next
  have placed := loader.mapped.place aligned (userVa_of_lt lt) out
    (present_constructEntry f (permUser ||| permWriteable))
  exact done s' ⟨env₀, s, v, w, _, _, 2, loader, beside, same, ⟨v', space, next⟩, placed,
    unchanged.lastIndex.trans index, fills, within⟩

end Loaded

/-- The next element is taken for the page. -/
theorem Framed.take {Q : Unit → Kernel → Prop} (framed : Framed e base sizes j limit P va s)
    (small : sizes.pageWSMaxSize ≤ pwsMaxSize) (lt : j < sizes.pageWSMaxSize)
    (room : limit' = limit ∨ limit' = limit + 1)
    (done : ∀ s', Loaded e base sizes (j + 1) limit' (fun q => P q ∨ q = va / pageSize) s' →
    Q () s') :
    wp (addToLists e j limit') (fun _ s' => wp (nextWSIndex e) Q (fun _ _ => True) s')
      (fun _ _ => True) (s.setGlobals (s.globals.setEnv e (Env.setWSElement va))) := by
  obtain ⟨env₀, s₀, v, w, T, D, m, loader, beside, same, stage, mapped, index, fills, within⟩ :=
    framed
  rw [Nat.mod_eq_of_lt lt] at index
  have taken := (stage.setWSElement va index).take_wp fills lt small limit'
  have counted := index_take e j limit'
    (s.setGlobals (s.globals.setEnv e (Env.setWSElement va)))
  rw [← wp_bind] at taken counted ⊢
  refine wp_mono (wp_and taken counted) ?_ fun _ _ _ => trivial
  rintro _ s' ⟨stage', index'⟩
  have queue := fills.queue_take env₀ limit' va
  have pages : ∀ k, Aligned ((env₀.setElement j ⟨va, false⟩).address k) ∧
      UserVa ((env₀.setElement j ⟨va, false⟩).address k) := by
    intro k
    by_cases here : k = j
    · rw [here, show (env₀.setElement j ⟨va, false⟩).address j = va by
        simp [Env.address, Env.setElement]]
      exact mapped.user va (by simp)
    · rw [show (env₀.setElement j ⟨va, false⟩).address k = env₀.address k by
        simp [Env.address, Env.setElement, here]]
      exact loader.pages k
  obtain ⟨v', loader', beside'⟩ := loader.next stage' (mapped.perm queue (List.Perm.refl _)) pages
  refine done s' ⟨_, v', _, loader', beside.trans beside', ⟨same.max, same.active, same.second⟩, ?_,
    fills.take (loader.listed.nodup _) room, fun va' mem => ?_⟩
  · rw [index', setEnv_envs]
    show ((s.globals.envs e).pageLastWSIndex + 1) % (s.globals.envs e).pageWSMaxSize = _
    rw [index, stage.listed.maxSize, same.max]
  · rcases List.mem_cons.mp (queue.mem_iff.mp mem) with rfl | old
    · exact Or.inr rfl
    · exact Or.inl (within va' old)

namespace Loaded

theorem addTable (loaded : Loaded e base sizes j limit P s) (va : Nat) :
    Loaded e base sizes j limit P (s.setGlobals (s.globals.setEnv e (Env.addTable va))) := by
  obtain ⟨env₀, v, w, loader, beside, same, index, rest⟩ := loaded
  have aside : Env.Aside (Env.addTable va) :=
    ⟨fun _ => rfl, fun _ => rfl, fun _ => rfl, fun _ => rfl, fun _ => rfl, fun _ => rfl⟩
  have stage := loader.toSpace.stage.edit (h := Env.addTable va) (fun _ => rfl) (fun _ => rfl)
    (fun _ => rfl) (fun _ => rfl) (loader.listed.same (WsSame.setEnv e s e aside))
  obtain ⟨v', loader', beside'⟩ := loader.next stage loader.mapped loader.pages
  refine ⟨env₀, v', w, loader', beside.trans beside', same, ?_, rest⟩
  rw [setEnv_envs]
  exact index

/-- A pass of the loop over the pages of a segment. -/
theorem loadPage (loaded : Loaded e base sizes j limit P s)
    (threshold : limit = uint32 (sizes.activeListSize - 1))
    (small : sizes.pageWSMaxSize ≤ pwsMaxSize) (room : j < sizes.pageWSMaxSize)
    (aligned : Aligned va) (lt : va < userTop) (new : ¬ P (va / pageSize)) (last : Nat) :
    wp (loadPage e va last)
      (fun _ s' => Loaded e base sizes (j + 1) limit (fun q => P q ∨ q = va / pageSize) s')
      (fun _ _ => True) s := by
  simp only [Fos.loadPage, wp_bind]
  refine loaded.map aligned lt new fun s₁ framed => ?_
  obtain ⟨env₀, s₀, v, w, T, D, m, -, -, same, stage, -, index, -⟩ := id framed
  have active : ((s₁.globals.envs e).setWSElement va).activeListSize = sizes.activeListSize :=
    stage.listed.activeSize.trans same.active
  simp only [wp_getEnv, checkElement, wp_ite, wp_pure, wp_throw, wp_modifyEnv, setEnv_envs, active,
    index, Nat.mod_eq_of_lt room, ← threshold]
  split
  · refine framed.take small room (Or.inl rfl) fun s₂ loaded₂ => ?_
    split
    · simp only [wp_bind, wp_modifyEnv, wp_getEnv, wp_ite, wp_panic, wp_pure]
      split
      · trivial
      · exact loaded₂.addTable va
    · exact loaded₂
  · trivial

/-- The loop over the pages from the number `first` on. -/
theorem loadPages {first stop remaining last : Nat} (loaded : Loaded e base sizes j limit P s)
    (threshold : limit = uint32 (sizes.activeListSize - 1))
    (small : sizes.pageWSMaxSize ≤ pwsMaxSize) (room : j + remaining < sizes.pageWSMaxSize)
    (top : stop * pageSize ≤ userTop) (new : ∀ q, first ≤ q → q < stop → ¬ P q) :
    wp (loadPages e (stop * pageSize) remaining (first * pageSize) last)
      (fun r s' => r.1 ≤ remaining ∧ (r.1 = 0 ∨ first + r.1 ≤ stop) ∧
        Loaded e base sizes (j + r.1) limit (fun q => P q ∨ first ≤ q ∧ q < stop) s')
      (fun _ _ => True) s := by
  induction remaining generalizing first last j P s with
  | zero => exact ⟨Nat.le_refl 0, Or.inl rfl, loaded.mono fun q => Or.inl⟩
  | succ remaining ih =>
    rw [Fos.loadPages, wp_ite]
    split
    · rename_i more
      have before : first < stop := Nat.lt_of_mul_lt_mul_right more
      have next : (first * pageSize + pageSize) % word32 = (first + 1) * pageSize := by
        have le := Nat.mul_le_mul_right pageSize before
        rw [Nat.succ_mul] at le
        rw [Nat.succ_mul]
        exact Nat.mod_eq_of_lt ((le.trans top).trans_lt (by decide))
      have number : first * pageSize / pageSize = first := Nat.mul_div_cancel _ (by decide)
      have aligned : Aligned (first * pageSize) :=
        ⟨Nat.mul_mod_left .., (more.trans_le top).trans (by decide)⟩
      simp only [wp_bind, next]
      refine wp_mono (loaded.loadPage threshold small (by omega) aligned (more.trans_le top)
        (number.symm ▸ new first (Nat.le_refl first) before) last) ?_ fun _ _ h => h
      intro last' s₁ loaded₁
      rw [number] at loaded₁
      refine wp_mono (ih loaded₁ (by omega) fun q le lt => ?_) ?_ fun _ _ h => h
      · rintro (old | rfl)
        · exact new q (by omega) lt old
        · omega
      · rintro ⟨k, last''⟩ s₂ ⟨le, bound, loaded₂⟩
        refine ⟨Nat.succ_le_succ le, Or.inr ?_, ?_⟩
        · simp only at bound ⊢
          omega
        have count : j + 1 + k = j + (k + 1) := by omega
        rw [count] at loaded₂
        refine loaded₂.mono fun q => ?_
        rintro ((old | rfl) | ⟨le, lt⟩)
        · exact Or.inl old
        · exact Or.inr ⟨Nat.le_refl _, before⟩
        · exact Or.inr ⟨by omega, lt⟩
    · exact ⟨Nat.zero_le _, Or.inl rfl, loaded.mono fun q => Or.inl⟩

/-- The first half of a pass of the loop over the segments. -/
theorem copySegment {seg : ProgramSegment} {remaining last : Nat}
    (loaded : Loaded e base sizes j limit P s)
    (threshold : limit = uint32 (sizes.activeListSize - 1))
    (small : sizes.pageWSMaxSize ≤ pwsMaxSize) (room : j + remaining < sizes.pageWSMaxSize)
    (fits : seg.Fits) (new : ∀ q, seg.Occupies q → ¬ P q) :
    wp (programSegmentAllocMapCopyWorkingset e seg remaining last)
      (fun r s' => r.1 ≤ remaining ∧
        Loaded e base sizes (j + r.1) limit (fun q => P q ∨ seg.Occupies q) s')
      (fun _ _ => True) s := by
  have numbers := seg.numbers
  have occupied : ∀ q, seg.virtualAddress / pageSize ≤ q ∧ q < seg.endNo → seg.Occupies q := by
    rintro q ⟨le, lt⟩
    refine ⟨le, ?_⟩
    simp only [pageSize] at *
    omega
  have fewer : segmentPages (s.globals.envs e) seg remaining ≤ remaining := by
    rw [segmentPages]
    split <;> omega
  simp only [programSegmentAllocMapCopyWorkingset, wp_bind, wp_getEnv, fits.endVaddr]
  change wp (Fos.loadPages e _ (segmentPages (s.globals.envs e) seg remaining) _ last) _ _ s
  rw [roundDown_eq]
  refine wp_mono (loaded.loadPages threshold small (by omega) fits.end_le
    fun q le lt => new q (occupied q ⟨le, lt⟩)) ?_ fun _ _ h => h
  rintro ⟨k, last'⟩ s₁ ⟨le, bound, loaded₁⟩
  obtain ⟨limit', room'⟩ := fits.limit bound
  have loaded₁' := loaded₁.mono fun q => Or.imp_right (occupied q)
  simp only at limit' room' ⊢
  simp only [limit']
  refine wp_mono (wp_forM_keeps (fun i mem s' loaded' => ?_) loaded₁') (fun _ s₂ loaded₂ => ?_)
    fun _ _ h => h
  · have lt := List.mem_range.mp mem
    exact loaded'.storeByte (by omega) _
  refine wp_mono (wp_forM_keeps (fun i mem s' loaded' => ?_) loaded₂)
    (fun _ s₃ loaded₃ => ⟨le.trans fewer, loaded₃⟩) fun _ _ h => h
  have lt := List.mem_range.mp mem
  exact loaded'.storeByte (by omega) _

/-- The loop over the segments. -/
theorem loadSegments {segs : List ProgramSegment} {remaining last : Nat}
    (loaded : Loaded e base sizes j limit P s)
    (threshold : limit = uint32 (sizes.activeListSize - 1))
    (small : sizes.pageWSMaxSize ≤ pwsMaxSize) (room : j + remaining < sizes.pageWSMaxSize)
    (fits : ∀ seg ∈ segs, seg.Fits) (apart : segs.Pairwise ProgramSegment.Apart)
    (new : ∀ seg ∈ segs, ∀ q, seg.Occupies q → ¬ P q) :
    wp (loadSegments e segs remaining last) (fun _ s' => ∃ j' < sizes.pageWSMaxSize,
      Loaded e base sizes j' limit (fun q => P q ∨ ∃ seg ∈ segs, seg.Occupies q) s')
      (fun _ _ => True) s := by
  induction segs generalizing j remaining last P s with
  | nil => exact ⟨j, by omega, loaded.mono fun q => Or.inl⟩
  | cons seg segs ih =>
    obtain ⟨first, others⟩ := List.pairwise_cons.mp apart
    have fit := fits seg (List.mem_cons_self ..)
    simp only [Fos.loadSegments, wp_bind]
    refine wp_mono
      (loaded.copySegment threshold small room fit (new seg (List.mem_cons_self ..))) ?_
      fun _ _ h => h
    rintro ⟨k, last'⟩ s₁ ⟨le, loaded₁⟩
    refine wp_mono (loaded₁.writeSegment fit) (fun _ s₂ loaded₂ => ?_) fun _ _ h => h
    refine wp_mono (ih loaded₂ (by simp only at le ⊢; omega)
      (fun seg' mem => fits seg' (List.mem_cons_of_mem _ mem)) others fun seg' mem q there => ?_) ?_
      fun _ _ h => h
    · rintro (old | here)
      · exact new seg' (List.mem_cons_of_mem _ mem) q there old
      · exact first seg' mem q ⟨here, there⟩
    · rintro _ s₃ ⟨j', lt, loaded₃⟩
      refine ⟨j', lt, loaded₃.mono fun q => ?_⟩
      rintro ((old | here) | ⟨seg', mem, there⟩)
      · exact Or.inl old
      · exact Or.inr ⟨seg, List.mem_cons_self .., here⟩
      · exact Or.inr ⟨seg', List.mem_cons_of_mem _ mem, there⟩

/-- The modified bits are cleared. -/
theorem clearModified (loaded : Loaded e base sizes j limit P s) :
    wp (clearModified e) (fun _ s' => Loaded e base sizes j limit P s') (fun _ _ => True) s := by
  refine loaded.quiet (steps_clearModified (edits_wsSame e) e) fun env₀ v w loader => ?_
  simp only [Fos.clearModified, wp_bind, wp_getEnv]
  refine wp_forM_keeps (fun k _ s' inv => ?_) ⟨_, _, 0, loader.toSpace.stage, loader.mapped⟩
  obtain ⟨T, D, m, stage, mapped⟩ := inv
  rw [wp_bind, wp_getEnv, wp_ite]
  split
  · rw [stage.listed.elements]
    obtain ⟨aligned, user⟩ := loader.pages k
    change Aligned (env₀.ptrPageWorkingSet k).virtualAddress at aligned
    change UserVa (env₀.ptrPageWorkingSet k).virtualAddress at user
    generalize (env₀.ptrPageWorkingSet k).virtualAddress = va at aligned user ⊢
    obtain ⟨v', space, next⟩ := stage
    obtain ⟨d, dir⟩ := space.dir
    simp only [wp_bind]
    apply Fos.envPageDirectory_wp space.rep (space.linked e) dir
    apply getPageTable_wp space.rep dir user
    cases table : v'.place (.pageTable e (pdx va)) with
    | none => trivial
    | some t =>
      simp only [wp_deref_some, wp_readWord, wp_writeWord, space.rep.mem table]
      refine ⟨_, D, m, space.writePte next table ?_, mapped.rewrite aligned user ?_ ?_⟩
      · by_cases zero : v'.pte e va = 0
        · refine Or.inl ⟨zero, ?_⟩
          rw [← View.pte, zero]
          decide
        · exact Or.inr ⟨zero, frameOf_andNot _ (by decide)⟩
      · rw [← View.pte, View.pte_eq, ← next.ptes]
        constructor
        · rintro other zero
          rw [zero] at other
          exact other (by decide)
        · intro nonzero
          simpa using space.entry_ne_zero nonzero (show IsPerm 0 by decide)
            (show IsPerm permModified by decide)
      · rw [← View.pte, View.pte_eq, ← next.ptes]
        simp [present, permModified]
  · exact ⟨T, D, m, stage, mapped⟩

end Loaded

/-- A kernel write to the page. -/
theorem Framed.kernelFrame (framed : Framed e base sizes j limit P va s) (aligned : Aligned va)
    (user : UserVa va) :
    wp (kernelFrame va) (fun f s' => ∀ p, Framed e base sizes j limit P va (s'.setPage f p))
      (fun _ _ => True) s := by
  obtain ⟨env₀, s₀, v, w, T, D, m, loader, beside, same, ⟨v', space, next⟩, mapped, index, rest⟩ :=
    framed
  have current : v'.Current e := by
    rw [View.Current, next.dir, next.cr3]
    exact loader.current
  refine (quiet_kernelFrame e va).and (P := fun f s' => ∀ p, Mapped (Function.update T (pageNo va)
    (accessed (T (pageNo va)) true)) (va :: w.queue env₀) [] ∧ Stage e env₀ v (Function.update T
      (pageNo va) (accessed (T (pageNo va)) true)) D (m + 0) (s'.setPage f p) w) ?_
    (fun f s' stored same' p => ?_) fun _ _ h => h
  · simp only [Fos.kernelFrame, wp_bind]
    refine wp_mono (space.translate_wp current user false true) ?_ fun _ _ h => h.elim
    rintro (_ | f) s₁ found
    · trivial
    · obtain ⟨allowed, -, stored⟩ := found f rfl
      rw [next.ptes, next.entry] at stored
      rw [next.ptes] at allowed
      refine fun p => ⟨mapped.rewrite aligned user ?_ (present_accessed _ _), ?_⟩
      · exact iff_of_true (ne_zero_of_present ((present_accessed _ _).trans allowed.1))
          (ne_zero_of_present allowed.1)
      · obtain ⟨v'', space', next'⟩ := (stored p).stage
        exact ⟨v'', space', next.trans next'⟩
  · obtain ⟨mapped', stage'⟩ := stored p
    exact ⟨env₀, s₀, v, w, _, D, m, loader, beside, same, stage', mapped',
      same'.lastIndex.trans index, rest⟩

/-- The page of the stack is the last one, and active. -/
theorem Loaded.createStack (loaded : Loaded e base sizes j limit P s)
    (threshold : limit + 1 = uint32 sizes.activeListSize)
    (small : sizes.pageWSMaxSize ≤ pwsMaxSize) (room : j < sizes.pageWSMaxSize)
    (new : ¬ P ((ustackTop - pageSize) / pageSize)) :
    wp (createStack e) (fun _ s' => ∃ P', Loaded e base sizes (j + 1) (limit + 1) P' s')
      (fun _ _ => True) s := by
  have lt : ustackTop - pageSize < userTop := by decide
  have aligned : Aligned (ustackTop - pageSize) := ⟨by decide, by decide⟩
  unfold Fos.createStack
  generalize ustackTop - pageSize = stackVa at lt aligned new ⊢
  rw [wp_bind]
  simp -zeta only [wp_bind]
  refine loaded.map aligned lt new fun s₁ framed => ?_
  refine wp_mono (framed.kernelFrame aligned (userVa_of_lt lt)) (fun f s₂ written => ?_)
    fun _ _ h => h
  have framed₂ := written zeroes
  obtain ⟨env₀, s₀, v, w, T, D, m, -, -, same, stage, -, index, -⟩ := id framed₂
  have active : (((s₂.setPage f zeroes).globals.envs e).setWSElement stackVa).activeListSize =
      sizes.activeListSize := stage.listed.activeSize.trans same.active
  simp only [wp_writePage, wp_getEnv, wp_ite, wp_bind, wp_modifyEnv, setEnv_envs, active, index,
    Nat.mod_eq_of_lt room, ← threshold]
  split
  · refine framed₂.take small room (Or.inr rfl) fun s₃ loaded₃ => ?_
    simp only [pfAddEmptyEnvPage, if_true, wp_bind, wp_get, wp_pure]
    exact wp_mono (loaded₃.add lt) (fun _ s₄ loaded₄ => ⟨_, loaded₄⟩) fun _ _ h => h
  · trivial

/-- The pages of the second list are not present any more. -/
theorem Loaded.resetPresent (loaded : Loaded e base sizes j limit P s) :
    wp (resetPresent e) (fun _ s' => ∃ env₀ v w, Space e env₀ s' v w ∧ base.Beside v e ∧
      env₀.SameSizes sizes ∧
      w.Fills sizes.pageWSMaxSize j limit ∧
      Mapped (v.ptes e) (w.addresses env₀ .activeList) (w.addresses env₀ .secondList) ∧
      ∀ k < pwsMaxSize, 960 ≤ pdx (elementAddress v.globals.envsAddress e k))
      (fun _ _ => True) s := by
  obtain ⟨env₀, v, w, loader, beside, same, index, fills, within⟩ := loaded
  simp only [Fos.resetPresent, wp_bind]
  apply listFirst_wp loader.listed
  refine wsForeach_state_wp [] (fun n todo w' _ s' => todo.length = n ∧ w'.seqs = w.seqs ∧
    ∃ seen, w.seqs .secondList = seen ++ todo ∧ ∃ T D m, Stage e env₀ v T D m s' w' ∧
      Mapped T (w.addresses env₀ .activeList ++ todo.map env₀.address) (seen.map env₀.address))
    ?_ ?_ ?_ ?_ (n := (w.seqs .secondList).length)
    ⟨rfl, rfl, [], rfl, _, _, 0, loader.toSpace.stage, loader.mapped⟩ loader.listed rfl ?_
  · rintro n todo w' b p s' ⟨length, seqs, seen, split_, T, D, m, stage, mapped⟩
    exact ⟨length, seqs, seen, split_, T, D, m, stage.save .secondList p, mapped⟩
  · rintro n x rest before w' b s' ⟨length, seqs, seen, split_, T, D, m, stage, mapped⟩ listed' at'
      next'
    rw [wp_bind]
    apply virtualAddress_wp listed'
    obtain ⟨aligned, user⟩ := mapped.user (env₀.address x) (by simp)
    have entry := (mapped.entry _ aligned user).mpr (by simp)
    rw [wp_bind]
    apply stage.ptSetPagePermissions_wp user (by decide) (by decide) (Or.inl entry)
    intro s₁ stage₁
    have last : (w.addresses env₀ .activeList ++ rest.map env₀.address ++ [env₀.address x]).Perm
        (w.addresses env₀ .activeList ++ (x :: rest).map env₀.address) := by
      rw [List.append_assoc]
      exact (List.perm_append_comm).append_left _
    have cleared := (mapped.perm last (List.Perm.refl _)).demote
      (stage.entry_ne_zero entry (show IsPerm 0 by decide) (show IsPerm permPresent by decide))
      (by rw [present_or_andNot]; simp [show present permPresent = true from rfl])
    refine ⟨rest, before ++ [x], w', ⟨?_, seqs, seen ++ [x], ?_, _, D, m, stage₁,
      cleared.perm (List.Perm.refl _) ?_⟩, stage₁.listed, ?_, next'⟩
    · simpa using length
    · simpa using split_
    · rw [List.map_append]
      exact List.perm_append_comm
    · simpa using at'
  · rintro x rest w' b s' ⟨length, -⟩
    simp at length
  · rintro n w' b s' ⟨-, seqs, seen, split_, T, D, m, ⟨v', space, next⟩, mapped⟩ listed'
    rw [List.append_nil] at split_
    have active : w'.addresses env₀ .activeList = w.addresses env₀ .activeList := by
      rw [WorkingSet.addresses, WorkingSet.addresses, seqs]
    have second : w'.addresses env₀ .secondList = seen.map env₀.address := by
      rw [WorkingSet.addresses, seqs, split_]
    refine ⟨env₀, v', w', space, beside.trans next.beside, same, ?_, ?_, ?_⟩
    · exact ⟨seqs ▸ fills.free, seqs ▸ fills.taken, seqs ▸ fills.active, seqs ▸ fills.full⟩
    · rw [active, second, next.ptes]
      simpa using mapped
    · rw [next.envsAddress]
      exact loader.high
  · exact Nat.lt_succ_of_le (loader.listed.length_le _)

/-! ## A new environment -/

/-- The pages of a new directory. -/
theorem Sound.loaded_newSpace {f size second : Nat} {name : String} {L : Lists WSList Nat}
    (sound : Sound s ((v.setEnv e (Env.setProgName name)).newSpace e f size second L))
    (zero : v.globals.envs e = Env.zero)
    (lists : L.Rep (startLists size)) (fits : size ≤ pwsMaxSize)
    (high : ∀ k < pwsMaxSize, 960 ≤ pdx (elementAddress v.globals.envsAddress e k))
    (beside : base.Beside ((v.setEnv e (Env.setProgName name)).newSpace e f size second L) e) :
    Loaded e base (Env.zero.setSizes size second) 0 limit (fun _ => False)
      (s.setGlobals { s.globals with cr3 := toPhysicalAddress f }) := by
  have switched := sound.lcr3 (toPhysicalAddress f)
  have dir : ((v.setEnv e (Env.setProgName name)).newSpace e f size second L).place (.pageDir e) =
      some f := by
    simp [View.newSpace, View.setEnv]
  have env : s.globals.envs e = Env.created f size second L (Env.zero.setProgName name) := by
    rw [sound.rep.globals]
    simp [View.newSpace, View.setEnv, Globals.setEnv, zero]
  have empty : ∀ va, UserVa va →
      ((v.setEnv e (Env.setProgName name)).newSpace e f size second L).ptes e (pageNo va) = 0 := by
    intro va user
    have none : ((v.setEnv e (Env.setProgName name)).newSpace e f size second L).page (.pageDir e)
        (pdx va) = 0 := by
      simpa [View.newSpace, View.setEnv] using newDirectory_user user
    exact congrFun (sound.rep.wf.absent _ ((sound.rep.place_none (Obj.child_pageDir user)).mpr
      none)) _
  have start : (s.setGlobals { s.globals with cr3 := toPhysicalAddress f }).globals.envs e =
      Env.created f size second L (Env.zero.setProgName name) := env
  have listed := listed_created start lists fits
  have queue : WorkingSet.queue ⟨startLists size, fun i => (L.head i).ptrNext⟩
      (Env.created f size second L (Env.zero.setProgName name)) = [] := by
    simp [WorkingSet.queue, WorkingSet.addresses, startLists]
  have address : ∀ k, (Env.created f size second L (Env.zero.setProgName name)).address k = 0 := by
    intro k
    show (if k < size then (⟨0, true⟩ : WorkingSetElement) else ⟨0, false⟩).virtualAddress = 0
    split <;> rfl
  refine ⟨_, _, ⟨startLists size, fun i => (L.head i).ptrNext⟩,
    ⟨⟨switched, ⟨f, dir⟩, listed⟩, ?_, ?_, fun k => ?_, ?_⟩,
    beside.trans (.lcr3 _ e _), ⟨rfl, rfl, rfl⟩, ?_, ?_, ?_⟩
  · show _ = some (ppn (toPhysicalAddress f))
    rw [ppn_toPhysicalAddress]
    exact dir
  · rw [queue]
    show Mapped (((v.setEnv e (Env.setProgName name)).newSpace e f size second L).ptes e) _ _
    refine ⟨by simp, by simp, fun va _ user => ?_, fun va _ user => ?_⟩
    · simp [empty va user]
    · simp [empty va user]
  · rw [address]
    exact ⟨⟨by decide, by decide⟩, by decide⟩
  · exact high
  · show (s.globals.envs e).pageLastWSIndex = _
    rw [env]
    rfl
  · refine ⟨fun k => ?_, fun k => ?_, ?_, ?_⟩ <;> simp [startLists]
    rfl
  · simp [queue]

/-- A new environment that no program is loaded for has no pages. -/
theorem Sound.newSpace_loaded {name : String} {size second : Nat}
    {Q : Nat → Unit → Kernel → Prop} (sound : Sound s v) (limit : Nat)
    (free : s.globals.envs e = Env.zero)
    (high : ∀ k < pwsMaxSize, 960 ≤ pdx (elementAddress s.globals.envsAddress e k))
    (done : ∀ s', size ≤ pwsMaxSize →
      Loaded e v (Env.zero.setSizes size second) 0 limit (fun _ => False) s' →
      Q v.globals.cr3 () s') :
    wp (modifyEnv e (Env.setProgName name)) (fun _ s' => wp (Fos.newSpace e size second)
      (fun phys s' => wp (Fos.lcr3 phys) (Q s'.globals.cr3) (fun _ _ => True) s')
      (fun _ _ => True) s') (fun _ _ => True) s := by
  have env : v.globals.envs e = Env.zero := sound.rep.globals ▸ free
  have dir : v.place (.pageDir e) = none := by
    rw [← sound.linked e, env]
    rfl
  have diskDir : v.place (.diskDir e) = none := by
    rw [← (sound.diskLinked e).dir, env]
    rfl
  have named := sound.setEnv e (Env.setProgName name) (fun _ => rfl) (fun _ => rfl)
    (fun _ => rfl) fun _ => rfl
  have small := newSpace_small (e := e) (n := size) (s := s) name second
  rw [wp_bind, wp_modifyEnv] at small
  rw [wp_modifyEnv]
  have run : wp (Fos.newSpace e size second) (fun phys s' => ∃ f rest L, v.free = f :: rest ∧
      phys = toPhysicalAddress f ∧ L.Rep (startLists size) ∧
        Sound s' ((v.setEnv e (Env.setProgName name)).newSpace e f size second L))
      (fun _ _ => True) (s.setGlobals (s.globals.setEnv e (Env.setProgName name))) := by
    refine newSpace_wp named dir diskDir (Or.inr fun _ => trivial)
      (fun f rest s₁ L here lists sound₁ =>
      ⟨f, rest, L, here, rfl, lists ?_, sound₁⟩) fun _ => trivial
    have none : (View.setEnv v e (Env.setProgName name)).globals.envs e =
        Env.zero.setProgName name := by simp [View.setEnv, Globals.setEnv, env]
    rw [none]
    exact ⟨fun i => rep_zero _, fun _ _ _ => by simp⟩
  refine wp_mono (wp_and run small) ?_ fun _ _ _ => trivial
  rintro _ s₁ ⟨⟨f, rest, L, here, rfl, lists, sound₁⟩, fits⟩
  have spares := (View.Spares.setEnv v e (Env.setProgName name)).trans
    (named.rep.spares_newSpace here e size second L)
  have cr3 : s₁.globals.cr3 = v.globals.cr3 := by
    rw [sound₁.rep.globals]
    rfl
  show Q s₁.globals.cr3 () _
  rw [cr3]
  exact done _ fits (sound₁.loaded_newSpace env lists fits (sound.rep.globals ▸ high)
    ⟨spares, rfl, rfl⟩)

/-- The lists share out the elements of the working set, and the mapped pages are those on the
active and the second list. -/
structure Created (e : Nat) (env₀ : Env) (s : Kernel) (v : View) (w : WorkingSet) : Prop
    extends Resident e env₀ s v w where
  all : ∀ k, w.Has k ↔ k < env₀.pageWSMaxSize
  fits : env₀.pageWSMaxSize ≤ pwsMaxSize
  sum : env₀.activeListSize + env₀.secondListSize = env₀.pageWSMaxSize
  active : ((w.seqs .activeList).length : Int) ≤ env₀.activeListSize
  second : 0 ≤ env₀.secondListSize
  high : ∀ k < pwsMaxSize, 960 ≤ pdx (elementAddress v.globals.envsAddress e k)

/-- The elements that are taken and those that are not. -/
theorem WorkingSet.Fills.has (fills : w.Fills n j limit) (le : j ≤ n) (k : Nat) :
    w.Has k ↔ k < n := by
  have free := fills.free k
  have taken := fills.taken k
  constructor
  · rintro ⟨i, mem⟩
    cases i with
    | pageWorkingSetList => exact (free.mp mem).2
    | activeList => exact (taken.mp (Or.inl mem)).trans_le le
    | secondList => exact (taken.mp (Or.inr mem)).trans_le le
  · intro lt
    by_cases here : k < j
    · exact (taken.mpr here).elim (fun mem => ⟨_, mem⟩) fun mem => ⟨_, mem⟩
    · exact ⟨_, free.mpr ⟨by omega, lt⟩⟩

/-- **The lists of a new environment**, if no two segments of its program share a page. -/
theorem Sound.envCreate_lists {program : UserProgram} {size second : Nat} (sound : Sound s v)
    (free : s.globals.envs e = Env.zero)
    (high : ∀ k < pwsMaxSize, 960 ≤ pdx (elementAddress s.globals.envsAddress e k))
    (fits : ∀ seg ∈ program.segments, seg.Fits)
    (apart : program.segments.Pairwise ProgramSegment.Apart) (lt : second < size) :
    wp (envCreate e program size second) (fun _ s' => ∃ env₀ v' w, Created e env₀ s' v' w ∧
      env₀.SameSizes (Env.zero.setSizes size second) ∧ v.Beside v' e ∧
      v'.globals.cr3 = v.globals.cr3) (fun _ _ => True) s := by
  simp only [envCreate, wp_bind, wp_get]
  refine sound.newSpace_loaded (size - second - 1) (Q := fun pa _ s₁ => wp (if program.elfMagic
    then do
      Fos.loadSegments e program.segments (uint32 (size - 1)) 0xFFFFFFFF
      Fos.clearModified e
      Fos.createStack e
      Fos.resetPresent e
      Fos.lcr3 pa
    else panic "Matafa2nash 3ala Keda") _ _ s₁) free high ?_
  intro s₁ small loaded₁
  obtain ⟨activeSize, secondSize⟩ := setSizes_of_lt lt small
  have small' : size ≤ 5000 := small
  have before :
      size - second - 1 = uint32 ((Env.zero.setSizes size second).activeListSize - 1) := by
    have value := uint32_of_nonneg (z := (Env.zero.setSizes size second).activeListSize - 1)
      (by omega) (by omega)
    omega
  have after : size - second - 1 + 1 = uint32 (Env.zero.setSizes size second).activeListSize := by
    have value := uint32_of_nonneg (z := (Env.zero.setSizes size second).activeListSize)
      (by omega) (by omega)
    omega
  have remaining : (uint32 ((size : Int) - 1) : Int) = size - 1 :=
    uint32_of_nonneg (by omega) (by omega)
  have max : (Env.zero.setSizes size second).pageWSMaxSize = size := rfl
  rw [wp_ite]
  split
  · simp only [wp_bind]
    refine wp_mono (loaded₁.loadSegments before small (by omega) fits apart
      fun _ _ _ _ h => h) ?_ fun _ _ h => h
    rintro _ s₂ ⟨j, room, loaded₂⟩
    refine wp_mono loaded₂.clearModified (fun _ s₃ loaded₃ => ?_) fun _ _ h => h
    refine wp_mono (loaded₃.createStack after small room ?_) ?_ fun _ _ h => h
    · rintro (none | ⟨seg, mem, -, inside⟩)
      · exact none
      · exact absurd inside (Nat.not_lt_of_le (fits seg mem).below)
    rintro _ s₄ ⟨P', loaded₄⟩
    refine wp_mono loaded₄.resetPresent ?_ fun _ _ h => h
    rintro _ s₅ ⟨env₀, v₅, w, space, beside, sizes, fills, mapped, high₅⟩
    have active := sizes.active.trans activeSize
    have second' := sizes.second.trans secondSize
    have max' : env₀.pageWSMaxSize = size := sizes.max
    have listed := space.listed
    refine ⟨env₀, _, w, ⟨⟨⟨space.toSound.lcr3 v.globals.cr3, space.dir, ?_⟩, mapped, ?_,
      fun some => ?_⟩, fun k => ?_, ?_, ?_, ?_, ?_, high₅⟩, sizes, beside.trans (.lcr3 _ e _), rfl⟩
    · exact ⟨listed.rep, listed.next, listed.small, listed.elements, listed.maxSize,
        listed.activeSize, listed.secondSize⟩
    · omega
    · have full := fills.full some
      omega
    · rw [max']
      exact fills.has room k
    · rw [max']
      exact small
    · rw [active, second', max']
      omega
    · have few := fills.active
      omega
    · omega
  · trivial

end Fos
