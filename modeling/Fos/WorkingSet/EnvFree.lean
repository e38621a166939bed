import Fos.WorkingSet.Loading
import Fos.WorkingSet.Reclaim

/-!
# Freeing an environment

`env_free` unmaps the pages on the two lists.  It then puts the frames of the page tables and of
the page directory on the free list while the entries still refer to them, frees the page file,
and forgets the pointers with the rest of the structure.

* `Stage.freeList_wp`: a loop over a list;
* `View.Returns`, `Rep.freeTables_wp`: the loop over the page directory;
* `Resident.envFree_wp`: nothing of the environment is left, and the others are as they were.
-/

namespace Fos

open Arena Exec Linked

variable {s s' : Kernel} {v v' : View} {e d f x n : Nat} {env₀ : Env} {T D : PageNo → Word}
  {w w' : WorkingSet} {list : WSList} {E : Stop → Kernel → Prop}

/-! ## The lists -/

/-- The element is given back. -/
theorem Stage.setEmpty (stage : Stage e env₀ v T D n s w) (x : Nat) :
    Stage e (env₀.setEmpty x) v T D n (s.setGlobals (s.globals.setEnv e (Env.setEmpty x))) w := by
  have listed := stage.listed
  refine stage.edit (fun _ => rfl) (fun _ => rfl) (fun _ => rfl) (fun _ => rfl) ?_
  refine ⟨?_, ?_, listed.small, ?_, ?_, ?_, ?_⟩ <;> rw [setEnv_envs]
  · exact listed.rep
  · exact listed.next
  · simp only [Env.setEmpty, Env.setElement, listed.elements]
  · exact listed.maxSize
  · exact listed.activeSize
  · exact listed.secondSize

theorem Env.address_setEmpty (env : Env) (x : Nat) : (env.setEmpty x).address = env.address := by
  funext k
  rcases eq_or_ne k x with rfl | ne
  · simp [Env.address, Env.setEmpty, Env.setElement]
  · simp [Env.address, Env.setEmpty, Env.setElement, ne]

/-- No page is on two lists. -/
theorem WorkingSet.Maps.only {i j : WSList} {va : Nat} (mapped : w.Maps env₀ T)
    (here : va ∈ w.addresses env₀ i) (there : va ∈ w.addresses env₀ j)
    (ne : i ≠ .pageWorkingSetList) (ne' : j ≠ .pageWorkingSetList) : i = j := by
  have apart := (List.nodup_append.mp mapped.nodup).2.2
  cases i with
  | pageWorkingSetList => exact absurd rfl ne
  | activeList =>
    cases j with
    | pageWorkingSetList => exact absurd rfl ne'
    | activeList => rfl
    | secondList => exact absurd rfl (apart va here va there)
  | secondList =>
    cases j with
    | pageWorkingSetList => exact absurd rfl ne'
    | activeList => exact absurd rfl (apart va there va here)
    | secondList => rfl

/-- The first page of a list goes. -/
theorem WorkingSet.Maps.pop {rest : List Nat} (mapped : w.Maps env₀ T)
    (at_ : w.seqs list = x :: rest) (ne : list ≠ .pageWorkingSetList)
    (seqs : ∀ i, i ≠ .pageWorkingSetList → w'.seqs i = Function.update w.seqs list rest i) :
    w'.Maps env₀ (Function.update T (pageNo (env₀.address x)) 0) := by
  have here := WorkingSet.addresses_eq env₀ at_
  rw [List.map_cons] at here
  have first : env₀.address x ∈ w.addresses env₀ list := by simp [here]
  have popped : ∀ i, i ≠ .pageWorkingSetList →
      w'.addresses env₀ i = (w.addresses env₀ i).erase (env₀.address x) := by
    intro i notFree
    rw [WorkingSet.addresses_eq env₀ (seqs i notFree)]
    rcases eq_or_ne i list with rfl | other
    · rw [Function.update_self, here, List.erase_cons_head]
    · rw [Function.update_of_ne other,
        List.erase_of_not_mem fun mem => other (mapped.only mem first notFree ne)]
      rfl
  exact (Gone.evict mapped (WorkingSet.mem_queue (by simp [at_]) ne) (popped _ (by decide))
    (popped _ (by decide))).mapped

theorem WorkingSet.Maps.congr_env {env₁ : Env} (mapped : w.Maps env₀ T)
    (address : env₁.address = env₀.address) : w.Maps env₁ T := by
  rwa [WorkingSet.Maps, WorkingSet.addresses, WorkingSet.addresses, address]

/-- A loop over a list: its pages go. -/
theorem Stage.freeList_wp {Q : Unit → Kernel → Prop} (stage : Stage e env₀ v T D n s w)
    (mapped : w.Maps env₀ T) (ne : list ≠ .pageWorkingSetList)
    (done : ∀ s' env₁ T' w', Stage e env₁ v T' D n s' w' → w'.Maps env₁ T' →
      w'.seqs list = [] → (∀ i, i ≠ list → i ≠ .pageWorkingSetList → w'.seqs i = w.seqs i) →
      Q () s') :
    wp (freeList e list) Q E s := by
  have listed := stage.listed
  rw [freeList, wp_bind]
  apply listFirst_wp listed
  rw [wp_bind]
  refine wsForeach_env_wp [] (fun m todo w' env _ s' => todo.length = m ∧ w'.seqs list = todo ∧
    (∀ i, i ≠ list → i ≠ .pageWorkingSetList → w'.seqs i = w.seqs i) ∧
    ∃ T', Stage e env v T' D n s' w' ∧ w'.Maps env T') ?_ ?_ ?_ ?_
    (n := (w.seqs list).length) ⟨rfl, rfl, fun _ _ _ => rfl, T, stage, mapped⟩ listed rfl
    (Nat.lt_succ_of_le (listed.length_le _))
  · rintro m todo w' env b p s' ⟨length, seqs, others, T', stage', mapped'⟩
    exact ⟨length, seqs, others, T', stage'.save list p, mapped'⟩
  · rintro m x rest before w₁ env b s₁ ⟨length, seqs, others, T₁, stage₁, mapped₁⟩ listed₁ - next
    have mem : x ∈ w₁.seqs list := by simp [seqs]
    have user := (mapped₁.user _ (WorkingSet.mem_queue mem ne)).2
    have stage₂ := stage₁.setEmpty x
    simp only [wp_bind, wp_modifyEnv]
    apply stage₂.remove_wp mem
    intro s₃ stage₃
    apply stage₃.insertHead_wp (stage₂.listed.loose mem) (listed₁.small _ x mem)
    intro s₄ stage₄
    obtain ⟨m', g', followed⟩ := stage₄.followed
    apply followed.envPageDirectory_wp
    intro d dir
    apply virtualAddress_wp stage₄.listed
    change wp (unmapFrame d ((env.setEmpty x).address x)) _ _ _
    rw [env.address_setEmpty]
    apply stage₄.unmapFrame_wp dir user
    intro s₅ stage₅
    have here : ((w₁.remove list x).insertHead .pageWorkingSetList x).seqs list = rest := by
      simp [ne, seqs]
    refine ⟨rest, [], _, _, ⟨Nat.succ.inj length, here, fun i other notFree => ?_, _, stage₅, ?_⟩,
      stage₅.listed, here, next⟩
    · rw [← others i other notFree]
      simp [other, notFree]
    · refine (mapped₁.pop seqs ne fun i notFree => ?_).congr_env (env.address_setEmpty x)
      simp [notFree, seqs]
  · rintro x rest w' env b s' ⟨length, -⟩
    simp at length
  · rintro m w' env b s' ⟨-, seqs, others, T', stage', mapped'⟩ -
    exact done s' env T' w' stage' mapped' seqs others

/-! ## The page tables -/

/-- The objects of `e` in memory are forgotten, and the frames of its page tables `is` are free. -/
structure View.Returns (v v' : View) (e : Nat) (is : List (Fin 1024)) : Prop where
  place : v'.place = (v.forget (Obj.UserOf e)).place
  page : v'.page = (v.forget (Obj.UserOf e)).page
  diskFree : v'.diskFree = v.diskFree
  globals : v'.globals = v.globals
  freed : ∀ i ∈ is, ∀ f, v.place (.pageTable e i) = some f → v'.use f = .free
  left : ∀ f, (∀ i ∈ is, v.place (.pageTable e i) ≠ some f) →
    v'.use f = (v.forget (Obj.UserOf e)).use f

theorem View.Returns.same {is : List (Fin 1024)} {o : Obj} (returns : v.Returns v' e is)
    (out : ¬ o.UserOf e) : v'.place o = v.place o ∧ v'.page o = v.page o := by
  rw [returns.place, returns.page]
  exact ⟨if_neg out, if_neg out⟩

/-- The frame of an object that is forgotten is lost. -/
theorem Rep.lost_of_forget {o : Obj} (rep : Rep s v) (mine : o.UserOf e)
    (here : v.place o = some f) : (v.forget (Obj.UserOf e)).use f = .lost := by
  simp [View.forget, Arena.View.forget, (rep.wf.place_use o f).mp here, mine]

/-- The references of a frame that is lost do not matter. -/
theorem Rep.setReferences_lost (rep : Rep s v) (lost : v.use f = .lost) (n : BitVec 16) :
    Rep (s.setReferences f n) v :=
  { rep with
    refs := fun g o holds => by
      have ne : g ≠ f := by
        rintro rfl
        rw [lost] at holds
        cases holds
      simpa [Kernel.setReferences, ne] using rep.refs g o holds
    taken := fun g taken => by
      have ne : g ≠ f := by
        rintro rfl
        rw [lost] at taken
        cases taken
      simpa [Kernel.setReferences, ne] using rep.taken g taken }

/-- The frame of a page table is given back, while the directory still refers to it. -/
theorem View.Returns.give {is : List (Fin 1024)} {i : Fin 1024}
    (returns : v.Returns v' e is) (table : v.place (.pageTable e i) = some f) :
    v.Returns (v'.give f) e (is ++ [i]) where
  place := returns.place
  page := returns.page
  diskFree := returns.diskFree
  globals := returns.globals
  freed i' mem g here := by
    rw [View.give_use]
    rcases eq_or_ne g f with rfl | ne
    · exact Function.update_self ..
    · rw [Function.update_of_ne ne]
      rcases List.mem_append.mp mem with mem | mem
      · exact returns.freed i' mem g here
      · obtain rfl := List.mem_singleton.mp mem
        exact absurd (Option.some.inj (here.symm.trans table)) ne
  left g out := by
    have ne : g ≠ f := by
      rintro rfl
      exact out i (by simp) table
    rw [View.give_use, Function.update_of_ne ne]
    exact returns.left g fun i' mem => out i' (List.mem_append_left _ mem)

/-- The loop over the page directory. -/
theorem Rep.freeTables_wp {Q : Unit → Kernel → Prop} (rep : Rep s v)
    (linked : v.Linked e) (dir : v.place (.pageDir e) = some d)
    (done : ∀ s' v', Rep s' v' → v.Returns v' e userEntries → Q () s') :
    wp (freeTables e) Q E s := by
  have pointer : (s.globals.envs e).envPageDirectory = some d := by
    rw [rep.globals, linked, dir]
  refine wp_forM (fun rest s' => ∃ is v', is ++ rest = userEntries ∧ Rep s' v' ∧
    s'.mem = s.mem ∧ v.Returns v' e is) ?_ ?_ ?_
  · rintro i rest s₁ ⟨is, v₁, split_, rep₁, mem, returns⟩
    have user : i < 955 := (mem_userEntries i).mp (by simp [← split_])
    have new : i ∉ is := fun mem => by
      have nodup := split_ ▸ nodup_userEntries
      exact (List.nodup_append.mp nodup).2.2 i mem i (List.mem_cons_self ..) rfl
    have child := Obj.child_pageDir (e := e) user
    have pointer₁ : (s₁.globals.envs e).envPageDirectory = some d := by
      rw [rep₁.globals, returns.globals, ← rep.globals, pointer]
    have next : is ++ i :: rest = is ++ [i] ++ rest := by simp
    simp only [envPageDirectory, wp_bind, wp_getEnv, pointer₁, wp_deref_some, wp_readWord, mem,
      rep.mem dir, wp_ite, wp_pure]
    split
    · rename_i entry
      have table := rep.place_child child (ne_zero_of_frameOf entry)
      generalize frameOf (v.page (.pageDir e) i) = t at table
      have lost : v₁.use t = .lost := by
        rw [returns.left t fun i' mem here => ?_]
        · exact rep.lost_of_forget (o := .pageTable e i) rfl table
        · obtain rfl : i' = i := by
            have same := rep.wf.place_inj here table
            simpa using same
          exact new mem
      apply toFrameInfo_wp
      · rw [show ppn (t * pageSize) = t from Nat.mul_div_cancel _ (by decide), rep₁.globals,
          returns.globals]
        exact rep.place_lt table
      · rw [show ppn (t * pageSize) = t from Nat.mul_div_cancel _ (by decide)]
        have given := (rep₁.setReferences_lost lost 0).give (f := t) (Or.inr lost)
        exact ⟨is ++ [i], v₁.give t, next ▸ split_, given, mem, returns.give table⟩
    · rename_i zero
      have none : v.place (.pageTable e i) = none := by
        by_contra some
        obtain ⟨t, table⟩ := Option.ne_none_iff_exists'.mp some
        have entry := mt (rep.place_none child).mpr some
        have frame := rep.place_child child entry
        exact zero (Nat.ne_of_gt (rep.place_pos frame))
      refine ⟨is ++ [i], v₁, next ▸ split_, rep₁, trivial, { returns with freed := ?_, left := ?_ }⟩
      · intro i' mem' g here
        rcases List.mem_append.mp mem' with mem' | mem'
        · exact returns.freed i' mem' g here
        · obtain rfl := List.mem_singleton.mp mem'
          rw [none] at here
          cases here
      · exact fun g out => returns.left g fun i' mem' => out i' (List.mem_append_left _ mem')
  · rintro s₁ ⟨is, v₁, split_, rep₁, -, returns⟩
    rw [List.append_nil] at split_
    exact done s₁ v₁ rep₁ (split_ ▸ returns)
  · have forgotten := rep.forget (Obj.UserOf e) (fun _ _ _ child => Obj.userOf_child child) id id
    exact ⟨[], _, rfl, forgotten, rfl, rfl, rfl, rfl, rfl, by simp, fun _ _ => rfl⟩

/-! ## The whole function -/

/-- Nothing is left of the environment, and the others are as they were. -/
structure View.Vacates (v v' : View) (e : Nat) : Prop where
  spares : v.Spares v' e
  gone : ∀ o, Obj.Of e o → v'.place o = none
  env : v'.globals.envs e = Env.zero
  curenv : v'.globals.curenv = v.globals.curenv
  cr3 : v'.globals.cr3 = v.globals.cr3
  envsAddress : v'.globals.envsAddress = v.globals.envsAddress

/-- All frames of the environment in memory have been given back. -/
theorem View.Returns.spares (rep : Rep s v) (returns : v.Returns v' e userEntries)
    (dir : v.place (.pageDir e) = some d) (empty : v.ptes e = fun _ => 0) (low : v.Low e) :
    v.Spares (v'.give d) e := by
  refine .of_keeps ⟨fun o out => ?_, fun o out => ?_, fun f u kind => ?_⟩ (fun e' _ => ?_) ?_
    fun _ i _ => ?_
  · exact (returns.same fun mine => out (Or.inl mine)).1
  · exact (returns.same fun mine => out (Or.inl mine)).2
  · rw [View.give_use]
    have free : ∀ o, v.place o = some f → (Use.free = u ↔ v.use f = u) := fun o here => by
      rw [(rep.wf.place_use o f).mp here]
      rcases kind with rfl | rfl | rfl <;> simp
    rcases eq_or_ne f d with rfl | ne
    · rw [Function.update_self]
      exact free _ dir
    · rw [Function.update_of_ne ne]
      by_cases table : ∃ i, v.place (.pageTable e i) = some f
      · obtain ⟨i, table⟩ := table
        have user : i < 955 := by
          by_contra high
          rw [low i (Fin.not_lt.mp high)] at table
          cases table
        rw [returns.freed i ((mem_userEntries i).mpr user) f table]
        exact free _ table
      · rw [returns.left f fun i _ here => table ⟨i, here⟩]
        have same : (v.forget (Obj.UserOf e)).use f = v.use f := by
          simp only [View.forget, Arena.View.forget]
          split
          · rename_i o here
            have place := (rep.wf.place_use o f).mpr here
            rw [if_neg, here]
            -- its objects in memory are the directory, the tables and the pages
            rintro mine
            rcases o with _ | _ | e' | ⟨e', i⟩ | ⟨e', i, j⟩ | _ | _ <;> try exact mine.elim
            · obtain rfl : e' = e := mine
              exact ne (Option.some.inj (place.symm.trans dir))
            · obtain rfl : e' = e := mine
              exact table ⟨i, place⟩
            · obtain rfl : e' = e := mine
              have zero : v.page (.pageTable e' i) j = 0 := congrFun empty (i, j)
              rw [(rep.place_none (o := .pageTable e' i) rfl).mpr zero] at place
              cases place
          · rfl
        rw [same]
  · rw [View.give_globals, returns.globals]
  · rw [View.give_globals, returns.globals]
  · rw [View.give_place, returns.place, View.forget_place]
    exact if_pos rfl

/-- The pointers of an environment that has no directories are null. -/
theorem View.Spares.pointers (spares : v.Spares v' e) (ptrs : v.Pointers)
    (env : v'.globals.envs e = Env.zero) (dir : v'.place (.pageDir e) = none)
    (diskDir : v'.place (.diskDir e) = none) : v'.Pointers where
  linked e' := by
    rcases eq_or_ne e' e with rfl | ne
    · rw [View.Linked, env, dir]
      rfl
    · rw [View.Linked, spares.envs e' ne, spares.dir ne]
      exact ptrs.linked e'
  cr3 e' f here := by
    rcases eq_or_ne e' e with rfl | ne
    · rw [dir] at here
      cases here
    · rw [spares.dir ne] at here
      rw [spares.envs e' ne]
      exact ptrs.cr3 e' f here
  diskLinked e' := by
    rcases eq_or_ne e' e with rfl | ne
    · refine ⟨?_, fun f here => ?_⟩
      · rw [env, diskDir]
        rfl
      · rw [diskDir] at here
        cases here
    · have place : v'.place (.diskDir e') = v.place (.diskDir e') :=
        spares.keeps.place _ (by simp [Obj.Of, Obj.UserOf, Obj.DiskOf, ne])
      refine ⟨?_, fun f here => ?_⟩
      · rw [spares.envs e' ne, place]
        exact (ptrs.diskLinked e').dir
      · rw [place] at here
        rw [spares.envs e' ne]
        exact (ptrs.diskLinked e').pa f here

/-- The page directory is given back, the page file is freed, and the structure is zeroed. -/
theorem Sound.freeRest_wp {Q : Unit → Kernel → Prop} {s₀ : Kernel} (sound : Sound s₀ v)
    (rep : Rep s v') (returns : v.Returns v' e userEntries) (dir : v.place (.pageDir e) = some d)
    (empty : v.ptes e = fun _ => 0) (low : v.Low e)
    (done : ∀ s' v'', Sound s' v'' → v.Vacates v'' e → Q () s')
    (noDir : v.place (.diskDir e) = none → ∀ s', E .crash s') :
    wp (do
      let frameInfo2 ← toFrameInfo (← getEnv e).envCr3
      setReferences frameInfo2 0
      freeFrame frameInfo2
      pfFreeEnv e
      modifyEnv e fun _ => Env.zero) Q E s := by
  have cr3 : (s.globals.envs e).envCr3 = toPhysicalAddress d := by
    rw [rep.globals, returns.globals, sound.cr3 e d dir]
  have lost : v'.use d = .lost := by
    rw [returns.left d fun i _ here => ?_]
    · exact sound.rep.lost_of_forget (o := .pageDir e) rfl dir
    · have same := sound.rep.wf.place_inj here dir
      cases same
  have given := (rep.setReferences_lost lost 0).give (f := d) (Or.inr lost)
  have spares := returns.spares sound.rep dir empty low
  have disk : (v'.give d).place (.diskDir e) = v.place (.diskDir e) := (returns.same id).1
  have linked : (v'.give d).DiskLinked e := by
    refine ⟨?_, fun f here => ?_⟩
    · rw [View.give_globals, returns.globals, (sound.diskLinked e).dir, disk]
    · rw [disk] at here
      rw [View.give_globals, returns.globals, (sound.diskLinked e).pa f here]
  have pageFile : PageFile (v'.give d) :=
    sound.pageFile.congr (fun _ _ => (returns.same id).2) returns.diskFree fun e' i ge => by
      rw [View.give_page, (returns.same id).2]
      exact sound.pageFile.high e' i ge
  simp only [wp_bind, wp_getEnv, cr3]
  apply toFrameInfo_wp
  · rw [ppn_toPhysicalAddress, rep.globals, returns.globals]
    exact sound.rep.place_lt dir
  · rw [ppn_toPhysicalAddress]
    simp only [wp_setReferences, freeFrame, wp_bind, wp_modify]
    apply pfFreeEnv_wp given linked pageFile
    · intro s₁ v₁ _ rep₁ pageFile₁ freed
      have rep₂ := rep₁.setEnv e fun _ => Env.zero
      have gone : ∀ o, Obj.Of e o → v₁.place o = none := by
        rintro o (mine | mine)
        · have out : ¬ o.DiskOf e := by
            cases o <;> first | exact id | exact mine.elim
          rw [freed.keeps.place o out, View.give_place, returns.place]
          exact if_pos mine
        · exact freed.gone o mine
      have others := spares.trans (freed.spares.trans (.setEnv v₁ e fun _ => Env.zero))
      have globals : v₁.globals = v.globals.setEnv e Env.clearDiskDir := by
        rw [freed.globals, View.give_globals, returns.globals]
      have env : (v₁.setEnv e fun _ => Env.zero).globals.envs e = Env.zero := by
        simp [View.setEnv, Globals.setEnv]
      refine done _ _ ⟨others.pointers sound.toPointers env (gone _ (Or.inl rfl))
        (gone _ (Or.inr rfl)), rep₂, pageFile₁.congr (fun _ _ => rfl) rfl pageFile₁.high⟩
        ⟨others, gone, env, ?_, ?_, ?_⟩ <;>
          rw [View.setEnv, View.setGlobals_globals, globals] <;> rfl
    · intro none
      exact noDir (disk ▸ none) _

/-- **`env_free`** leaves nothing of the environment, and the others as they were. -/
theorem Resident.envFree_wp {Q : Unit → Kernel → Prop} (resident : Resident e env₀ s v w)
    (low : v.Low e) (done : ∀ s' v', Sound s' v' → v.Vacates v' e → Q () s')
    (noFile : v.entry e = (fun _ => 0) → ∀ s', E .crash s') : wp (envFree e) Q E s := by
  rw [envFree, wp_bind]
  apply resident.toSpace.stage.freeList_wp resident.mapped (by decide)
  intro s₁ env₁ T₁ w₁ stage₁ mapped₁ active₁ _
  rw [wp_bind]
  apply stage₁.freeList_wp mapped₁ (by decide)
  rintro s₂ env₂ T₂ w₂ ⟨v₂, space, next⟩ mapped₂ second₂ others
  have active₂ := (others .activeList (by decide) (by decide)).trans active₁
  have low₂ := next.spares.low low
  have empty : v₂.ptes e = fun _ => 0 := by
    rw [next.ptes]
    funext p
    by_cases user : p.1 < 955
    · obtain ⟨va, aligned, page⟩ := exists_page p.1 p.2
      have here : pageNo va = p := page
      have user' : UserVa va := by rwa [UserVa, show pdx va = p.1 from congrArg Prod.fst page]
      by_contra some
      have queued := (mapped₂.entry va aligned user').mp (here.symm ▸ some)
      rw [WorkingSet.addresses_eq _ active₂, WorkingSet.addresses_eq _ second₂] at queued
      cases queued
    · rw [← next.ptes]
      exact congrFun (space.rep.wf.absent _ (low₂ p.1 (Fin.not_lt.mp user))) p.2
  obtain ⟨d, dir⟩ := space.dir
  rw [wp_bind]
  apply space.rep.freeTables_wp (space.linked e) dir
  intro s₃ v₃ rep₃ returns
  apply space.toSound.freeRest_wp rep₃ returns dir empty low₂
  · intro s₄ v₄ sound vacates
    exact done s₄ v₄ sound ⟨next.spares.trans vacates.spares, vacates.gone, vacates.env,
      vacates.curenv.trans next.curenv, vacates.cr3.trans next.cr3,
      vacates.envsAddress.trans next.envsAddress⟩
  · intro noDir s'
    refine noFile ?_ s'
    rw [← next.entry]
    funext p
    have table := (space.rep.place_none (o := .diskDir e) (i := p.1) rfl).mpr
      (congrFun (space.rep.wf.absent _ noDir) p.1)
    exact congrFun (space.rep.wf.absent _ table) p.2

end Fos
