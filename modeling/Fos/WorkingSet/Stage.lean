import Fos.WorkingSet.Residents

/-!
# Stages of a run

A function that a fault or `freeMem` consists of takes the environment from one state to
another through states whose lists and entries do not agree.  `Stage e env v T D n s w` says
where such a run has come to: the page table entries are `T`, the entries of the page file
`D` and the lists `w`, it has taken at most `n` frames, and what a run keeps is that of the
view `v` that it began with.

* `Followed`: the same with the pages in memory and in the page file;
* `Followed.*_wp`, `Stage.*_wp`: what each function does to them;
* `Space.pteAt`: what the walk of the page tables finds.
-/

namespace Fos

open Arena Exec Linked

variable {s s' : Kernel} {v : View} {e va f x : Nat} {env₀ : Env} {T D : PageNo → Word}
  {w w' : WorkingSet} {i : WSList} {n : Nat} {E : Stop → Kernel → Prop}
  {m g : PageNo → Option Page}

/-- The page tables under the directory of an environment. -/
theorem Rep.tables_dir {d : Nat} (rep : Rep s v) (dir : v.place (.pageDir e) = some d) :
    v.tables.place (.dir d) = some d ∧
    (∀ i, v.tables.place (.table d i) = v.place (.pageTable e i)) ∧
      ∀ i, v.tables.page (.table d i) = v.page (.pageTable e i) := by
  have use := (rep.wf.place_use _ _).mp dir
  simp [View.tables, use]

/-- The walk of the page tables finds the entry. -/
theorem Space.pteAt {d : Nat} {p : PageNo} (space : Space e env₀ s v w)
    (dir : v.place (.pageDir e) = some d) (user : p.1 < 955) :
    Fos.pteAt s.mem d p = v.ptes e p := by
  obtain ⟨place, -, page⟩ := space.rep.tables_dir dir
  rw [space.rep.tabled.dirs.pteAt place user, page, View.ptes]

/-- The state `s` is on the way from one with the view `v`. -/
def Stage (e : Nat) (env₀ : Env) (v : View) (T D : PageNo → Word) (n : Nat) (s : Kernel)
    (w : WorkingSet) : Prop :=
  ∃ v', Space e env₀ s v' w ∧ v.Then v' e T D n

theorem Space.stage (space : Space e env₀ s v w) : Stage e env₀ v (v.ptes e) (v.entry e) 0 s w :=
  ⟨v, space, View.Then.refl v e⟩

/-- The same, where the environment has the pages `m` in memory and `g` in the page file. -/
def Followed (e : Nat) (env₀ : Env) (v : View) (T D : PageNo → Word) (m g : PageNo → Option Page)
    (n : Nat) (s : Kernel) (w : WorkingSet) : Prop :=
  ∃ v', Space e env₀ s v' w ∧ v.Then v' e T D n ∧ v'.memory e = m ∧ v'.stored e = g

theorem Space.followed (space : Space e env₀ s v w) :
    Followed e env₀ v (v.ptes e) (v.entry e) (v.memory e) (v.stored e) 0 s w :=
  ⟨v, space, View.Then.refl v e, rfl, rfl⟩

theorem Followed.stage (followed : Followed e env₀ v T D m g n s w) : Stage e env₀ v T D n s w := by
  obtain ⟨v', space, next, -, -⟩ := followed
  exact ⟨v', space, next⟩

theorem Stage.followed (stage : Stage e env₀ v T D n s w) :
    ∃ m g, Followed e env₀ v T D m g n s w := by
  obtain ⟨v', space, next⟩ := stage
  exact ⟨_, _, v', space, next, rfl, rfl⟩

/-- A page table entry is written. -/
theorem Space.writePte {v' : View} {t : Nat} {x : Word} (space : Space e env₀ s v' w)
    (next : v.Then v' e T D n) (table : v'.place (.pageTable e (pdx va)) = some t)
    (same : v'.pte e va = 0 ∧ x = 0 ∨ v'.pte e va ≠ 0 ∧ frameOf x = frameOf (v'.pte e va)) :
    Stage e env₀ v (Function.update T (pageNo va) x) D n (s.setWord t (ptx va) x) w := by
  obtain ⟨d, dir⟩ := space.dir
  have edit := View.UserEdit.setPte v' e va x
  have listed := space.listed
  have written := edit.then (n := 0) (View.ptes_setPte ..) (fun _ h => h) (fun _ _ => rfl) le_rfl
    (v'.spares_setPte e va x)
  rw [next.ptes, next.entry] at written
  exact ⟨_, ⟨space.toSound.editUser edit (space.rep.setPte table same), ⟨d, edit.dir.trans dir⟩,
    ⟨listed.rep, listed.next, listed.small, listed.elements, listed.maxSize, listed.activeSize,
      listed.secondSize⟩⟩, next.trans written⟩

/-- An access to a page, and what it stores. -/
theorem Space.translate_wp (space : Space e env₀ s v w) (current : v.Current e) (user : UserVa va)
    (userMode write : Bool) : wp (translate va userMode write) (fun r s' => ∀ f, r = some f →
      Allows (v.ptes e (pageNo va)) userMode write ∧
      v.memory e (pageNo va) = some (s'.mem f) ∧ ∀ p, Followed e env₀ v
        (Function.update (v.ptes e) (pageNo va) (accessed (v.ptes e (pageNo va)) write))
        (v.entry e) (Function.update (v.memory e) (pageNo va) (some p)) (v.stored e) 0
        (s'.setPage f p) w) (fun _ _ => False) s := by
  obtain ⟨d, dir⟩ := space.dir
  apply space.quiet (steps_translate (edits_wsSame e) va userMode write) (F := fun _ _ => False)
    (P := fun r s' => ∀ f, r = some f → Allows (v.pte e va) userMode write ∧
      v.place (userPageAt e va) = some f ∧ Rep s' (v.touch e va write))
  · apply Fos.translate_wp userMode write space.rep current user
    · rintro f s' allowed place rep _ ⟨⟩
      exact ⟨allowed, place, rep⟩
    · rintro _ _ ⟨⟩
  · rintro r s' found listed f here
    obtain ⟨allowed, place, rep⟩ := found f here
    have touched : (v.touch e va write).place (userPageAt e va) = some f := place
    refine ⟨allowed, ?_, fun p => ?_⟩
    · rw [rep.mem touched, ← View.memory_of_place touched, View.memory_touch]
    have stored : Rep (s'.setPage f p) ((v.touch e va write).setPage (userPageAt e va) p) :=
      rep.setPage place (fun _ => trivial) fun _ => rfl
    have edit := (View.UserEdit.touch v e va write).trans (View.UserEdit.setPage _ e va p)
    exact ⟨_,
      ⟨space.toSound.editUser edit stored, ⟨d, edit.dir.trans dir⟩, ⟨listed.rep, listed.next,
      listed.small, listed.elements, listed.maxSize, listed.activeSize, listed.secondSize⟩⟩,
      edit.then (View.ptes_access ..) (fun _ h => h) (fun _ _ => rfl) le_rfl
        (v.spares_access e va write p),
      View.memory_access place, edit.stored⟩
  · exact fun _ _ h => h

namespace Followed

theorem listed (followed : Followed e env₀ v T D m g n s w) : Listed e env₀ s w := by
  obtain ⟨_, space, -⟩ := followed
  exact space.listed

/-! ## The lists -/

section Lists

variable {Q : Unit → Kernel → Prop}

theorem lists_wp {f : Lists WSList Nat → Lists WSList Nat}
    (followed : Followed e env₀ v T D m g n s w)
    (listed : wp (modifyLists e f) (fun _ s' => Listed e env₀ s' w') (fun _ _ => False) s)
    (done : ∀ s', Followed e env₀ v T D m g n s' w' → Q () s') : wp (modifyLists e f) Q E s := by
  obtain ⟨v', space, next, rfl, rfl⟩ := followed
  apply space.lists_wp listed
  intro s' v'' space' next' memory stored
  rw [next.ptes, next.entry] at next'
  exact done s' ⟨v'', space', next.trans next', memory, stored⟩

theorem remove_wp (followed : Followed e env₀ v T D m g n s w) (mem : x ∈ w.seqs i)
    (done : ∀ s', Followed e env₀ v T D m g n s' (w.remove i x) → Q () s') :
    wp (modifyLists e (·.remove i x)) Q E s :=
  followed.lists_wp (Fos.remove_wp followed.listed mem fun _ h => h) done

theorem insertHead_wp (followed : Followed e env₀ v T D m g n s w) (loose : ¬ w.Has x)
    (lt : x < pwsMaxSize)
    (done : ∀ s', Followed e env₀ v T D m g n s' (w.insertHead i x) → Q () s') :
    wp (modifyLists e (·.insertHead i x)) Q E s :=
  followed.lists_wp (Fos.insertHead_wp followed.listed loose lt fun _ h => h) done

/-- Members of the environment change that are not pointers to directories. -/
theorem edit {h : Env → Env} {env₁ : Env} (followed : Followed e env₀ v T D m g n s w)
    (dir : ∀ env, (h env).envPageDirectory = env.envPageDirectory)
    (cr3 : ∀ env, (h env).envCr3 = env.envCr3)
    (diskDir : ∀ env, (h env).diskEnvPgdir = env.diskEnvPgdir)
    (pa : ∀ env, (h env).diskEnvPgdirPA = env.diskEnvPgdirPA)
    (listed : Listed e env₁ (s.setGlobals (s.globals.setEnv e h)) w') :
    Followed e env₁ v T D m g n (s.setGlobals (s.globals.setEnv e h)) w' := by
  obtain ⟨v', space, next, rfl, rfl⟩ := followed
  have then_ := View.Then.setEnv v' e h
  rw [next.ptes, next.entry] at then_
  exact ⟨_, ⟨space.toSound.setEnv e h dir cr3 diskDir pa, space.dir, listed⟩, next.trans then_,
    rfl, rfl⟩

/-- An element is given another page. -/
theorem setVirtualAddress_wp (followed : Followed e env₀ v T D m g n s w)
    (done : ∀ s', Followed e (env₀.setVirtualAddress x va) v T D m g n s' w → Q () s') :
    wp (modifyEnv e (Env.setVirtualAddress x va)) Q E s := by
  have env : (s.setGlobals (s.globals.setEnv e (Env.setVirtualAddress x va))).globals.envs e =
      (s.globals.envs e).setVirtualAddress x va := Function.update_self ..
  have listed := followed.listed
  refine done _ (followed.edit (fun _ => rfl) (fun _ => rfl) (fun _ => rfl) (fun _ => rfl) ?_)
  refine ⟨?_, ?_, listed.small, ?_, ?_, ?_, ?_⟩ <;> rw [env]
  · exact listed.rep
  · exact listed.next
  · simp only [Env.setVirtualAddress, Env.setElement, listed.elements]
  · exact listed.maxSize
  · exact listed.activeSize
  · exact listed.secondSize

/-- A loop over a list saves a successor. -/
theorem save (followed : Followed e env₀ v T D m g n s w) (i : WSList) (p : Option Nat) :
    Followed e env₀ v T D m g n (s.saved e i p) (w.save i p) := by
  have run : wp (modifyLists e (·.savePtrNext i p))
      (fun _ s' => Followed e env₀ v T D m g n s' (w.save i p)) (fun _ _ => False) s :=
    followed.lists_wp (save_wp followed.listed fun _ h => h) fun _ h => h
  exact run

end Lists

/-! ## The page tables -/

theorem envPageDirectory_wp {Q : Nat → Kernel → Prop} (followed : Followed e env₀ v T D m g n s w)
    (done : ∀ d, v.place (.pageDir e) = some d → Q d s) : wp (envPageDirectory e) Q E s := by
  obtain ⟨v', space, next, -⟩ := followed
  exact space.envPageDirectory_wp fun d dir => done d (next.dir.symm.trans dir)

theorem ptSetPagePermissions_wp {set clear : Word} {Q : Unit → Kernel → Prop}
    (followed : Followed e env₀ v T D m g n s w) (user : UserVa va) (isSet : IsPerm set)
    (isClear : IsPerm clear)
    (ok : T (pageNo va) ≠ 0 ∨ set = 0 ∧ v.place (.pageTable e (pdx va)) ≠ none)
    (done : ∀ s', Followed e env₀ v (Function.update T (pageNo va)
      ((T (pageNo va) ||| set) &&& ~~~clear)) D m g n s' w → Q () s') :
    wp (ptSetPagePermissions e va set clear) Q E s := by
  obtain ⟨v', space, next, rfl, rfl⟩ := followed
  have table : v'.place (.pageTable e (pdx va)) ≠ none := by
    rcases ok with entry | ⟨-, table⟩
    · exact space.table (next.ptes ▸ entry)
    · exact next.tables _ table
  apply space.ptSetPagePermissions_wp user isSet isClear table
  · rw [next.ptes]
    exact ok.imp_right And.left
  · intro s' v'' space' next' memory stored
    rw [next.ptes, next.entry] at next'
    exact done s' ⟨v'', space', next.trans next', memory, stored⟩

theorem unmapFrame_wp {d : Nat} {Q : Unit → Kernel → Prop}
    (followed : Followed e env₀ v T D m g n s w) (dir : v.place (.pageDir e) = some d)
    (user : UserVa va) (done : ∀ s', Followed e env₀ v (Function.update T (pageNo va) 0) D
      (Function.update m (pageNo va) none) g n s' w → Q () s') : wp (unmapFrame d va) Q E s := by
  obtain ⟨v', space, next, rfl, rfl⟩ := followed
  apply space.unmapFrame_wp (next.dir.trans dir) user
  intro s' v'' space' next' memory stored
  rw [next.ptes, next.entry] at next'
  exact done s' ⟨v'', space', next.trans next', memory, stored⟩

theorem mapNew_wp {perm : Word} {Q : Unit → Kernel → Prop}
    (followed : Followed e env₀ v T D m g n s w) (user : UserVa va) (zero : T (pageNo va) = 0)
    (isPerm : IsPerm (perm ||| permPresent))
    (done : ∀ f p s', Followed e env₀ v (Function.update T (pageNo va)
      (constructEntry (toPhysicalAddress f) (perm ||| permPresent))) D
      (Function.update m (pageNo va) (some p)) g (n + 2) s' w → Q () s')
    (full : v.free.length < n + 2 → ∀ s', E outOfMemory s') :
    wp allocateFrame (fun f s' => wp (envPageDirectory e) (fun d s' =>
      wp (mapFrame d f va perm) Q E s') E s') E s := by
  obtain ⟨v', space, next, rfl, rfl⟩ := followed
  have free := next.free
  refine space.mapNew_wp user (next.ptes.symm ▸ zero) isPerm
    (fun f s' v'' space' next' memory stored => ?_)
    fun short => full (by omega)
  obtain ⟨p, memory⟩ := memory
  rw [next.ptes, next.entry] at next'
  exact done f p s' ⟨v'', space', next.trans next', memory, stored⟩

/-! ## The page file -/

theorem pfReadEnvPage_wp {Q : Int → Kernel → Prop} (followed : Followed e env₀ v T D m g n s w)
    (curenv : v.globals.curenv = some e) (current : v.Current e) (aligned : Aligned va)
    (user : UserVa va) (allowed : Allows (T (pageNo va)) false true)
    (done : ∀ s', D (pageNo va) ≠ 0 → Followed e env₀ v
      (Function.update T (pageNo va) (readInEntry (T (pageNo va)))) D
      (Function.update m (pageNo va) (g (pageNo va))) g n s' w → Q 0 s')
    (absent : ∀ s', D (pageNo va) = 0 → Followed e env₀ v T D m g n s' w →
      Q ePageNotExistInPF s') :
    wp (pfReadEnvPage e va) Q E s := by
  obtain ⟨v', space, next, rfl, rfl⟩ := followed
  have current' : v'.Current e := by
    rw [View.Current, next.dir, next.cr3]
    exact current
  apply space.pfReadEnvPage_wp (next.curenv.trans curenv) current' aligned user
  · rw [next.ptes]
    exact allowed
  · intro s' v'' entry space' next' memory stored
    rw [next.ptes, next.entry] at next'
    exact done s' (next.entry ▸ entry) ⟨v'', space', next.trans next', memory, stored⟩
  · intro s' v'' zero space' next' memory stored
    rw [next.ptes, next.entry] at next'
    exact absent s' (next.entry ▸ zero) ⟨v'', space', next.trans next', memory, stored⟩

theorem pfAddEmptyEnvPage_wp {Q : Int → Kernel → Prop} (followed : Followed e env₀ v T D m g n s w)
    (user : UserVa va) (base : va < kernelBase)
    (done : ∀ s' y p, y ≠ 0 → (∀ q, g (pageNo va) = some q → q = p) →
      Followed e env₀ v T (Function.update D (pageNo va) y) m
        (Function.update g (pageNo va) (some p)) (n + 2) s' w → Q 0 s')
    (noSpace : ∀ s', Followed e env₀ v T D m g (n + 2) s' w → Q eNoPageFileSpace s')
    (full : v.free.length < n + 2 → ∀ s', E outOfMemory s') :
    wp (pfAddEmptyEnvPage e va false) Q E s := by
  obtain ⟨v', space, next, rfl, rfl⟩ := followed
  have free := next.free
  refine space.pfAddEmptyEnvPage_wp user base
    (fun s' v'' y nonzero space' next' memory stored => ?_)
    (fun s' v'' space' next' memory stored => ?_) fun short => full (by omega)
  · obtain ⟨p, stored, same⟩ := stored
    rw [next.ptes, next.entry] at next'
    exact done s' y p nonzero same ⟨v'', space', next.trans next', memory, stored⟩
  · rw [next.ptes, next.entry] at next'
    exact noSpace s' ⟨v'', space', next.trans next', memory, stored⟩

/-- Several pages are added to the page file; those that are there already stay as they are. -/
theorem addPages_wp {vas : List Nat} (followed : Followed e env₀ v T D m g n s w)
    (user : ∀ a ∈ vas, UserVa a ∧ a < kernelBase) :
    wp (vas.forM fun va => do let _ ← pfAddEmptyEnvPage e va false)
      (fun _ s' => ∃ D' g' n', Followed e env₀ v T D' m g' n' s' w ∧
        ∀ p q, g p = some q → g' p = some q) (fun _ _ => True) s := by
  induction vas generalizing s D g n with
  | nil => exact ⟨D, g, n, followed, fun _ _ there => there⟩
  | cons va vas ih =>
    obtain ⟨here, below⟩ := user va (by simp)
    have rest : ∀ a ∈ vas, UserVa a ∧ a < kernelBase := fun a mem => user a (by simp [mem])
    rw [wp_forM_cons, wp_bind]
    apply followed.pfAddEmptyEnvPage_wp here below
    · intro s₁ y p _ same followed₁
      rw [wp_pure]
      refine wp_mono (ih followed₁ rest) ?_ fun _ _ h => h
      rintro _ s' ⟨D', g', n', followed', kept⟩
      refine ⟨D', g', n', followed', fun q x there => kept q x ?_⟩
      rcases eq_or_ne q (pageNo va) with rfl | ne
      · rw [Function.update_self, same x there]
      · rwa [Function.update_of_ne ne]
    · exact fun s₁ followed₁ => ih followed₁ rest
    · exact fun _ _ => trivial

theorem pfRemoveEnvPage_wp {Q : Unit → Kernel → Prop} (followed : Followed e env₀ v T D m g n s w)
    (done : ∀ s', Followed e env₀ v T (Function.update D (pageNo va) 0) m
      (Function.update g (pageNo va) none) n s' w → Q () s') : wp (pfRemoveEnvPage e va) Q E s := by
  obtain ⟨v', space, next, rfl, rfl⟩ := followed
  apply space.pfRemoveEnvPage_wp
  intro s' v'' space' next' memory stored
  rw [next.ptes, next.entry] at next'
  exact done s' ⟨v'', space', next.trans next', memory, stored⟩

/-- A page that is mapped is written to the page file if it is modified. -/
theorem writeBack_wp {Q : Unit → Kernel → Prop} (followed : Followed e env₀ v T D m g n s w)
    (user : UserVa (env₀.address x)) (base : env₀.address x < kernelBase)
    (entry : T (pageNo (env₀.address x)) ≠ 0)
    (high : 960 ≤ pdx (elementAddress v.globals.envsAddress e x))
    (done : ∀ s' g', (D (pageNo (env₀.address x)) ≠ 0 →
      g' = if modified (T (pageNo (env₀.address x))) then
        Function.update g (pageNo (env₀.address x)) (m (pageNo (env₀.address x))) else g) →
      Followed e env₀ v T D m g' (n + 1) s' w → Q () s')
    (full : v.free.length < n + 1 → ∀ s', E outOfMemory s') : wp (writeBack e x) Q E s := by
  obtain ⟨v', space, next, rfl, rfl⟩ := followed
  obtain ⟨d, dir⟩ := space.dir
  have bit : v'.pte e (env₀.address x) &&& 4095 &&& permModified ≠ 0 ↔
      modified (T (pageNo (env₀.address x))) := by
    rw [BitVec.and_assoc, show (4095 : Word) &&& permModified = permModified from rfl, and_modified,
      ← next.ptes]
    rfl
  rw [writeBack, wp_bind]
  apply virtualAddress_wp space.listed
  rw [wp_bind]
  apply ptGetPagePermissions_wp space.rep (space.linked e) dir user
  rw [wp_ite]
  split
  · rename_i changed
    rw [wp_bind]
    apply Fos.envPageDirectory_wp space.rep (space.linked e) dir
    simp only [wp_bind, wp_get, space.rep.globals, next.envsAddress]
    apply getPageTable_kernel_wp space.rep dir high
    intro _
    obtain ⟨place, places, page⟩ := space.rep.tables_dir dir
    have same : entryIn v'.tables d (env₀.address x) = v'.pte e (env₀.address x) := by
      rw [entryIn, page]
      rfl
    have nonzero : v'.pte e (env₀.address x) ≠ 0 := by
      rw [← next.ptes] at entry
      exact entry
    have here := space.rep.place_child (child_userPageAt e (env₀.address x)) nonzero
    have frame := space.rep.place_lt here
    apply space.rep.tabled.getFrameInfo_wp place user
    · intro zero
      exact absurd (same.symm.trans zero) nonzero
    · intro t _ _ lt
      simp only [wp_deref_some]
      have free := next.free
      refine space.pfUpdateEnvPage_wp base ?_ (fun r s' v'' space' next' memory stored => ?_)
        fun short => full (by omega)
      · rwa [← space.rep.globals]
      · rw [next.ptes, next.entry] at next'
        refine done s' _ (fun page => ?_) ⟨v'', space', next.trans next', memory, rfl⟩
        have copied : some (s.mem (frameOf (entryIn v'.tables d (env₀.address x)))) =
            v'.memory e (pageNo (env₀.address x)) := by
          rw [same, View.memory_of_place here, ← space.rep.mem here]
          rfl
        rw [if_pos (bit.mp changed), ← copied]
        exact stored (next.entry.symm ▸ page)
    · intro out
      rw [same, space.rep.globals] at out
      exact absurd frame out
  · rename_i clean
    refine done s _ (fun _ => ?_) ⟨v', space, next.mono (Nat.le_succ n), rfl, rfl⟩
    rw [if_neg fun changed => clean (bit.mpr changed)]

end Followed

namespace Stage

theorem listed (stage : Stage e env₀ v T D n s w) : Listed e env₀ s w := by
  obtain ⟨_, space, -⟩ := stage
  exact space.listed

section Lists

variable {Q : Unit → Kernel → Prop}

theorem lists_wp {f : Lists WSList Nat → Lists WSList Nat} (stage : Stage e env₀ v T D n s w)
    (listed : wp (modifyLists e f) (fun _ s' => Listed e env₀ s' w') (fun _ _ => False) s)
    (done : ∀ s', Stage e env₀ v T D n s' w' → Q () s') : wp (modifyLists e f) Q E s := by
  obtain ⟨m, g, followed⟩ := stage.followed
  exact followed.lists_wp listed fun s' next => done s' next.stage

theorem remove_wp (stage : Stage e env₀ v T D n s w) (mem : x ∈ w.seqs i)
    (done : ∀ s', Stage e env₀ v T D n s' (w.remove i x) → Q () s') :
    wp (modifyLists e (·.remove i x)) Q E s :=
  stage.lists_wp (Fos.remove_wp stage.listed mem fun _ h => h) done

theorem insertHead_wp (stage : Stage e env₀ v T D n s w) (loose : ¬ w.Has x) (lt : x < pwsMaxSize)
    (done : ∀ s', Stage e env₀ v T D n s' (w.insertHead i x) → Q () s') :
    wp (modifyLists e (·.insertHead i x)) Q E s :=
  stage.lists_wp (Fos.insertHead_wp stage.listed loose lt fun _ h => h) done

/-- Members of the environment change that are not pointers to directories. -/
theorem edit {h : Env → Env} {env₁ : Env} (stage : Stage e env₀ v T D n s w)
    (dir : ∀ env, (h env).envPageDirectory = env.envPageDirectory)
    (cr3 : ∀ env, (h env).envCr3 = env.envCr3)
    (diskDir : ∀ env, (h env).diskEnvPgdir = env.diskEnvPgdir)
    (pa : ∀ env, (h env).diskEnvPgdirPA = env.diskEnvPgdirPA)
    (listed : Listed e env₁ (s.setGlobals (s.globals.setEnv e h)) w') :
    Stage e env₁ v T D n (s.setGlobals (s.globals.setEnv e h)) w' := by
  obtain ⟨m, g, followed⟩ := stage.followed
  exact (followed.edit dir cr3 diskDir pa listed).stage

/-- A loop over a list saves a successor. -/
theorem save (stage : Stage e env₀ v T D n s w) (i : WSList) (p : Option Nat) :
    Stage e env₀ v T D n (s.saved e i p) (w.save i p) := by
  obtain ⟨m, g, followed⟩ := stage.followed
  exact (followed.save i p).stage

end Lists

theorem ptSetPagePermissions_wp {set clear : Word} {Q : Unit → Kernel → Prop}
    (stage : Stage e env₀ v T D n s w) (user : UserVa va) (isSet : IsPerm set)
    (isClear : IsPerm clear)
    (ok : T (pageNo va) ≠ 0 ∨ set = 0 ∧ v.place (.pageTable e (pdx va)) ≠ none)
    (done : ∀ s', Stage e env₀ v (Function.update T (pageNo va)
      ((T (pageNo va) ||| set) &&& ~~~clear)) D n s' w → Q () s') :
    wp (ptSetPagePermissions e va set clear) Q E s := by
  obtain ⟨m, g, followed⟩ := stage.followed
  exact followed.ptSetPagePermissions_wp user isSet isClear ok fun s' next => done s' next.stage

theorem unmapFrame_wp {d : Nat} {Q : Unit → Kernel → Prop} (stage : Stage e env₀ v T D n s w)
    (dir : v.place (.pageDir e) = some d) (user : UserVa va)
    (done : ∀ s', Stage e env₀ v (Function.update T (pageNo va) 0) D n s' w → Q () s') :
    wp (unmapFrame d va) Q E s := by
  obtain ⟨m, g, followed⟩ := stage.followed
  exact followed.unmapFrame_wp dir user fun s' next => done s' next.stage

end Stage

end Fos
