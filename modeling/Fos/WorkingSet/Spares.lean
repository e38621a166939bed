import Fos.WorkingSet.Pages

/-!
# What a step for one environment leaves alone

The frames that the objects of an environment lie in are its own, and so are its disk frames.  So
the edits that the kernel makes for one environment do not show in the others.

* `View.Spares`: the others are as before, and no frame is lost;
* `View.UserEdit.spares`: edits of the page tables and pages;
* `Rep.spares_*`: those of the page file;
* `Rep.spares_mapNew`: a page that is not mapped yet gets a frame.
-/

namespace Fos

open Arena Linked

variable {s : Kernel} {v v' v'' : View} {e e' va f : Nat} {i : Fin 1024} {w : Word} {p : Page}

/-- The objects of an environment. -/
def Obj.Of (e : Nat) (o : Obj) : Prop := o.UserOf e ∨ o.DiskOf e

instance (e : Nat) : DecidablePred (Obj.Of e) := fun o =>
  inferInstanceAs (Decidable (o.UserOf e ∨ o.DiskOf e))

/-- An environment shares no object with another one. -/
theorem Obj.Of.unique {o : Obj} (mine : o.Of e) (yours : o.Of e') : e' = e := by
  cases o <;> simp_all [Obj.Of, Obj.UserOf, Obj.DiskOf]

/-- There are no page tables of the environment for the addresses from `USER_TOP` on. -/
def View.Low (v : View) (e : Nat) : Prop :=
  ∀ i : Fin 1024, 955 ≤ i → v.place (.pageTable e i) = none

/-- A step for the environment `e`: the objects of the others, their `Env` structures and their
pages in the page file are as they were, and no frame is lost. -/
structure View.Spares (v v' : View) (e : Nat) : Prop where
  keeps : View.Keeps (Obj.Of e) v v'
  envs : ∀ e', e' ≠ e → v'.globals.envs e' = v.globals.envs e'
  stored : ∀ e', e' ≠ e → v'.stored e' = v.stored e'
  low : v.Low e → v'.Low e

namespace View.Spares

theorem refl (v : View) (e : Nat) : v.Spares v e :=
  ⟨.refl _ v, fun _ _ => rfl, fun _ _ => rfl, id⟩

theorem trans (first : v.Spares v' e) (second : v'.Spares v'' e) : v.Spares v'' e where
  keeps := first.keeps.trans second.keeps
  envs e' ne := (second.envs e' ne).trans (first.envs e' ne)
  stored e' ne := (second.stored e' ne).trans (first.stored e' ne)
  low := second.low ∘ first.low

/-- The disk is as it was, and the objects of the others. -/
theorem of_keeps (keeps : View.Keeps (Obj.Of e) v v')
    (envs : ∀ e', e' ≠ e → v'.globals.envs e' = v.globals.envs e')
    (disk : v'.globals.disk = v.globals.disk) (low : v.Low e → v'.Low e) : v.Spares v' e where
  keeps := keeps
  envs := envs
  low := low
  stored e' ne := by
    refine View.stored_congr (funext fun n => ?_) disk
    have out : ¬ (Obj.diskTable e' n.1).Of e := by simp [Obj.Of, Obj.UserOf, Obj.DiskOf, ne]
    rw [View.entry, keeps.page _ out, View.entry]

/-- Only members of the environment, or what belongs to none, change. -/
theorem setGlobals {g : Globals} (envs : ∀ e', e' ≠ e → g.envs e' = v.globals.envs e')
    (disk : g.disk = v.globals.disk) : v.Spares (v.setGlobals g) e :=
  of_keeps ⟨fun _ _ => rfl, fun _ _ => rfl, fun _ _ _ => Iff.rfl⟩ envs disk id

theorem setEnv (v : View) (e : Nat) (g : Env → Env) : v.Spares (v.setEnv e g) e :=
  setGlobals (fun e' ne => by simp [Globals.setEnv, ne]) rfl

/-- The address spaces of the others. -/
theorem ptes (spares : v.Spares v' e) (ne : e' ≠ e) (n : PageNo) :
    v'.page (.pageTable e' n.1) n.2 = v.page (.pageTable e' n.1) n.2 := by
  rw [spares.keeps.page]
  simp [Obj.Of, Obj.UserOf, Obj.DiskOf, ne]

theorem entry (spares : v.Spares v' e) (ne : e' ≠ e) : v'.entry e' = v.entry e' := by
  funext n
  rw [View.entry, spares.keeps.page, View.entry]
  simp [Obj.Of, Obj.UserOf, Obj.DiskOf, ne]

theorem memory (spares : v.Spares v' e) (ne : e' ≠ e) : v'.memory e' = v.memory e' := by
  have out : ∀ i j, ¬ (Obj.userPage e' i j).Of e := by simp [Obj.Of, Obj.UserOf, Obj.DiskOf, ne]
  exact View.memory_congr (fun i j => spares.keeps.place _ (out i j)) fun i j =>
    spares.keeps.page _ (out i j)

theorem dir (spares : v.Spares v' e) (ne : e' ≠ e) :
    v'.place (.pageDir e') = v.place (.pageDir e') :=
  spares.keeps.place _ (by simp [Obj.Of, Obj.UserOf, Obj.DiskOf, ne])

end View.Spares

/-! ## Frames -/

/-- A frame is neither lost nor reserved, nor taken without an object. -/
def Used (u : Use Obj) : Prop := u = .free ∨ ∃ o, u = .holds o

/-- A frame that is used is used for something else. -/
theorem use_update {use : Nat → Use Obj} {x : Use Obj} (before : Used (use f)) (after : Used x)
    (g : Nat) (u : Use Obj) (kind : u = .taken ∨ u = .lost ∨ u = .reserved) :
    Function.update use f x g = u ↔ use g = u := by
  rcases eq_or_ne g f with rfl | ne
  · rw [Function.update_self]
    have other : ∀ {y : Use Obj}, Used y → y ≠ u := by
      rintro y (rfl | ⟨o, rfl⟩) <;> rcases kind with rfl | rfl | rfl <;> simp
    exact iff_of_false (other after) (other before)
  · rw [Function.update_of_ne ne]

theorem Rep.used_place {o : Obj} (rep : Rep s v) (here : v.place o = some f) : Used (v.use f) :=
  Or.inr ⟨o, (rep.wf.place_use o f).mp here⟩

theorem Rep.used_free {rest : List Nat} (rep : Rep s v) (free : v.free = f :: rest) :
    Used (v.use f) := Or.inl ((rep.free_use f).mp (by simp [free]))

/-! ## In memory -/

theorem View.UserEdit.spares (edit : v.UserEdit v' e)
    (use : ∀ f u, u = .taken ∨ u = .lost ∨ u = .reserved → (v'.use f = u ↔ v.use f = u))
    (low : v.Low e → v'.Low e) : v.Spares v' e := by
  refine .of_keeps ⟨fun o out => edit.place o fun mine => out (Or.inl mine),
    fun o out => edit.page o fun mine => out (Or.inl mine), use⟩ (fun e' _ => ?_) ?_ low
  · rw [edit.globals]
  · rw [edit.globals]

theorem View.spares_setPte (v : View) (e va : Nat) (w : Word) : v.Spares (v.setPte e va w) e :=
  (View.UserEdit.setPte v e va w).spares (fun _ _ _ => Iff.rfl) id

theorem View.spares_access (v : View) (e va : Nat) (write : Bool) (p : Page) :
    v.Spares ((v.touch e va write).setPage (userPageAt e va) p) e :=
  ((View.UserEdit.touch v e va write).trans (.setPage _ e va p)).spares (fun _ _ _ => Iff.rfl) id

theorem View.spares_readIn (v : View) (e va : Nat) (p : Page) : v.Spares (v.readIn e va p) e :=
  (View.UserEdit.readIn v e va p).spares (fun _ _ _ => Iff.rfl) id

theorem View.unmap_place_table (v : View) (e va : Nat) (i : Fin 1024) :
    (v.unmap e va).place (.pageTable e i) = v.place (.pageTable e i) := by
  unfold View.unmap
  split
  · simp [View.setPte]
  · rfl

/-- A page that goes gives its frame back. -/
theorem Rep.spares_unmap (rep : Rep s v) (e va : Nat) : v.Spares (v.unmap e va) e := by
  refine (View.UserEdit.unmap v e va).spares ?_ fun low i ge => ?_
  · unfold View.unmap
    split
    · rename_i f here
      have use : (((v.setPte e va 0).drop (userPageAt e va) f).give f).use =
          Function.update v.use f .free := by simp [View.setPte]
      rw [use]
      exact use_update (rep.used_place here) (Or.inl rfl)
    · exact fun _ _ _ => Iff.rfl
  · rw [View.unmap_place_table]
    exact low i ge

/-- Only a table of the user's comes to be. -/
theorem View.Low.withTable (low : v.Low e) (user : i < 955) : (v.withTable e i).Low e := by
  intro i' ge
  have ne : i' ≠ i := fun eq => absurd user (Fin.not_lt.mpr (eq ▸ ge))
  unfold View.withTable
  split
  · simpa [View.newTable, ne] using low i' ge
  · exact low i' ge

theorem Rep.spares_withTable (rep : Rep s v) (e : Nat) (user : i < 955) :
    v.Spares (v.withTable e i) e := by
  refine (View.UserEdit.withTable v e i).spares ?_ fun low => low.withTable user
  unfold View.withTable
  split
  · rename_i t _ _ free
    have use : (v.newTable e i t).use = Function.update v.use t (.holds (.pageTable e i)) := by
      simp [View.newTable]
    rw [use]
    exact use_update (rep.used_free free) (Or.inr ⟨_, rfl⟩)
  · exact fun _ _ _ => Iff.rfl

/-- A frame off the free list comes to hold a page. -/
theorem Rep.spares_mapPage {rest : List Nat} (rep : Rep s v) (free : v.free = f :: rest)
    (user : UserVa va) (w : Word) (p : Page) :
    v.Spares (((v.take f).withTable e (pdx va)).mapPage e va f w p) e := by
  have table := (rep.take free).spares_withTable e user
  have edit := ((View.UserEdit.take v e f).trans (.withTable _ e (pdx va))).trans
    (.mapPage _ e va f w p)
  refine edit.spares (fun g u kind => ?_) fun low i ge => ?_
  · have mapped : (((v.take f).withTable e (pdx va)).mapPage e va f w p).use =
        Function.update ((v.take f).withTable e (pdx va)).use f (.holds (userPageAt e va)) := by
      simp [View.mapPage, View.setPte]
    rw [mapped, ← use_update (x := .holds (userPageAt e va)) (rep.used_free free)
      (Or.inr ⟨_, rfl⟩) g
      u kind]
    rcases eq_or_ne g f with rfl | ne
    · rw [Function.update_self, Function.update_self]
    · rw [Function.update_of_ne ne, Function.update_of_ne ne, table.keeps.use g u kind,
        View.take_use, Function.update_of_ne ne]
  · have here := table.low low i ge
    simpa [View.mapPage, View.setPte] using here

/-- A new environment gets its page directory. -/
theorem Rep.spares_newSpace {rest : List Nat} (rep : Rep s v) (free : v.free = f :: rest)
    (e size second : Nat) (L : Lists WSList Nat) : v.Spares (v.newSpace e f size second L) e := by
  refine .of_keeps ⟨fun o out => ?_, fun o out => ?_, ?_⟩ (fun e' ne => ?_) rfl fun low i ge => ?_
  · have ne : o ≠ .pageDir e := Obj.ne_of_not_userOf (fun mine => out (Or.inl mine)) rfl
    simp [View.newSpace, View.setEnv, ne]
  · have ne : o ≠ .pageDir e := Obj.ne_of_not_userOf (fun mine => out (Or.inl mine)) rfl
    simp [View.newSpace, View.setEnv, ne]
  · have use :
      (v.newSpace e f size second L).use = Function.update v.use f (.holds (.pageDir e)) := by
      simp [View.newSpace, View.setEnv]
    rw [use]
    exact use_update (rep.used_free free) (Or.inr ⟨_, rfl⟩)
  · simp [View.newSpace, View.setEnv, Globals.setEnv, ne]
  · simpa [View.newSpace, View.setEnv] using low i ge

/-- There is no page to be evicted or lost. -/
theorem Rep.withTable_absent {rest : List Nat} (rep : Rep s v) (free : v.free = f :: rest)
    (zero : v.pte e va = 0) :
    ((v.take f).withTable e (pdx va)).pte e va = 0 ∧
      ((v.take f).withTable e (pdx va)).place (userPageAt e va) = none := by
  have table : ((v.take f).withTable e (pdx va)).pte e va = 0 := by
    rw [(rep.take free).withTable_pte]
    exact zero
  refine ⟨table, ?_⟩
  have absent := rep.place_userPage_none.mpr zero
  unfold View.withTable
  split
  · simpa [View.newTable] using absent
  · simpa using absent

theorem Rep.lose_withTable {rest : List Nat} (rep : Rep s v) (free : v.free = f :: rest)
    (zero : v.pte e va = 0) :
    ((v.take f).withTable e (pdx va)).lose e va = (v.take f).withTable e (pdx va) := by
  rw [View.lose, (rep.withTable_absent free zero).2]

/-- A page that is not mapped gets a frame. -/
theorem Rep.spares_mapNew {rest : List Nat} (rep : Rep s v) (free : v.free = f :: rest)
    (user : UserVa va) (zero : v.pte e va = 0) (w : Word) (p : Page) :
    v.Spares (v.mapNew e va f w p) e := by
  have clear : ¬ present (((v.take f).withTable e (pdx va)).pte e va) = true := by
    rw [(rep.withTable_absent free zero).1]
    decide
  rw [View.mapNew, View.evict, if_neg clear, rep.lose_withTable free zero]
  exact rep.spares_mapPage free user w p

/-! ## In the page file -/

/-- Only tables of the page file of `e` are different. -/
theorem View.Spares.of_diskOf (keeps : View.Keeps (Obj.DiskOf e) v v')
    (envs : ∀ e', e' ≠ e → v'.globals.envs e' = v.globals.envs e')
    (disk : v'.globals.disk = v.globals.disk) : v.Spares v' e :=
  .of_keeps (keeps.mono fun _ => Or.inr) envs disk fun low i ge => by
    rw [keeps.place _ id]
    exact low i ge

theorem Obj.ne_of_not_diskOf {o c : Obj} (out : ¬ Obj.DiskOf e o) (mine : Obj.DiskOf e c) :
    o ≠ c := by
  rintro rfl
  exact out mine

theorem Rep.spares_withDiskDir (rep : Rep s v) (e : Nat) : v.Spares (v.withDiskDir e) e := by
  unfold View.withDiskDir
  split
  · rename_i f rest _ free
    refine .of_diskOf ⟨fun o out => ?_, fun o out => ?_, ?_⟩ (fun e' ne => ?_) rfl
    · simp [View.newDiskDir, View.setEnv,
        Obj.ne_of_not_diskOf out (show Obj.DiskOf e (.diskDir e) from rfl)]
    · simp [View.newDiskDir, View.setEnv,
        Obj.ne_of_not_diskOf out (show Obj.DiskOf e (.diskDir e) from rfl)]
    · have use : (v.newDiskDir e f).use = Function.update v.use f (.holds (.diskDir e)) := by
        simp [View.newDiskDir, View.setEnv]
      rw [use]
      exact use_update (rep.used_free free) (Or.inr ⟨_, rfl⟩)
    · simp [View.newDiskDir, View.setEnv, Globals.setEnv, ne]
  · exact .refl v e

theorem View.spares_withDiskTable (free_use : ∀ f, f ∈ v.free ↔ v.use f = .free) (e : Nat)
    (i : Fin 1024) : v.Spares (v.withDiskTable e i) e := by
  unfold View.withDiskTable
  split
  · rename_i t rest _ free
    refine .of_diskOf ⟨fun o out => ?_, fun o out => ?_, ?_⟩ (fun e' ne => rfl) rfl
    · simp [View.newDiskTable,
        Obj.ne_of_not_diskOf out (show Obj.DiskOf e (.diskTable e i) from rfl)]
    · simp [View.newDiskTable,
        Obj.ne_of_not_diskOf out (show Obj.DiskOf e (.diskTable e i) from rfl),
        Obj.ne_of_not_diskOf out (show Obj.DiskOf e (.diskDir e) from rfl)]
    · have use :
        (v.newDiskTable e i t).use = Function.update v.use t (.holds (.diskTable e i)) := by
        simp [View.newDiskTable]
      rw [use]
      exact use_update (Or.inl ((free_use t).mp (by simp [free]))) (Or.inr ⟨_, rfl⟩)
  · exact .refl v e

/-- The free frames are those of the list, after a directory has been made too. -/
theorem Rep.free_use_withDiskDir (rep : Rep s v) (e f : Nat) :
    f ∈ (v.withDiskDir e).free ↔ (v.withDiskDir e).use f = .free := by
  unfold View.withDiskDir
  split
  · rename_i g rest _ free
    have taken := (rep.take free).free_use f
    rcases eq_or_ne f g with rfl | ne
    · simpa [View.newDiskDir, View.setEnv] using taken
    · simpa [View.newDiskDir, View.setEnv, ne] using taken
  · exact rep.free_use f

theorem Rep.spares_withTables (rep : Rep s v) (e va : Nat) : v.Spares (v.withTables e va) e :=
  (rep.spares_withDiskDir e).trans (View.spares_withDiskTable (rep.free_use_withDiskDir e) e _)

theorem View.spares_assignDfn (v : View) (e va : Nat) : v.Spares (v.assignDfn e va) e := by
  rcases v.assignDfn_eq e va with same | ⟨d, ds, -, -, same⟩
  · rw [same]
    exact .refl v e
  · rw [same]
    refine .of_diskOf ⟨fun _ _ => rfl, fun o out => ?_, fun _ _ _ => Iff.rfl⟩ (fun _ _ => rfl) rfl
    simp [View.takeDfn,
      Obj.ne_of_not_diskOf out (show Obj.DiskOf e (.diskTable e (pdx va)) from rfl)]

theorem Rep.spares_addPage (rep : Rep s v) (e va : Nat) : v.Spares (v.addPage e va) e :=
  (rep.spares_withTables e va).trans (View.spares_assignDfn _ e va)

/-- A page of the page file is overwritten, which is no page of another environment. -/
theorem View.spares_storePage (pf : SharedOut v) (page : v.dfn e va ≠ 0) (p : Page) :
    v.Spares (v.storePage e va p) e where
  keeps := ⟨fun _ _ => rfl, fun _ _ => rfl, fun _ _ _ => Iff.rfl⟩
  envs _ _ := rfl
  low := id
  stored e' ne := by
    have lt := pf.range e (pdx va) (ptx va) page
    funext n
    have entry : (v.storePage e va p).entry e' n = v.entry e' n := rfl
    rw [View.stored, entry, View.stored]
    split
    · rfl
    · rename_i nonzero
      have other : (v.entry e' n).toNat ≠ (v.dfn e va).toNat := fun eq => ne
        (pf.inj e' n.1 n.2 e (pdx va) (ptx va) nonzero (BitVec.eq_of_toNat_eq eq)).1
      exact congrArg some
        ((setDisk_diskPage lt (pf.range e' n.1 n.2 nonzero)).trans (if_neg other))

/-- A page leaves the page file. -/
theorem View.spares_dropDfn (v : View) (e : Nat) (i j : Fin 1024) :
    v.Spares (v.dropDfn e i j) e := by
  have edit : v.TableEdit (v.dropDfn e i j) e i :=
    View.TableEdit.dropDfn ⟨rfl, rfl, fun _ _ => rfl, rfl⟩ j
  refine .of_diskOf ⟨fun o _ => by rw [edit.place], fun o out => edit.page o
    (Obj.ne_of_not_diskOf out rfl), fun f u _ => by rw [edit.use]⟩
    (fun _ _ => by rw [edit.globals]) ?_
  rw [edit.globals]

/-- The page file of the environment is gone. -/
theorem View.Freed.spares (freed : v.Freed v' e) : v.Spares v' e :=
  .of_diskOf freed.keeps (fun e' ne => by simp [freed.globals, Globals.setEnv, ne]) (by
    rw [freed.globals]
    rfl)

end Fos
