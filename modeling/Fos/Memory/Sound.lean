import Fos.Memory.PageFileSpecs

/-!
# The state that all operations of the kernel keep

* `Sound`: the abstract state is the kernel's, the disk frames are shared out, and the
  pointers of the environments lead to their directories;
* `Sound.addPage`, `Sound.storePage`, `Sound.dropDfn`, `Sound.freed`: the edits that the
  operations on the page file make keep it;
* `View.UserEdit`, `Sound.editUser`: so do the edits of page tables and pages.
-/

namespace Fos

open Arena Linked Exec

variable {s s' : Kernel} {E : Stop → Kernel → Prop} {v v' : View} {e f va : Nat}

/-- The pointers of the environments lead to their directories. -/
structure View.Pointers (v : View) : Prop where
  linked : ∀ e, v.Linked e
  cr3 : ∀ e d, v.place (.pageDir e) = some d → (v.globals.envs e).envCr3 = toPhysicalAddress d
  diskLinked : ∀ e, v.DiskLinked e

/-- The abstract state is the kernel's, and it is consistent. -/
structure Sound (s : Kernel) (v : View) : Prop extends v.Pointers where
  rep : Rep s v
  pageFile : PageFile v

theorem View.Linked.setEnv {g : Env → Env} {e' : Nat} (linked : v.Linked e)
    (dir : ∀ env, (g env).envPageDirectory = env.envPageDirectory) : (v.setEnv e' g).Linked e := by
  rcases eq_or_ne e e' with rfl | ne
  · simpa [View.Linked, View.setEnv, Globals.setEnv, dir] using linked
  · simpa [View.Linked, View.setEnv, Globals.setEnv, Function.update_of_ne ne] using linked

theorem View.setEnv_setEnv (v : View) (e : Nat) (g g' : Env → Env) :
    (v.setEnv e g).setEnv e g' = v.setEnv e fun env => g' (g env) := by
  simp [View.setEnv, Globals.setEnv, View.setGlobals]

namespace View.Pointers

theorem setEnv (ptrs : v.Pointers) (e : Nat) (g : Env → Env)
    (dir : ∀ env, (g env).envPageDirectory = env.envPageDirectory)
    (cr3 : ∀ env, (g env).envCr3 = env.envCr3)
    (diskDir : ∀ env, (g env).diskEnvPgdir = env.diskEnvPgdir)
    (pa : ∀ env, (g env).diskEnvPgdirPA = env.diskEnvPgdirPA) : (v.setEnv e g).Pointers where
  linked e' := (ptrs.linked e').setEnv dir
  cr3 e' d here := by
    have old := ptrs.cr3 e' d here
    rcases eq_or_ne e' e with rfl | ne
    · simpa [View.setEnv, Globals.setEnv, cr3] using old
    · simpa [View.setEnv, Globals.setEnv, ne] using old
  diskLinked e' := (ptrs.diskLinked e').setEnv diskDir pa

/-- The directories lie where they did. -/
theorem congr (ptrs : v.Pointers) (dirs : ∀ e, v'.place (.pageDir e) = v.place (.pageDir e))
    (diskDirs : ∀ e, v'.place (.diskDir e) = v.place (.diskDir e))
    (envs : v'.globals.envs = v.globals.envs) : v'.Pointers where
  linked e := by
    rw [View.Linked, envs, dirs]
    exact ptrs.linked e
  cr3 e d here := by
    rw [envs]
    exact ptrs.cr3 e d (dirs e ▸ here)
  diskLinked e := by
    refine ⟨?_, fun d here => ?_⟩
    · rw [envs, diskDirs]
      exact (ptrs.diskLinked e).dir
    · rw [envs]
      rw [diskDirs] at here
      exact (ptrs.diskLinked e).pa d here

theorem withDiskDir (ptrs : v.Pointers) (e : Nat) : (v.withDiskDir e).Pointers := by
  unfold View.withDiskDir
  split
  · rename_i f _ absent _
    refine ⟨fun e' => ?_, fun e' d here => ?_, fun e' => ?_⟩
    · have linked : (v.setEnv e (Env.setDiskDir f)).Linked e' :=
        (ptrs.linked e').setEnv fun _ => rfl
      simpa [View.Linked, View.newDiskDir, View.setEnv] using linked
    · have old := ptrs.cr3 e' d (by simpa [View.newDiskDir, View.setEnv] using here)
      rcases eq_or_ne e' e with rfl | ne
      · simpa [View.newDiskDir, View.setEnv, Globals.setEnv, Env.setDiskDir] using old
      · simpa [View.newDiskDir, View.setEnv, Globals.setEnv, ne] using old
    · rcases eq_or_ne e' e with rfl | ne
      · refine ⟨?_, fun d here => ?_⟩
        · simp [View.newDiskDir, View.setEnv, Globals.setEnv, Env.setDiskDir]
        · simp only [View.newDiskDir, View.setEnv, View.setGlobals_toView, View.put_place,
            Function.update_self, Option.some.injEq] at here
          simp [View.newDiskDir, View.setEnv, Globals.setEnv, Env.setDiskDir, here]
      · have dir := (ptrs.diskLinked e').dir
        have pa := (ptrs.diskLinked e').pa
        exact ⟨by simpa [View.newDiskDir, View.setEnv, Globals.setEnv, ne] using dir,
          by simpa [View.newDiskDir, View.setEnv, Globals.setEnv, ne] using pa⟩
  · exact ptrs

theorem withTables (ptrs : v.Pointers) (e va : Nat) : (v.withTables e va).Pointers :=
  (ptrs.withDiskDir e).congr (fun _ => View.withDiskTable_place (by simp))
    (fun _ => View.withDiskTable_place (by simp)) (by simp [View.withTables])

end View.Pointers

/-! ## The page file -/

/-- New tables are empty, as missing ones are. -/
theorem Rep.withTables_page {o : Obj} (rep : Rep s v) (ne : o ≠ .diskDir e) :
    (v.withTables e va).page o = v.page o := by
  rw [← rep.withDiskDir_page (e := e), View.withTables, View.withDiskTable]
  split
  · rename_i t _ absent _
    rw [View.withDiskDir_place (by simp)] at absent
    have empty : v.page (.diskTable e (pdx va)) = zeroes := rep.wf.absent _ absent
    rcases eq_or_ne o (.diskTable e (pdx va)) with rfl | ne'
    · simp [View.newDiskTable, rep.withDiskDir_page, empty]
    · simp [View.newDiskTable, Function.update_of_ne ne, Function.update_of_ne ne']
  · rfl

theorem View.withTables_place {o : Obj} (ne : o ≠ .diskDir e) (ne' : o ≠ .diskTable e (pdx va)) :
    (v.withTables e va).place o = v.place o := by
  rw [View.withTables, View.withDiskTable_place ne', View.withDiskDir_place ne]

theorem PageFile.withTables (pf : PageFile v) (rep : Rep s v) (lt : UserVa va) :
    PageFile (v.withTables e va) := by
  refine pf.congr (fun e' i => rep.withTables_page (by simp)) (by simp [View.withTables])
    fun e' i ge => ?_
  rcases eq_or_ne e' e with rfl | ne
  · have ne' : i ≠ pdx va := by
      rintro rfl
      exact absurd lt (Fin.not_lt.mpr ge)
    rw [View.withTables, View.withDiskTable_entry ne', rep.withDiskDir_page]
    exact pf.high e' i ge
  · rw [rep.withTables_page (by simp [ne])]
    exact pf.high e' i ge

/-- The page gets the first free disk frame, or nothing happens. -/
theorem View.assignDfn_eq (v : View) (e va : Nat) :
    v.assignDfn e va = v ∨ ∃ d ds, v.diskFree = d :: ds ∧ v.dfn e va = 0 ∧
      v.assignDfn e va = v.takeDfn e va d := by
  unfold View.assignDfn
  split
  · rename_i d ds free
    split
    · rename_i zero
      exact Or.inr ⟨d, ds, free, zero, rfl⟩
    · exact Or.inl rfl
  · exact Or.inl rfl

@[simp] theorem View.assignDfn_place (v : View) (e va : Nat) :
    (v.assignDfn e va).place = v.place := by
  rcases v.assignDfn_eq e va with same | ⟨d, ds, -, -, same⟩ <;> rw [same]
  simp [View.takeDfn]

@[simp] theorem View.assignDfn_free (v : View) (e va : Nat) :
    (v.assignDfn e va).free = v.free := by
  rcases v.assignDfn_eq e va with same | ⟨d, ds, -, -, same⟩ <;> rw [same]
  simp [View.takeDfn]

/-- The tables of a page take two frames at most. -/
theorem View.length_withDiskDir (v : View) (e : Nat) :
    v.free.length ≤ (v.withDiskDir e).free.length + 1 := by
  unfold View.withDiskDir
  split
  · rename_i f rest _ free
    simp [View.newDiskDir, View.setEnv, free]
  · exact Nat.le_succ _

theorem View.length_withTables (v : View) (e va : Nat) :
    v.free.length ≤ (v.withTables e va).free.length + 2 := by
  refine (View.length_withDiskDir v e).trans (Nat.succ_le_succ ?_)
  rw [View.withTables]
  generalize v.withDiskDir e = w
  unfold View.withDiskTable
  split
  · rename_i f rest _ free
    simp [View.newDiskTable, free]
  · exact Nat.le_succ _

@[simp] theorem View.assignDfn_globals (v : View) (e va : Nat) :
    (v.assignDfn e va).globals = v.globals := by
  rcases v.assignDfn_eq e va with same | ⟨d, ds, -, -, same⟩ <;> rw [same]
  simp [View.takeDfn]

theorem PageFile.assignDfn (pf : PageFile v) (e va : Nat) : PageFile (v.assignDfn e va) := by
  rcases v.assignDfn_eq e va with same | ⟨d, ds, free, zero, same⟩
  · rwa [same]
  · rw [same]
    exact pf.takeDfn zero free

theorem PageFile.addPage (pf : PageFile v) (rep : Rep s v) (lt : UserVa va) :
    PageFile (v.addPage e va) :=
  (pf.withTables rep lt).assignDfn e va

theorem View.Pointers.addPage (ptrs : v.Pointers) (e va : Nat) : (v.addPage e va).Pointers :=
  (ptrs.withTables e va).congr (fun _ => by simp [View.addPage]) (fun _ => by simp [View.addPage])
    (by simp [View.addPage])

namespace Sound

variable (sound : Sound s v)

include sound

/-- Changing members of an environment that are not pointers to directories. -/
theorem setEnv (e : Nat) (g : Env → Env)
    (dir : ∀ env, (g env).envPageDirectory = env.envPageDirectory)
    (cr3 : ∀ env, (g env).envCr3 = env.envCr3)
    (diskDir : ∀ env, (g env).diskEnvPgdir = env.diskEnvPgdir)
    (pa : ∀ env, (g env).diskEnvPgdirPA = env.diskEnvPgdirPA) :
    Sound (s.setGlobals (s.globals.setEnv e g)) (v.setEnv e g) where
  toPointers := sound.toPointers.setEnv e g dir cr3 diskDir pa
  rep := sound.rep.setEnv e g
  pageFile := sound.pageFile.congr (fun _ _ => rfl) rfl sound.pageFile.high

theorem withDiskDir (rep : Rep s' (v.withDiskDir e)) : Sound s' (v.withDiskDir e) where
  toPointers := sound.toPointers.withDiskDir e
  rep := rep
  pageFile := sound.pageFile.withDiskDir sound.rep

theorem withTables (lt : UserVa va) (rep : Rep s' (v.withTables e va)) :
    Sound s' (v.withTables e va) where
  toPointers := sound.toPointers.withTables e va
  rep := rep
  pageFile := sound.pageFile.withTables sound.rep lt

theorem addPage (lt : UserVa va) (rep : Rep s' (v.addPage e va)) : Sound s' (v.addPage e va) where
  toPointers := sound.toPointers.addPage e va
  rep := rep
  pageFile := sound.pageFile.addPage sound.rep lt

/-- A page is added with contents. -/
theorem storeAdded {p : Page} (lt : UserVa va)
    (rep : Rep s' ((v.addPage e va).storePage e va p)) :
    Sound s' ((v.addPage e va).storePage e va p) where
  toPointers := (sound.toPointers.addPage e va).congr (fun _ => rfl) (fun _ => rfl) rfl
  rep := rep
  pageFile :=
    have added := sound.pageFile.addPage (e := e) sound.rep lt
    added.congr (fun _ _ => rfl) rfl added.high

theorem storePage {p : Page} (rep : Rep s' (v.storePage e va p)) :
    Sound s' (v.storePage e va p) where
  toPointers := sound.toPointers.congr (fun _ => rfl) (fun _ => rfl) rfl
  rep := rep
  pageFile := sound.pageFile.congr (fun _ _ => rfl) rfl sound.pageFile.high

theorem dropDfn {i j : Fin 1024} (rep : Rep s' (v.dropDfn e i j)) : Sound s' (v.dropDfn e i j) where
  toPointers := by
    have edit : v.TableEdit (v.dropDfn e i j) e i :=
      View.TableEdit.dropDfn ⟨rfl, rfl, fun _ _ => rfl, rfl⟩ j
    exact sound.toPointers.congr (fun _ => by rw [edit.place]) (fun _ => by rw [edit.place])
      (by rw [edit.globals])
  rep := rep
  pageFile := sound.pageFile.dropDfn e i j

theorem freed (rep : Rep s' v') (pageFile : PageFile v') (freed : v.Freed v' e) :
    Sound s' v' where
  linked e' := by
    have linked : (v.setEnv e Env.clearDiskDir).Linked e' :=
      (sound.linked e').setEnv fun _ => rfl
    rw [View.Linked, freed.globals, freed.keeps.place _ id]
    exact linked
  cr3 e' d here := by
    rw [freed.keeps.place _ id] at here
    have old := sound.cr3 e' d here
    rw [freed.globals]
    rcases eq_or_ne e' e with rfl | ne
    · simpa [Globals.setEnv, Env.clearDiskDir] using old
    · simpa [Globals.setEnv, ne] using old
  diskLinked e' := by
    rcases eq_or_ne e' e with rfl | ne
    · have gone := freed.gone (.diskDir e') rfl
      refine ⟨?_, fun d here => ?_⟩
      · rw [freed.globals, gone]
        simp [Globals.setEnv, Env.clearDiskDir]
      · rw [gone] at here
        cases here
    · have place : v'.place (.diskDir e') = v.place (.diskDir e') := freed.keeps.place _ ne
      have env : v'.globals.envs e' = v.globals.envs e' := by
        simp [freed.globals, Globals.setEnv, ne]
      have linked := sound.diskLinked e'
      exact ⟨by rw [env, place, linked.dir], fun d here => by
        rw [env, linked.pa d (place ▸ here)]⟩
  rep := rep
  pageFile := pageFile

end Sound

/-! ## Pages in memory -/

/-- Only page tables and pages of `e` in memory, and entries of its page directory, are
different. -/
structure View.UserEdit (v v' : View) (e : Nat) : Prop where
  place : ∀ o, ¬ Obj.UserOf e o → v'.place o = v.place o
  dir : v'.place (.pageDir e) = v.place (.pageDir e)
  page : ∀ o, ¬ Obj.UserOf e o → v'.page o = v.page o
  diskFree : v'.diskFree = v.diskFree
  globals : v'.globals = v.globals

theorem Obj.ne_of_not_userOf {o c : Obj} (out : ¬ Obj.UserOf e o) (mine : Obj.UserOf e c) :
    o ≠ c := by
  rintro rfl
  exact out mine

namespace View.UserEdit

theorem refl (v : View) (e : Nat) : v.UserEdit v e :=
  ⟨fun _ _ => rfl, rfl, fun _ _ => rfl, rfl, rfl⟩

theorem trans {v'' : View} (first : v.UserEdit v' e) (second : v'.UserEdit v'' e) :
    v.UserEdit v'' e where
  place o out := (second.place o out).trans (first.place o out)
  dir := second.dir.trans first.dir
  page o out := (second.page o out).trans (first.page o out)
  diskFree := second.diskFree.trans first.diskFree
  globals := second.globals.trans first.globals

theorem take (v : View) (e f : Nat) : v.UserEdit (v.take f) e :=
  ⟨fun _ _ => rfl, rfl, fun _ _ => rfl, rfl, rfl⟩

theorem setPte (v : View) (e va : Nat) (w : Word) : v.UserEdit (v.setPte e va w) e := by
  refine ⟨fun _ _ => rfl, rfl, fun o out => ?_, rfl, rfl⟩
  have ne : o ≠ .pageTable e (pdx va) := Obj.ne_of_not_userOf out rfl
  simp [View.setPte, ne]

theorem setPage (v : View) (e va : Nat) (p : Page) :
    v.UserEdit (v.setPage (userPageAt e va) p) e := by
  refine ⟨fun _ _ => rfl, rfl, fun o out => ?_, rfl, rfl⟩
  have ne : o ≠ userPageAt e va := Obj.ne_of_not_userOf out rfl
  simp [ne]

theorem touch (v : View) (e va : Nat) (write : Bool) : v.UserEdit (v.touch e va write) e := by
  have used : v.UserEdit
      (v.write (.pageDir e) (pdx va) (v.page (.pageDir e) (pdx va) ||| permUsed)) e := by
    refine ⟨fun _ _ => rfl, rfl, fun o out => ?_, rfl, rfl⟩
    have ne : o ≠ .pageDir e := Obj.ne_of_not_userOf out rfl
    simp [ne]
  exact used.trans (setPte ..)

theorem readIn (v : View) (e va : Nat) (p : Page) : v.UserEdit (v.readIn e va p) e :=
  ((touch v e va true).trans (setPage ..)).trans (setPte ..)

theorem lose (v : View) (e va : Nat) : v.UserEdit (v.lose e va) e := by
  unfold View.lose
  split
  · rename_i f _
    refine (setPte v e va 0).trans ⟨fun o out => ?_, ?_, fun o out => ?_, rfl, rfl⟩
    · have ne : o ≠ userPageAt e va := Obj.ne_of_not_userOf out rfl
      simp [ne]
    · simp
    · have ne : o ≠ userPageAt e va := Obj.ne_of_not_userOf out rfl
      simp [ne]
  · exact refl v e

theorem unmap (v : View) (e va : Nat) : v.UserEdit (v.unmap e va) e := by
  have lost := lose v e va
  unfold View.lose at lost
  unfold View.unmap
  split
  · rename_i f here
    rw [here] at lost
    exact ⟨lost.place, lost.dir, lost.page, lost.diskFree, lost.globals⟩
  · exact refl v e

theorem evict (v : View) (e va : Nat) : v.UserEdit (v.evict e va) e := by
  unfold View.evict
  split
  · exact unmap v e va
  · exact refl v e

theorem withTable (v : View) (e : Nat) (i : Fin 1024) : v.UserEdit (v.withTable e i) e := by
  unfold View.withTable
  split
  · rename_i t _ _ _
    refine ⟨fun o out => ?_, ?_, fun o out => ?_, rfl, rfl⟩
    · have ne : o ≠ .pageTable e i := Obj.ne_of_not_userOf out rfl
      simp [View.newTable, ne]
    · simp [View.newTable]
    · have ne : o ≠ .pageTable e i := Obj.ne_of_not_userOf out rfl
      have ne' : o ≠ .pageDir e := Obj.ne_of_not_userOf out rfl
      simp [View.newTable, ne, ne']
  · exact refl v e

theorem mapPage (v : View) (e va f : Nat) (w : Word) (p : Page) :
    v.UserEdit (v.mapPage e va f w p) e := by
  refine (setPte v e va w).trans ⟨fun o out => ?_, ?_, fun o out => ?_, rfl, rfl⟩
  · have ne : o ≠ userPageAt e va := Obj.ne_of_not_userOf out rfl
    simp [View.mapPage, View.setPte, ne]
  · simp [View.mapPage, View.setPte]
  · have ne : o ≠ userPageAt e va := Obj.ne_of_not_userOf out rfl
    simp [View.mapPage, View.setPte, ne]

end View.UserEdit

/-- Edits of the page tables and pages in memory. -/
theorem Sound.editUser (sound : Sound s v) (edit : v.UserEdit v' e) (rep : Rep s' v') :
    Sound s' v' where
  toPointers := by
    refine sound.toPointers.congr (fun e' => ?_) (fun e' => edit.place _ id) (by rw [edit.globals])
    rcases eq_or_ne e' e with rfl | ne
    · exact edit.dir
    · exact edit.place _ ne
  rep := rep
  pageFile := sound.pageFile.congr (fun _ _ => edit.page _ id) edit.diskFree fun e' i ge => by
    rw [edit.page _ id]
    exact sound.pageFile.high e' i ge

/-- A frame off the free list holds the page at `va`, in place of what was there. -/
def View.mapNew (v : View) (e va f : Nat) (w : Word) (p : Page) : View :=
  ((((v.take f).withTable e (pdx va)).evict e va).lose e va).mapPage e va f w p

theorem View.UserEdit.mapNew (v : View) (e va f : Nat) (w : Word) (p : Page) :
    v.UserEdit (v.mapNew e va f w p) e :=
  ((((take v e f).trans (withTable ..)).trans (evict ..)).trans (lose ..)).trans (mapPage ..)

theorem View.length_withTable (v : View) (e : Nat) (i : Fin 1024) :
    v.free.length ≤ (v.withTable e i).free.length + 1 := by
  unfold View.withTable
  split
  · simp only [View.newTable, View.put_free, View.write_free, View.take_free, List.length_tail]
    omega
  · exact Nat.le_succ _

theorem View.lose_free (v : View) (e va : Nat) : (v.lose e va).free = v.free := by
  unfold View.lose
  split <;> rfl

theorem View.length_evict (v : View) (e va : Nat) : v.free.length ≤ (v.evict e va).free.length := by
  unfold View.evict View.unmap
  split
  · split
    · exact Nat.le_succ _
    · rfl
  · rfl

/-- The page and a table for it take two frames. -/
theorem View.length_mapNew (v : View) (e va f : Nat) (w : Word) (p : Page) :
    v.free.length ≤ (v.mapNew e va f w p).free.length + 2 := by
  have table := (v.take f).length_withTable e (pdx va)
  have evict := ((v.take f).withTable e (pdx va)).length_evict e va
  show v.free.length ≤ (View.lose _ e va).free.length + 2
  rw [View.lose_free]
  simp only [View.take_free, List.length_tail] at table
  omega

/-- `allocate_frame` and `map_frame` one after the other. -/
theorem mapNew_wp {d : Nat} {Q : Unit → Kernel → Prop} {perm : Word} (sound : Sound s v)
    (dir : v.place (.pageDir e) = some d) (lt : UserVa va) (isPerm : IsPerm (perm ||| permPresent))
    (done : ∀ f rest s' p, v.free = f :: rest → Sound s' (v.mapNew e va f
      (constructEntry (toPhysicalAddress f) (perm ||| permPresent)) p) → Q () s')
    (full : ∀ s' v', Sound s' v' → (v' = v ∧ v.free = [] ∨ ∃ f, v' = v.take f ∧ v.free = [f]) →
      E outOfMemory s') :
    wp allocateFrame (fun f s' => wp (envPageDirectory e) (fun d s' =>
      wp (mapFrame d f va perm) Q E s') E s') E s := by
  apply allocateFrame_wp sound.rep
  · intro f rest s₁ free taken _
    have linked : (v.take f).Linked e := sound.linked e
    apply envPageDirectory_wp taken linked dir
    apply mapFrame_wp taken dir lt (by simp) isPerm
    · intro s₂ p mapped
      exact done f rest s₂ p free (sound.editUser (View.UserEdit.mapNew v e va f _ p) mapped)
    · intro _ last
      rw [View.take_free, free, List.tail_cons] at last
      exact full s₁ _ (sound.editUser (View.UserEdit.take v e f) taken)
        (Or.inr ⟨f, rfl, last ▸ free⟩)
  · intro none
    exact full s v sound (Or.inl ⟨rfl, none⟩)

end Fos
