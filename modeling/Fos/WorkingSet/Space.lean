import Fos.WorkingSet.FreeMem
import Fos.WorkingSet.Spares

/-!
# The address space of a running environment

What the working set, the page table entries and the page file of an environment are, and
what each function that a fault or `freeMem` calls does to the three.

* `View.ptes`: the page table entries, and what the edits do to them;
* `View.Then`: the entries and the page file after a step, other things being equal;
* `Space`: a consistent state with its lists, and `Space.*_wp`: the functions.
-/

namespace Fos

open Arena Exec Linked

variable {s s' : Kernel} {v v' v'' : View} {e va f : Nat} {w : Word} {p : PageNo}

/-- The page table entries of an environment. -/
def View.ptes (v : View) (e : Nat) (p : PageNo) : Word := v.page (.pageTable e p.1) p.2

theorem View.pte_eq (v : View) (e va : Nat) : v.pte e va = v.ptes e (pageNo va) := rfl

theorem View.ptes_write (v : View) (e : Nat) (p : PageNo) (w : Word) :
    (v.write (.pageTable e p.1) p.2 w).ptes e = Function.update (v.ptes e) p w := by
  funext q
  simp only [View.ptes, View.write_page, Function.update_apply]
  by_cases table : q.1 = p.1
  · by_cases entry : q.2 = p.2
    · have eq : q = p := Prod.ext table entry
      rw [if_pos (by rw [table]), if_pos eq, entry, Function.update_self]
    · have ne : q ≠ p := fun eq => entry (congrArg Prod.snd eq)
      rw [if_pos (by rw [table]), if_neg ne, Function.update_of_ne entry, table]
  · have ne : q ≠ p := fun eq => table (congrArg Prod.fst eq)
    have other : Obj.pageTable e q.1 ≠ .pageTable e p.1 := by simpa using table
    rw [if_neg other, if_neg ne]

theorem View.ptes_setPte (v : View) (e va : Nat) (w : Word) :
    (v.setPte e va w).ptes e = Function.update (v.ptes e) (pageNo va) w :=
  v.ptes_write e (pageNo va) w

/-- The entries are those of the page tables. -/
theorem View.ptes_congr (page : ∀ i, v'.page (.pageTable e i) = v.page (.pageTable e i)) :
    v'.ptes e = v.ptes e := by
  funext p
  rw [View.ptes, page, View.ptes]

/-- A page that goes takes its entry with it. -/
theorem Rep.ptes_unmap (rep : Rep s v) (e va : Nat) :
    (v.unmap e va).ptes e = Function.update (v.ptes e) (pageNo va) 0 := by
  unfold View.unmap
  split
  · rw [← View.ptes_setPte]
    refine View.ptes_congr fun i => ?_
    simp
  · rename_i none
    have zero : v.ptes e (pageNo va) = 0 := rep.place_userPage_none.mp none
    rw [← zero, Function.update_eq_self]

theorem View.ptes_unmap_of_ne (ne : p ≠ pageNo va) : (v.unmap e va).ptes e p = v.ptes e p := by
  unfold View.unmap
  split
  · rename_i g _
    have same : (((v.setPte e va 0).drop (userPageAt e va) g).give g).ptes e =
        (v.setPte e va 0).ptes e := View.ptes_congr fun i => by simp
    rw [same, View.ptes_setPte, Function.update_of_ne ne]
  · rfl

theorem View.ptes_lose_of_ne (ne : p ≠ pageNo va) : (v.lose e va).ptes e p = v.ptes e p := by
  unfold View.lose
  split
  · rename_i g _
    have same : ((v.setPte e va 0).drop (userPageAt e va) g).ptes e = (v.setPte e va 0).ptes e :=
      View.ptes_congr fun i => by simp
    rw [same, View.ptes_setPte, Function.update_of_ne ne]
  · rfl

theorem View.ptes_evict_of_ne (ne : p ≠ pageNo va) : (v.evict e va).ptes e p = v.ptes e p := by
  unfold View.evict
  split
  · exact View.ptes_unmap_of_ne ne
  · rfl

/-- A new table is empty. -/
theorem View.ptes_withTable (absent : ∀ i, v.place (.pageTable e i) = none →
    v.page (.pageTable e i) = zeroes) (i : Fin 1024) : (v.withTable e i).ptes e = v.ptes e := by
  refine View.ptes_congr fun i' => ?_
  unfold View.withTable
  split
  · rename_i t _ none _
    rcases eq_or_ne i' i with rfl | ne
    · simp [View.newTable, absent i' none]
    · simp [View.newTable, ne]
  · rfl

theorem View.ptes_mapPage (v : View) (e va f : Nat) (w : Word) (p : Page) :
    (v.mapPage e va f w p).ptes e = Function.update (v.ptes e) (pageNo va) w := by
  rw [← View.ptes_setPte]
  refine View.ptes_congr fun i => ?_
  simp [View.mapPage]

/-- A frame comes to hold the page at `va`. -/
theorem Rep.ptes_mapNew (rep : Rep s v) (e va f : Nat) (w : Word) (p : Page) :
    (v.mapNew e va f w p).ptes e = Function.update (v.ptes e) (pageNo va) w := by
  rw [View.mapNew, View.ptes_mapPage]
  funext q
  rcases eq_or_ne q (pageNo va) with rfl | ne
  · rw [Function.update_self, Function.update_self]
  · rw [Function.update_of_ne ne, Function.update_of_ne ne, View.ptes_lose_of_ne ne,
      View.ptes_evict_of_ne ne]
    exact congrFun (View.ptes_withTable (v := v.take f) (fun i none => rep.wf.absent _ none) _) q

/-- An access leaves the other entries alone. -/
theorem View.ptes_access (v : View) (e va : Nat) (write : Bool) (p : Page) :
    ((v.touch e va write).setPage (userPageAt e va) p).ptes e =
      Function.update (v.ptes e) (pageNo va) (accessed (v.ptes e (pageNo va)) write) := by
  have same : ((v.touch e va write).setPage (userPageAt e va) p).ptes e =
      (v.touch e va write).ptes e := View.ptes_congr fun i => by simp
  rw [same, View.touch, View.ptes_setPte]
  congr 1

/-- Reading the page in clears its dirty bit. -/
theorem View.ptes_readIn (v : View) (e va : Nat) (p : Page) :
    (v.readIn e va p).ptes e = Function.update (v.ptes e) (pageNo va)
      ((accessed (v.ptes e (pageNo va)) true ||| 0) &&& ~~~permModified) := by
  rw [View.readIn, View.ptes_setPte, View.ptes_access, Function.update_idem, View.touch_pte]
  rfl

/-! ## Page tables -/

/-- A page that goes gives its frame back. -/
theorem View.length_unmap (v : View) (e va : Nat) : v.free.length ≤ (v.unmap e va).free.length := by
  unfold View.unmap
  split
  · exact Nat.le_succ _
  · exact le_rfl

theorem View.lose_place_table (v : View) (e va : Nat) (i : Fin 1024) :
    (v.lose e va).place (.pageTable e i) = v.place (.pageTable e i) := by
  unfold View.lose
  split
  · simp [View.setPte]
  · rfl

/-- A table that is there stays. -/
theorem View.withTable_place_table {i i' : Fin 1024} (table : v.place (.pageTable e i) ≠ none) :
    (v.withTable e i').place (.pageTable e i) ≠ none := by
  unfold View.withTable
  split
  · rcases eq_or_ne i i' with rfl | ne
    · simp [View.newTable]
    · simpa [View.newTable, ne] using table
  · exact table

theorem View.mapNew_place_table {p : Page} {i : Fin 1024}
    (table : v.place (.pageTable e i) ≠ none) :
    (v.mapNew e va f w p).place (.pageTable e i) ≠ none := by
  have mapped : (v.mapNew e va f w p).place (.pageTable e i) =
      ((v.take f).withTable e (pdx va)).place (.pageTable e i) := by
    rw [View.mapNew, ← View.evict_place_table ((v.take f).withTable e (pdx va)) e e va,
      ← View.lose_place_table (View.evict _ e va) e va]
    simp [View.mapPage, View.setPte]
  rw [mapped]
  exact View.withTable_place_table table

/-! ## Steps -/

/-- After a step the page directory of `e` lies where it did, its address space is still the
current one if it was, and no page table is gone; its page table entries are `T` and the
entries of its page file `D`, and at most `n` frames have been taken, without which no page
table is made.  The other environments are as they were. -/
structure View.Then (v v' : View) (e : Nat) (T D : PageNo → Word) (n : Nat) : Prop where
  dir : v'.place (.pageDir e) = v.place (.pageDir e)
  tables : ∀ i, v.place (.pageTable e i) ≠ none → v'.place (.pageTable e i) ≠ none
  kept : n = 0 → ∀ i, v'.place (.pageTable e i) = v.place (.pageTable e i)
  curenv : v'.globals.curenv = v.globals.curenv
  cr3 : v'.globals.cr3 = v.globals.cr3
  envsAddress : v'.globals.envsAddress = v.globals.envsAddress
  ptes : v'.ptes e = T
  entry : v'.entry e = D
  free : v.free.length ≤ v'.free.length + n
  spares : v.Spares v' e

variable {T T' D D' : PageNo → Word} {n n' : Nat}

theorem View.Then.refl (v : View) (e : Nat) : v.Then v e (v.ptes e) (v.entry e) 0 :=
  ⟨rfl, fun _ h => h, fun _ _ => rfl, rfl, rfl, rfl, rfl, rfl, le_rfl, .refl v e⟩

theorem View.Then.trans (first : v.Then v' e T D n) (second : v'.Then v'' e T' D' n') :
    v.Then v'' e T' D' (n + n') where
  dir := second.dir.trans first.dir
  tables i table := second.tables i (first.tables i table)
  kept none i := by
    obtain ⟨none, none'⟩ := Nat.add_eq_zero_iff.mp none
    rw [second.kept none', first.kept none]
  curenv := second.curenv.trans first.curenv
  cr3 := second.cr3.trans first.cr3
  envsAddress := second.envsAddress.trans first.envsAddress
  ptes := second.ptes
  entry := second.entry
  free := by
    have before := first.free
    have after := second.free
    omega
  spares := first.spares.trans second.spares

/-- The other environments are as they were, and the current one still is. -/
structure View.Beside (v v' : View) (e : Nat) : Prop where
  spares : v.Spares v' e
  curenv : v'.globals.curenv = v.globals.curenv
  envsAddress : v'.globals.envsAddress = v.globals.envsAddress

theorem View.Beside.refl (v : View) (e : Nat) : v.Beside v e := ⟨.refl v e, rfl, rfl⟩

theorem View.Beside.trans (first : v.Beside v' e) (second : v'.Beside v'' e) : v.Beside v'' e :=
  ⟨first.spares.trans second.spares, second.curenv.trans first.curenv,
    second.envsAddress.trans first.envsAddress⟩

theorem View.Then.beside (next : v.Then v' e T D n) : v.Beside v' e :=
  ⟨next.spares, next.curenv, next.envsAddress⟩

theorem View.Then.mono (next : v.Then v' e T D n) (le : n ≤ n') : v.Then v' e T D n' :=
  { next with
    kept := fun none => next.kept (Nat.eq_zero_of_le_zero (none ▸ le))
    free := next.free.trans (Nat.add_le_add_left le _) }

/-- Edits of the page tables and pages in memory. -/
theorem View.UserEdit.then (edit : v.UserEdit v' e) (ptes : v'.ptes e = T)
    (tables : ∀ i, v.place (.pageTable e i) ≠ none → v'.place (.pageTable e i) ≠ none)
    (kept : n = 0 → ∀ i, v'.place (.pageTable e i) = v.place (.pageTable e i))
    (free : v.free.length ≤ v'.free.length + n) (spares : v.Spares v' e) :
    v.Then v' e T (v.entry e) n where
  dir := edit.dir
  tables := tables
  kept := kept
  curenv := by rw [edit.globals]
  cr3 := by rw [edit.globals]
  envsAddress := by rw [edit.globals]
  ptes := ptes
  free := free
  spares := spares
  entry := by
    funext p
    rw [View.entry, edit.page _ id, View.entry]

/-- Changing members of the environment. -/
theorem View.Then.setEnv (v : View) (e : Nat) (g : Env → Env) :
    v.Then (v.setEnv e g) e (v.ptes e) (v.entry e) 0 :=
  ⟨rfl, fun _ h => h, fun _ _ => rfl, rfl, rfl, rfl, rfl, rfl, le_rfl, .setEnv v e g⟩

/-- Tables of the page file are made. -/
theorem Rep.then_withDiskDir (rep : Rep s v) (e : Nat) :
    v.Then (v.withDiskDir e) e (v.ptes e) (v.entry e) 1 where
  dir := View.withDiskDir_place (by simp)
  tables i table := by rwa [View.withDiskDir_place (by simp)]
  kept := nofun
  curenv := by
    rcases View.withDiskDir_globals (v := v) (e := e) with same | ⟨f, same⟩ <;> rw [same]
    rfl
  cr3 := by
    rcases View.withDiskDir_globals (v := v) (e := e) with same | ⟨f, same⟩ <;> rw [same]
    rfl
  envsAddress := by
    rcases View.withDiskDir_globals (v := v) (e := e) with same | ⟨f, same⟩ <;> rw [same]; rfl
  ptes := View.ptes_congr fun i => by rw [rep.withDiskDir_page]
  entry := by
    funext p
    rw [View.entry, rep.withDiskDir_page, View.entry]
  free := View.length_withDiskDir v e
  spares := rep.spares_withDiskDir e

theorem Rep.then_withTables (rep : Rep s v) (e va : Nat) :
    v.Then (v.withTables e va) e (v.ptes e) (v.entry e) 2 := by
  have made := rep.then_withDiskDir e
  have globals : (v.withTables e va).globals = (v.withDiskDir e).globals :=
    View.withDiskTable_globals ..
  refine ⟨View.withTables_place (by simp) (by simp), fun i table => ?_, nofun, ?_, ?_, ?_, ?_, ?_,
    View.length_withTables v e va, rep.spares_withTables e va⟩
  · rwa [View.withTables_place (by simp) (by simp)]
  · rw [globals, made.curenv]
  · rw [globals, made.cr3]
  · rw [globals, made.envsAddress]
  · exact View.ptes_congr fun i => rep.withTables_page (by simp)
  · funext p
    exact rep.withTables_entry e p

/-- A page is added to the page file. -/
theorem Rep.then_addPage (rep : Rep s v) (e va : Nat) :
    v.Then (v.addPage e va) e (v.ptes e)
      (Function.update (v.entry e) (pageNo va) ((v.addPage e va).dfn e va)) 2 := by
  have made := rep.then_withTables e va
  have globals : (v.addPage e va).globals = (v.withTables e va).globals :=
    View.assignDfn_globals ..
  refine ⟨?_, fun i table => ?_, nofun, ?_, ?_, ?_, ?_, ?_, ?_, rep.spares_addPage e va⟩
  · rw [View.addPage, View.assignDfn_place, made.dir]
  · rw [View.addPage, View.assignDfn_place]
    exact made.tables i table
  · rw [globals, made.curenv]
  · rw [globals, made.cr3]
  · rw [globals, made.envsAddress]
  · rw [← made.ptes]
    refine View.ptes_congr fun i => ?_
    rw [View.addPage]
    rcases (v.withTables e va).assignDfn_eq e va with same | ⟨d, ds, -, -, same⟩ <;> rw [same]
    simp [View.takeDfn]
  · funext p
    rcases eq_or_ne p (pageNo va) with rfl | ne
    · rw [Function.update_self]
      rfl
    · rw [Function.update_of_ne ne]
      exact rep.addPage_entry (by simpa using ne)
  · rw [View.addPage, View.assignDfn_free]
    exact made.free

/-- A page is removed from the page file. -/
theorem View.Then.dropDfn (v : View) (e va : Nat) :
    v.Then (v.dropDfn e (pdx va) (ptx va)) e (v.ptes e)
      (Function.update (v.entry e) (pageNo va) 0) 0 := by
  have edit : v.TableEdit (v.dropDfn e (pdx va) (ptx va)) e (pdx va) :=
    View.TableEdit.dropDfn ⟨rfl, rfl, fun _ _ => rfl, rfl⟩ _
  refine ⟨by rw [edit.place], fun i table => by rwa [edit.place], fun _ i => by rw [edit.place],
    by rw [edit.globals], by rw [edit.globals], by rw [edit.globals],
    View.ptes_congr fun i => edit.page _ (by simp), ?_,
    ?_, v.spares_dropDfn e _ _⟩
  · funext p
    rcases eq_or_ne p (pageNo va) with rfl | ne
    · have zero := v.dropDfn_entry e (pdx va) (ptx va) (ptx va)
      rw [if_pos rfl] at zero
      rw [Function.update_self]
      exact zero
    · rw [Function.update_of_ne ne]
      exact View.dropDfn_entry_of_ne (by simpa using ne)
  · unfold View.dropDfn
    split <;> exact le_rfl

/-! ## Functions -/

/-- The state is consistent, the environment has a page directory, and its lists are `w`. -/
structure Space (e : Nat) (env₀ : Env) (s : Kernel) (v : View) (w : WorkingSet) : Prop
    extends Sound s v where
  dir : ∃ d, v.place (.pageDir e) = some d
  listed : Listed e env₀ s w

variable {env₀ : Env} {w w' : WorkingSet} {i : WSList} {x : Nat} {E : Stop → Kernel → Prop}

/-- A function that leaves the working set alone. -/
theorem Space.quiet {α : Type} {m : Prog α} {Q P : α → Kernel → Prop}
    {F : Stop → Kernel → Prop} (space : Space e env₀ s v w) (quiet : Quiet e m)
    (run : wp m P F s) (ends : ∀ a s', P a s' → Listed e env₀ s' w → Q a s')
    (stops : ∀ x s', F x s' → E x s') : wp m Q E s :=
  quiet.and run (fun a s' ran same => ends a s' ran (space.listed.same same)) stops

/-- An edit of the lists. -/
theorem Space.lists_wp {f : Lists WSList Nat → Lists WSList Nat} {Q : Unit → Kernel → Prop}
    (space : Space e env₀ s v w)
    (listed : wp (modifyLists e f) (fun _ s' => Listed e env₀ s' w') (fun _ _ => False) s)
    (done : ∀ s' v', Space e env₀ s' v' w' → v.Then v' e (v.ptes e) (v.entry e) 0 →
      v'.memory e = v.memory e → v'.stored e = v.stored e → Q () s') :
    wp (modifyLists e f) Q E s := by
  have sound := space.toSound.setEnv e (fun env => env.setLists (f env.lists)) (fun _ => rfl)
    (fun _ => rfl) (fun _ => rfl) fun _ => rfl
  exact done _ _ ⟨sound, space.dir, listed⟩ (View.Then.setEnv ..) rfl rfl

theorem Space.envPageDirectory_wp {Q : Nat → Kernel → Prop} (space : Space e env₀ s v w)
    (done : ∀ d, v.place (.pageDir e) = some d → Q d s) : wp (envPageDirectory e) Q E s := by
  obtain ⟨d, dir⟩ := space.dir
  exact Fos.envPageDirectory_wp space.rep (space.linked e) dir (done d dir)

/-- The page that an entry refers to has a table. -/
theorem Space.table (space : Space e env₀ s v w) (entry : v.ptes e (pageNo va) ≠ 0) :
    v.place (.pageTable e (pdx va)) ≠ none := by
  obtain ⟨t, table⟩ := space.rep.place_table entry
  rw [table]
  rintro ⟨⟩

theorem Space.ptSetPagePermissions_wp {set clear : Word} {Q : Unit → Kernel → Prop}
    (space : Space e env₀ s v w) (user : UserVa va) (isSet : IsPerm set) (isClear : IsPerm clear)
    (table : v.place (.pageTable e (pdx va)) ≠ none) (ok : v.ptes e (pageNo va) ≠ 0 ∨ set = 0)
    (done : ∀ s' v', Space e env₀ s' v' w → v.Then v' e
      (Function.update (v.ptes e) (pageNo va) ((v.ptes e (pageNo va) ||| set) &&& ~~~clear))
      (v.entry e) 0 → v'.memory e = v.memory e → v'.stored e = v.stored e → Q () s') :
    wp (ptSetPagePermissions e va set clear) Q E s := by
  obtain ⟨d, dir⟩ := space.dir
  apply space.quiet (quiet_ptSetPagePermissions e e va set clear)
    (Fos.ptSetPagePermissions_wp (E := fun _ _ => False)
      (Q := fun _ s' => Rep s' (v.setPte e va ((v.pte e va ||| set) &&& ~~~clear)))
      space.rep (space.linked e) dir user isSet isClear ok (fun _ h => h)
      fun _ none => table none)
  · intro _ s' rep listed
    have edit := View.UserEdit.setPte v e va ((v.pte e va ||| set) &&& ~~~clear)
    exact done s' _ ⟨space.toSound.editUser edit rep, ⟨d, edit.dir.trans dir⟩, listed⟩
      (edit.then (View.ptes_setPte ..) (fun _ h => h) (fun _ _ => rfl) le_rfl
        (v.spares_setPte e va _)) (View.memory_setPte ..) edit.stored
  · exact fun _ _ => False.elim

theorem Space.unmapFrame_wp {d : Nat} {Q : Unit → Kernel → Prop} (space : Space e env₀ s v w)
    (dir : v.place (.pageDir e) = some d) (user : UserVa va)
    (done : ∀ s' v', Space e env₀ s' v' w →
      v.Then v' e (Function.update (v.ptes e) (pageNo va) 0) (v.entry e) 0 →
      v'.memory e = Function.update (v.memory e) (pageNo va) none → v'.stored e = v.stored e →
      Q () s') : wp (unmapFrame d va) Q E s := by
  apply space.quiet (quiet_unmapFrame e d va)
    (Fos.unmapFrame_wp (E := fun _ _ => False) (Q := fun _ s' => Rep s' (v.unmap e va))
      space.rep dir user fun _ h => h)
  · intro _ s' rep listed
    have edit := View.UserEdit.unmap v e va
    exact done s' _ ⟨space.toSound.editUser edit rep, ⟨d, edit.dir.trans dir⟩, listed⟩
      (edit.then (space.rep.ptes_unmap e va) (fun i table => by rwa [View.unmap_place_table])
        (fun _ => View.unmap_place_table v e va) (View.length_unmap v e va)
        (space.rep.spares_unmap e va))
      (View.memory_unmap v e va) edit.stored
  · exact fun _ _ => False.elim

/-- `allocate_frame` and `map_frame` for a page of the environment that is not mapped. -/
theorem Space.mapNew_wp {perm : Word} {Q : Unit → Kernel → Prop} (space : Space e env₀ s v w)
    (user : UserVa va) (zero : v.ptes e (pageNo va) = 0) (isPerm : IsPerm (perm ||| permPresent))
    (done : ∀ f s' v', Space e env₀ s' v' w → v.Then v' e (Function.update (v.ptes e) (pageNo va)
      (constructEntry (toPhysicalAddress f) (perm ||| permPresent))) (v.entry e) 2 →
      (∃ p, v'.memory e = Function.update (v.memory e) (pageNo va) (some p)) →
      v'.stored e = v.stored e → Q () s')
    (full : v.free.length < 2 → ∀ s', E outOfMemory s') :
    wp allocateFrame (fun f s' => wp (envPageDirectory e) (fun d s' =>
      wp (mapFrame d f va perm) Q E s') E s') E s := by
  obtain ⟨d, dir⟩ := space.dir
  have quiet : Quiet e (do
      let f ← allocateFrame
      mapFrame (← envPageDirectory e) f va perm) :=
    (quiet_allocateFrame e).bind fun f => (quiet_envPageDirectory e e).bind fun d =>
      steps_mapFrame (freeEdits_wsSame e) d f va perm
  have run := space.quiet (E := E) (Q := Q) (F := fun x _ => x = outOfMemory ∧ v.free.length < 2)
    (P := fun _ s' => ∃ f rest p, v.free = f :: rest ∧ Sound s' (v.mapNew e va f
      (constructEntry (toPhysicalAddress f) (perm ||| permPresent)) p)) quiet ?_ ?_ ?_
  · simpa only [wp_bind] using run
  · simp only [wp_bind]
    apply Fos.mapNew_wp space.toSound dir user isPerm
    · exact fun f rest s' p free sound => ⟨f, rest, p, free, sound⟩
    · rintro _ _ _ (⟨-, none⟩ | ⟨f, -, one⟩)
      · simp [none]
      · simp [one]
  · rintro _ s' ⟨f, rest, p, free, sound⟩ listed
    have edit := View.UserEdit.mapNew v e va f
      (constructEntry (toPhysicalAddress f) (perm ||| permPresent)) p
    exact done f s' _ ⟨sound, ⟨d, edit.dir.trans dir⟩, listed⟩
      (edit.then (space.rep.ptes_mapNew e va f _ p) (fun i => View.mapNew_place_table)
        (fun zero => by cases zero)
        (View.length_mapNew v e va f _ p) (space.rep.spares_mapNew free user zero _ p))
      ⟨p, View.memory_mapNew v e va f _ p⟩ edit.stored
  · rintro x s' ⟨rfl, short⟩
    exact full short s'

/-! ## The page file -/

/-- The entry of a page that has been read in. -/
def readInEntry (w : Word) : Word := (accessed w true ||| 0) &&& ~~~permModified

theorem Space.pfReadEnvPage_wp {Q : Int → Kernel → Prop} (space : Space e env₀ s v w)
    (curenv : v.globals.curenv = some e) (current : v.Current e) (aligned : Aligned va)
    (user : UserVa va) (allowed : Allows (v.ptes e (pageNo va)) false true)
    (done : ∀ s' v', v.entry e (pageNo va) ≠ 0 → Space e env₀ s' v' w → v.Then v' e
      (Function.update (v.ptes e) (pageNo va) (readInEntry (v.ptes e (pageNo va)))) (v.entry e) 0 →
      v'.memory e = Function.update (v.memory e) (pageNo va) (v.stored e (pageNo va)) →
      v'.stored e = v.stored e → Q 0 s')
    (absent : ∀ s' v', v.entry e (pageNo va) = 0 → Space e env₀ s' v' w →
      v.Then v' e (v.ptes e) (v.entry e) 0 → v'.memory e = v.memory e → v'.stored e = v.stored e →
      Q ePageNotExistInPF s') :
    wp (pfReadEnvPage e va) Q E s := by
  obtain ⟨d, dir⟩ := space.dir
  have counted : ∀ {s'}, Rep s' (v.setEnv e Env.countIn) → Sound s' (v.setEnv e Env.countIn) := by
    intro s' rep
    have sound := space.toSound.setEnv e Env.countIn (fun _ => rfl) (fun _ => rfl) (fun _ => rfl)
      fun _ => rfl
    exact { sound with rep := rep }
  apply space.quiet (F := fun _ _ => False) (P := fun r s' =>
    r = 0 ∧ v.entry e (pageNo va) ≠ 0 ∧
        Rep s' ((v.setEnv e Env.countIn).readIn e va (v.diskPage (v.dfn e va).toNat)) ∨
      r = ePageNotExistInPF ∧ v.entry e (pageNo va) = 0 ∧ Rep s' (v.setEnv e Env.countIn))
    (steps_pfReadEnvPage (edits_wsSame e) e va)
  · apply Fos.pfReadEnvPage_wp space.rep (space.diskLinked e) curenv (space.linked e) current user
    · intro s' entry _ rep
      rw [aligned.roundDown] at rep
      exact Or.inl ⟨rfl, entry, rep⟩
    · exact fun s' zero rep => Or.inr ⟨rfl, zero, rep⟩
    · exact fun s' _ denied _ => denied allowed
  · rintro r s' (⟨rfl, entry, rep⟩ | ⟨rfl, zero, rep⟩) listed
    · have sound := space.toSound.setEnv e Env.countIn (fun _ => rfl) (fun _ => rfl) (fun _ => rfl)
        fun _ => rfl
      have edit := View.UserEdit.readIn (v.setEnv e Env.countIn) e va
          (v.diskPage (v.dfn e va).toNat)
      have page := space.rep.place_child (child_userPageAt e va) (ne_zero_of_present allowed.1)
      have here : (v.setEnv e Env.countIn).place (userPageAt e va) = some _ := page
      refine done s' _ entry ⟨sound.editUser edit rep, ⟨d, edit.dir.trans dir⟩, listed⟩ ?_ ?_
        edit.stored
      · exact (View.Then.setEnv ..).trans (edit.then (n := 0) (View.ptes_readIn ..) (fun _ h => h)
          (fun _ _ => rfl) le_rfl (View.spares_readIn ..))
      · rw [View.memory_readIn here, View.stored, if_neg entry]
        rfl
    · exact absent s' _ zero ⟨counted rep, ⟨d, dir⟩, listed⟩ (View.Then.setEnv ..) rfl rfl
  · exact fun _ _ => False.elim

theorem Space.pfAddEmptyEnvPage_wp {Q : Int → Kernel → Prop} (space : Space e env₀ s v w)
    (user : UserVa va) (base : va < kernelBase)
    (done : ∀ s' v' x, x ≠ 0 → Space e env₀ s' v' w →
      v.Then v' e (v.ptes e) (Function.update (v.entry e) (pageNo va) x) 2 →
      v'.memory e = v.memory e →
      (∃ p, v'.stored e = Function.update (v.stored e) (pageNo va) (some p) ∧
        ∀ q, v.stored e (pageNo va) = some q → q = p) → Q 0 s')
    (noSpace : ∀ s' v', Space e env₀ s' v' w → v.Then v' e (v.ptes e) (v.entry e) 2 →
      v'.memory e = v.memory e → v'.stored e = v.stored e → Q eNoPageFileSpace s')
    (full : v.free.length < 2 → ∀ s', E outOfMemory s') :
    wp (pfAddEmptyEnvPage e va false) Q E s := by
  obtain ⟨d, dir⟩ := space.dir
  apply space.quiet (F := fun x _ => x = outOfMemory ∧ v.free.length < 2) (P := fun r s' =>
    r = 0 ∧ (v.addPage e va).dfn e va ≠ 0 ∧ Rep s' (v.addPage e va) ∨
      r = eNoPageFileSpace ∧ Rep s' (v.withTables e va)) (quiet_pfAddEmptyEnvPage e e va false)
  · apply Fos.pfAddEmptyEnvPage_wp space.rep (space.diskLinked e) space.pageFile.toSharedOut base
    · exact fun s' rep page => Or.inl ⟨rfl, page, rep⟩
    · exact fun s' rep _ _ => Or.inr ⟨rfl, rep⟩
    · rintro s' v' - (rfl | rfl) none -
      · simp [none]
      · have made := v.length_withDiskDir e
        rw [none, List.length_nil] at made
        exact ⟨rfl, by omega⟩
  · rintro r s' (⟨rfl, page, rep⟩ | ⟨rfl, rep⟩) listed
    · have next := space.rep.then_addPage e va
      exact done s' _ _ page ⟨space.toSound.addPage user rep, ⟨d, next.dir.trans dir⟩, listed⟩ next
        (space.rep.memory_addPage e va) (space.rep.stored_addPage page)
    · have next := space.rep.then_withTables e va
      exact noSpace s' _ ⟨space.toSound.withTables user rep, ⟨d, next.dir.trans dir⟩, listed⟩ next
        (space.rep.memory_withTables e va) (View.stored_congr next.entry View.withTables_disk)
  · rintro x s' ⟨rfl, short⟩
    exact full short s'

theorem Space.pfUpdateEnvPage_wp {Q : Int → Kernel → Prop} (space : Space e env₀ s v w)
    (base : va < kernelBase) (frame : f < v.globals.numberOfFrames)
    (done : ∀ r s' v', Space e env₀ s' v' w → v.Then v' e (v.ptes e) (v.entry e) 1 →
      v'.memory e = v.memory e → (v.entry e (pageNo va) ≠ 0 →
        v'.stored e = Function.update (v.stored e) (pageNo va) (some (s.mem f))) → Q r s')
    (full : v.free.length < 1 → ∀ s', E outOfMemory s') : wp (pfUpdateEnvPage e va f) Q E s := by
  obtain ⟨d, dir⟩ := space.dir
  have sound : ∀ {s'}, Rep s' (v.setEnv e Env.countOut) → Sound s' (v.setEnv e Env.countOut) := by
    intro s' rep
    have sound := space.toSound.setEnv e Env.countOut (fun _ => rfl) (fun _ => rfl) (fun _ => rfl)
      fun _ => rfl
    exact { sound with rep := rep }
  have counted := sound (space.rep.setEnv e Env.countOut)
  apply space.quiet (F := fun x _ => x = outOfMemory ∧ v.free.length < 1) (P := fun _ s' =>
    v.dfn e va ≠ 0 ∧ Rep s' ((v.setEnv e Env.countOut).storePage e va (s.mem f)) ∨
      v.dfn e va = 0 ∧ Rep s' ((v.setEnv e Env.countOut).withDiskDir e))
    (steps_pfUpdateEnvPage (edits_wsSame e) e va f)
  · apply Fos.pfUpdateEnvPage_wp space.rep (space.diskLinked e) base frame
    · exact fun s' page rep => Or.inl ⟨page, rep⟩
    · exact fun s' zero rep => Or.inr ⟨zero, rep⟩
    · exact fun _ _ _ none => ⟨rfl, by simp [none]⟩
  · rintro r s' (⟨page, rep⟩ | ⟨zero, rep⟩) listed
    · refine done r s' _ ⟨counted.storePage rep, ⟨d, dir⟩, listed⟩ ?_ rfl fun _ =>
        View.stored_storePage counted.pageFile.toSharedOut page
      exact ⟨rfl, fun _ h => h, nofun, rfl, rfl, rfl, rfl, rfl, Nat.le_succ _,
        (View.Spares.setEnv v e _).trans
        (View.spares_storePage counted.pageFile.toSharedOut page _)⟩
    · have next := counted.rep.then_withDiskDir e
      exact done r s' _ ⟨counted.withDiskDir rep, ⟨d, next.dir.trans dir⟩, listed⟩
        ((View.Then.setEnv v e Env.countOut).trans next) (counted.rep.memory_withDiskDir e)
        fun page => absurd zero page
  · rintro x s' ⟨rfl, short⟩
    exact full short s'

theorem Space.pfRemoveEnvPage_wp {Q : Unit → Kernel → Prop} (space : Space e env₀ s v w)
    (done : ∀ s' v', Space e env₀ s' v' w →
      v.Then v' e (v.ptes e) (Function.update (v.entry e) (pageNo va) 0) 0 →
      v'.memory e = v.memory e → v'.stored e = Function.update (v.stored e) (pageNo va) none →
      Q () s') : wp (pfRemoveEnvPage e va) Q E s := by
  obtain ⟨d, dir⟩ := space.dir
  apply space.quiet (quiet_pfRemoveEnvPage e e va) (Fos.pfRemoveEnvPage_wp (E := fun _ _ => False)
    (Q := fun _ s' => Rep s' (v.dropDfn e (pdx va) (ptx va))) space.rep (space.diskLinked e)
    space.pageFile fun _ h => h)
  · intro _ s' rep listed
    have next := View.Then.dropDfn v e va
    exact done s' _ ⟨space.toSound.dropDfn rep, ⟨d, next.dir.trans dir⟩, listed⟩ next
      (View.memory_dropDfn v e _ _) (View.stored_dropDfn v e va)
  · exact fun _ _ => False.elim

end Fos
