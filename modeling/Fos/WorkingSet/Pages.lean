import Fos.PageFile.Run

/-!
# The pages of an environment

The pages that have frames, and those in the page file, by their numbers, and what the edits
of the abstract state do to them.

* `View.memory`: the pages in memory;
* `View.stored`: the pages in the page file.
-/

namespace Fos

open Arena Linked

variable {s : Kernel} {v v' : View} {e va f : Nat} {w : Word} {p : Page}

/-! ## In memory -/

/-- The pages of an environment that have frames. -/
def View.memory (v : View) (e : Nat) (n : PageNo) : Option Page :=
  (v.place (.userPage e n.1 n.2)).map fun _ => v.page (.userPage e n.1 n.2)

theorem View.memory_of_place (here : v.place (userPageAt e va) = some f) :
    v.memory e (pageNo va) = some (v.page (userPageAt e va)) := by
  rw [View.memory]
  exact (congrArg _ here).trans rfl

/-- A page has a frame if it has an entry. -/
theorem Rep.memory_ne_none {n : PageNo} (rep : Rep s v) :
    v.memory e n ≠ none ↔ v.page (.pageTable e n.1) n.2 ≠ 0 := by
  have place := rep.place_none (show (Obj.pageTable e n.1).child n.2 = some _ from rfl)
  rw [View.memory, ne_eq, Option.map_eq_none_iff]
  exact not_congr place

theorem View.memory_congr (place : ∀ i j, v'.place (.userPage e i j) = v.place (.userPage e i j))
    (page : ∀ i j, v'.page (.userPage e i j) = v.page (.userPage e i j)) :
    v'.memory e = v.memory e := by
  funext n
  rw [View.memory, View.memory, place, page]

/-- One page comes, goes or changes. -/
theorem View.memory_update {x : Option Page} (here : v'.memory e (pageNo va) = x)
    (place : ∀ n, n ≠ pageNo va → v'.place (.userPage e n.1 n.2) = v.place (.userPage e n.1 n.2))
    (page : ∀ n, n ≠ pageNo va → v'.page (.userPage e n.1 n.2) = v.page (.userPage e n.1 n.2)) :
    v'.memory e = Function.update (v.memory e) (pageNo va) x := by
  funext n
  rcases eq_or_ne n (pageNo va) with rfl | ne
  · rw [Function.update_self, here]
  · rw [Function.update_of_ne ne, View.memory, View.memory, place n ne, page n ne]

theorem userPage_ne {n : PageNo} (ne : n ≠ pageNo va) :
    Obj.userPage e n.1 n.2 ≠ userPageAt e va := by
  intro eq
  obtain ⟨-, eq₁, eq₂⟩ := Obj.userPage.inj eq
  exact ne (Prod.ext eq₁ eq₂)

theorem View.memory_setPte (v : View) (e va : Nat) (w : Word) :
    (v.setPte e va w).memory e = v.memory e :=
  View.memory_congr (fun _ _ => by simp [View.setPte]) fun _ _ => by simp [View.setPte]

theorem View.memory_setPage (here : v.place (userPageAt e va) = some f) :
    (v.setPage (userPageAt e va) p).memory e =
      Function.update (v.memory e) (pageNo va) (some p) := by
  refine View.memory_update ?_ (fun n ne => rfl) fun n ne => ?_
  · have placed : (v.setPage (userPageAt e va) p).place (userPageAt e va) = some f := here
    rw [View.memory_of_place placed]
    simp
  · simp [Function.update_of_ne (userPage_ne ne)]

/-- The page at `va` goes. -/
theorem View.memory_unmap (v : View) (e va : Nat) :
    (v.unmap e va).memory e = Function.update (v.memory e) (pageNo va) none := by
  unfold View.unmap
  split
  · refine View.memory_update ?_ (fun n ne => ?_) fun n ne => ?_
    · simp [View.memory, pageNo]
    · simp [View.setPte, Function.update_of_ne (userPage_ne ne)]
    · simp [View.setPte, Function.update_of_ne (userPage_ne ne)]
  · rename_i none
    refine View.memory_update ?_ (fun _ _ => rfl) fun _ _ => rfl
    rw [View.memory]
    exact (congrArg _ none).trans rfl

theorem View.memory_touch (v : View) (e va : Nat) (write : Bool) :
    (v.touch e va write).memory e = v.memory e :=
  View.memory_congr (fun _ _ => by simp [View.touch, View.setPte]) fun _ _ => by
    simp [View.touch, View.setPte]

/-- An access stores a page. -/
theorem View.memory_access {write : Bool} (here : v.place (userPageAt e va) = some f) :
    ((v.touch e va write).setPage (userPageAt e va) p).memory e =
      Function.update (v.memory e) (pageNo va) (some p) := by
  have touched : (v.touch e va write).place (userPageAt e va) = some f := by
    simpa [View.touch, View.setPte] using here
  rw [View.memory_setPage touched, View.memory_touch]

/-- The page is read in. -/
theorem View.memory_readIn (here : v.place (userPageAt e va) = some f) :
    (v.readIn e va p).memory e = Function.update (v.memory e) (pageNo va) (some p) := by
  rw [View.readIn, View.memory_setPte, View.memory_access here]

/-- A table is none of the pages. -/
theorem View.memory_withTable (v : View) (e : Nat) (k : Fin 1024) :
    (v.withTable e k).memory e = v.memory e := by
  refine View.memory_congr (fun i j => ?_) fun i j => ?_ <;> unfold View.withTable <;> split <;>
    simp [View.newTable]

/-- A frame comes to hold the page. -/
theorem View.memory_mapNew (v : View) (e va f : Nat) (w : Word) (p : Page) :
    (v.mapNew e va f w p).memory e = Function.update (v.memory e) (pageNo va) (some p) := by
  have table : ((v.take f).withTable e (pdx va)).memory e = v.memory e := View.memory_withTable ..
  have evict : ∀ (v : View) n, n ≠ pageNo va → (v.evict e va).memory e n = v.memory e n := by
    intro v n ne
    unfold View.evict
    split
    · rw [View.memory_unmap, Function.update_of_ne ne]
    · rfl
  have lose : ∀ (v : View) n, n ≠ pageNo va → (v.lose e va).memory e n = v.memory e n := by
    intro v n ne
    unfold View.lose
    split
    · simp [View.memory, View.setPte, Function.update_of_ne (userPage_ne ne)]
    · rfl
  have map : ∀ (v : View) n, n ≠ pageNo va →
      (v.mapPage e va f w p).memory e n = v.memory e n := by
    intro v n ne
    simp [View.memory, View.mapPage, View.setPte, Function.update_of_ne (userPage_ne ne)]
  funext n
  rcases eq_or_ne n (pageNo va) with rfl | ne
  · simp [View.memory, View.mapNew, View.mapPage, pageNo]
  · rw [Function.update_of_ne ne, View.mapNew, map _ n ne, lose _ n ne, evict _ n ne, table]

/-- The tables of the page file are none of the pages. -/
theorem Rep.memory_addPage (rep : Rep s v) (e va : Nat) :
    (v.addPage e va).memory e = v.memory e := by
  refine View.memory_congr (fun i j => ?_) fun i j => ?_
  · rw [View.addPage, View.assignDfn_place]
    exact View.withTables_place (by simp) (by simp)
  · have same : (v.withTables e va).page (.userPage e i j) = v.page (.userPage e i j) :=
      rep.withTables_page (by simp)
    rw [View.addPage]
    rcases (v.withTables e va).assignDfn_eq e va with eq | ⟨d, ds, -, -, eq⟩ <;> rw [eq, ← same]
    simp [View.takeDfn]

theorem Rep.memory_withTables (rep : Rep s v) (e va : Nat) :
    (v.withTables e va).memory e = v.memory e :=
  View.memory_congr (fun _ _ => View.withTables_place (by simp) (by simp)) fun _ _ =>
    rep.withTables_page (by simp)

theorem Rep.memory_withDiskDir (rep : Rep s v) (e : Nat) :
    (v.withDiskDir e).memory e = v.memory e :=
  View.memory_congr (fun _ _ => View.withDiskDir_place (by simp)) fun _ _ => by
    rw [rep.withDiskDir_page]

theorem View.memory_dropDfn (v : View) (e : Nat) (i j : Fin 1024) :
    (v.dropDfn e i j).memory e = v.memory e := by
  have edit : v.TableEdit (v.dropDfn e i j) e i :=
    View.TableEdit.dropDfn ⟨rfl, rfl, fun _ _ => rfl, rfl⟩ j
  exact View.memory_congr (fun _ _ => by rw [edit.place]) fun _ _ => edit.page _ (by simp)

/-! ## In the page file -/

/-- The pages of an environment in the page file. -/
def View.stored (v : View) (e : Nat) (n : PageNo) : Option Page :=
  if v.entry e n = 0 then none else some (v.diskPage (v.entry e n).toNat)

theorem View.stored_ne_none {n : PageNo} : v.stored e n ≠ none ↔ v.entry e n ≠ 0 := by
  rw [View.stored]
  split <;> simp_all

theorem View.stored_congr (entry : v'.entry e = v.entry e)
    (disk : v'.globals.disk = v.globals.disk) : v'.stored e = v.stored e := by
  funext n
  rw [View.stored, View.stored, entry, View.diskPage_congr disk]

theorem View.UserEdit.stored (edit : v.UserEdit v' e) : v'.stored e = v.stored e := by
  refine View.stored_congr (funext fun n => ?_) (by rw [edit.globals])
  rw [View.entry, edit.page _ id, View.entry]

/-- A page is overwritten. -/
theorem View.stored_storePage (pf : SharedOut v) (page : v.dfn e va ≠ 0) :
    (v.storePage e va p).stored e = Function.update (v.stored e) (pageNo va) (some p) := by
  have lt := pf.range e (pdx va) (ptx va) page
  funext n
  have entry : (v.storePage e va p).entry e n = v.entry e n := rfl
  rw [View.stored, entry]
  rcases eq_or_ne n (pageNo va) with rfl | ne
  · rw [Function.update_self]
    exact (if_neg page).trans (congrArg some ((setDisk_diskPage lt lt).trans (if_pos rfl)))
  · rw [Function.update_of_ne ne, View.stored]
    split
    · rfl
    · rename_i nonzero
      have other : (v.entry e n).toNat ≠ (v.dfn e va).toNat := by
        intro eq
        obtain ⟨-, eq₁, eq₂⟩ :=
          pf.inj e n.1 n.2 e (pdx va) (ptx va) nonzero (BitVec.eq_of_toNat_eq eq)
        exact ne (Prod.ext eq₁ eq₂)
      exact congrArg some ((setDisk_diskPage lt (pf.range e n.1 n.2 nonzero)).trans (if_neg other))

/-- A page is removed. -/
theorem View.stored_dropDfn (v : View) (e va : Nat) :
    (v.dropDfn e (pdx va) (ptx va)).stored e = Function.update (v.stored e) (pageNo va) none := by
  have edit : v.TableEdit (v.dropDfn e (pdx va) (ptx va)) e (pdx va) :=
    View.TableEdit.dropDfn ⟨rfl, rfl, fun _ _ => rfl, rfl⟩ _
  funext n
  rcases eq_or_ne n (pageNo va) with rfl | ne
  · have zero := v.dropDfn_entry e (pdx va) (ptx va) (ptx va)
    rw [if_pos rfl] at zero
    rw [Function.update_self, View.stored]
    exact if_pos zero
  · have entry : (v.dropDfn e (pdx va) (ptx va)).entry e n = v.entry e n :=
      View.dropDfn_entry_of_ne (by simpa using ne)
    rw [Function.update_of_ne ne, View.stored, View.stored, entry,
      View.diskPage_congr (congrArg Globals.disk edit.globals)]

/-- A page is added, if it is not there yet. -/
theorem Rep.stored_addPage (rep : Rep s v) (page : (v.addPage e va).dfn e va ≠ 0) :
    ∃ p, (v.addPage e va).stored e = Function.update (v.stored e) (pageNo va) (some p) ∧
      ∀ q, v.stored e (pageNo va) = some q → q = p := by
  refine ⟨(v.addPage e va).diskPage ((v.addPage e va).dfn e va).toNat, funext fun n => ?_,
    fun q there => ?_⟩
  · rcases eq_or_ne n (pageNo va) with rfl | ne
    · rw [Function.update_self, View.stored]
      exact if_neg page
    · rw [Function.update_of_ne ne, View.stored, rep.addPage_entry (by simpa using ne),
        View.diskPage_congr View.addPage_disk, View.stored]
  · have entry : v.entry e (pageNo va) ≠ 0 := View.stored_ne_none.mp (by rw [there]; simp)
    rw [rep.addPage_dfn entry, View.diskPage_congr View.addPage_disk]
    rw [View.stored, if_neg entry] at there
    exact (Option.some.inj there).symm

end Fos
