import Fos.Memory.DiskFrames
import Fos.Memory.FrameSpecs

/-!
# What the page file functions do

One specification for each operation of `kern/file_manager.c`, over the abstract state.

* `diskFrameFor_wp`, `pfAddEnvPage_wp`: adding a page;
* `pfUpdateEnvPage_wp`, `pfReadEnvPage_wp`: writing a page back and reading it in;
* `pfRemoveEnvPage_wp`, `pfFreeEnv_wp`: removing one page and all pages.
-/

namespace Fos

open Arena Linked Exec

variable {s : Kernel} {E : Stop → Kernel → Prop} {v v' : View} {e d f t va : Nat}

/-! ## Disk page directories and tables -/

/-- `disk_env_pgdir` and `disk_env_pgdir_PA` refer to the disk page directory. -/
structure View.DiskLinked (v : View) (e : Nat) : Prop where
  dir : (v.globals.envs e).diskEnvPgdir = v.place (.diskDir e)
  pa : ∀ d, v.place (.diskDir e) = some d → (v.globals.envs e).diskEnvPgdirPA = toPhysicalAddress d

/-- Changing one environment. -/
def View.setEnv (v : View) (e : Nat) (g : Env → Env) : View := v.setGlobals (v.globals.setEnv e g)

theorem Rep.setEnv (rep : Rep s v) (e : Nat) (g : Env → Env) :
    Rep (s.setGlobals (s.globals.setEnv e g)) (v.setEnv e g) := by
  rw [rep.globals]
  exact rep.setGlobals rfl rfl

/-- A new, empty disk page directory in the frame `f`. -/
def View.newDiskDir (v : View) (e f : Nat) : View :=
  ((v.take f).put (.diskDir e) f zeroes).setEnv e (Env.setDiskDir f)

/-- The disk page directory of an environment, created if there is none. -/
def View.withDiskDir (v : View) (e : Nat) : View :=
  match v.place (.diskDir e), v.free with
  | none, f :: _ => v.newDiskDir e f
  | _, _ => v

/-- A new, empty disk page table in the frame `t`. -/
def View.newDiskTable (v : View) (e : Nat) (i : Fin 1024) (t : Nat) : View :=
  ((v.take t).write (.diskDir e) i (constructEntry (toPhysicalAddress t) permPresent)).put
    (.diskTable e i) t zeroes

def View.withDiskTable (v : View) (e : Nat) (i : Fin 1024) : View :=
  match v.place (.diskTable e i), v.free with
  | none, t :: _ => v.newDiskTable e i t
  | _, _ => v

/-- The tables that a page of the page file needs. -/
def View.withTables (v : View) (e va : Nat) : View :=
  (v.withDiskDir e).withDiskTable e (pdx va)

theorem View.withDiskDir_some (dir : v.place (.diskDir e) = some d) : v.withDiskDir e = v := by
  simp [View.withDiskDir, dir]

theorem getDiskPageDirectory_some_wp {Q : Nat → Kernel → Prop} (rep : Rep s v)
    (linked : v.DiskLinked e) (dir : v.place (.diskDir e) = some d) (done : Q d s) :
    wp (getDiskPageDirectory e) Q E s := by
  simpa only [getDiskPageDirectory, wp_bind, wp_getEnv, rep.globals, linked.dir, dir, wp_pure]
    using done

theorem getDiskPageDirectory_wp {Q : Nat → Kernel → Prop} (rep : Rep s v)
    (linked : v.DiskLinked e)
    (done : ∀ d s', Rep s' (v.withDiskDir e) → (v.withDiskDir e).place (.diskDir e) = some d →
      (v.withDiskDir e).DiskLinked e → Q d s')
    (full : v.place (.diskDir e) = none → v.free = [] → E outOfMemory s) :
    wp (getDiskPageDirectory e) Q E s := by
  cases dir : v.place (.diskDir e) with
  | some d =>
    rw [View.withDiskDir_some dir] at done
    exact getDiskPageDirectory_some_wp rep linked dir (done d s rep dir linked)
  | none =>
    simp only [getDiskPageDirectory, wp_bind, wp_getEnv, rep.globals, linked.dir, dir]
    apply allocateFrame_wp rep
    · intro f rest s' free taken _
      have lt : f < s'.globals.numberOfFrames := by
        rw [taken.globals]
        exact taken.bound f (by simp)
      simp only [wp_setReferences]
      apply staticKernelVirtualAddress_wp
      · rwa [ppn_toPhysicalAddress]
      · have same : v.withDiskDir e = v.newDiskDir e f := by
          simp [View.withDiskDir, dir, free]
        rw [same] at done
        simp only [wp_modifyEnv, wp_writePage, wp_pure, ppn_toPhysicalAddress]
        have root : ∀ o i, Obj.child o i ≠ some (.diskDir e) := by
          rintro (_ | _ | _ | _ | _ | _ | _) i <;> simp [Obj.child]
        have put := (taken.root (f := f) (p := zeroes) root dir (by simp) (fun _ => wordOk_zero ..)
          fun _ _ _ => rfl).setEnv e (Env.setDiskDir f)
        refine done f _ put (by simp [View.newDiskDir, View.setEnv]) ⟨?_, ?_⟩
        · simp [View.newDiskDir, View.setEnv, Globals.setEnv, Env.setDiskDir]
        · intro d here
          simp only [View.newDiskDir, View.setEnv, View.setGlobals_toView, View.put_place,
            Function.update_self, Option.some.injEq] at here
          simp [View.newDiskDir, View.setEnv, Globals.setEnv, Env.setDiskDir, here]
    · exact full dir

theorem Rep.diskEntry_lt {o c : Obj} {i : Fin 1024} (rep : Rep s v)
    (child : o.child i = some c) :
    ppn (extractAddress (v.page o i)) < s.globals.numberOfFrames := by
  rw [ppn_extractAddress, rep.globals]
  exact rep.entry_lt child

theorem getDiskPageTable_wp {Q : Option Nat → Kernel → Prop} (rep : Rep s v)
    (dir : v.place (.diskDir e) = some d)
    (done : Q (v.place (.diskTable e (pdx va))) s) : wp (getDiskPageTable d va) Q E s := by
  have child : (Obj.diskDir e).child (pdx va) = some (.diskTable e (pdx va)) := rfl
  simp only [getDiskPageTable, wp_bind, wp_readWord, rep.mem dir]
  apply staticKernelVirtualAddress_wp (rep.diskEntry_lt child)
  simp only [ppn_extractAddress, wp_ite, wp_pure]
  by_cases entry : v.page (.diskDir e) (pdx va) = 0
  · rw [(rep.place_none child).mpr entry] at done
    rwa [if_pos entry]
  · rw [rep.place_child child entry] at done
    rwa [if_neg entry]

theorem createDiskPageTable_wp {Q : Nat → Kernel → Prop} (rep : Rep s v)
    (dir : v.place (.diskDir e) = some d)
    (done : ∀ t s', Rep s' (v.withDiskTable e (pdx va)) →
      (v.withDiskTable e (pdx va)).place (.diskTable e (pdx va)) = some t → Q t s')
    (full : v.place (.diskTable e (pdx va)) = none → v.free = [] → E outOfMemory s) :
    wp (createDiskPageTable d va) Q E s := by
  have child : (Obj.diskDir e).child (pdx va) = some (.diskTable e (pdx va)) := rfl
  simp only [createDiskPageTable, wp_bind, wp_readWord, rep.mem dir]
  apply staticKernelVirtualAddress_wp (rep.diskEntry_lt child)
  by_cases entry : v.page (.diskDir e) (pdx va) = 0
  · have absent := (rep.place_none child).mpr entry
    simp only [entry, if_true, wp_bind]
    apply allocateFrame_wp rep
    · intro t rest s' free taken _
      have lt := taken.bound t (by simp)
      have small := rep.small
      simp only [View.take_globals] at lt
      apply staticKernelVirtualAddress_wp
      · rw [ppn_toPhysicalAddress, taken.globals]
        exact lt
      · have same : v.withDiskTable e (pdx va) = v.newDiskTable e (pdx va) t := by
          simp [View.withDiskTable, absent, free]
        rw [same] at done
        simp only [wp_setReferences, wp_writeWord, wp_writePage, wp_pure, ppn_toPhysicalAddress]
        refine done t _ (taken.link child dir entry (by simp)
          (frameOf_physical (by omega) (by decide)) (fun _ => ?_) (fun _ => trivial)
          fun _ _ _ => rfl) (by simp [View.newDiskTable])
        exact (getLsbD_constructEntry t permPresent (k := 0) (by decide)).trans (by decide)
    · exact full absent
  · have table := rep.place_child child entry
    simp only [entry, if_false, wp_pure, ppn_extractAddress]
    have same : v.withDiskTable e (pdx va) = v := by
      simp [View.withDiskTable, table]
    rw [same] at done
    exact done _ s rep table

/-! ### What new tables leave alone -/

/-- A new directory is empty, as a missing one is. -/
theorem Rep.withDiskDir_page (rep : Rep s v) : (v.withDiskDir e).page = v.page := by
  unfold View.withDiskDir
  split
  · rename_i f _ absent _
    have empty : v.page (.diskDir e) = zeroes := rep.wf.absent _ absent
    simp [View.newDiskDir, View.setEnv, ← empty]
  · rfl

theorem Rep.withDiskTable_page {i : Fin 1024} {o : Obj} (rep : Rep s v) (ne : o ≠ .diskDir e) :
    (v.withDiskTable e i).page o = v.page o := by
  unfold View.withDiskTable
  split
  · rename_i t _ absent _
    have empty : v.page (.diskTable e i) = zeroes := rep.wf.absent _ absent
    rcases eq_or_ne o (.diskTable e i) with rfl | ne'
    · simp [View.newDiskTable, empty]
    · simp [View.newDiskTable, Function.update_of_ne ne, Function.update_of_ne ne']
  · rfl

theorem View.withDiskTable_entry {i i' : Fin 1024} (ne : i' ≠ i) :
    (v.withDiskTable e i).page (.diskDir e) i' = v.page (.diskDir e) i' := by
  unfold View.withDiskTable
  split
  · simp [View.newDiskTable, Function.update_of_ne ne]
  · rfl

theorem View.withDiskDir_place {o : Obj} (ne : o ≠ .diskDir e) :
    (v.withDiskDir e).place o = v.place o := by
  unfold View.withDiskDir
  split
  · simp [View.newDiskDir, View.setEnv, Function.update_of_ne ne]
  · rfl

theorem View.withDiskTable_place {i : Fin 1024} {o : Obj} (ne : o ≠ .diskTable e i) :
    (v.withDiskTable e i).place o = v.place o := by
  unfold View.withDiskTable
  split
  · simp [View.newDiskTable, Function.update_of_ne ne]
  · rfl

@[simp] theorem View.withDiskDir_diskFree : (v.withDiskDir e).diskFree = v.diskFree := by
  unfold View.withDiskDir
  split <;> rfl

@[simp] theorem View.withDiskTable_diskFree {i : Fin 1024} :
    (v.withDiskTable e i).diskFree = v.diskFree := by
  unfold View.withDiskTable
  split <;> rfl

@[simp] theorem View.withDiskTable_globals {i : Fin 1024} :
    (v.withDiskTable e i).globals = v.globals := by
  unfold View.withDiskTable
  split <;> rfl

theorem View.withDiskDir_globals : (v.withDiskDir e).globals = v.globals ∨
    ∃ f, (v.withDiskDir e).globals = v.globals.setEnv e (Env.setDiskDir f) := by
  unfold View.withDiskDir
  split
  · exact Or.inr ⟨_, rfl⟩
  · exact Or.inl rfl

theorem PageFile.withDiskDir (pf : PageFile v) (rep : Rep s v) : PageFile (v.withDiskDir e) := by
  refine pf.congr (fun e' i => ?_) (by simp) fun e' i ge => ?_
  · rw [rep.withDiskDir_page]
  · rw [rep.withDiskDir_page]
    exact pf.high e' i ge

theorem SharedOut.withDiskDir (pf : SharedOut v) (rep : Rep s v) : SharedOut (v.withDiskDir e) :=
  pf.congr (fun e' i => by rw [rep.withDiskDir_page]) (by simp)

theorem SharedOut.withDiskTable {i : Fin 1024} (pf : SharedOut v) (rep : Rep s v) :
    SharedOut (v.withDiskTable e i) :=
  pf.congr (fun e' i => by rw [rep.withDiskTable_page (by simp)]) (by simp)

theorem PageFile.withDiskTable {i : Fin 1024} (pf : PageFile v) (rep : Rep s v) (lt : i < 955) :
    PageFile (v.withDiskTable e i) := by
  refine pf.congr (fun e' i => ?_) (by simp) fun e' i' ge => ?_
  · rw [rep.withDiskTable_page (by simp)]
  · rcases eq_or_ne e' e with rfl | ne
    · rw [View.withDiskTable_entry]
      · exact pf.high e' i' ge
      · rintro rfl
        exact absurd lt (Fin.not_lt.mpr ge)
    · rw [rep.withDiskTable_page (by simp [ne])]
      exact pf.high e' i' ge

/-! ## Adding a page -/

theorem allocateDiskFrame_wp {Q : Option Nat → Kernel → Prop} (rep : Rep s v)
    (got : ∀ d ds s', v.diskFree = d :: ds → Rep s' (v.setDiskFree v.diskFree.tail) →
      Q (some d) s')
    (none : v.diskFree = [] → Q none s) : wp allocateDiskFrame Q E s := by
  have first := rep.diskFree.first
  simp only [allocateDiskFrame, wp_bind, wp_get]
  cases free : v.diskFree with
  | nil =>
    rw [free] at first
    rw [first]
    exact none free
  | cons d ds =>
    rw [free] at first
    rw [first]
    exact got d ds _ free (rep.takeDisk free)

/-- A page without a disk frame gets one, if there is one. -/
def View.assignDfn (v : View) (e va : Nat) : View :=
  match v.diskFree with
  | d :: _ => if v.dfn e va = 0 then v.takeDfn e va d else v
  | [] => v

/-- The page file after a page is added. -/
def View.addPage (v : View) (e va : Nat) : View := (v.withTables e va).assignDfn e va

theorem takeDfn_dfn (v : View) (e va d : Nat) :
    (v.takeDfn e va d).dfn e va = BitVec.ofNat 32 d := by
  simp [View.takeDfn, View.dfn]

theorem SharedOut.ofNat_ne {ds : List Nat} (pf : SharedOut v) (free : v.diskFree = d :: ds) :
    BitVec.ofNat 32 d ≠ 0 := by
  intro zero
  have value := pf.toNat_ofNat free
  have range := pf.free_range d (by simp [free])
  rw [zero] at value
  simp at value
  omega

/-- Where a kernel function that runs out of memory leaves the page file of `e`: as it was,
or with a new directory. -/
def View.Cut (v : View) (e : Nat) (v' : View) : Prop := v' = v ∨ v' = v.withDiskDir e

theorem Rep.withTables_dfn (rep : Rep s v) (repDir : Rep s' (v.withDiskDir e)) (e' va' : Nat) :
    (v.withTables e va).dfn e' va' = v.dfn e' va' := by
  rw [View.dfn, View.withTables, repDir.withDiskTable_page (by simp), rep.withDiskDir_page,
    View.dfn]

theorem diskFrameFor_wp {Q : Option Nat → Kernel → Prop} (rep : Rep s v)
    (linked : v.DiskLinked e) (pf : SharedOut v) (base : va < kernelBase)
    (done : ∀ s', Rep s' (v.addPage e va) → (v.addPage e va).dfn e va ≠ 0 →
      Q (some ((v.addPage e va).dfn e va).toNat) s')
    (noSpace : ∀ s', Rep s' (v.withTables e va) → v.dfn e va = 0 → v.diskFree = [] → Q none s')
    (full : ∀ s' v', Rep s' v' → v.Cut e v' → v'.free = [] →
      (v.place (.diskDir e) = none ∨ v.place (.diskTable e (pdx va)) = none) →
      E outOfMemory s') : wp (diskFrameFor e va) Q E s := by
  simp only [diskFrameFor, wp_ite, if_neg (Nat.not_le.mpr base), wp_bind]
  apply getDiskPageDirectory_wp rep linked
  · intro d s₁ rep₁ dir₁ linked₁
    apply createDiskPageTable_wp rep₁ dir₁
    · intro t s₂ rep₂ table₂
      have pf₂ := (pf.withDiskDir (e := e) rep).withDiskTable (e := e) (i := pdx va) rep₁
      have dfn₂ : s₂.mem t (ptx va) = (v.withTables e va).dfn e va := by
        rw [rep₂.mem table₂, View.dfn, View.withTables]
      have same : (v.withTables e va).dfn e va = v.dfn e va := rep.withTables_dfn rep₁ e va
      simp only [wp_readWord, dfn₂]
      by_cases zero : (v.withTables e va).dfn e va = 0
      · rw [if_pos zero]
        apply allocateDiskFrame_wp rep₂
        · intro d' ds s₃ free₃ rep₃
          have added : v.addPage e va = (v.withTables e va).takeDfn e va d' := by
            have free : (v.withTables e va).diskFree = d' :: ds := free₃
            simp only [View.addPage, View.assignDfn, free, zero, if_true]
          rw [added] at done
          simp only [wp_bind, wp_writeWord, wp_pure]
          have written := rep₃.setWord (i := ptx va) (w := BitVec.ofNat 32 d') table₂ trivial
            fun c none => by cases none
          have final := done _ written ?_
          · rwa [takeDfn_dfn, pf₂.toNat_ofNat free₃] at final
          · rw [takeDfn_dfn]
            exact pf₂.ofNat_ne free₃
        · intro free₂
          exact noSpace s₂ rep₂ (same ▸ zero) (by simpa using free₂)
      · rw [if_neg zero, wp_pure]
        have added : v.addPage e va = v.withTables e va := by
          simp only [View.addPage, View.assignDfn, zero, if_false]
          split <;> rfl
        rw [added] at done
        exact done s₂ rep₂ zero
    · intro absent free
      refine full s₁ _ rep₁ (Or.inr rfl) free (Or.inr ?_)
      rwa [View.withDiskDir_place (by simp)] at absent
  · intro absent free
    exact full s v rep (Or.inl rfl) free (Or.inl absent)

/-! ## The pages on the disk -/

/-- The page in a disk frame. -/
def View.diskPage (v : View) (d : Nat) : Page := sectorsPage v.globals.disk (startSector d)

/-- Overwriting a disk frame. -/
def View.setDisk (v : View) (d : Nat) (p : Page) : View :=
  v.setGlobals { v.globals with disk := writeSectors v.globals.disk (startSector d) p }

theorem startSector_eq (lt : d < pagesPerFile) :
    startSector d = pageFileStartSector + d * sectorPerPage := by
  simp only [startSector, pagesPerFile, pageFileStartSector, sectorPerPage, word32] at *
  omega

/-- The sectors of different disk frames are different. -/
theorem setDisk_diskPage {d d' : Nat} {p : Page} (lt : d < pagesPerFile) (lt' : d' < pagesPerFile) :
    (v.setDisk d p).diskPage d' = if d' = d then p else v.diskPage d' := by
  funext i
  simp only [View.setDisk, View.diskPage, View.setGlobals_globals, sectorsPage, writeSectors,
    startSector_eq lt, startSector_eq lt', pageFileStartSector, sectorPerPage]
  have split := Nat.div_add_mod i.val 128
  have small := i.isLt
  by_cases same : d' = d
  · subst same
    have inside : 40960 + d' * 8 ≤ 40960 + d' * 8 + i.val / 128 ∧
        40960 + d' * 8 + i.val / 128 < 40960 + d' * 8 + 8 := by omega
    rw [dif_pos inside, if_pos rfl]
    congr 1
    apply Fin.ext
    simp only
    omega
  · have outside : ¬(40960 + d * 8 ≤ 40960 + d' * 8 + i.val / 128 ∧
        40960 + d' * 8 + i.val / 128 < 40960 + d * 8 + 8) := by omega
    rw [dif_neg outside, if_neg same, sectorsPage]

@[simp] theorem View.setDisk_toView (v : View) (d : Nat) (p : Page) :
    (v.setDisk d p).toView = v.toView := rfl

@[simp] theorem View.setDisk_diskFree (v : View) (d : Nat) (p : Page) :
    (v.setDisk d p).diskFree = v.diskFree := rfl

@[simp] theorem View.setDisk_free (v : View) (d : Nat) (p : Page) :
    (v.setDisk d p).free = v.free := rfl

theorem writeDiskPage_wp {Q : Int → Kernel → Prop} {p : Page} (rep : Rep s v)
    (done : ∀ s', Rep s' (v.setDisk d p) → Q 0 s') : wp (writeDiskPage d p) Q E s := by
  simp only [writeDiskPage, ideWrite, wp_bind, wp_modify, wp_pure]
  apply done
  rw [rep.globals]
  exact rep.setGlobals rfl rfl

/-- The contents of a page of the page file are replaced. -/
def View.storePage (v : View) (e va : Nat) (p : Page) : View := v.setDisk (v.dfn e va).toNat p

theorem pfAddEnvPage_wp {Q : Int → Kernel → Prop} {data : Page} (rep : Rep s v)
    (linked : v.DiskLinked e) (pf : SharedOut v) (base : va < kernelBase)
    (done : ∀ s', Rep s' ((v.addPage e va).storePage e va data) →
      (v.addPage e va).dfn e va ≠ 0 → Q 0 s')
    (noSpace : ∀ s', Rep s' (v.withTables e va) → v.dfn e va = 0 → v.diskFree = [] →
      Q eNoPageFileSpace s')
    (full : ∀ s' v', Rep s' v' → v.Cut e v' → v'.free = [] →
      (v.place (.diskDir e) = none ∨ v.place (.diskTable e (pdx va)) = none) →
      E outOfMemory s') : wp (pfAddEnvPage e va data) Q E s := by
  simp only [pfAddEnvPage, wp_bind]
  apply diskFrameFor_wp rep linked pf base ?_ noSpace full
  intro s₁ rep₁ page
  exact writeDiskPage_wp rep₁ fun s' rep' => done s' rep' page

theorem pfAddEmptyEnvPage_wp {Q : Int → Kernel → Prop} (rep : Rep s v)
    (linked : v.DiskLinked e) (pf : SharedOut v) (base : va < kernelBase)
    (done : ∀ s', Rep s' (v.addPage e va) → (v.addPage e va).dfn e va ≠ 0 → Q 0 s')
    (noSpace : ∀ s', Rep s' (v.withTables e va) → v.dfn e va = 0 → v.diskFree = [] →
      Q eNoPageFileSpace s')
    (full : ∀ s' v', Rep s' v' → v.Cut e v' → v'.free = [] →
      (v.place (.diskDir e) = none ∨ v.place (.diskTable e (pdx va)) = none) →
      E outOfMemory s') : wp (pfAddEmptyEnvPage e va false) Q E s := by
  simp only [pfAddEmptyEnvPage, Bool.false_eq_true, if_false, wp_bind]
  exact diskFrameFor_wp rep linked pf base done noSpace full

/-! ## Writing a page back -/

/-- Counters do not matter to the disk directory. -/
theorem View.DiskLinked.setEnv {g : Env → Env} {e' : Nat} (linked : v.DiskLinked e)
    (dir : ∀ env, (g env).diskEnvPgdir = env.diskEnvPgdir)
    (pa : ∀ env, (g env).diskEnvPgdirPA = env.diskEnvPgdirPA) : (v.setEnv e' g).DiskLinked e := by
  rcases eq_or_ne e e' with rfl | ne
  · exact ⟨by simpa [View.setEnv, Globals.setEnv, dir] using linked.dir,
      by simpa [View.setEnv, Globals.setEnv, pa] using linked.pa⟩
  · exact ⟨by simpa [View.setEnv, Globals.setEnv, Function.update_of_ne ne] using linked.dir,
      by simpa [View.setEnv, Globals.setEnv, Function.update_of_ne ne] using linked.pa⟩

theorem Rep.dfn_dir (rep : Rep s v) (page : v.dfn e va ≠ 0) :
    ∃ d t, v.place (.diskDir e) = some d ∧ v.place (.diskTable e (pdx va)) = some t := by
  have child : (Obj.diskDir e).child (pdx va) = some (.diskTable e (pdx va)) := rfl
  cases table : v.place (.diskTable e (pdx va)) with
  | none => exact absurd (congrFun (rep.wf.absent _ table) _) page
  | some t =>
    cases dir : v.place (.diskDir e) with
    | none =>
      have zero : v.page (.diskDir e) (pdx va) = 0 := congrFun (rep.wf.absent _ dir) _
      rw [(rep.place_none child).mpr zero] at table
      cases table
    | some d => exact ⟨d, t, rfl, rfl⟩

theorem pfUpdateEnvPage_wp {Q : Int → Kernel → Prop} (rep : Rep s v) (linked : v.DiskLinked e)
    (base : va < kernelBase) (frame : f < v.globals.numberOfFrames)
    (done : ∀ s', v.dfn e va ≠ 0 →
      Rep s' ((v.setEnv e Env.countOut).storePage e va (s.mem f)) → Q 0 s')
    (absent : ∀ s', v.dfn e va = 0 → Rep s' ((v.setEnv e Env.countOut).withDiskDir e) →
      Q ePageNotExistInPF s')
    (full : ∀ s', Rep s' (v.setEnv e Env.countOut) → v.place (.diskDir e) = none →
      v.free = [] → E outOfMemory s') : wp (pfUpdateEnvPage e va f) Q E s := by
  have counted := rep.setEnv e Env.countOut
  have linked' : (v.setEnv e Env.countOut).DiskLinked e :=
    linked.setEnv (fun _ => rfl) fun _ => rfl
  simp only [pfUpdateEnvPage, wp_bind, wp_modifyEnv, if_neg (Nat.not_le.mpr base)]
  cases dir : v.place (.diskDir e) with
  | none =>
    have zero : v.dfn e va = 0 := by
      by_contra page
      obtain ⟨_, _, here, _⟩ := rep.dfn_dir page
      rw [here] at dir
      cases dir
    apply getDiskPageDirectory_wp counted linked'
    · intro d s₁ rep₁ dir₁ _
      apply getDiskPageTable_wp rep₁ dir₁
      rw [View.withDiskDir_place (by simp)]
      have gone : v.place (.diskTable e (pdx va)) = none := by
        have child : (Obj.diskDir e).child (pdx va) = some (.diskTable e (pdx va)) := rfl
        exact (rep.place_none child).mpr (congrFun (rep.wf.absent _ dir) _)
      have gone' : (v.setEnv e Env.countOut).place (.diskTable e (pdx va)) = none := gone
      simp only [gone', wp_pure]
      exact absent s₁ zero rep₁
    · exact full _ counted
  | some d =>
    have here : (v.setEnv e Env.countOut).place (.diskDir e) = some d := dir
    rw [View.withDiskDir_some here] at absent
    apply getDiskPageDirectory_some_wp counted linked' here
    apply getDiskPageTable_wp counted here
    cases table : v.place (.diskTable e (pdx va)) with
    | none =>
      have table' : (v.setEnv e Env.countOut).place (.diskTable e (pdx va)) = none := table
      simp only [table', wp_pure]
      exact absent _ (congrFun (rep.wf.absent _ table) _) counted
    | some t =>
      have table' : (v.setEnv e Env.countOut).place (.diskTable e (pdx va)) = some t := table
      have entry : (s.setGlobals (s.globals.setEnv e Env.countOut)).mem t (ptx va) =
          v.dfn e va := by
        rw [counted.mem table']
        rfl
      simp only [table', wp_bind, wp_readWord, wp_ite, wp_pure, entry]
      by_cases zero : v.dfn e va = 0
      · rw [if_pos zero]
        exact absent _ zero counted
      · rw [if_neg zero]
        apply staticKernelVirtualAddress_wp
        · rw [ppn_toPhysicalAddress]
          have globals := counted.globals
          exact globals ▸ frame
        · rw [ppn_toPhysicalAddress, wp_get]
          exact writeDiskPage_wp counted fun s' rep' => done s' zero rep'

/-! ## Removing pages -/

theorem View.dropDfn_of_zero {i j : Fin 1024} (zero : v.page (.diskTable e i) j = 0) :
    v.dropDfn e i j = v := if_pos zero

/-- Clearing an entry and giving its disk frame back, as every removal does. -/
theorem Rep.dropDfn {i j : Fin 1024} {Q : Unit → Kernel → Prop} (rep : Rep s v) (pf : PageFile v)
    (table : v.place (.diskTable e i) = some t)
    (done : ∀ s', Rep s' (v.dropDfn e i j) → Q () s') :
    wp (freeDiskFrame (v.page (.diskTable e i) j)) Q E (s.setWord t j 0) := by
  have written := rep.setWord (i := j) (w := 0) table trivial fun c none => by cases none
  simp only [freeDiskFrame, wp_ite, wp_pure, wp_modify]
  by_cases zero : v.page (.diskTable e i) j = 0
  · rw [if_pos zero]
    have self := rep.setWord_self table j
    rw [zero] at self
    exact done _ (by rwa [View.dropDfn_of_zero zero])
  · rw [if_neg zero]
    have given := written.giveDisk (pf.apart e i j zero)
    exact done _ (by rwa [View.dropDfn, if_neg zero])

theorem pfRemoveEnvPage_wp {Q : Unit → Kernel → Prop} (rep : Rep s v) (linked : v.DiskLinked e)
    (pf : PageFile v) (done : ∀ s', Rep s' (v.dropDfn e (pdx va) (ptx va)) → Q () s') :
    wp (pfRemoveEnvPage e va) Q E s := by
  simp only [pfRemoveEnvPage, wp_bind, wp_getEnv, rep.globals, linked.dir]
  have missing : v.dfn e va = 0 → Q () s := fun zero =>
    done s (by rwa [View.dropDfn_of_zero zero])
  cases dir : v.place (.diskDir e) with
  | none =>
    refine missing (by_contra fun page => ?_)
    obtain ⟨_, _, here, _⟩ := rep.dfn_dir page
    rw [here] at dir
    cases dir
  | some d =>
    simp only [wp_bind]
    apply getDiskPageTable_wp rep dir
    cases table : v.place (.diskTable e (pdx va)) with
    | none => exact missing (congrFun (rep.wf.absent _ table) _)
    | some t =>
      simp only [wp_bind, wp_readWord, wp_writeWord, rep.mem table]
      exact rep.dropDfn pf table done

/-! ## Reading a page in -/

theorem pdx_roundDown (va : Nat) : pdx (roundDown va) = pdx va := by
  apply Fin.ext
  simp only [pdx, roundDown, ptSize, pageSize]
  omega

theorem ptx_roundDown (va : Nat) : ptx (roundDown va) = ptx va := by
  apply Fin.ext
  simp only [ptx, roundDown, pageSize]
  omega

theorem pageNo_roundDown (va : Nat) : pageNo (roundDown va) = pageNo va := by
  rw [pageNo, pdx_roundDown, ptx_roundDown, pageNo]

theorem UserVa.roundDown {va : Nat} (user : UserVa va) : UserVa (Fos.roundDown va) := by
  rwa [UserVa, pdx_roundDown]

/-- The page at `va` of `c` after the page `p` is read into it. -/
def View.readIn (v : View) (c va : Nat) (p : Page) : View :=
  ((v.touch c va true).setPage (userPageAt c va) p).setPte c va
    (((v.touch c va true).pte c va ||| 0) &&& ~~~permModified)

theorem View.touch_pte {write : Bool} :
    (v.touch e va write).pte e va = accessed (v.pte e va) write := by
  simp [View.touch, View.setPte, View.pte]

theorem View.Linked.of_globals (linked : v.Linked e) (globals : v'.globals = v.globals)
    (place : v'.place (.pageDir e) = v.place (.pageDir e)) : v'.Linked e := by
  rw [View.Linked, globals, place]
  exact linked

theorem readDiskPage_wp {c : Nat} {Q : Int → Kernel → Prop} (rep : Rep s v)
    (current : v.Current c) (lt : UserVa va)
    (done : ∀ s', Allows (v.pte c va) false true →
      Rep s' ((v.touch c va true).setPage (userPageAt c va) (v.diskPage d)) → Q 0 s')
    (fault : ¬ Allows (v.pte c va) false true → E .crash s) :
    wp (readDiskPage d va) Q E s := by
  simp only [readDiskPage, ideRead, kernelFrame, wp_bind]
  apply translate_wp _ _ rep current lt
  · intro f s' allowed page rep'
    simp only [wp_deref_some, wp_get, wp_writePage, wp_pure]
    have page' : (v.touch c va true).place (userPageAt c va) = some f := page
    have written := rep'.setPage (p := v.diskPage d) page' (fun _ => trivial) fun _ => rfl
    apply done _ allowed
    have disk : sectorsPage s'.globals.disk (startSector d) = v.diskPage d := by
      rw [rep'.globals]
      rfl
    rwa [disk]
  · intro denied
    exact fault denied

theorem pfReadEnvPage_wp {c : Nat} {Q : Int → Kernel → Prop} (rep : Rep s v)
    (diskLinked : v.DiskLinked e) (curenv : v.globals.curenv = some c) (linked : v.Linked c)
    (current : v.Current c) (lt : UserVa va)
    (done : ∀ s', v.dfn e va ≠ 0 → Allows (v.pte c va) false true →
      Rep s' ((v.setEnv e Env.countIn).readIn c (roundDown va) (v.diskPage (v.dfn e va).toNat)) →
      Q 0 s')
    (absent : ∀ s', v.dfn e va = 0 → Rep s' (v.setEnv e Env.countIn) → Q ePageNotExistInPF s')
    (fault : ∀ s', v.dfn e va ≠ 0 → ¬ Allows (v.pte c va) false true →
      Rep s' (v.setEnv e Env.countIn) → E .crash s') :
    wp (pfReadEnvPage e va) Q E s := by
  have counted := rep.setEnv e Env.countIn
  have diskLinked' : (v.setEnv e Env.countIn).DiskLinked e :=
    diskLinked.setEnv (fun _ => rfl) fun _ => rfl
  have linked' : (v.setEnv e Env.countIn).Linked c := by
    rcases eq_or_ne c e with rfl | ne
    · simpa [View.Linked, View.setEnv, Globals.setEnv, Env.countIn] using linked
    · simpa [View.Linked, View.setEnv, Globals.setEnv, Function.update_of_ne ne] using linked
  have current' : (v.setEnv e Env.countIn).Current c := current
  have dirEq := diskLinked'.dir
  rw [← counted.globals] at dirEq
  have lt' : UserVa (roundDown va) := UserVa.roundDown lt
  have pte' : v.pte c (roundDown va) = v.pte c va := by
    rw [View.pte, pdx_roundDown, ptx_roundDown, View.pte]
  simp only [pfReadEnvPage, wp_bind, wp_modifyEnv, wp_getEnv, dirEq]
  cases dir : v.place (.diskDir e) with
  | none =>
    have dir' : (v.setEnv e Env.countIn).place (.diskDir e) = none := dir
    have zero : v.dfn e va = 0 := by
      by_contra page
      obtain ⟨_, _, here, _⟩ := rep.dfn_dir page
      rw [here] at dir
      cases dir
    simp only [dir', wp_pure]
    exact absent _ zero counted
  | some d =>
    have dir' : (v.setEnv e Env.countIn).place (.diskDir e) = some d := dir
    simp only [dir', wp_bind]
    apply getDiskPageTable_wp counted dir'
    rw [pdx_roundDown]
    cases table : v.place (.diskTable e (pdx va)) with
    | none =>
      have table' : (v.setEnv e Env.countIn).place (.diskTable e (pdx va)) = none := table
      simp only [table', wp_pure]
      exact absent _ (congrFun (rep.wf.absent _ table) _) counted
    | some t =>
      have table' : (v.setEnv e Env.countIn).place (.diskTable e (pdx va)) = some t := table
      have entry : (s.setGlobals (s.globals.setEnv e Env.countIn)).mem t (ptx va) =
          v.dfn e va := by
        rw [counted.mem table']
        rfl
      simp only [table', wp_bind, wp_readWord, wp_ite, wp_pure, ptx_roundDown, entry]
      by_cases zero : v.dfn e va = 0
      · rw [if_pos zero]
        exact absent _ zero counted
      · rw [if_neg zero]
        apply readDiskPage_wp counted current' lt'
        · intro s₁ allowed rep₁
          have curenv₁ : s₁.globals.curenv = some c := by
            rw [rep₁.globals]
            exact curenv
          simp only [wp_get, curenv₁, wp_deref_some]
          have allowed' : Allows (v.pte c (roundDown va)) false true := allowed
          have page : v.pte c (roundDown va) ≠ 0 := ne_zero_of_present allowed'.1
          have touched : (((v.setEnv e Env.countIn).touch c (roundDown va) true).setPage
              (userPageAt c (roundDown va)) ((v.setEnv e Env.countIn).diskPage
                (v.dfn e va).toNat)).pte c (roundDown va) =
              accessed (v.pte c (roundDown va)) true := by
            rw [View.pte, View.setPage_page, Function.update_of_ne (by simp)]
            exact View.touch_pte
          apply ptSetPagePermissions_wp rep₁ (linked'.of_globals rfl rfl) current' lt'
            (by decide) (by decide) (Or.inr rfl)
          · intro s₂ rep₂
            refine done s₂ zero (pte' ▸ allowed') ?_
            rwa [touched, ← touched, View.pte, View.setPage_page, Function.update_of_ne (by simp)]
              at rep₂
          · intro m gone
            have there := rep₁.wf.absent _ gone
            rw [View.pte, there] at touched
            exfalso
            have pos := rep.place_pos (rep.place_child (child_userPageAt c (roundDown va)) page)
            have frame := frameOf_accessed (v.pte c (roundDown va)) true
            rw [← touched] at frame
            change frameOf 0 = _ at frame
            rw [frameOf_zero, View.pte] at frame
            omega
        · intro denied
          exact fault _ zero (pte' ▸ denied) counted

/-! ## Removing all pages -/

/-- Only the table `i` of `e` and the disk free list are different. -/
structure View.TableEdit (v v' : View) (e : Nat) (i : Fin 1024) : Prop where
  use : v'.use = v.use
  place : v'.place = v.place
  page : ∀ o, o ≠ .diskTable e i → v'.page o = v.page o
  globals : v'.globals = v.globals

theorem View.TableEdit.dropDfn {i : Fin 1024} (edit : v.TableEdit v' e i) (j : Fin 1024) :
    v.TableEdit (v'.dropDfn e i j) e i := by
  unfold View.dropDfn
  split
  · exact edit
  · exact ⟨edit.use, edit.place, fun o ne => by simp [Function.update_of_ne ne, edit.page o ne],
      edit.globals⟩

theorem View.dropDfn_entry (v : View) (e : Nat) (i j j' : Fin 1024) :
    (v.dropDfn e i j).page (.diskTable e i) j' =
      if j' = j then 0 else v.page (.diskTable e i) j' := by
  unfold View.dropDfn
  split
  · rename_i zero
    split
    · rename_i same
      rw [same, zero]
    · rfl
  · simp [Function.update_apply]

theorem mem_tableEntries (i : Fin 1024) : i ∈ tableEntries := by
  unfold tableEntries
  exact List.mem_finRange i

theorem nodup_tableEntries : tableEntries.Nodup := by
  unfold tableEntries
  exact List.nodup_finRange 1024

theorem mem_userEntries (i : Fin 1024) : i ∈ userEntries ↔ i < 955 := by
  unfold userEntries
  constructor
  · intro member
    exact of_decide_eq_true (List.mem_filter.mp member).2
  · intro lt
    exact List.mem_filter.mpr ⟨List.mem_finRange i, decide_eq_true lt⟩

theorem userEntries_cons : ∃ i rest, userEntries = i :: rest := by
  refine List.exists_cons_of_ne_nil fun empty => ?_
  have member := (mem_userEntries 0).mpr (by decide)
  rw [empty] at member
  cases member

/-- Clearing a whole disk page table. -/
theorem pfFreeTable_wp {i : Fin 1024} {Q : Unit → Kernel → Prop} (rep : Rep s v) (pf : PageFile v)
    (table : v.place (.diskTable e i) = some t)
    (done : ∀ s' v', Rep s' v' → PageFile v' → v.TableEdit v' e i →
      (∀ j, v'.page (.diskTable e i) j = 0) → Q () s') : wp (pfFreeTable t) Q E s := by
  unfold pfFreeTable
  apply wp_forM fun rest s' => ∃ v', Rep s' v' ∧ PageFile v' ∧ v.TableEdit v' e i ∧
    ∀ j, j ∉ rest → v'.page (.diskTable e i) j = 0
  · rintro j rest s₁ ⟨v₁, rep₁, pf₁, edit, zero⟩
    have table₁ : v₁.place (.diskTable e i) = some t := by rw [edit.place, table]
    simp only [wp_bind, wp_readWord, wp_writeWord, rep₁.mem table₁]
    apply rep₁.dropDfn pf₁ table₁
    intro s₂ rep₂
    refine ⟨_, rep₂, pf₁.dropDfn e i j, edit.dropDfn j, fun j' notin => ?_⟩
    rw [View.dropDfn_entry]
    split
    · rfl
    · rename_i ne
      exact zero j' (by simp [ne, notin])
  · rintro s₁ ⟨v₁, rep₁, pf₁, edit, zero⟩
    exact done s₁ v₁ rep₁ pf₁ edit fun j => zero j (by simp)
  · refine ⟨v, rep, pf, ⟨rfl, rfl, fun _ _ => rfl, rfl⟩, fun j notin => ?_⟩
    exact absurd (mem_tableEntries j) notin

/-- How far `pf_free_env` has come: it has only touched the page file of `e`. -/
structure View.Freeing (v v' : View) (e : Nat) : Prop where
  keeps : View.Keeps (Obj.DiskOf e) v v'
  dir : v'.place (.diskDir e) = v.place (.diskDir e)
  globals : v'.globals = v.globals

/-- An empty disk page table is unlinked and its frame is freed. -/
def View.freeTable (v : View) (e : Nat) (i : Fin 1024) (t : Nat) : View :=
  ((v.write (.diskDir e) i 0).drop (.diskTable e i) t).give t

theorem View.Freeing.freeTable {i : Fin 1024} (freeing : v.Freeing v' e)
    (holds : v'.use t = .holds (.diskTable e i)) : v.Freeing (v'.freeTable e i t) e where
  keeps := by
    refine freeing.keeps.trans ⟨fun o out => ?_, fun o out => ?_, fun f u kind => ?_⟩
    · have ne : o ≠ .diskTable e i := by
        rintro rfl
        exact out rfl
      simp [View.freeTable, Function.update_of_ne ne]
    · have ne : o ≠ .diskTable e i := by
        rintro rfl
        exact out rfl
      have ne' : o ≠ .diskDir e := by
        rintro rfl
        exact out rfl
      simp [View.freeTable, Function.update_of_ne ne, Function.update_of_ne ne']
    · rcases eq_or_ne f t with rfl | ne
      · rcases kind with rfl | rfl | rfl <;> simp [View.freeTable, holds]
      · simp [View.freeTable, Function.update_of_ne ne]
  dir := by simpa [View.freeTable] using freeing.dir
  globals := freeing.globals

theorem PageFile.freeTable {i : Fin 1024} (pf : PageFile v)
    (zero : ∀ j, v.page (.diskTable e i) j = 0) : PageFile (v.freeTable e i t) := by
  refine pf.congr (fun e' i' => ?_) rfl fun e' i' ge => ?_
  · by_cases same : Obj.diskTable e' i' = .diskTable e i
    · have empty : v.page (.diskTable e i) = zeroes := funext zero
      simp [View.freeTable, same, empty]
    · simp [View.freeTable, Function.update_of_ne same]
  · rcases eq_or_ne e' e with rfl | ne
    · rcases eq_or_ne i' i with rfl | ne'
      · simp [View.freeTable]
      · simpa [View.freeTable, Function.update_of_ne ne'] using pf.high e' i' ge
    · have ne' : Obj.diskDir e' ≠ .diskDir e := by simp [ne]
      simpa [View.freeTable, Function.update_of_ne ne'] using pf.high e' i' ge

/-- The loop of `pf_free_env`. -/
theorem pfFreeTables_wp {Q : Unit → Kernel → Prop} (rep : Rep s v) (linked : v.DiskLinked e)
    (pf : PageFile v) (dir : v.place (.diskDir e) = some d)
    (done : ∀ s' v', Rep s' v' → PageFile v' → v.Freeing v' e →
      (∀ i, v'.page (.diskDir e) i = 0) → Q () s') : wp (pfFreeTables e) Q E s := by
  unfold pfFreeTables
  apply wp_forM fun rest s' => ∃ v', Rep s' v' ∧ PageFile v' ∧ v.Freeing v' e ∧
    ∀ i, i < 955 → i ∉ rest → v'.page (.diskDir e) i = 0
  · rintro i rest s₁ ⟨v₁, rep₁, pf₁, freeing, zero⟩
    have child : (Obj.diskDir e).child i = some (.diskTable e i) := rfl
    have dir₁ : v₁.place (.diskDir e) = some d := by rw [freeing.dir, dir]
    have pointer : (s₁.globals.envs e).diskEnvPgdir = some d := by
      rw [rep₁.globals, freeing.globals, linked.dir, dir]
    have left : ∀ v₂ : View, (∀ i', i' ≠ i → v₂.page (.diskDir e) i' = v₁.page (.diskDir e) i') →
        v₂.page (.diskDir e) i = 0 → ∀ i', i' < 955 → i' ∉ rest → v₂.page (.diskDir e) i' = 0 := by
      intro v₂ others here i' lt notin
      rcases eq_or_ne i' i with rfl | ne
      · exact here
      · rw [others i' ne]
        exact zero i' lt (by simp [ne, notin])
    simp only [wp_bind, wp_getEnv, pointer, wp_deref_some, wp_readWord, rep₁.mem dir₁, wp_ite,
      wp_pure, and_present_ne]
    by_cases entry : v₁.page (.diskDir e) i = 0
    · have clear : ¬ present (v₁.page (.diskDir e) i) = true := by
        rw [entry]
        decide
      rw [if_neg clear]
      exact ⟨v₁, rep₁, pf₁, freeing, left v₁ (fun _ _ => rfl) entry⟩
    · have table := rep₁.place_child child entry
      have isPresent : present (v₁.page (.diskDir e) i) = true := rep₁.words (.diskDir e) i entry
      rw [if_pos isPresent]
      apply staticKernelVirtualAddress_wp (rep₁.diskEntry_lt child)
      rw [ppn_extractAddress]
      apply pfFreeTable_wp rep₁ pf₁ table
      intro s₂ v₂ rep₂ pf₂ edit zeros
      have table₂ : v₂.place (.diskTable e i) = some (frameOf (v₁.page (.diskDir e) i)) := by
        rw [edit.place, table]
      have dir₂ : v₂.place (.diskDir e) = some d := by rw [edit.place, dir₁]
      have holds := (rep₂.wf.place_use _ _).mp table₂
      have freeing₂ : v.Freeing v₂ e := by
        refine ⟨freeing.keeps.trans ⟨fun o _ => by rw [edit.place], fun o out => ?_, fun f u _ => by
          rw [edit.use]⟩, by rw [edit.place, freeing.dir], by rw [edit.globals, freeing.globals]⟩
        refine edit.page o ?_
        rintro rfl
        exact out rfl
      simp only [wp_writeWord]
      apply toFrameInfo_wp
      · rw [ppn_extractAddress]
        have lt := rep₂.place_lt table₂
        have globals := rep₂.globals
        rw [← globals] at lt
        exact lt
      · rw [ppn_extractAddress]
        have one : (s₂.setWord d i 0).references (frameOf (v₁.page (.diskDir e) i)) = 1 :=
          rep₂.refs _ _ holds
        apply decrementReferences_wp one
        have lost := rep₂.unlink child dir₂ table₂ fun _ _ none => by cases none
        have given := lost.give (f := frameOf (v₁.page (.diskDir e) i))
          (Or.inr (Function.update_self ..))
        refine ⟨_, given, pf₂.freeTable zeros, freeing₂.freeTable holds, left _ ?_ ?_⟩
        · intro i' ne
          simp [Function.update_of_ne ne, edit.page (.diskDir e) (by simp)]
        · simp
  · rintro s₁ ⟨v₁, rep₁, pf₁, freeing, zero⟩
    refine done s₁ v₁ rep₁ pf₁ freeing fun i => ?_
    by_cases lt : i < 955
    · exact zero i lt (by simp)
    · exact pf₁.high e i (Fin.not_lt.mp lt)
  · refine ⟨v, rep, pf, ⟨.refl _ v, rfl, rfl⟩, fun i lt notin => ?_⟩
    exact absurd ((mem_userEntries i).mpr lt) notin

/-- The page file of `e` is gone, and nothing else has changed. -/
structure View.Freed (v v' : View) (e : Nat) : Prop where
  keeps : View.Keeps (Obj.DiskOf e) v v'
  gone : ∀ o, Obj.DiskOf e o → v'.place o = none
  globals : v'.globals = v.globals.setEnv e Env.clearDiskDir

theorem pfFreeEnv_wp {Q : Unit → Kernel → Prop} (rep : Rep s v) (linked : v.DiskLinked e)
    (pf : PageFile v)
    (done : ∀ s' v', v.place (.diskDir e) ≠ none → Rep s' v' → PageFile v' → v.Freed v' e →
      Q () s')
    (noDir : v.place (.diskDir e) = none → E .crash s) : wp (pfFreeEnv e) Q E s := by
  simp only [pfFreeEnv, wp_bind]
  cases dir : v.place (.diskDir e) with
  | none =>
    have pointer : (s.globals.envs e).diskEnvPgdir = none := by
      rw [rep.globals, linked.dir, dir]
    obtain ⟨i, rest, first⟩ := userEntries_cons
    rw [pfFreeTables, first]
    change wp (_ >>= fun _ => List.forM rest _) _ E s
    simp only [wp_bind, wp_getEnv, pointer, wp_deref_none]
    exact noDir dir
  | some d =>
    apply pfFreeTables_wp rep linked pf dir
    intro s₁ v₁ rep₁ pf₁ freeing zero
    have dir₁ : v₁.place (.diskDir e) = some d := by rw [freeing.dir, dir]
    have holds := (rep₁.wf.place_use _ _).mp dir₁
    have one := rep₁.refs _ _ holds
    have pa : (s₁.globals.envs e).diskEnvPgdirPA = toPhysicalAddress d := by
      rw [rep₁.globals, freeing.globals, linked.pa d dir]
    simp only [wp_getEnv, pa]
    apply toFrameInfo_wp
    · rw [ppn_toPhysicalAddress, rep₁.globals]
      exact rep₁.place_lt dir₁
    · rw [ppn_toPhysicalAddress]
      apply decrementReferences_wp one
      have lost : (v₁.forget (Obj.DiskOf e)).use d = .lost := by
        simp [View.forget, Arena.View.forget, holds, Obj.DiskOf]
      have forgotten := rep₁.forget (Obj.DiskOf e) (fun _ _ _ child => Obj.diskOf_child child) id id
      have given := (forgotten.give (Or.inr lost)).setEnv e Env.clearDiskDir
      have tables : ∀ i, v₁.place (.diskTable e i) = none := fun i =>
        (rep₁.place_none (o := .diskDir e) rfl).mpr (zero i)
      have pages : ∀ o, Obj.DiskOf e o → v₁.page o = zeroes := by
        rintro (_ | _ | _ | _ | _ | e' | ⟨e', i⟩) mine <;> try exact mine.elim
        · obtain rfl : e' = e := mine
          exact funext zero
        · obtain rfl : e' = e := mine
          exact rep₁.wf.absent _ (tables i)
      refine done _ _ (by simp [dir]) given ?_ ⟨freeing.keeps.trans ⟨?_, ?_, ?_⟩, ?_, ?_⟩
      · have same : ∀ o, (v₁.forget (Obj.DiskOf e)).page o = v₁.page o := by
          intro o
          simp only [View.forget_page]
          split
          · rename_i mine
            exact (pages o mine).symm
          · rfl
        exact pf₁.congr (fun e' i => same _) rfl fun e' i ge =>
          (congrFun (same _) i).trans (pf₁.high e' i ge)
      · intro o out
        simp [View.setEnv, out]
      · intro o out
        simp [View.setEnv, out]
      · intro f u kind
        simp only [View.setEnv, View.setGlobals_toView, View.give_use]
        rcases eq_or_ne f d with rfl | ne
        · rcases kind with rfl | rfl | rfl <;> simp [holds]
        · rw [Function.update_of_ne ne]
          simp only [View.forget, Arena.View.forget]
          split
          · rename_i o here
            rw [here]
            split
            · rename_i mine
              have placed := (rep₁.wf.place_use o f).mpr here
              exfalso
              rcases o with _ | _ | _ | _ | _ | e' | ⟨e', i⟩ <;> try exact mine.elim
              · obtain rfl : e' = e := mine
                rw [dir₁] at placed
                exact ne (Option.some.inj placed).symm
              · obtain rfl : e' = e := mine
                rw [tables i] at placed
                cases placed
            · rfl
          · rfl
      · intro o mine
        simp [View.setEnv, mine]
      · simp only [View.setEnv, View.setGlobals_globals, View.give_globals, View.forget_globals,
          freeing.globals]

/-! ## Counting pages -/

/-- The number of pages that `e` has in the tables `is`. -/
def View.countIn (v : View) (e : Nat) (is : List (Fin 1024)) : Nat :=
  (is.map fun i => countEntries (v.page (.diskTable e i))).sum

theorem countEntries_zeroes : countEntries zeroes = 0 := by
  simp [countEntries, zeroes]

theorem pfCalculateAllocatedPages_wp {Q : Nat → Kernel → Prop} (rep : Rep s v)
    (linked : v.DiskLinked e) (dir : v.place (.diskDir e) = some d)
    (done : Q (v.countIn e userEntries) s) : wp (pfCalculateAllocatedPages e) Q E s := by
  unfold pfCalculateAllocatedPages
  apply wp_foldlM fun rest counter s' =>
    s' = s ∧ counter + v.countIn e rest = v.countIn e userEntries
  · rintro i rest counter s₁ ⟨rfl, total⟩
    have child : (Obj.diskDir e).child i = some (.diskTable e i) := rfl
    have pointer : (s₁.globals.envs e).diskEnvPgdir = some d := by
      rw [rep.globals, linked.dir, dir]
    have next : v.countIn e (i :: rest) =
        countEntries (v.page (.diskTable e i)) + v.countIn e rest := by
      simp [View.countIn]
    rw [next] at total
    simp only [wp_bind, wp_getEnv, pointer, wp_deref_some, wp_readWord, rep.mem dir, wp_ite,
      wp_pure, and_present_ne]
    by_cases entry : v.page (.diskDir e) i = 0
    · have clear : ¬ present (v.page (.diskDir e) i) = true := by
        rw [entry]
        decide
      have empty : v.page (.diskTable e i) = zeroes :=
        rep.wf.absent _ ((rep.place_none child).mpr entry)
      rw [if_neg clear]
      rw [empty, countEntries_zeroes, Nat.zero_add] at total
      exact ⟨trivial, total⟩
    · have isPresent : present (v.page (.diskDir e) i) = true := rep.words (.diskDir e) i entry
      rw [if_pos isPresent]
      apply staticKernelVirtualAddress_wp (rep.diskEntry_lt child)
      rw [ppn_extractAddress, wp_get, rep.mem (rep.place_child child entry)]
      exact ⟨rfl, by omega⟩
  · rintro counter s₁ ⟨rfl, total⟩
    simp only [View.countIn, List.map_nil, List.sum_nil, Nat.add_zero] at total
    rw [total]
    exact done
  · exact ⟨rfl, Nat.zero_add _⟩

theorem pfCalculateAllocatedPages_none_wp {Q : Nat → Kernel → Prop} (rep : Rep s v)
    (linked : v.DiskLinked e) (dir : v.place (.diskDir e) = none) (crash : E .crash s) :
    wp (pfCalculateAllocatedPages e) Q E s := by
  have pointer : (s.globals.envs e).diskEnvPgdir = none := by
    rw [rep.globals, linked.dir, dir]
  obtain ⟨i, rest, first⟩ := userEntries_cons
  rw [pfCalculateAllocatedPages, first, List.foldlM_cons]
  simp only [wp_bind, wp_getEnv, pointer, wp_deref_none]
  exact crash

end Fos
