import Fos.PageFile.Run

/-!
# Allocating pages of the page file

`allocateMem` of `kern/memory_manager.c`, which adds the pages of a range to the page file
one after another and looks at no result.

* `FileSound`: a consistent state, with pages anywhere below `KERNEL_BASE`;
* `Filled`: what adding pages does when the page file may get full on the way;
* `addPages_wp`, `allocateMem_wp`: the loop, on any state.
-/

namespace Fos

open Arena Linked Exec

variable {s s' : Kernel} {v v' : View} {e va : Nat}

/-- A consistent state.  Unlike in `Sound`, pages may lie above `USER_TOP`. -/
structure FileSound (s : Kernel) (v : View) : Prop extends v.Pointers where
  rep : Rep s v
  shared : SharedOut v

theorem Sound.file (sound : Sound s v) : FileSound s v where
  toPointers := sound.toPointers
  rep := sound.rep
  shared := sound.pageFile.toSharedOut

namespace FileSound

variable (sound : FileSound s v)

include sound

theorem withTables (rep : Rep s' (v.withTables e va)) : FileSound s' (v.withTables e va) where
  toPointers := sound.toPointers.withTables e va
  rep := rep
  shared := sound.shared.congr (fun e' i => sound.rep.withTables_page (by simp))
    (by simp [View.withTables])

theorem addPage (rep : Rep s' (v.addPage e va)) : FileSound s' (v.addPage e va) where
  toPointers := sound.toPointers.addPage e va
  rep := rep
  shared := by
    have tables : SharedOut (v.withTables e va) :=
      sound.shared.congr (fun e' i => sound.rep.withTables_page (by simp))
        (by simp [View.withTables])
    rw [View.addPage]
    rcases (v.withTables e va).assignDfn_eq e va with same | ⟨d, ds, free, zero, same⟩
    · rwa [same]
    · rw [same]
      exact tables.takeDfn zero free

end FileSound

/-! ## Several pages -/

/-- The pages at the addresses `vas` that `e` does not have. -/
def View.missing (v : View) (e : Nat) (vas : List Nat) : Nat :=
  vas.countP fun va => v.entry e (pageNo va) = 0

theorem View.missing_cons (v : View) (e va : Nat) (vas : List Nat) : v.missing e (va :: vas) =
    v.missing e vas + if v.entry e (pageNo va) = 0 then 1 else 0 := by
  simp [View.missing, List.countP_cons]

theorem View.missing_congr {vas : List Nat}
    (entry : ∀ p ∈ vas.map pageNo, v'.entry e p = v.entry e p) :
    v'.missing e vas = v.missing e vas :=
  List.countP_congr fun va mem => by rw [entry _ (List.mem_map_of_mem mem)]

/-- The pages at `vas` were added for `e`, as long as there were free disk frames. -/
structure Filled (e : Nat) (vas : List Nat) (v v' : View) : Prop where
  others : ∀ e' p, (e' = e → p ∉ vas.map pageNo) → v'.entry e' p = v.entry e' p
  kept : ∀ e' p, v.entry e' p ≠ 0 → v'.entry e' p = v.entry e' p
  enough : v.missing e vas ≤ v.diskFree.length → (∀ va ∈ vas, v'.entry e (pageNo va) ≠ 0) ∧
    v'.diskFree.length + v.missing e vas = v.diskFree.length
  full : v.diskFree.length < v.missing e vas →
    (∃ va ∈ vas, v'.entry e (pageNo va) = 0) ∧ v'.diskFree = []

theorem Filled.nil (e : Nat) (v : View) : Filled e [] v v where
  others _ _ _ := rfl
  kept _ _ _ := rfl
  enough _ := ⟨by simp, by simp [View.missing]⟩
  full lt := by simp [View.missing] at lt

section Cons

variable {v₁ : View} {vas : List Nat}

/-- The first page is there already, or nothing is left for it. -/
theorem Filled.skip (filled : Filled e vas v₁ v') (first : pageNo va ∉ vas.map pageNo)
    (entry : ∀ e' p, v₁.entry e' p = v.entry e' p) (free : v₁.diskFree = v.diskFree)
    (skip : v.entry e (pageNo va) ≠ 0 ∨ v.diskFree = []) : Filled e (va :: vas) v v' := by
  have missing : v₁.missing e vas = v.missing e vas := View.missing_congr fun p _ => entry e p
  have still : v'.entry e (pageNo va) = v.entry e (pageNo va) := by
    rw [filled.others e _ fun _ => first, entry]
  refine ⟨fun e' p out => ?_, fun e' p page => ?_, fun le => ?_, fun lt => ?_⟩
  · rw [filled.others e' p fun eq mem => out eq (List.mem_cons_of_mem _ mem), entry]
  · rw [filled.kept e' p (by rwa [entry]), entry]
  · rw [View.missing_cons] at le ⊢
    have page : v.entry e (pageNo va) ≠ 0 := by
      intro zero
      rcases skip with page | nothing
      · exact page zero
      · simp [zero, nothing] at le
    rw [if_neg page, Nat.add_zero] at le ⊢
    obtain ⟨all, count⟩ := filled.enough (by rwa [missing, free])
    rw [missing, free] at count
    refine ⟨fun va' mem => ?_, count⟩
    rcases List.mem_cons.mp mem with rfl | mem
    · rwa [still]
    · exact all va' mem
  · rw [View.missing_cons] at lt
    by_cases page : v.entry e (pageNo va) = 0
    · have nothing : v.diskFree = [] := skip.resolve_left (not_not.mpr page)
      refine ⟨⟨va, by simp, still.trans page⟩, ?_⟩
      by_cases more : v.missing e vas = 0
      · have count := (filled.enough (by rw [missing, more]; exact Nat.zero_le _)).2
        rw [missing, more, free, nothing] at count
        exact List.length_eq_zero_iff.mp count
      · exact (filled.full (by rw [missing, free, nothing]; exact Nat.pos_of_ne_zero more)).2
    · rw [if_neg page, Nat.add_zero] at lt
      obtain ⟨⟨va', mem, zero⟩, none⟩ := filled.full (by rwa [missing, free])
      exact ⟨⟨va', List.mem_cons_of_mem _ mem, zero⟩, none⟩

/-- The first page gets a disk frame. -/
theorem Filled.take (filled : Filled e vas v₁ v') (first : pageNo va ∉ vas.map pageNo)
    (entry : ∀ e' p, (e', p) ≠ (e, pageNo va) → v₁.entry e' p = v.entry e' p)
    (page : v₁.entry e (pageNo va) ≠ 0) (absent : v.entry e (pageNo va) = 0)
    (free : v.diskFree.length = v₁.diskFree.length + 1) : Filled e (va :: vas) v v' := by
  have missing : v₁.missing e vas = v.missing e vas := View.missing_congr fun p mem =>
    entry e p fun eq => first (by rwa [(Prod.mk.inj eq).2] at mem)
  refine ⟨fun e' p out => ?_, fun e' p page' => ?_, fun le => ?_, fun lt => ?_⟩
  · rw [filled.others e' p fun eq mem => out eq (List.mem_cons_of_mem _ mem), entry]
    intro eq
    obtain ⟨rfl, rfl⟩ := Prod.mk.inj eq
    exact out rfl (by simp)
  · have other : (e', p) ≠ (e, pageNo va) := fun eq => by
      obtain ⟨rfl, rfl⟩ := Prod.mk.inj eq
      exact page' absent
    rw [filled.kept e' p (by rwa [entry e' p other]), entry e' p other]
  · rw [View.missing_cons, if_pos absent] at le ⊢
    obtain ⟨all, count⟩ := filled.enough (by omega)
    refine ⟨fun va' mem => ?_, by omega⟩
    rcases List.mem_cons.mp mem with rfl | mem
    · rwa [filled.kept e _ page]
    · exact all va' mem
  · rw [View.missing_cons, if_pos absent] at lt
    obtain ⟨⟨va', mem, zero⟩, none⟩ := filled.full (by omega)
    exact ⟨⟨va', List.mem_cons_of_mem _ mem, zero⟩, none⟩

end Cons

/-- What adding one page does to the disk frames. -/
theorem FileSound.addPage_cases (sound : FileSound s v) (page : (v.addPage e va).dfn e va ≠ 0) :
    (v.entry e (pageNo va) ≠ 0 ∧ (v.addPage e va).diskFree = v.diskFree) ∨
      v.entry e (pageNo va) = 0 ∧ v.diskFree.length = (v.addPage e va).diskFree.length + 1 := by
  have dfn : (v.withTables e va).dfn e va = v.entry e (pageNo va) :=
    sound.rep.withTables_entry e (pageNo va)
  have free : (v.withTables e va).diskFree = v.diskFree := by simp [View.withTables]
  rw [View.addPage] at page ⊢
  rcases (v.withTables e va).assignDfn_eq e va with same | ⟨d, ds, free', zero, same⟩
  · rw [same] at page ⊢
    exact Or.inl ⟨dfn ▸ page, free⟩
  · rw [same]
    refine Or.inr ⟨dfn ▸ zero, ?_⟩
    rw [← free]
    simp [View.takeDfn, free']

/-- The loop over the pages. -/
theorem addPages_wp {vas : List Nat} (sound : FileSound s v) (base : ∀ va ∈ vas, va < kernelBase)
    (nodup : (vas.map pageNo).Nodup) :
    wp (vas.forM fun va => do let _ ← pfAddEmptyEnvPage e va false)
      (fun _ s' => ∃ v', FileSound s' v' ∧ Filled e vas v v') (fun _ _ => True) s := by
  induction vas generalizing s v with
  | nil => exact ⟨v, sound, Filled.nil e v⟩
  | cons va vas ih =>
    rw [List.map_cons, List.nodup_cons] at nodup
    have rest : ∀ {s₁ v₁}, FileSound s₁ v₁ →
        wp (vas.forM fun va => do let _ ← pfAddEmptyEnvPage e va false)
          (fun _ s' => ∃ v', FileSound s' v' ∧ Filled e vas v₁ v') (fun _ _ => True) s₁ :=
      fun sound₁ => ih sound₁ (fun va mem => base va (by simp [mem])) nodup.2
    rw [wp_forM_cons, wp_bind]
    apply pfAddEmptyEnvPage_wp sound.rep (sound.diskLinked e) sound.shared (base va (by simp))
    · intro s₁ rep₁ page
      rw [wp_pure]
      refine wp_mono (rest (sound.addPage rep₁)) ?_ fun _ _ h => h
      rintro _ s₂ ⟨v₂, sound₂, filled⟩
      refine ⟨v₂, sound₂, ?_⟩
      rcases sound.addPage_cases page with ⟨there, same⟩ | ⟨absent, free⟩
      · refine filled.skip nodup.1 (fun e' p => ?_) same (Or.inl there)
        by_cases eq : (e', p) = (e, pageNo va)
        · obtain ⟨rfl, rfl⟩ := Prod.mk.inj eq
          exact sound.rep.addPage_dfn there
        · exact sound.rep.addPage_entry eq
      · exact filled.take nodup.1 (fun e' p ne => sound.rep.addPage_entry ne) page absent free
    · intro s₁ rep₁ absent nothing
      rw [wp_pure]
      refine wp_mono (rest (sound.withTables rep₁)) ?_ fun _ _ h => h
      rintro _ s₂ ⟨v₂, sound₂, filled⟩
      exact ⟨v₂, sound₂, filled.skip nodup.1 sound.rep.withTables_entry (by simp [View.withTables])
        (Or.inr nothing)⟩
    · intro _ _ _ _ _ _
      trivial

/-! ## Ranges of addresses -/

/-- `PTE` of a page in the page file: the entry of the disk page table, 0 if there is none. -/
def Kernel.pageFileEntry (s : Kernel) (e va : Nat) : Word :=
  match (s.globals.envs e).diskEnvPgdir with
  | none => 0
  | some dir =>
    if s.mem dir (pdx va) = 0 then 0 else s.mem (frameOf (s.mem dir (pdx va))) (ptx va)

/-- The walk finds what the abstract state says. -/
theorem FileSound.pageFileEntry (sound : FileSound s v) (e va : Nat) :
    s.pageFileEntry e va = v.entry e (pageNo va) := by
  have child : (Obj.diskDir e).child (pdx va) = some (.diskTable e (pdx va)) := rfl
  have absent : v.place (.diskTable e (pdx va)) = none → v.entry e (pageNo va) = 0 :=
    fun none => congrFun (sound.rep.wf.absent _ none) _
  rw [Kernel.pageFileEntry, sound.rep.globals, (sound.diskLinked e).dir]
  cases dir : v.place (.diskDir e) with
  | none =>
    refine (absent ((sound.rep.place_none child).mpr ?_)).symm
    exact congrFun (sound.rep.wf.absent _ dir) _
  | some d =>
    simp only [sound.rep.mem dir]
    split
    · rename_i zero
      exact (absent ((sound.rep.place_none child).mpr zero)).symm
    · rename_i entry
      rw [sound.rep.mem (sound.rep.place_child child entry)]
      rfl

/-- The addresses that `allocateMem` adds. -/
def rangeVas (va size : Nat) : List Nat :=
  (List.range (size / pageSize + if size % pageSize ≠ 0 then 1 else 0)).map fun i =>
    (va + i * pageSize) % word32

theorem allocateMem_eq (e va size : Nat) : allocateMem e va size =
    ((rangeVas va size).forM fun va => do let _ ← pfAddEmptyEnvPage e va false) := by
  rw [rangeVas, allocateMem]
  simp only [List.forM_eq_forM, List.forM_map]

/-- Addresses in different pages. -/
theorem div_eq_of_pageNo {a b : Nat} (lt : a < word32) (lt' : b < word32)
    (eq : pageNo a = pageNo b) : a / pageSize = b / pageSize := by
  have dir : a / ptSize % 1024 = b / ptSize % 1024 := congrArg (·.1.val) eq
  have table : a / pageSize % 1024 = b / pageSize % 1024 := congrArg (·.2.val) eq
  simp only [word32, ptSize, pageSize] at *
  omega

/-- A range below `KERNEL_BASE` does not wrap around. -/
theorem rangeVas_eq {size : Nat} (lt : va < word32)
    (base : ∀ a ∈ rangeVas va size, a < kernelBase) :
    rangeVas va size = (List.range (size / pageSize + if size % pageSize ≠ 0 then 1 else 0)).map
      (va + · * pageSize) := by
  rw [rangeVas] at base ⊢
  refine List.map_congr_left fun i mem => Nat.mod_eq_of_lt ?_
  have base : ∀ k ≤ i, (va + k * pageSize) % word32 < kernelBase := fun k le =>
    base _ (List.mem_map.mpr ⟨k, List.mem_range.mpr (le.trans_lt (List.mem_range.mp mem)), rfl⟩)
  induction i with
  | zero => simpa using lt
  | succ i ih =>
    have below := ih (by simp only [List.mem_range] at mem ⊢; omega) fun k le =>
      base k (Nat.le_succ_of_le le)
    have last := base i (Nat.le_succ i)
    rw [Nat.mod_eq_of_lt below] at last
    have next : va + (i + 1) * pageSize = va + i * pageSize + pageSize := by
      rw [Nat.succ_mul, Nat.add_assoc]
    rw [next]
    exact (Nat.add_lt_add_right last pageSize).trans_le (by decide)

theorem rangeVas_nodup {size : Nat} (lt : va < word32)
    (base : ∀ a ∈ rangeVas va size, a < kernelBase) : ((rangeVas va size).map pageNo).Nodup := by
  have below : ∀ a ∈ rangeVas va size, a < word32 := fun a mem =>
    (base a mem).trans (by decide)
  rw [rangeVas_eq lt base] at below ⊢
  generalize size / pageSize + (if size % pageSize ≠ 0 then 1 else 0) = n at below ⊢
  have small : ∀ i ∈ List.range n, va + i * pageSize < word32 := fun i mem =>
    below _ (List.mem_map.mpr ⟨i, mem, rfl⟩)
  rw [List.map_map]
  refine List.Nodup.map_on (fun i mem j mem' eq => ?_) List.nodup_range
  have div := div_eq_of_pageNo (small i mem) (small j mem') eq
  simp only [pageSize] at div
  omega

/-- `allocateMem`, wherever the range lies and however many disk frames are free. -/
theorem allocateMem_wp {size : Nat} (sound : FileSound s v) (lt : va < word32) :
    wp (allocateMem e va size) (fun _ s' => (∀ a ∈ rangeVas va size, a < kernelBase) ∧
      ∃ v', FileSound s' v' ∧ Filled e (rangeVas va size) v v') (fun _ _ => True) s := by
  rw [allocateMem_eq]
  by_cases base : ∀ a ∈ rangeVas va size, a < kernelBase
  · exact wp_mono (addPages_wp sound base (rangeVas_nodup lt base)) (fun _ _ h => ⟨base, h⟩)
      fun _ _ h => h
  · obtain ⟨a, mem, high⟩ : ∃ a ∈ rangeVas va size, kernelBase ≤ a := by simpa using base
    refine wp_forM_stops mem fun s => ?_
    simp only [pfAddEmptyEnvPage, diskFrameFor, Bool.false_eq_true, if_false, wp_bind,
      if_pos high, wp_panic]

/-- Below `USER_TOP` the loop is a run of page-file operations. -/
theorem FileReach.allocateMem {m : Machine} {b : Book} {size : Nat} (reach : FileReach m s b)
    (user : ∀ a ∈ rangeVas va size, a < userTop) (run : Fos.allocateMem e va size s = .ok () s') :
    ∃ b', FileReach m s' b' := by
  rw [allocateMem_eq] at run
  have loop : wp ((rangeVas va size).forM fun va => do let _ ← pfAddEmptyEnvPage e va false)
      (fun _ s' => ∃ b', FileReach m s' b') (fun _ _ => True) s := by
    apply wp_forM fun rest s₁ => (∀ a ∈ rest, a < userTop) ∧ ∃ b', FileReach m s₁ b'
    · rintro a rest s₁ ⟨user, b₁, reach₁⟩
      rw [wp_bind, wp]
      cases added : pfAddEmptyEnvPage e a false s₁ with
      | ok r s₂ =>
        exact ⟨fun a' mem => user a' (by simp [mem]), _,
          reach₁.returns (.addEmpty e a false) (user a (by simp)) added⟩
      | error x s₂ => trivial
    · rintro s₁ ⟨-, reach₁⟩
      exact reach₁
    · exact ⟨user, b, reach⟩
  exact (wp_ok run).mp loop

/-! ## Memory for the tables -/

/-- The frames that the tables of a page take. -/
def View.tablesNeeded (v : View) (e va : Nat) : Nat :=
  (if v.place (.diskDir e) = none then 1 else 0) +
    if v.place (.diskTable e (pdx va)) = none then 1 else 0

/-- Without a disk directory there are no disk tables. -/
theorem Rep.dir_of_table {i : Fin 1024} (rep : Rep s v) (table : v.place (.diskTable e i) ≠ none) :
    v.place (.diskDir e) ≠ none := by
  intro absent
  have child : (Obj.diskDir e).child i = some (.diskTable e i) := rfl
  exact table ((rep.place_none child).mpr (congrFun (rep.wf.absent _ absent) _))

theorem View.withTables_room (v : View) (e va : Nat) (room : v.tablesNeeded e va ≤ v.free.length) :
    v.free.length = (v.withTables e va).free.length + v.tablesNeeded e va ∧
      (v.withTables e va).place (.diskTable e (pdx va)) ≠ none := by
  have dir : v.free.length = (v.withDiskDir e).free.length +
      if v.place (.diskDir e) = none then 1 else 0 := by
    unfold View.withDiskDir
    unfold View.tablesNeeded at room
    split
    · rename_i f rest absent free
      simp [View.newDiskDir, View.setEnv, free, absent]
    · rename_i out
      split
      · rename_i absent
        rw [if_pos absent] at room
        obtain ⟨f, rest, free⟩ : ∃ f rest, v.free = f :: rest :=
          List.exists_cons_of_length_pos (by omega)
        exact absurd free (out f rest absent)
      · rfl
  have place : (v.withDiskDir e).place (.diskTable e (pdx va)) =
      v.place (.diskTable e (pdx va)) := View.withDiskDir_place (by simp)
  rw [View.tablesNeeded] at room ⊢
  rw [View.withTables]
  generalize v.withDiskDir e = w at dir place
  unfold View.withDiskTable
  split
  · rename_i t rest absent free
    rw [place] at absent
    rw [if_pos absent, dir, free]
    refine ⟨?_, by simp [View.newDiskTable]⟩
    simp [View.newDiskTable, free]
    omega
  · rename_i out
    by_cases absent : v.place (.diskTable e (pdx va)) = none
    · rw [if_pos absent] at room
      obtain ⟨t, rest, free⟩ : ∃ t rest, w.free = t :: rest :=
        List.exists_cons_of_length_pos (by omega)
      exact absurd free (out t rest (place.trans absent))
    · rw [if_neg absent]
      exact ⟨dir, by rwa [place]⟩

/-- The free frames are determined by the state. -/
theorem Rep.free_unique (rep : Rep s v) (rep' : Rep s v') : v.free = v'.free :=
  rep.freeList.seg.unique rep'.freeList.seg (rep.freeList.first.symm.trans rep'.freeList.first)

/-- With memory for its tables a page is added, or left out of a full page file. -/
theorem addPage_returns (sound : FileSound s v) (base : va < kernelBase)
    (room : v.tablesNeeded e va ≤ v.free.length) :
    wp (do let _ ← pfAddEmptyEnvPage e va false) (fun _ s' => ∃ v', FileSound s' v' ∧
      v.free.length = v'.free.length + v.tablesNeeded e va ∧
      v'.place (.diskTable e (pdx va)) ≠ none) (fun _ _ => False) s := by
  obtain ⟨length, placed⟩ := v.withTables_room e va room
  rw [wp_bind]
  apply pfAddEmptyEnvPage_wp sound.rep (sound.diskLinked e) sound.shared base
  · intro s₁ rep₁ _
    refine ⟨_, sound.addPage rep₁, ?_, ?_⟩
    · rwa [View.addPage, View.assignDfn_free]
    · rwa [View.addPage, View.assignDfn_place]
  · intro s₁ rep₁ _ _
    exact ⟨_, sound.withTables rep₁, length, placed⟩
  · intro s₁ v₁ _ cut empty missing
    rw [View.tablesNeeded] at room
    by_cases dir : v.place (.diskDir e) = none
    · have table : v.place (.diskTable e (pdx va)) = none := by
        by_contra table
        exact sound.rep.dir_of_table table dir
      have short := View.length_withDiskDir v e
      rw [if_pos dir, if_pos table] at room
      rcases cut with rfl | rfl
      · simp [empty] at room
      · rw [empty, List.length_nil] at short
        omega
    · have table := missing.resolve_left dir
      obtain ⟨d, dir⟩ := Option.ne_none_iff_exists'.mp dir
      obtain rfl : v₁ = v := by
        rcases cut with rfl | rfl
        · rfl
        · exact View.withDiskDir_some dir
      simp [empty, table] at room

/-- With memory for the tables the loop ends, whether or not the page file gets full. -/
theorem allocateMem_returns (e va n : Nat) (sound : FileSound s v) (aligned : va % ptSize = 0)
    (base : va + n * pageSize ≤ kernelBase) (room : 2 + n / 1024 ≤ v.free.length) :
    ∃ s', allocateMem e va (n * pageSize) s = .ok () s' ∧
      ∃ v', FileSound s' v' ∧ Filled e (rangeVas va (n * pageSize)) v v' ∧
        v.free.length ≤ v'.free.length + (2 + n / 1024) := by
  have lt : va < word32 := by
    simp only [word32, kernelBase] at *
    omega
  have pages : n * pageSize / pageSize + (if n * pageSize % pageSize ≠ 0 then 1 else 0) = n := by
    rw [Nat.mul_div_cancel _ (by decide), Nat.mul_mod_left, if_neg (by simp), Nat.add_zero]
  have loop : wp (allocateMem e va (n * pageSize)) (fun _ s' => ∃ v', FileSound s' v' ∧
      v.free.length ≤ v'.free.length + (2 + n / 1024)) (fun _ _ => False) s := by
    rw [allocateMem, pages, List.range_eq_range']
    -- before pass `i` the table of the page before is there
    apply wp_forM fun rest s₁ => ∃ i v₁, i + rest.length = n ∧ rest = List.range' i rest.length ∧
      FileSound s₁ v₁ ∧ (i = 0 ∧ v.free.length = v₁.free.length ∨
        0 < i ∧ v.free.length ≤ v₁.free.length + 1 + (i + 1023) / 1024 ∧
          v₁.place (.diskTable e (pdx (va + (i - 1) * pageSize))) ≠ none)
    · rintro i rest s₁ ⟨k, v₁, total, range, sound₁, count⟩
      simp only [List.length_cons, List.range'_succ, List.cons.injEq] at total range
      obtain ⟨rfl, range⟩ := range
      have below : va + i * pageSize < kernelBase := by
        simp only [pageSize, kernelBase] at *
        omega
      have needed : v₁.tablesNeeded e (va + i * pageSize) ≤ 2 := by
        rw [View.tablesNeeded]
        split <;> split <;> omega
      have later : 0 < i → v₁.tablesNeeded e (va + i * pageSize) ≤
          if i % 1024 = 0 then 1 else 0 := by
        intro pos
        obtain ⟨-, -, placed⟩ := count.resolve_left (by omega)
        have dir := sound₁.rep.dir_of_table placed
        rw [View.tablesNeeded, if_neg dir]
        by_cases first : i % 1024 = 0
        · rw [if_pos first]
          split <;> omega
        · have same : pdx (va + (i - 1) * pageSize) = pdx (va + i * pageSize) := by
            apply Fin.ext
            simp only [pdx, pageSize, ptSize] at *
            omega
          rw [if_neg first, if_neg (same ▸ placed)]
      rw [Nat.mod_eq_of_lt (below.trans (by decide))]
      refine wp_mono (addPage_returns sound₁ below ?_) ?_ fun _ _ h => h
      · rcases count with ⟨rfl, eq⟩ | ⟨pos, le, -⟩
        · omega
        · have := later pos
          split at this <;> omega
      · rintro _ s₂ ⟨v₂, sound₂, length, placed⟩
        refine ⟨i + 1, v₂, by omega, range, sound₂, Or.inr ⟨Nat.succ_pos i, ?_, placed⟩⟩
        rcases count with ⟨rfl, eq⟩ | ⟨pos, le, -⟩
        · omega
        · have := later pos
          split at this <;> omega
    · rintro s₁ ⟨i, v₁, total, -, sound₁, count⟩
      refine ⟨v₁, sound₁, ?_⟩
      simp only [List.length_nil] at total
      rcases count with ⟨-, eq⟩ | ⟨-, le, -⟩ <;> omega
    · exact ⟨0, v, by simp, by simp, sound, Or.inl ⟨rfl, rfl⟩⟩
  obtain ⟨_, s', run, v', sound', length⟩ := wp_returns loop
  obtain ⟨-, v'', sound'', filled⟩ := (wp_ok run).mp (allocateMem_wp sound lt)
  refine ⟨s', run, v'', sound'', filled, ?_⟩
  rwa [sound''.rep.free_unique sound'.rep]

end Fos
