import Fos.Exec.Wp
import Fos.Memory.View

/-!
# What the frame and page table functions do

One specification for each function of `kern/memory_manager.c`, over the abstract state.
Each says in which abstract state the function ends and with what result, or that it
panics, for a goal `wp` of the rest of the caller.

* `allocateFrame_wp`, `decrementReferences_wp`;
* `tableFor_wp`, `mapFrame_wp`, `unmapFrame_wp`: tables and mappings;
* `ptSetPagePermissions_wp`, `ptGetPagePermissions_wp`, `translate_wp`: the bits.
-/

namespace Fos

open Arena Linked Exec

variable {α : Type} {s : Kernel} {E : Stop → Kernel → Prop}

/-! ## Reading and writing -/

@[simp] theorem wp_readWord (f : Nat) (i : Fin 1024) {Q : Word → Kernel → Prop} :
    wp (readWord f i) Q E s ↔ Q (s.mem f i) s := Iff.rfl

@[simp] theorem wp_writeWord (f : Nat) (i : Fin 1024) (w : Word) {Q : Unit → Kernel → Prop} :
    wp (writeWord f i w) Q E s ↔ Q () (s.setWord f i w) := Iff.rfl

@[simp] theorem wp_writePage (f : Nat) (p : Page) {Q : Unit → Kernel → Prop} :
    wp (writePage f p) Q E s ↔ Q () (s.setPage f p) := Iff.rfl

@[simp] theorem wp_setReferences (f : Nat) (n : BitVec 16) {Q : Unit → Kernel → Prop} :
    wp (setReferences f n) Q E s ↔ Q () (s.setReferences f n) := Iff.rfl

@[simp] theorem wp_getEnv (e : Nat) {Q : Env → Kernel → Prop} :
    wp (getEnv e) Q E s ↔ Q (s.globals.envs e) s := Iff.rfl

@[simp] theorem wp_modifyEnv (e : Nat) (f : Env → Env) {Q : Unit → Kernel → Prop} :
    wp (modifyEnv e f) Q E s ↔ Q () (s.setGlobals (s.globals.setEnv e f)) := Iff.rfl

@[simp] theorem wp_panic (message : String) {Q : α → Kernel → Prop} :
    wp (panic message) Q E s ↔ E (.panic message) s := Iff.rfl

@[simp] theorem wp_deref_some (x : α) {Q : α → Kernel → Prop} :
    wp (deref (some x)) Q E s ↔ Q x s := Iff.rfl

@[simp] theorem wp_deref_none {Q : α → Kernel → Prop} :
    wp (deref none) Q E s ↔ E .crash s := Iff.rfl

theorem ppn_toPhysicalAddress (f : Nat) : ppn (toPhysicalAddress f) = f :=
  Nat.mul_div_cancel f (by decide)

theorem staticKernelVirtualAddress_wp {pa : Nat} {Q : Nat → Kernel → Prop}
    (lt : ppn pa < s.globals.numberOfFrames) (done : Q (ppn pa) s) :
    wp (staticKernelVirtualAddress pa) Q E s := by
  simpa [staticKernelVirtualAddress, Nat.not_le.mpr lt] using done

theorem toFrameInfo_wp {pa : Nat} {Q : Nat → Kernel → Prop}
    (lt : ppn pa < s.globals.numberOfFrames) (done : Q (ppn pa) s) :
    wp (toFrameInfo pa) Q E s := by
  simpa [toFrameInfo, Nat.not_le.mpr lt] using done

/-! ## The frame allocator -/

/-- The panic of `allocate_frame`. -/
def outOfMemory : Stop :=
  .panic "ERROR: Kernel run out of memory... allocate_frame cannot find a free frame.\n"

variable {v : View} {e e' d f t va : Nat}

theorem allocateFrame_wp {Q : Nat → Kernel → Prop} (rep : Rep s v)
    (got : ∀ f rest s', v.free = f :: rest → Rep s' (v.take f) → s'.mem = s.mem → Q f s')
    (full : v.free = [] → E outOfMemory s) : wp allocateFrame Q E s := by
  have first := rep.freeList.first
  simp only [allocateFrame, wp_bind, wp_get]
  cases free : v.free with
  | nil =>
    rw [free] at first
    rw [first]
    exact full free
  | cons f rest =>
    rw [free] at first
    rw [first]
    exact got f rest _ free (rep.take free) rfl

/-- The last reference to a frame goes. -/
theorem decrementReferences_wp {Q : Unit → Kernel → Prop} (one : s.references f = 1)
    (done : Q () ((s.initializeFrameInfo f).insertFrame f)) :
    wp (decrementReferences f) Q E s := by
  have zero : (s.setReferences f (s.references f - 1)).references f = 0 := by
    simp [Kernel.setReferences, one]
  have same : (s.setReferences f (s.references f - 1)).initializeFrameInfo f =
      s.initializeFrameInfo f := by
    simp [Kernel.initializeFrameInfo, Kernel.setReferences]
  simp only [decrementReferences, wp_bind, wp_get, wp_setReferences, zero, if_true]
  rw [← same] at done
  exact done

/-! ## Page tables -/

/-- The child of an entry that is not zero lies in the frame of the entry. -/
theorem Rep.place_child {o c : Obj} {i : Fin 1024} (rep : Rep s v) (child : o.child i = some c)
    (entry : v.page o i ≠ 0) : v.place c = some (frameOf (v.page o i)) :=
  rep.wf.place_child_some child entry

/-- The frame of a word read from a directory of the tree exists. -/
theorem Rep.entry_lt {o c : Obj} {i : Fin 1024} (rep : Rep s v) (child : o.child i = some c) :
    frameOf (v.page o i) < v.globals.numberOfFrames := by
  by_cases entry : v.page o i = 0
  · rw [entry, frameOf_zero]
    have pos := rep.place_pos rep.kernelDir
    have lt := rep.place_lt rep.kernelDir
    omega
  · exact rep.place_lt (rep.place_child child entry)

/-- A table exists exactly if its entry is not zero. -/
theorem Rep.place_none {o c : Obj} {i : Fin 1024} (rep : Rep s v) (child : o.child i = some c) :
    v.place c = none ↔ v.page o i = 0 := by
  constructor
  · intro absent
    by_contra entry
    rw [rep.place_child child entry] at absent
    cases absent
  · exact rep.wf.place_child_none child

theorem Rep.dir_entry {i : Fin 1024} (rep : Rep s v) (lt : i < 955)
    (entry : v.page (.pageDir e) i ≠ 0) :
    present (v.page (.pageDir e) i) ∧ writeable (v.page (.pageDir e) i) ∧
      user (v.page (.pageDir e) i) :=
  (rep.words (.pageDir e) i).1 lt entry

/-- The address `va` is a user address. -/
abbrev UserVa (va : Nat) : Prop := pdx va < 955

theorem userVa_of_lt (lt : va < userTop) : UserVa va := by
  rw [UserVa, Fin.lt_def]
  simp only [pdx, ptSize, userTop] at *
  show _ < 955
  omega

theorem getPageTable_wp {Q : Option Nat → Kernel → Prop} (rep : Rep s v)
    (dir : v.place (.pageDir e) = some d) (lt : UserVa va)
    (done : Q (v.place (.pageTable e (pdx va))) s) : wp (getPageTable d va) Q E s := by
  have child := Obj.child_pageDir (e := e) lt
  simp only [getPageTable, wp_bind, wp_readWord, rep.mem dir]
  apply staticKernelVirtualAddress_wp
  · rw [ppn_extractAddress, rep.globals]
    exact rep.entry_lt child
  · simp only [ppn_extractAddress, and_present, wp_ite]
    by_cases entry : v.page (.pageDir e) (pdx va) = 0
    · rw [(rep.place_none child).mpr entry] at done
      simpa [entry, present] using done
    · rw [rep.place_child child entry] at done
      simpa [entry, (rep.dir_entry lt entry).1] using done

/-- Above `KERNEL_BASE` the kernel's own tables are found; they do not matter here. -/
theorem getPageTable_kernel_wp {Q : Option Nat → Kernel → Prop} (rep : Rep s v)
    (dir : v.place (.pageDir e) = some d) (ge : 960 ≤ pdx va) (done : ∀ t, Q t s) :
    wp (getPageTable d va) Q E s := by
  have ok := (rep.words (.pageDir e) (pdx va)).2 ge
  simp only [getPageTable, wp_bind, wp_readWord, rep.mem dir]
  by_cases entry : v.page (.pageDir e) (pdx va) = 0
  · apply staticKernelVirtualAddress_wp
    · rw [ppn_extractAddress, rep.globals, entry, frameOf_zero]
      have pos := rep.place_pos rep.kernelDir
      have lt := rep.place_lt rep.kernelDir
      omega
    · simp [entry, permPresent, done]
  · apply staticKernelVirtualAddress_wp
    · rw [ppn_extractAddress, rep.globals]
      exact (ok entry).2
    · simp [and_present, (ok entry).1, done]

/-- A new, empty table of an environment in the frame `t`. -/
def View.newTable (v : View) (e : Nat) (i : Fin 1024) (t : Nat) : View :=
  ((v.take t).write (.pageDir e) i
    (constructEntry (toPhysicalAddress t) (permPresent ||| permUser ||| permWriteable))).put
    (.pageTable e i) t zeroes

/-- The table `i` of an environment, created if there is none. -/
def View.withTable (v : View) (e : Nat) (i : Fin 1024) : View :=
  match v.place (.pageTable e i), v.free with
  | none, t :: _ => v.newTable e i t
  | _, _ => v

theorem frameOf_physical {p : Word} (lt : f < 65536) (perm : IsPerm p) :
    frameOf (constructEntry (toPhysicalAddress f) p) = f :=
  frameOf_constructEntry (by omega) perm

theorem getLsbD_constructEntry (f : Nat) (p : Word) {k : Nat} (lt : k < 12) :
    (constructEntry (toPhysicalAddress f) p).getLsbD k = p.getLsbD k := by
  have low : (BitVec.ofNat 32 (toPhysicalAddress f)).getLsbD k = false := by
    rw [BitVec.getLsbD_ofNat, toPhysicalAddress, show pageSize = 2 ^ 12 from rfl,
      Nat.testBit_mul_two_pow]
    simp [Nat.not_le.mpr lt]
  rw [constructEntry, BitVec.getLsbD_or, low, Bool.false_or]

theorem Rep.newTable {i : Fin 1024} (rep : Rep s v)
    (dir : v.place (.pageDir e) = some d) (lt : i < 955)
    (absent : v.place (.pageTable e i) = none) {s' : Kernel}
    (taken : Rep s' (v.take t)) :
    Rep (((s'.setReferences t 1).setWord d i
      (constructEntry (toPhysicalAddress t) (permPresent ||| permUser ||| permWriteable))).setPage
        t zeroes) (v.newTable e i t) := by
  have child := Obj.child_pageDir (e := e) lt
  have small : t < 65536 := by
    have lt := taken.bound t (by simp)
    have small := rep.small
    simp only [View.take_globals] at lt
    omega
  have bits : ∀ k < 12, (constructEntry (toPhysicalAddress t)
      (permPresent ||| permUser ||| permWriteable)).getLsbD k =
        (permPresent ||| permUser ||| permWriteable).getLsbD k :=
    fun k lt => getLsbD_constructEntry t _ lt
  refine taken.link child dir ((rep.place_none child).mp absent) (by simp)
    (frameOf_physical small (by decide)) ⟨fun _ _ => ⟨?_, ?_, ?_⟩, fun ge => ?_⟩
    (fun _ => trivial) fun _ _ _ => rfl
  · exact (bits 0 (by decide)).trans (by decide)
  · exact (bits 1 (by decide)).trans (by decide)
  · exact (bits 2 (by decide)).trans (by decide)
  · exact absurd lt (by rw [Fin.lt_def]; rw [Fin.le_def] at ge; simp at *; omega)

theorem View.withTable_some {i : Fin 1024} (table : v.place (.pageTable e i) = some t) :
    v.withTable e i = v := by
  simp [View.withTable, table]

theorem staticCpt_wp {Q : Nat → Kernel → Prop} (rep : Rep s v)
    (dir : v.place (.pageDir e) = some d) (lt : UserVa va)
    (absent : v.place (.pageTable e (pdx va)) = none)
    (done : ∀ t s', Rep s' (v.withTable e (pdx va)) →
      (v.withTable e (pdx va)).place (.pageTable e (pdx va)) = some t → Q t s')
    (full : v.free = [] → E outOfMemory s) : wp (staticCpt d va) Q E s := by
  simp only [staticCpt, wp_bind]
  apply allocateFrame_wp rep
  · intro t rest s' free taken _
    have lt' : t < s'.globals.numberOfFrames := by
      rw [taken.globals]
      exact taken.bound t (by simp)
    apply staticKernelVirtualAddress_wp
    · rwa [ppn_toPhysicalAddress]
    · have same : v.withTable e (pdx va) = v.newTable e (pdx va) t := by
        simp [View.withTable, absent, free]
      rw [same] at done
      simp only [wp_setReferences, wp_writeWord, wp_writePage, wp_pure, ppn_toPhysicalAddress]
      exact done t _ (rep.newTable dir lt absent taken) (by simp [View.newTable])
  · exact full

theorem tableFor_wp {Q : Nat → Kernel → Prop} (rep : Rep s v)
    (dir : v.place (.pageDir e) = some d) (lt : UserVa va)
    (done : ∀ t s', Rep s' (v.withTable e (pdx va)) →
      (v.withTable e (pdx va)).place (.pageTable e (pdx va)) = some t → Q t s')
    (full : v.place (.pageTable e (pdx va)) = none → v.free = [] → E outOfMemory s) :
    wp (tableFor d va) Q E s := by
  simp only [tableFor, wp_bind]
  apply getPageTable_wp rep dir lt
  cases table : v.place (.pageTable e (pdx va)) with
  | some t =>
    rw [View.withTable_some table] at done
    exact done t s rep table
  | none => exact staticCpt_wp rep dir lt table done (full table)

/-! ## Mappings -/

/-- The page table entry of an address. -/
def View.pte (v : View) (e va : Nat) : Word := v.page (.pageTable e (pdx va)) (ptx va)

def View.setPte (v : View) (e va : Nat) (w : Word) : View :=
  v.write (.pageTable e (pdx va)) (ptx va) w

/-- The page at an address. -/
abbrev userPageAt (e va : Nat) : Obj := .userPage e (pdx va) (ptx va)

theorem child_userPageAt (e va : Nat) :
    (Obj.pageTable e (pdx va)).child (ptx va) = some (userPageAt e va) := rfl

/-- The frame `f` comes to hold the page at `va`. -/
def View.mapPage (v : View) (e va f : Nat) (w : Word) (p : Page) : View :=
  (v.setPte e va w).put (userPageAt e va) f p

/-- The page at `va` is gone and its frame is lost. -/
def View.lose (v : View) (e va : Nat) : View :=
  match v.place (userPageAt e va) with
  | some f => (v.setPte e va 0).drop (userPageAt e va) f
  | none => v

/-- The page at `va` is gone and its frame is free. -/
def View.unmap (v : View) (e va : Nat) : View :=
  match v.place (userPageAt e va) with
  | some f => ((v.setPte e va 0).drop (userPageAt e va) f).give f
  | none => v

theorem Rep.place_userPage_none (rep : Rep s v) :
    v.place (userPageAt e va) = none ↔ v.pte e va = 0 :=
  rep.place_none (child_userPageAt e va)

/-- A page lies below its table. -/
theorem Rep.place_table (rep : Rep s v) (page : v.pte e va ≠ 0) :
    ∃ t, v.place (.pageTable e (pdx va)) = some t := by
  by_contra none
  rw [← Option.ne_none_iff_exists', not_not] at none
  exact page (congrFun (rep.wf.absent _ none) _)

theorem unmapFrame_wp {Q : Unit → Kernel → Prop} (rep : Rep s v)
    (dir : v.place (.pageDir e) = some d) (lt : UserVa va)
    (done : ∀ s', Rep s' (v.unmap e va) → Q () s') : wp (unmapFrame d va) Q E s := by
  simp only [unmapFrame, getFrameInfo, wp_bind]
  apply getPageTable_wp rep dir lt
  cases table : v.place (.pageTable e (pdx va)) with
  | none =>
    have gone : v.place (userPageAt e va) = none := by
      rw [rep.place_userPage_none]
      exact congrFun (rep.wf.absent _ table) _
    exact done s (by simpa [View.unmap, gone] using rep)
  | some t =>
    have entry : s.mem t (ptx va) = v.pte e va := by rw [rep.mem table, View.pte]
    simp only [wp_bind, wp_readWord, wp_ite, entry]
    by_cases zero : v.pte e va = 0
    · have gone := rep.place_userPage_none.mpr zero
      simp only [zero, ne_eq, not_true, if_false, wp_pure]
      exact done s (by simpa [View.unmap, gone] using rep)
    · have page := rep.place_child (child_userPageAt e va) zero
      have holds := (rep.wf.place_use _ _).mp page
      simp only [zero, ne_eq, not_false_eq_true, if_true]
      apply toFrameInfo_wp
      · rw [ppn_extractAddress, rep.globals]
        exact rep.place_lt page
      · simp only [ppn_extractAddress, wp_pure, wp_bind]
        apply decrementReferences_wp (rep.refs _ _ holds)
        apply done
        have lost := rep.unlink (child_userPageAt e va) table page fun _ _ none => by cases none
        have given := lost.give (f := frameOf (v.pte e va)) (Or.inr (Function.update_self ..))
        have eq : v.unmap e va = ((v.setPte e va 0).drop (userPageAt e va)
            (frameOf (v.pte e va))).give (frameOf (v.pte e va)) := by
          simp only [View.unmap, page, View.pte]
        rw [eq]
        exact given

/-- An entry of a table is replaced by one for a taken frame; what was there is lost. -/
theorem Rep.mapPage {w : Word} (rep : Rep s v) (table : v.place (.pageTable e (pdx va)) = some t)
    (taken : v.use f = .taken) (frame : frameOf w = f) :
    Rep ((s.setReferences f 1).setWord t (ptx va) w)
      ((v.lose e va).mapPage e va f w (s.mem f)) := by
  cases page : v.place (userPageAt e va) with
  | none =>
    have linked := rep.link_mem (child_userPageAt e va) table (rep.place_userPage_none.mp page)
      taken frame trivial (fun _ => trivial) fun _ _ none => by cases none
    simpa only [View.lose, page, View.mapPage, View.setPte] using linked
  | some g =>
    have g_f : f ≠ g := by
      rintro rfl
      refine rep.wf.not_placed ?_ _ page
      rw [taken]
      exact loose_taken
    have t_f : f ≠ t := by
      rintro rfl
      refine rep.wf.not_placed ?_ _ table
      rw [taken]
      exact loose_taken
    have lost := rep.unlink (child_userPageAt e va) table page fun _ _ none => by cases none
    have linked := lost.link_mem (o := .pageTable e (pdx va)) (i := ptx va) (g := t) (f := f)
      (child_userPageAt e va) (by simpa using table) (by simp)
      (by simpa [Function.update_of_ne g_f] using taken) frame trivial (fun _ => trivial)
      fun _ _ none => by cases none
    have same : (s.setWord t (ptx va) 0).mem f = s.mem f := Function.update_of_ne t_f ..
    rw [same] at linked
    have twice := (s.setReferences f 1).setWord_setWord t (ptx va) 0 w
    have eq : v.lose e va = (v.setPte e va 0).drop (userPageAt e va) g := by
      simp only [View.lose, page]
    rw [← twice, eq]
    exact linked

/-- What `map_frame` does to the old entry: a present page is unmapped, one that is not
present is overwritten. -/
def View.evict (v : View) (e va : Nat) : View :=
  if present (v.pte e va) then v.unmap e va else v

/-- A table of its own does not change the entries. -/
theorem Rep.withTable_page (rep : Rep s v) (e' : Nat) (i i' : Fin 1024) :
    (v.withTable e i).page (.pageTable e' i') = v.page (.pageTable e' i') := by
  unfold View.withTable
  split
  · rename_i t _ absent free
    by_cases same : Obj.pageTable e' i' = .pageTable e i
    · rw [same, rep.wf.absent _ absent]
      simp [View.newTable]
      rfl
    · simp [View.newTable, Function.update_of_ne same]
  · rfl

theorem Rep.withTable_pte (rep : Rep s v) (e' : Nat) (i : Fin 1024) :
    (v.withTable e i).pte e' va = v.pte e' va := by
  simp only [View.pte, rep.withTable_page]

theorem View.withTable_use_taken {i : Fin 1024} (free_use : ∀ f, f ∈ v.free ↔ v.use f = .free)
    (taken : v.use f = .taken) : (v.withTable e i).use f = .taken := by
  unfold View.withTable
  split
  · rename_i t _ _ free
    have isFree := (free_use t).mp (by simp [free])
    have ne : f ≠ t := by
      rintro rfl
      rw [taken] at isFree
      cases isFree
    simpa [View.newTable, Function.update_of_ne ne] using taken
  · exact taken

theorem View.evict_use_taken (e va : Nat) (taken : v.use f = .taken)
    (place_use : ∀ o f, v.place o = some f ↔ v.use f = .holds o) :
    (v.evict e va).use f = .taken := by
  unfold View.evict View.unmap
  split
  · split
    · rename_i g here
      have ne : f ≠ g := by
        rintro rfl
        rw [(place_use _ _).mp here] at taken
        cases taken
      simpa [View.setPte, Function.update_of_ne ne] using taken
    · exact taken
  · exact taken

theorem View.evict_place_table (v : View) (e e' va : Nat) (i : Fin 1024) :
    (v.evict e va).place (.pageTable e' i) = v.place (.pageTable e' i) := by
  unfold View.evict View.unmap
  split
  · split
    · simp [View.setPte]
    · rfl
  · rfl

theorem View.withTable_place_dir {i : Fin 1024} (dir : v.place (.pageDir e') = some d) :
    (v.withTable e i).place (.pageDir e') = some d := by
  unfold View.withTable
  split
  · simpa [View.newTable] using dir
  · exact dir

theorem mapFrame_wp {Q : Unit → Kernel → Prop} {perm : Word} (rep : Rep s v)
    (dir : v.place (.pageDir e) = some d) (lt : UserVa va) (taken : v.use f = .taken)
    (isPerm : IsPerm (perm ||| permPresent))
    (done : ∀ s' p, Rep s' ((((v.withTable e (pdx va)).evict e va).lose e va).mapPage e va f
      (constructEntry (toPhysicalAddress f) (perm ||| permPresent)) p) → Q () s')
    (full : v.place (.pageTable e (pdx va)) = none → v.free = [] → E outOfMemory s) :
    wp (mapFrame d f va perm) Q E s := by
  simp only [mapFrame, wp_bind]
  apply tableFor_wp rep dir lt ?_ full
  intro t s₁ rep₁ table
  have dir₁ := View.withTable_place_dir (e := e) (i := pdx va) dir
  have taken₁ := View.withTable_use_taken (e := e) (i := pdx va) rep.free_use taken
  have small : f < 65536 := by
    have lt := rep₁.bound f (by simp [taken₁])
    have small := rep₁.small
    omega
  have entry : s₁.mem t (ptx va) = (v.withTable e (pdx va)).pte e va := by
    rw [rep₁.mem table, View.pte]
  have other : ¬(present ((v.withTable e (pdx va)).pte e va) = true ∧
      extractAddress ((v.withTable e (pdx va)).pte e va) = toPhysicalAddress f) := by
    rintro ⟨isPresent, same⟩
    have nonzero := ne_zero_of_present isPresent
    have page := rep₁.place_child (child_userPageAt e va) nonzero
    have frame : frameOf ((v.withTable e (pdx va)).pte e va) = f := by
      rw [← ppn_extractAddress, same, ppn_toPhysicalAddress]
    refine rep₁.wf.not_placed ?_ _ (frame ▸ page)
    rw [taken₁]
    exact loose_taken
  have tail : ∀ s₂, Rep s₂ ((v.withTable e (pdx va)).evict e va) →
      wp (do
        setReferences f ((← get).references f + 1)
        writeWord t (ptx va) (constructEntry (toPhysicalAddress f) (perm ||| permPresent)))
        Q E s₂ := by
    intro s₂ rep₂
    have taken₂ := View.evict_use_taken e va taken₁ rep₁.wf.place_use
    have zero : s₂.references f = 0 := rep₂.taken f taken₂
    have table₂ : ((v.withTable e (pdx va)).evict e va).place (.pageTable e (pdx va)) = some t := by
      rw [View.evict_place_table, table]
    simp only [wp_bind, wp_get, wp_setReferences, wp_writeWord, zero]
    exact done _ _ (rep₂.mapPage table₂ taken₂ (frameOf_physical small isPerm))
  simp only [wp_bind, wp_readWord, wp_ite, entry, and_present, if_neg other]
  by_cases isPresent : present ((v.withTable e (pdx va)).pte e va) = true
  · rw [if_pos isPresent]
    apply unmapFrame_wp rep₁ dir₁ lt
    intro s₂ rep₂
    exact tail s₂ (by simpa only [View.evict, isPresent, if_true] using rep₂)
  · rw [if_neg isPresent]
    exact tail s₁ (by simpa only [View.evict, isPresent, if_false, Bool.false_eq_true] using rep₁)

theorem loadtimeMapFrame_wp {Q : Unit → Kernel → Prop} {perm : Word} (rep : Rep s v)
    (dir : v.place (.pageDir e) = some d) (lt : UserVa va) (taken : v.use f = .taken)
    (isPerm : IsPerm (perm ||| permPresent))
    (done : ∀ s' p, Rep s' (((v.withTable e (pdx va)).lose e va).mapPage e va f
      (constructEntry (toPhysicalAddress f) (perm ||| permPresent)) p) → Q () s')
    (full : v.place (.pageTable e (pdx va)) = none → v.free = [] → E outOfMemory s) :
    wp (loadtimeMapFrame d f va perm) Q E s := by
  have child := Obj.child_pageDir (e := e) lt
  have tail : ∀ t s₁, Rep s₁ (v.withTable e (pdx va)) →
      (v.withTable e (pdx va)).place (.pageTable e (pdx va)) = some t →
      wp (do
        setReferences f ((← get).references f + 1)
        writeWord t (ptx va) (constructEntry (toPhysicalAddress f) (perm ||| permPresent)))
        Q E s₁ := by
    intro t s₁ rep₁ table
    have taken₁ := View.withTable_use_taken (e := e) (i := pdx va) rep.free_use taken
    have zero : s₁.references f = 0 := rep₁.taken f taken₁
    have small : f < 65536 := by
      have lt := rep₁.bound f (by simp [taken₁])
      have small := rep₁.small
      omega
    simp only [wp_bind, wp_get, wp_setReferences, wp_writeWord, zero]
    exact done _ _ (rep₁.mapPage table taken₁ (frameOf_physical small isPerm))
  simp only [loadtimeMapFrame, wp_bind, wp_readWord, rep.mem dir]
  apply staticKernelVirtualAddress_wp
  · rw [ppn_extractAddress, rep.globals]
    exact rep.entry_lt child
  · by_cases entry : v.page (.pageDir e) (pdx va) = 0
    · have absent := (rep.place_none child).mpr entry
      simp only [entry, if_true]
      rw [wp_bind]
      exact staticCpt_wp rep dir lt absent (fun t s₁ => tail t s₁) (full absent)
    · have table := rep.place_child child entry
      simp only [entry, if_false, ppn_extractAddress]
      exact tail _ s (by rwa [View.withTable_some table])
        (by rwa [View.withTable_some table])

/-! ## Permission bits -/

/-- `e->env_page_directory` is the directory of the environment. -/
def View.Linked (v : View) (e : Nat) : Prop :=
  (v.globals.envs e).envPageDirectory = v.place (.pageDir e)

theorem envPageDirectory_wp {Q : Nat → Kernel → Prop} (rep : Rep s v) (linked : v.Linked e)
    (dir : v.place (.pageDir e) = some d) (done : Q d s) : wp (envPageDirectory e) Q E s := by
  simp only [envPageDirectory, wp_bind, wp_getEnv, rep.globals]
  rw [View.Linked, dir] at linked
  simpa only [linked, wp_deref_some] using done

/-- Changing the bits of an entry. -/
theorem Rep.setPte {w : Word} (rep : Rep s v) (table : v.place (.pageTable e (pdx va)) = some t)
    (same : v.pte e va = 0 ∧ w = 0 ∨ v.pte e va ≠ 0 ∧ frameOf w = frameOf (v.pte e va)) :
    Rep (s.setWord t (ptx va) w) (v.setPte e va w) := by
  rcases same with ⟨zero, rfl⟩ | ⟨page, frame⟩
  · have self := rep.setWord_self table (ptx va)
    rw [← View.pte, zero] at self
    have eq : v.setPte e va 0 = v := by
      rw [← zero]
      exact View.write_self ..
    rwa [eq]
  · refine rep.setWord table trivial fun c _ => ⟨page, ?_, frame⟩
    have pos := rep.place_pos (rep.place_child (child_userPageAt e va) page)
    apply ne_zero_of_frameOf
    rw [frame, View.pte]
    omega

theorem ptSetPagePermissions_wp {Q : Unit → Kernel → Prop} {set clear : Word} (rep : Rep s v)
    (linked : v.Linked e) (dir : v.place (.pageDir e) = some d) (lt : UserVa va)
    (isSet : IsPerm set) (isClear : IsPerm clear) (ok : v.pte e va ≠ 0 ∨ set = 0)
    (done : ∀ s', Rep s' (v.setPte e va ((v.pte e va ||| set) &&& ~~~clear)) → Q () s')
    (noTable : ∀ m, v.place (.pageTable e (pdx va)) = none → E (.panic m) s) :
    wp (ptSetPagePermissions e va set clear) Q E s := by
  have child := Obj.child_pageDir (e := e) lt
  simp only [ptSetPagePermissions, wp_bind]
  apply envPageDirectory_wp rep linked dir
  simp only [wp_readWord, rep.mem dir, wp_ite, and_present]
  by_cases entry : v.page (.pageDir e) (pdx va) = 0
  · have absent := (rep.place_none child).mpr entry
    simp only [entry, ne_eq, not_true, if_false, wp_panic]
    exact noTable _ absent
  · have table := rep.place_child child entry
    rw [if_pos (rep.dir_entry lt entry).1]
    simp only [wp_bind]
    apply staticKernelVirtualAddress_wp
    · rw [ppn_extractAddress, rep.globals]
      exact rep.entry_lt child
    · simp only [ppn_extractAddress, wp_readWord, wp_writeWord, rep.mem table]
      have now : (s.setWord (frameOf (v.page (.pageDir e) (pdx va))) (ptx va)
          (v.pte e va ||| set)).mem (frameOf (v.page (.pageDir e) (pdx va))) (ptx va) =
          v.pte e va ||| set := by
        simp [Kernel.setWord, Kernel.setPage]
      rw [← View.pte, now, Kernel.setWord_setWord]
      refine done _ (rep.setPte table ?_)
      by_cases zero : v.pte e va = 0
      · rcases ok with page | rfl
        · exact absurd zero page
        · exact Or.inl ⟨zero, by simp [zero]⟩
      · exact Or.inr ⟨zero, by rw [frameOf_andNot _ isClear, frameOf_or _ isSet]⟩

theorem ptGetPagePermissions_wp {Q : Word → Kernel → Prop} (rep : Rep s v)
    (linked : v.Linked e) (dir : v.place (.pageDir e) = some d) (lt : UserVa va)
    (done : Q (v.pte e va &&& 0xFFF) s) : wp (ptGetPagePermissions e va) Q E s := by
  have child := Obj.child_pageDir (e := e) lt
  simp only [ptGetPagePermissions, wp_bind]
  apply envPageDirectory_wp rep linked dir
  simp only [wp_readWord, rep.mem dir, wp_ite, and_present]
  by_cases entry : v.page (.pageDir e) (pdx va) = 0
  · have absent := (rep.place_none child).mpr entry
    have zero : v.pte e va = 0 := congrFun (rep.wf.absent _ absent) _
    rw [zero] at done
    simpa [entry, present] using done
  · have table := rep.place_child child entry
    rw [if_pos (rep.dir_entry lt entry).1]
    simp only [wp_bind]
    apply staticKernelVirtualAddress_wp
    · rw [ppn_extractAddress, rep.globals]
      exact rep.entry_lt child
    · simpa only [ppn_extractAddress, wp_bind, wp_readWord, wp_pure, rep.mem table, View.pte]
        using done

/-! ## The hardware -/

/-- The current address space is the environment's. -/
def View.Current (v : View) (e : Nat) : Prop :=
  v.place (.pageDir e) = some (ppn v.globals.cr3)

/-- The entry lets an access through. -/
def Allows (w : Word) (userMode write : Bool) : Prop :=
  present w ∧ (write → writeable w) ∧ (userMode → user w)

/-- The entry after an access. -/
def accessed (w : Word) (write : Bool) : Word :=
  w ||| permUsed ||| if write then permModified else 0

/-- The accessed and dirty bits after an access. -/
def View.touch (v : View) (e va : Nat) (write : Bool) : View :=
  (v.write (.pageDir e) (pdx va) (v.page (.pageDir e) (pdx va) ||| permUsed)).setPte e va
    (accessed (v.pte e va) write)

theorem frameOf_accessed (w : Word) (write : Bool) : frameOf (accessed w write) = frameOf w := by
  rw [accessed, frameOf_or _ (by cases write <;> decide), frameOf_or _ (by decide)]

theorem translate_wp {Q : Option Nat → Kernel → Prop} (userMode write : Bool) (rep : Rep s v)
    (current : v.Current e) (lt : UserVa va)
    (done : ∀ f s', Allows (v.pte e va) userMode write → v.place (userPageAt e va) = some f →
      Rep s' (v.touch e va write) → Q (some f) s')
    (fault : ¬ Allows (v.pte e va) userMode write → Q none s) :
    wp (translate va userMode write) Q E s := by
  have child := Obj.child_pageDir (e := e) lt
  have dir : v.place (.pageDir e) = some (ppn s.globals.cr3) := by
    rw [rep.globals]
    exact current
  simp only [translate, wp_bind, wp_get, wp_ite, rep.mem dir]
  by_cases entry : v.page (.pageDir e) (pdx va) = 0
  · have absent := (rep.place_none child).mpr entry
    have zero : v.pte e va = 0 := congrFun (rep.wf.absent _ absent) _
    simp only [entry, BitVec.ofNat_eq_ofNat, present_zero, Bool.false_eq_true, false_and,
      if_false, wp_pure]
    exact fault (by simp [Allows, zero])
  · have table := rep.place_child child entry
    obtain ⟨isPresent, isWriteable, isUser⟩ := rep.dir_entry lt entry
    simp only [rep.mem table]
    rw [← View.pte]
    by_cases allowed : Allows (v.pte e va) userMode write
    · obtain ⟨pagePresent, pageWriteable, pageUser⟩ := allowed
      have nonzero : v.pte e va ≠ 0 := ne_zero_of_present pagePresent
      have page := rep.place_child (child_userPageAt e va) nonzero
      rw [if_pos ⟨isPresent, pagePresent, fun h => ⟨isWriteable, pageWriteable h⟩,
        fun h => ⟨isUser, pageUser h⟩⟩]
      simp only [wp_writeWord, wp_pure]
      refine done _ _ ⟨pagePresent, pageWriteable, pageUser⟩ page ?_
      have usedFrame : frameOf (v.page (.pageDir e) (pdx va) ||| permUsed) =
          frameOf (v.page (.pageDir e) (pdx va)) := frameOf_or _ (by decide)
      have usedNonzero : v.page (.pageDir e) (pdx va) ||| permUsed ≠ 0 := by
        have pos := rep.place_pos table
        apply ne_zero_of_frameOf
        rw [usedFrame]
        omega
      have used := rep.setWord (w := v.page (.pageDir e) (pdx va) ||| permUsed) dir ?_
        fun c _ => ⟨entry, usedNonzero, usedFrame⟩
      · refine used.setPte (t := frameOf (v.page (.pageDir e) (pdx va))) table (Or.inr ?_)
        have pte : (v.write (.pageDir e) (pdx va)
            (v.page (.pageDir e) (pdx va) ||| permUsed)).pte e va = v.pte e va := by
          simp [View.pte]
        rw [pte]
        exact ⟨nonzero, frameOf_accessed ..⟩
      · refine ⟨fun _ _ => ⟨?_, ?_, ?_⟩, fun ge => absurd lt ?_⟩
        · simpa [present] using Or.inl isPresent
        · simpa [writeable] using Or.inl isWriteable
        · simpa [user] using Or.inl isUser
        · rw [UserVa, Fin.lt_def]
          rw [Fin.le_def] at ge
          simp at *
          omega
    · rw [if_neg]
      · exact fault allowed
      · rintro ⟨-, pagePresent, pageWriteable, pageUser⟩
        exact allowed ⟨pagePresent, fun h => (pageWriteable h).2, fun h => (pageUser h).2⟩

end Fos
