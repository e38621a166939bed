import Fos.Exec.Wp
import Fos.Memory.FrameSpecs

/-!
# Page directories and tables, with any entries in the tables

`View` has one page for each frame.  Here the frames that tables refer to are left open,
so that entries may share a frame, or refer to one without being present: only the
directories and tables are objects.

* `Directories mem a`: the memory holds the directories and tables of `a`;
* `pteAt`: the entry of an address, as the hardware walks to it;
* `Tabled s a free`: that, with the free frames apart from the directories and tables;
* `Tabled.mapFrame_wp`: the three ends of `map_frame`;
* `Tabled.mapFrame_iff`: when `map_frame` does what its comment says.
-/

namespace Fos

open Arena Linked Exec

/-- A page directory, known by its frame, and the page tables below it. -/
inductive TableObj where
  | dir (d : Nat)
  | table (d : Nat) (i : Fin 1024)
  deriving DecidableEq

/-- The entries of a directory below `USER_TOP` lead to tables. -/
def TableObj.child : TableObj → Fin 1024 → Option TableObj
  | .dir d, i => if i < 955 then some (.table d i) else none
  | .table _ _, _ => none

theorem TableObj.child_inj {o o' c : TableObj} {i i' : Fin 1024}
    (h : TableObj.child o i = some c) (h' : TableObj.child o' i' = some c) :
    o = o' ∧ i = i' := by
  cases o with
  | table d k => cases h
  | dir d =>
    simp only [TableObj.child, Option.ite_none_right_eq_some, Option.some.injEq] at h
    obtain ⟨-, rfl⟩ := h
    cases o' <;> simp_all [TableObj.child]

/-- Directories and tables as a tree. -/
def tableShape : Shape TableObj (Fin 1024) Word where
  child := TableObj.child
  frameOf := frameOf
  zero := 0
  child_inj := TableObj.child_inj

theorem child_dir {d : Nat} {i : Fin 1024} (lt : i < 955) :
    tableShape.child (.dir d) i = some (.table d i) := if_pos lt

/-- The directories and tables with their contents, and what the other frames are for. -/
abbrev TableView := Arena.View TableObj (Fin 1024) Word

/-- The memory holds the directories and tables. -/
structure Directories (mem : Nat → Page) (a : TableView) : Prop where
  wf : a.Wf tableShape
  stores : Stores mem a
  self : ∀ d f, a.place (.dir d) = some f → f = d
  present : ∀ d (i : Fin 1024), i < 955 → a.page (.dir d) i ≠ 0 → present (a.page (.dir d) i)

/-- The page table entry of the page `p` under the directory `d`, 0 without a table. -/
def pteAt (mem : Nat → Page) (d : Nat) (p : PageNo) : Word :=
  if present (mem d p.1) then mem (frameOf (mem d p.1)) p.2 else 0

variable {mem : Nat → Page} {a : TableView} {d t : Nat} {i : Fin 1024} {p : PageNo}

/-- What the walk finds is the entry of the table. -/
theorem Directories.pteAt (dirs : Directories mem a) (dir : a.place (.dir d) = some d)
    (user : p.1 < 955) : Fos.pteAt mem d p = a.page (.table d p.1) p.2 := by
  have child := child_dir (d := d) user
  rw [Fos.pteAt, dirs.stores _ _ dir]
  by_cases entry : a.page (.dir d) p.1 = 0
  · have absent := dirs.wf.place_child_none child entry
    rw [entry, dirs.wf.absent _ absent]
    rfl
  · have table := dirs.stores _ _ (dirs.wf.place_child_some child entry)
    rw [if_pos (dirs.present d p.1 user entry)]
    exact congrFun table p.2

/-- A word of a table may be anything. -/
theorem Directories.setEntry (dirs : Directories mem a)
    (table : a.place (.table d i) = some t) (j : Fin 1024) (w : Word) :
    Directories (Function.update mem t (Function.update (mem t) j w))
      (a.write (.table d i) j w) where
  wf := dirs.wf.rewrite (by simp [table]) fun c child => by cases child
  stores := dirs.stores.write dirs.wf table j w
  self := dirs.self
  present d' i' lt := by
    simpa [Arena.View.write] using dirs.present d' i' lt

/-- The directory entry of a new table. -/
abbrev tableWord (t : Nat) : Word :=
  constructEntry (toPhysicalAddress t) (permPresent ||| permUser ||| permWriteable)

/-- A new, empty table in the frame `t`. -/
def newTableIn (a : TableView) (d : Nat) (i : Fin 1024) (t : Nat) : TableView :=
  (a.write (.dir d) i (tableWord t)).put (.table d i) t zeroes

theorem Directories.newTable (dirs : Directories mem a) (dir : a.place (.dir d) = some d)
    (user : i < 955) (absent : a.place (.table d i) = none) (loose : (a.use t).Loose)
    (small : t < 1048576) :
    Directories (Function.update (Function.update mem d (Function.update (mem d) i
      (tableWord t))) t zeroes) (newTableIn a d i t) := by
  have child := child_dir (d := d) user
  have bit : Fos.present (tableWord t) = true :=
    (getLsbD_constructEntry t _ (by decide : 0 < 12)).trans (by decide)
  have d_t : d ≠ t := by
    rintro rfl
    exact dirs.wf.not_placed loose _ dir
  have empty : a.page (.dir d) i = 0 := by
    by_contra entry
    rw [dirs.wf.place_child_some child entry] at absent
    cases absent
  refine ⟨dirs.wf.link child (by simp [dir]) empty loose (ne_zero_of_present bit)
    (frameOf_constructEntry small (by decide)) (fun _ _ none => by cases none), ?_, ?_, ?_⟩
  · have stores := ((dirs.stores.loose dirs.wf loose zeroes).write dirs.wf dir i
      (tableWord t)).put (f := t) (.table d i)
    rw [Function.update_of_ne d_t, Function.update_of_ne d_t.symm, Function.update_self,
      Function.update_comm d_t.symm] at stores
    exact stores
  · intro d' f here
    exact dirs.self d' f (by simpa [newTableIn, Arena.View.put, Arena.View.write] using here)
  · intro d' i' lt entry
    simp only [newTableIn, Arena.View.put, Arena.View.write,
      Function.update_of_ne (show TableObj.dir d' ≠ .table d i by simp)] at entry ⊢
    by_cases eq : (d', i') = (d, i)
    · obtain ⟨rfl, rfl⟩ := Prod.mk.injEq .. ▸ eq
      simpa using bit
    · have same : Function.update a.page (.dir d) (Function.update (a.page (.dir d)) i
          (tableWord t)) (.dir d') i' = a.page (.dir d') i' := by
        rcases eq_or_ne d' d with rfl | ne
        · have ne : i' ≠ i := fun h => eq (by rw [h])
          simp [Function.update_of_ne ne]
        · rw [Function.update_of_ne (by simpa using ne)]
      rw [same] at entry ⊢
      exact dirs.present d' i' lt entry

/-! ## The functions -/

/-- The directories and tables lie in memory and the free frames are apart from them. -/
structure Tabled (s : Kernel) (a : TableView) (free : List Nat) : Prop where
  dirs : Directories s.mem a
  freeList : s.freeFrameList.Rep s.frameLinks free
  free_use : ∀ f, f ∈ free ↔ a.use f = .free
  bound : ∀ f, a.use f ≠ .reserved → f < s.globals.numberOfFrames
  small : s.globals.numberOfFrames ≤ 1048576

variable {s : Kernel} {free rest : List Nat} {va f : Nat}

theorem Tabled.place_lt (tabled : Tabled s a free) {o : TableObj} (here : a.place o = some f) :
    f < s.globals.numberOfFrames := by
  apply tabled.bound
  rw [(tabled.dirs.wf.place_use o f).mp here]
  rintro ⟨⟩

/-- The state after `__static_cpt` has made a table of the frame `t`. -/
def Kernel.withTable (s : Kernel) (d : Nat) (i : Fin 1024) (t : Nat) : Kernel :=
  (((s.takeFrame t).setReferences t 1).setWord d i (tableWord t)).setPage t zeroes

/-- The state after `decrement_references`. -/
def Kernel.dropReference (s : Kernel) (f : Nat) : Kernel :=
  if s.references f = 1 then (s.initializeFrameInfo f).insertFrame f
  else s.setReferences f (s.references f - 1)

theorem decrementReferences_eq {E : Stop → Kernel → Prop} {Q : Unit → Kernel → Prop} :
    wp (decrementReferences f) Q E s ↔ Q () (s.dropReference f) := by
  have last : s.references f - 1 = 0 ↔ s.references f = 1 := by
    rw [sub_eq_zero]
  simp only [decrementReferences, wp_bind, wp_get, wp_setReferences, wp_ite, wp_pure,
    Kernel.setReferences, Function.update_self, last, Kernel.dropReference]
  split
  · have same : (s.setReferences f (s.references f - 1)).initializeFrameInfo f =
        s.initializeFrameInfo f := by
      simp [Kernel.initializeFrameInfo, Kernel.setReferences]
    rw [← same]
    exact Iff.rfl
  · exact Iff.rfl

/-- Only the frame itself loses a reference, and the memory does not change. -/
theorem dropReference_fields (s : Kernel) (f : Nat) :
    (s.dropReference f).mem = s.mem ∧ (s.dropReference f).globals = s.globals ∧
      (s.dropReference f).references = Function.update s.references f (s.references f - 1) := by
  rw [Kernel.dropReference]
  split
  · rename_i one
    exact ⟨rfl, rfl, by simp [Kernel.insertFrame, Kernel.initializeFrameInfo, one]⟩
  · exact ⟨rfl, rfl, rfl⟩

variable {Q : α → Kernel → Prop} {E : Stop → Kernel → Prop}

theorem Tabled.getPageTable_wp {Q : Option Nat → Kernel → Prop} (tabled : Tabled s a free)
    (dir : a.place (.dir d) = some d) (user : UserVa va)
    (done : Q (a.place (.table d (pdx va))) s) : wp (getPageTable d va) Q E s := by
  have child := child_dir (d := d) user
  simp only [getPageTable, wp_bind, wp_readWord, tabled.dirs.stores _ _ dir]
  apply staticKernelVirtualAddress_wp
  · rw [ppn_extractAddress]
    by_cases entry : a.page (.dir d) (pdx va) = 0
    · rw [entry, frameOf_zero]
      exact Nat.zero_lt_of_lt (tabled.place_lt dir)
    · exact tabled.place_lt (tabled.dirs.wf.place_child_some child entry)
  · simp only [ppn_extractAddress, and_present, wp_ite]
    by_cases entry : a.page (.dir d) (pdx va) = 0
    · rw [tabled.dirs.wf.place_child_none child entry] at done
      simpa [entry, present] using done
    · have here : a.place (.table d (pdx va)) = some (frameOf (a.page (.dir d) (pdx va))) :=
        tabled.dirs.wf.place_child_some child entry
      rw [here] at done
      simpa [entry, tabled.dirs.present d _ user entry] using done

/-- The table is there, or it is made of the first free frame. -/
theorem Tabled.tableFor_wp {Q : Nat → Kernel → Prop} (tabled : Tabled s a free)
    (dir : a.place (.dir d) = some d) (user : UserVa va)
    (found : ∀ t, a.place (.table d (pdx va)) = some t → Q t s)
    (made : ∀ t rest, a.place (.table d (pdx va)) = none → free = t :: rest →
      Q t (s.withTable d (pdx va) t))
    (full : a.place (.table d (pdx va)) = none → free = [] → E outOfMemory s) :
    wp (tableFor d va) Q E s := by
  simp only [tableFor, wp_bind]
  apply tabled.getPageTable_wp dir user
  cases table : a.place (.table d (pdx va)) with
  | some t => exact found t table
  | none =>
    have first := tabled.freeList.first
    simp only [staticCpt, allocateFrame, wp_bind, wp_get]
    cases list : free with
    | nil =>
      rw [list] at first
      rw [first]
      exact full table list
    | cons t rest =>
      rw [list] at first
      rw [first]
      have lt : t < s.globals.numberOfFrames := by
        apply tabled.bound
        rw [(tabled.free_use t).mp (by simp [list])]
        rintro ⟨⟩
      simp only [wp_pure]
      apply staticKernelVirtualAddress_wp
      · rwa [ppn_toPhysicalAddress]
      · simp only [wp_setReferences, wp_writeWord, wp_writePage, ppn_toPhysicalAddress]
        exact made t rest table list

theorem toFrameInfo_cases {pa : Nat} {Q : Nat → Kernel → Prop}
    (done : ppn pa < s.globals.numberOfFrames → Q (ppn pa) s)
    (stops : ¬ ppn pa < s.globals.numberOfFrames → ∀ message, E (.panic message) s) :
    wp (toFrameInfo pa) Q E s := by
  by_cases lt : ppn pa < s.globals.numberOfFrames
  · exact toFrameInfo_wp lt (done lt)
  · simpa [toFrameInfo, Nat.not_lt.mp lt] using stops lt _

/-- The entry of an address. -/
def entryIn (a : TableView) (d va : Nat) : Word := a.page (.table d (pdx va)) (ptx va)

theorem Tabled.entryIn_zero (tabled : Tabled s a free)
    (absent : a.place (.table d (pdx va)) = none) : entryIn a d va = 0 :=
  congrFun (tabled.dirs.wf.absent _ absent) _

theorem Tabled.getFrameInfo_wp {Q : Option Nat × Option Nat → Kernel → Prop}
    (tabled : Tabled s a free) (dir : a.place (.dir d) = some d) (user : UserVa va)
    (unmapped : entryIn a d va = 0 → Q (none, a.place (.table d (pdx va))) s)
    (mapped : ∀ t, a.place (.table d (pdx va)) = some t → entryIn a d va ≠ 0 →
      frameOf (entryIn a d va) < s.globals.numberOfFrames →
      Q (some (frameOf (entryIn a d va)), some t) s)
    (stops : ¬ frameOf (entryIn a d va) < s.globals.numberOfFrames →
      ∀ message, E (.panic message) s) : wp (getFrameInfo d va) Q E s := by
  simp only [getFrameInfo, wp_bind]
  apply tabled.getPageTable_wp dir user
  cases table : a.place (.table d (pdx va)) with
  | none =>
    rw [table] at unmapped
    exact unmapped (tabled.entryIn_zero table)
  | some t =>
    rw [table] at unmapped
    have entry : s.mem t (ptx va) = entryIn a d va :=
      congrFun (tabled.dirs.stores _ _ table) _
    simp only [wp_bind, wp_readWord, wp_ite, entry]
    by_cases zero : entryIn a d va = 0
    · simpa [zero] using unmapped zero
    · rw [if_pos zero]
      apply toFrameInfo_cases
      · intro lt
        rw [ppn_extractAddress] at lt ⊢
        exact mapped t table zero lt
      · rw [ppn_extractAddress]
        exact stops

/-- `unmap_frame` drops the reference to the frame of the entry, if it is not zero. -/
theorem Tabled.unmapFrame_wp {Q : Unit → Kernel → Prop} (tabled : Tabled s a free)
    (dir : a.place (.dir d) = some d) (user : UserVa va)
    (unmapped : entryIn a d va = 0 → Q () s)
    (mapped : ∀ t, a.place (.table d (pdx va)) = some t → entryIn a d va ≠ 0 →
      frameOf (entryIn a d va) < s.globals.numberOfFrames →
      Q () ((s.dropReference (frameOf (entryIn a d va))).setWord t (ptx va) 0))
    (stops : ¬ frameOf (entryIn a d va) < s.globals.numberOfFrames →
      ∀ message, E (.panic message) s) : wp (unmapFrame d va) Q E s := by
  simp only [unmapFrame, wp_bind]
  apply tabled.getFrameInfo_wp dir user
  · intro zero
    cases a.place (.table d (pdx va)) <;> exact unmapped zero
  · intro t table entry lt
    simp only [wp_bind]
    rw [decrementReferences_eq]
    exact mapped t table entry lt
  · exact stops

/-- The state after a frame has got one more reference and the entry `j` of `t`. -/
def Kernel.addMapping (s : Kernel) (f t : Nat) (j : Fin 1024) (perm : Word) : Kernel :=
  (s.setReferences f (s.references f + 1)).setWord t j
    (constructEntry (toPhysicalAddress f) (perm ||| permPresent))

theorem extractAddress_iff {w : Word} : extractAddress w = toPhysicalAddress f ↔ frameOf w = f := by
  rw [extractAddress_eq, toPhysicalAddress]
  exact Nat.mul_left_inj (by decide)

/-- The ends of `map_frame`: the frame is there already, and its entry stays; the entry was
not present, and is overwritten; the entry was another frame's, which is unmapped; or there
was no table. -/
theorem Tabled.mapFrame_wp {Q : Unit → Kernel → Prop} {perm : Word} (tabled : Tabled s a free)
    (dir : a.place (.dir d) = some d) (user : UserVa va)
    (kept : present (entryIn a d va) → frameOf (entryIn a d va) = f → Q () s)
    (filled : ∀ t, a.place (.table d (pdx va)) = some t → ¬ present (entryIn a d va) →
      Q () (s.addMapping f t (ptx va) perm))
    (moved : ∀ t, a.place (.table d (pdx va)) = some t → present (entryIn a d va) →
      frameOf (entryIn a d va) ≠ f → frameOf (entryIn a d va) < s.globals.numberOfFrames →
      Q () (((s.dropReference (frameOf (entryIn a d va))).setWord t (ptx va) 0).addMapping f t
        (ptx va) perm))
    (made : ∀ t rest, a.place (.table d (pdx va)) = none → free = t :: rest →
      Q () ((s.withTable d (pdx va) t).addMapping f t (ptx va) perm))
    (full : a.place (.table d (pdx va)) = none → free = [] → E outOfMemory s)
    (wild : frameOf (entryIn a d va) ≠ f → ¬ frameOf (entryIn a d va) < s.globals.numberOfFrames →
      ∀ message, E (.panic message) s) : wp (mapFrame d f va perm) Q E s := by
  simp only [mapFrame, wp_bind]
  apply tabled.tableFor_wp dir user
  · intro t table
    have entry : s.mem t (ptx va) = entryIn a d va :=
      congrFun (tabled.dirs.stores _ _ table) _
    simp only [wp_readWord, wp_ite, wp_bind, entry, and_present, extractAddress_iff]
    by_cases here : present (entryIn a d va) = true
    · by_cases same : frameOf (entryIn a d va) = f
      · rw [if_pos ⟨here, same⟩]
        exact kept here same
      · rw [if_neg fun h => same h.2, if_pos here]
        apply tabled.unmapFrame_wp dir user
        · intro zero
          exact absurd zero (ne_zero_of_present here)
        · intro t' table' entry lt
          obtain rfl := Option.some.inj (table.symm.trans table')
          exact moved t table here same lt
        · exact wild same
    · rw [if_neg fun h => here h.1, if_neg here]
      exact filled t table here
  · intro t rest absent list
    have entry : (s.withTable d (pdx va) t).mem t (ptx va) = 0 := by
      simp [Kernel.withTable, Kernel.setPage, zeroes]
    simp only [wp_readWord, wp_ite, wp_bind, entry, and_present]
    exact made t rest absent list
  · exact full

/-- A new table is empty. -/
theorem Directories.newTableIn_page (dirs : Directories mem a)
    (absent : a.place (.table d i) = none) (d' : Nat) (i' : Fin 1024) :
    (newTableIn a d i t).page (.table d' i') = a.page (.table d' i') := by
  by_cases eq : TableObj.table d' i' = .table d i
  · rw [eq, dirs.wf.absent _ absent]
    simp only [newTableIn, Arena.View.put, Function.update_self]
    rfl
  · simp [newTableIn, Arena.View.put, Arena.View.write, Function.update_of_ne eq]

theorem newTableIn_place (a : TableView) (d : Nat) (i : Fin 1024) (t d' : Nat) :
    (newTableIn a d i t).place (.dir d') = a.place (.dir d') ∧
      (newTableIn a d i t).place (.table d i) = some t := by
  simp [newTableIn, Arena.View.put, Arena.View.write]

/-- Writing a word of a table changes one entry. -/
theorem Directories.pteAt_setEntry (dirs : Directories mem a) (dir : a.place (.dir d) = some d)
    (table : a.place (.table d p.1) = some t) (user : p.1 < 955) (w : Word) {d' : Nat}
    {p' : PageNo} (dir' : a.place (.dir d') = some d') (user' : p'.1 < 955) :
    Fos.pteAt (Function.update mem t (Function.update (mem t) p.2 w)) d' p' =
      if d' = d ∧ p' = p then w else Fos.pteAt mem d' p' := by
  have written := (dirs.setEntry table p.2 w).pteAt (p := p') dir' user'
  rw [written, dirs.pteAt dir' user']
  by_cases same : TableObj.table d' p'.1 = .table d p.1
  · obtain ⟨rfl, first⟩ := TableObj.table.inj same
    by_cases second : p'.2 = p.2
    · rw [if_pos ⟨rfl, Prod.ext first second⟩, first, second]
      simp [Arena.View.write]
    · rw [if_neg fun h => second (congrArg Prod.snd h.2), first]
      simp [Arena.View.write, Function.update_of_ne second]
  · have other : ¬ (d' = d ∧ p' = p) := by
      rintro ⟨rfl, rfl⟩
      exact same rfl
    rw [if_neg other]
    simp [Arena.View.write, Function.update_of_ne same]

theorem allocateFrame_listed_wp {Q : Nat → Kernel → Prop} {E : Stop → Kernel → Prop}
    (rep : s.freeFrameList.Rep s.frameLinks free)
    (got : ∀ f rest, free = f :: rest → Q f (s.takeFrame f))
    (full : free = [] → E outOfMemory s) : wp allocateFrame Q E s := by
  have first := rep.first
  simp only [allocateFrame, wp_bind, wp_get]
  cases free with
  | nil =>
    rw [first]
    exact full rfl
  | cons f rest =>
    rw [first]
    exact got f rest rfl

/-- The state with a new table is another such state. -/
theorem Tabled.withTable (tabled : Tabled s a (t :: rest)) (dir : a.place (.dir d) = some d)
    (user : i < 955) (absent : a.place (.table d i) = none) :
    Tabled (s.withTable d i t) (newTableIn a d i t) rest := by
  have use : a.use t = .free := (tabled.free_use t).mp (by simp)
  have lt : t < s.globals.numberOfFrames := by
    apply tabled.bound
    rw [use]
    rintro ⟨⟩
  have small := tabled.small
  have notin : t ∉ rest := (List.nodup_cons.mp tabled.freeList.nodup).1
  have loose : (a.use t).Loose := by
    rw [use]
    exact loose_free
  refine ⟨tabled.dirs.newTable dir user absent loose (by omega), ?_, fun g => ?_, fun g ne => ?_,
    tabled.small⟩
  · exact takeFrame_rep tabled.freeList
  · rcases eq_or_ne g t with rfl | ne
    · simp [newTableIn, Arena.View.put, notin]
    · have free := tabled.free_use g
      rw [List.mem_cons, or_iff_right ne] at free
      simpa [newTableIn, Arena.View.put, Arena.View.write, Function.update_of_ne ne] using free
  · rcases eq_or_ne g t with rfl | other
    · exact lt
    · refine tabled.bound g ?_
      simpa [newTableIn, Arena.View.put, Arena.View.write, Function.update_of_ne other] using ne


/-- The first free frame is taken for some other use. -/
theorem Tabled.takeFrame (tabled : Tabled s a (f :: rest)) :
    Tabled (s.takeFrame f) (a.retire f .taken) rest := by
  have use : a.use f = .free := (tabled.free_use f).mp (by simp)
  have notin : f ∉ rest := (List.nodup_cons.mp tabled.freeList.nodup).1
  have loose : (a.use f).Loose := by
    rw [use]
    exact loose_free
  refine ⟨⟨tabled.dirs.wf.retire loose loose_taken, tabled.dirs.stores, tabled.dirs.self,
    tabled.dirs.present⟩, takeFrame_rep tabled.freeList, fun g => ?_, fun g ne => ?_,
    tabled.small⟩
  · rcases eq_or_ne g f with rfl | ne
    · simp [Arena.View.retire, notin]
    · have free := tabled.free_use g
      rw [List.mem_cons, or_iff_right ne] at free
      simpa [Arena.View.retire, Function.update_of_ne ne] using free
  · rcases eq_or_ne g f with rfl | other
    · exact tabled.bound g (by simp [use])
    · refine tabled.bound g ?_
      simpa [Arena.View.retire, Function.update_of_ne other] using ne

/-- Writing an entry does not concern the free frames. -/
theorem Tabled.setEntry {i : Fin 1024} (tabled : Tabled s a free)
    (table : a.place (.table d i) = some t) (j : Fin 1024) (w : Word) :
    Tabled (s.setWord t j w) (a.write (.table d i) j w) free :=
  ⟨tabled.dirs.setEntry table j w, tabled.freeList, tabled.free_use, tabled.bound, tabled.small⟩

theorem Tabled.setReferences (tabled : Tabled s a free) (f : Nat) (n : BitVec 16) :
    Tabled (s.setReferences f n) a free :=
  ⟨tabled.dirs, tabled.freeList, tabled.free_use, tabled.bound, tabled.small⟩

/-! ## The environments' directories and tables -/

/-- The directories and tables of the environments and the kernel's directory. -/
def View.tables (v : View) : TableView where
  use f := match v.use f with
    | .holds .kernelDir => .holds (.dir f)
    | .holds (.pageDir _) => .holds (.dir f)
    | .holds (.pageTable e i) =>
      match v.place (.pageDir e) with
      | some d => .holds (.table d i)
      | none => .lost
    | .holds _ => .lost
    | .free => .free
    | .taken => .taken
    | .lost => .lost
    | .reserved => .reserved
  place
    | .dir d => match v.use d with
      | .holds .kernelDir => some d
      | .holds (.pageDir _) => some d
      | _ => none
    | .table d i => match v.use d with
      | .holds (.pageDir e) => v.place (.pageTable e i)
      | _ => none
  page
    | .dir d => match v.use d with
      | .holds .kernelDir => v.page .kernelDir
      | .holds (.pageDir e) => v.page (.pageDir e)
      | _ => zeroes
    | .table d i => match v.use d with
      | .holds (.pageDir e) => v.page (.pageTable e i)
      | _ => zeroes

theorem Rep.tables_place_use {v : View} (rep : Rep s v) (o : TableObj) (f : Nat) :
    v.tables.place o = some f ↔ v.tables.use f = .holds o := by
  cases o with
  | dir d =>
    constructor
    · intro here
      simp only [View.tables] at here
      split at here <;> rename_i use
      · cases here
        simp [View.tables, use]
      · cases here
        simp [View.tables, use]
      · cases here
    · intro holds
      simp only [View.tables] at holds
      split at holds <;> rename_i use
      · cases holds
        simp [View.tables, use]
      · cases holds
        simp [View.tables, use]
      · split at holds <;> cases holds
      all_goals cases holds
  | table d i =>
    constructor
    · intro here
      simp only [View.tables] at here
      split at here
      · rename_i e use
        have table := (rep.wf.place_use _ _).mp here
        simp [View.tables, table, (rep.wf.place_use _ _).mpr use]
      · cases here
    · intro holds
      simp only [View.tables] at holds
      split at holds
      · cases holds
      · cases holds
      · rename_i e k use
        split at holds
        · rename_i d' place
          cases holds
          simp [View.tables, (rep.wf.place_use _ _).mp place, (rep.wf.place_use _ _).mpr use]
        · cases holds
      all_goals cases holds

theorem Rep.tables_wf {v : View} (rep : Rep s v) : v.tables.Wf tableShape where
  place_use := rep.tables_place_use
  absent o none := by
    cases o with
    | dir d =>
      simp only [View.tables] at none ⊢
      split <;> rename_i use
      · simp [use] at none
      · simp [use] at none
      · rfl
    | table d i =>
      simp only [View.tables] at none ⊢
      split
      · rename_i e use
        rw [use] at none
        exact rep.wf.absent _ none
      · rfl
  linked o i c child f := by
    cases o with
    | table d k => cases child
    | dir d =>
      have lt : i < 955 := by
        by_contra ge
        simp [tableShape, TableObj.child, ge] at child
      obtain rfl : TableObj.table d i = c := Option.some.inj ((child_dir lt).symm.trans child)
      cases use : v.use d with
      | holds o =>
        cases o with
        | pageDir e =>
          have linked := rep.wf.linked (.pageDir e) i _ (Obj.child_pageDir lt) f
          simp only [View.tables, use]
          exact linked
        | kernelDir =>
          have zero : v.page .kernelDir i = 0 := (rep.words .kernelDir i).1 lt
          simp [View.tables, use, tableShape, zero]
        | _ => simp [View.tables, use, tableShape, zeroes]
      | _ => simp [View.tables, use, tableShape, zeroes]

/-- Every consistent state of the memory manager is one with directories and tables. -/
theorem Rep.tabled {v : View} (rep : Rep s v) : Tabled s v.tables v.free where
  dirs :=
    { wf := rep.tables_wf
      stores := fun o f here => by
        cases o with
        | dir d =>
          simp only [View.tables] at here ⊢
          split at here <;> rename_i use
          · cases here
            exact rep.stores _ _ ((rep.wf.place_use _ _).mpr use)
          · cases here
            exact rep.stores _ _ ((rep.wf.place_use _ _).mpr use)
          · cases here
        | table d i =>
          simp only [View.tables] at here ⊢
          split at here
          · rename_i e use
            exact rep.stores _ _ here
          · cases here
      self := fun d f here => by
        simp only [View.tables] at here
        split at here <;> cases here <;> rfl
      present := fun d i lt entry => by
        cases use : v.use d with
        | holds o =>
          cases o with
          | pageDir e =>
            simp only [View.tables, use] at entry ⊢
            exact ((rep.words (.pageDir e) i).1 lt entry).1
          | kernelDir =>
            simp only [View.tables, use] at entry
            exact absurd ((rep.words .kernelDir i).1 lt) entry
          | _ =>
            simp only [View.tables, use] at entry
            exact absurd rfl entry
        | _ =>
          simp only [View.tables, use] at entry
          exact absurd rfl entry }
  freeList := rep.freeList
  free_use f := by
    rw [rep.free_use]
    simp only [View.tables]
    split <;> rename_i use <;> simp [use]
    split <;> simp
  bound f ne := by
    rw [rep.globals]
    apply rep.bound
    intro reserved
    simp [View.tables, reserved] at ne
  small := by
    rw [rep.globals]
    exact rep.small.trans (by decide)

end Fos
