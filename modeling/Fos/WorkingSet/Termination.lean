import Fos.WorkingSet.FreeMem

/-!
# Loops over addresses

The loops of `freeMem` and `calculate_required_frames` add 4 MB or 4 KB to a 32-bit address
until it passes an end.  They come to an end exactly if the last address that they take
before it wraps around passes the end.

* `Spins`: a program that does not come to an end;
* `freeEmptyTables_spins_iff`, `calculateRequiredFrames_spins_iff`: when the loops over page
  tables do not;
* `memory_calls_spin_iff`: both system calls.
-/

namespace Fos

open Exec Linked

/-- The program goes on for ever. -/
def Spins {α : Type} (m : Prog α) (s : Kernel) : Prop := ∃ s', m s = .error .spins s'

theorem spins_of_wp {α : Type} {m : Prog α} {s : Kernel}
    (run : wp m (fun _ _ => False) (fun x _ => x = .spins) s) : Spins m s := by
  rw [wp] at run
  cases ends : m s with
  | ok a s' =>
    rw [ends] at run
    exact run.elim
  | error x s' =>
    rw [ends] at run
    obtain rfl : x = .spins := run
    exact ⟨s', ends⟩

theorem not_spins_of_wp {α : Type} {m : Prog α} {s : Kernel} {Q : α → Kernel → Prop}
    (run : wp m Q (fun x _ => x ≠ .spins) s) : ¬ Spins m s := by
  rintro ⟨s', ends⟩
  exact (wp_error ends).mp run rfl

/-! ## The addresses of a loop -/

/-- The address of the pass `k` of a loop that adds `step`. -/
abbrev passAddress (step va k : Nat) : Nat := (va + k * step) % word32

theorem wrap_lt (a : Nat) : a % word32 < word32 := Nat.mod_lt a (by decide)

theorem passAddress_zero {step va : Nat} (lt : va < word32) : passAddress step va 0 = va := by
  rw [passAddress, Nat.zero_mul, Nat.add_zero, Nat.mod_eq_of_lt lt]

theorem passAddress_succ (step va k : Nat) :
    passAddress step ((va + step) % word32) k = passAddress step va (k + 1) := by
  rw [passAddress, passAddress, Nat.mod_add_mod, Nat.add_mul, Nat.one_mul]
  congr 1
  omega

/-- The largest address is the last one before the loop wraps around. -/
theorem passAddress_le (va k : Nat) : passAddress ptSize va k ≤ 0xFFC00000 + va % ptSize := by
  simp only [passAddress, ptSize, word32]
  omega

/-- A loop over tables takes it within 1024 passes. -/
theorem exists_passAddress {va : Nat} (lt : va < word32) :
    ∃ k < 1024, passAddress ptSize va k = 0xFFC00000 + va % ptSize := by
  simp only [passAddress, ptSize, word32] at *
  exact ⟨1023 - va / 4194304, by omega, by omega⟩

/-- And a loop over pages within 2^20. -/
theorem exists_passAddress_page {va : Nat} (lt : va < word32) :
    ∃ k < 2 ^ 20, passAddress pageSize va k = 0xFFFFF000 + va % pageSize := by
  simp only [passAddress, pageSize, word32] at *
  exact ⟨1048575 - va / 4096, by omega, by omega⟩

variable {e va endVa : Nat} {s t : Kernel}

/-! ## Page directories that can be walked -/

/-- Every entry of the page directory is zero or refers to a table in memory. -/
structure Walkable (s : Kernel) (dir : Nat) : Prop where
  pos : 0 < s.globals.numberOfFrames
  entries : ∀ i, s.mem dir i ≠ 0 →
    present (s.mem dir i) ∧ frameOf (s.mem dir i) < s.globals.numberOfFrames

/-- The environment has such a page directory. -/
def EnvWalkable (e : Nat) (s : Kernel) : Prop :=
  ∃ dir, (s.globals.envs e).envPageDirectory = some dir ∧ Walkable s dir

/-- The walk to the table of an entry that is zero or refers to a table in memory. -/
theorem getPageTable_walk_wp {dir : Nat} {Q : Option Nat → Kernel → Prop}
    {E : Stop → Kernel → Prop} (pos : 0 < s.globals.numberOfFrames)
    (there : s.mem dir (pdx va) ≠ 0 →
      present (s.mem dir (pdx va)) ∧ frameOf (s.mem dir (pdx va)) < s.globals.numberOfFrames)
    (absent : s.mem dir (pdx va) = 0 → Q none s)
    (table : s.mem dir (pdx va) ≠ 0 → Q (some (frameOf (s.mem dir (pdx va)))) s) :
    wp (getPageTable dir va) Q E s := by
  simp only [getPageTable, readWord, staticKernelVirtualAddress, wp_bind, wp_get, wp_pure, wp_ite,
    ppn_extractAddress, and_present]
  by_cases entry : s.mem dir (pdx va) = 0
  · rw [entry, frameOf_zero, if_neg (by omega)]
    simpa using absent entry
  · obtain ⟨present, lt⟩ := there entry
    rw [if_neg (Nat.not_le_of_lt lt), if_pos present]
    exact table entry

theorem Walkable.getPageTable_wp {dir : Nat} {Q : Option Nat → Kernel → Prop}
    {E : Stop → Kernel → Prop} (walkable : Walkable s dir)
    (absent : s.mem dir (pdx va) = 0 → Q none s)
    (table : s.mem dir (pdx va) ≠ 0 → Q (some (frameOf (s.mem dir (pdx va)))) s) :
    wp (getPageTable dir va) Q E s :=
  getPageTable_walk_wp walkable.pos (walkable.entries (pdx va)) absent table

theorem EnvWalkable.freeEmptyTable_wp {Q : Unit → Kernel → Prop} {E : Stop → Kernel → Prop}
    (walkable : EnvWalkable e s) (done : ∀ s', EnvWalkable e s' → Q () s') :
    wp (freeEmptyTable e va) Q E s := by
  obtain ⟨dir, here, walk⟩ := walkable
  have directory : ∀ (s' : Kernel) {Q : Nat → Kernel → Prop},
      (s'.globals.envs e).envPageDirectory = some dir → Q dir s' →
      wp (envPageDirectory e) Q E s' := by
    intro s' Q here' ends
    simpa only [envPageDirectory, getEnv, wp_bind, wp_get, wp_pure, here', deref] using ends
  simp only [freeEmptyTable, wp_bind]
  apply directory s here
  apply walk.getPageTable_wp
  · exact fun _ => done s ⟨dir, here, walk⟩
  · intro entry
    obtain ⟨-, lt⟩ := walk.entries (pdx va) entry
    simp only [wp_bind, wp_get, wp_ite]
    split
    · have frame : ppn (frameOf (s.mem dir (pdx va)) * pageSize) = frameOf (s.mem dir (pdx va)) :=
        Nat.mul_div_cancel _ (by decide)
      simp only [readWord, toFrameInfo, freeFrame, pdClearPageDirEntry, wp_bind, wp_get, wp_pure,
        wp_ite, frame, if_neg (Nat.not_le_of_lt lt), wp_modify]
      refine directory ((s.initializeFrameInfo (frameOf (s.mem dir (pdx va)))).insertFrame
        (frameOf (s.mem dir (pdx va)))) here ?_
      simp only [writeWord, wp_modify]
      refine done _ ⟨dir, here, walk.pos, fun i entry' => ?_⟩
      simp only [Kernel.setWord, Kernel.setPage, Kernel.insertFrame, Kernel.initializeFrameInfo,
        Function.update_self, Function.update_apply] at entry' ⊢
      split at entry'
      · exact absurd rfl entry'
      · rename_i other
        rw [if_neg other]
        exact walk.entries i entry'
    · exact done s ⟨dir, here, walk⟩

/-! ## The loop of `freeMem` over page tables -/

/-- An address passes the end. -/
theorem freeEmptyTables_wp (passes : Nat) (lt : va < word32)
    (ends : ∃ k < passes, endVa < passAddress ptSize va k) :
    wp (freeEmptyTables e endVa passes va) (fun _ _ => True) (fun x _ => x ≠ .spins) s := by
  induction passes generalizing va s with
  | zero =>
    obtain ⟨k, small, -⟩ := ends
    exact absurd small (Nat.not_lt_zero k)
  | succ passes ih =>
    simp only [freeEmptyTables, wp_ite, wp_bind]
    split
    · rename_i le
      have next := wrap_lt (va + ptSize)
      have later : ∃ k < passes, endVa < passAddress ptSize ((va + ptSize) % word32) k := by
        obtain ⟨k, small, past⟩ := ends
        cases k with
        | zero =>
          rw [passAddress_zero lt] at past
          exact absurd le (Nat.not_le_of_lt past)
        | succ k =>
          refine ⟨k, Nat.lt_of_succ_lt_succ small, ?_⟩
          rw [passAddress_succ]
          exact past
      refine (quiet_freeEmptyTable e e va).wp (fun _ s₁ _ => ?_) fun _ _ stop _ => stop
      exact ih next later
    · trivial

/-- No address passes the end. -/
theorem EnvWalkable.freeEmptyTables_wp (passes : Nat) (walkable : EnvWalkable e s)
    (lt : va < word32) (stays : ∀ k, passAddress ptSize va k ≤ endVa) :
    wp (freeEmptyTables e endVa passes va) (fun _ _ => False) (fun x _ => x = .spins) s := by
  induction passes generalizing va s with
  | zero => rfl
  | succ passes ih =>
    have le := stays 0
    rw [passAddress_zero lt] at le
    simp only [freeEmptyTables, if_pos le, wp_bind]
    refine walkable.freeEmptyTable_wp fun s₁ walkable₁ =>
      ih walkable₁ (wrap_lt _) fun k => ?_
    rw [passAddress_succ]
    exact stays (k + 1)

theorem freeEmptyTables_spins_iff (walkable : EnvWalkable e s) (lt : va < word32) :
    Spins (freeEmptyTables e endVa 1025 va) s ↔ 0xFFC00000 + va % ptSize ≤ endVa := by
  constructor
  · intro spins
    by_contra past
    obtain ⟨k, small, last⟩ := exists_passAddress lt
    refine not_spins_of_wp (freeEmptyTables_wp 1025 lt ⟨k, by omega, ?_⟩) spins
    rw [last]
    exact Nat.lt_of_not_le past
  · intro le
    exact spins_of_wp (walkable.freeEmptyTables_wp 1025 lt fun k => (passAddress_le va k).trans le)

/-! ## `calculate_required_frames` -/

theorem countMissingTables_wp {dir n : Nat} (passes : Nat) (lt : va < word32)
    (ends : ∃ k < passes, endVa ≤ passAddress ptSize va k) :
    wp (countMissingTables dir endVa passes va n) (fun _ _ => True) (fun x _ => x ≠ .spins) s := by
  induction passes generalizing va n s with
  | zero =>
    obtain ⟨k, small, -⟩ := ends
    exact absurd small (Nat.not_lt_zero k)
  | succ passes ih =>
    simp only [countMissingTables, wp_ite, wp_bind]
    split
    · rename_i below
      have next := wrap_lt (va + ptSize)
      have later : ∃ k < passes, endVa ≤ passAddress ptSize ((va + ptSize) % word32) k := by
        obtain ⟨k, small, past⟩ := ends
        cases k with
        | zero =>
          rw [passAddress_zero lt] at past
          exact absurd below (Nat.not_lt_of_le past)
        | succ k =>
          refine ⟨k, Nat.lt_of_succ_lt_succ small, ?_⟩
          rw [passAddress_succ]
          exact past
      refine (quiet_getPageTable 0 dir va).wp (fun _ s₁ _ => ?_) fun _ _ stop _ => stop
      exact ih next later
    · trivial

theorem Walkable.countMissingTables_wp {dir n : Nat} (passes : Nat) (walkable : Walkable s dir)
    (lt : va < word32) (stays : ∀ k, passAddress ptSize va k < endVa) :
    wp (countMissingTables dir endVa passes va n) (fun _ _ => False) (fun x _ => x = .spins) s := by
  induction passes generalizing va n with
  | zero => rfl
  | succ passes ih =>
    have below := stays 0
    rw [passAddress_zero lt] at below
    have next : ∀ k, passAddress ptSize ((va + ptSize) % word32) k < endVa := fun k => by
      rw [passAddress_succ]
      exact stays (k + 1)
    simp only [countMissingTables, if_pos below, wp_bind]
    apply walkable.getPageTable_wp
    · exact fun _ => ih (wrap_lt _) next
    · exact fun _ => ih (wrap_lt _) next

theorem countMissingPages_wp {dir n : Nat} (passes : Nat) (lt : va < word32)
    (ends : ∃ k < passes, endVa ≤ passAddress pageSize va k) :
    wp (countMissingPages dir endVa passes va n) (fun _ _ => True) (fun x _ => x ≠ .spins) s := by
  induction passes generalizing va n s with
  | zero =>
    obtain ⟨k, small, -⟩ := ends
    exact absurd small (Nat.not_lt_zero k)
  | succ passes ih =>
    simp only [countMissingPages, wp_ite, wp_bind]
    split
    · rename_i below
      have next := wrap_lt (va + pageSize)
      have later : ∃ k < passes, endVa ≤ passAddress pageSize ((va + pageSize) % word32) k := by
        obtain ⟨k, small, past⟩ := ends
        cases k with
        | zero =>
          rw [passAddress_zero lt] at past
          exact absurd below (Nat.not_lt_of_le past)
        | succ k =>
          refine ⟨k, Nat.lt_of_succ_lt_succ small, ?_⟩
          rw [passAddress_succ]
          exact past
      refine (quiet_getFrameInfo 0 dir va).wp (fun _ s₁ _ => ?_) fun _ _ stop _ => stop
      exact ih next later
    · trivial

/-- The last table starts at 0xFFC00000, and the last page later. -/
theorem calculateRequiredFrames_spins_iff {dir size : Nat} (walkable : Walkable s dir)
    (lt : va < word32) :
    Spins (calculateRequiredFrames dir va size) s ↔ 0xFFC00000 < (va + size) % word32 := by
  have start : va - va % ptSize < word32 := Nat.lt_of_le_of_lt (Nat.sub_le ..) lt
  have even : (va - va % ptSize) % ptSize = 0 := by
    simp only [ptSize]
    omega
  constructor
  · intro spins
    by_contra past
    refine not_spins_of_wp (Q := fun _ _ => True) ?_ spins
    simp only [calculateRequiredFrames, wp_bind]
    obtain ⟨k, small, last⟩ := exists_passAddress start
    refine wp_mono (countMissingTables_wp 1025 start ⟨k, by omega, ?_⟩) (fun _ s₁ _ => ?_)
      fun _ _ stop => stop
    · rw [last, even]
      omega
    · have start' : roundDown va < word32 := Nat.lt_of_le_of_lt (Nat.sub_le ..) lt
      obtain ⟨k', small', last'⟩ := exists_passAddress_page start'
      refine wp_mono (countMissingPages_wp (2 ^ 20 + 1) start' ⟨k', by omega, ?_⟩)
        (fun _ _ _ => trivial) fun _ _ stop => stop
      rw [last']
      omega
  · intro past
    apply spins_of_wp
    simp only [calculateRequiredFrames, wp_bind]
    refine wp_mono (walkable.countMissingTables_wp 1025 start fun k => ?_)
      (fun _ _ stuck => stuck.elim) fun _ _ stop => stop
    have le := passAddress_le (va - va % ptSize) k
    rw [even] at le
    omega

/-! ## The system calls -/

/-- **Termination of the memory system calls.**  The loop of `freeMem(e, va, size)` over the
pages always ends.  The loop over the page tables, and with it `freeMem`, goes on for ever
exactly if `va + size`, in 32 bits, is not below the last address that the loop takes; and
`calculate_required_frames` does exactly if `va + size` is above 0xFFC00000. -/
theorem memory_calls_spin_iff {size : Nat} {seqs : WSList → List Nat}
    (lists : (s.globals.envs e).lists.Rep seqs) (small : ∀ i, ∀ k ∈ seqs i, k < pwsMaxSize)
    (lt : va < word32) :
    let pages := (List.range (roundUp size / pageSize)).forM fun i =>
      freePage e ((va + i * pageSize) % word32)
    ¬ Spins pages s ∧
      (¬ 0xFFC00000 + va % ptSize ≤ (va + size) % word32 → ¬ Spins (freeMem e va size) s) ∧
      (∀ t, pages s = .ok () t → EnvWalkable e t →
        (Spins (freeMem e va size) s ↔ 0xFFC00000 + va % ptSize ≤ (va + size) % word32)) ∧
      ∀ dir, Walkable s dir →
        (Spins (calculateRequiredFrames dir va size) s ↔ 0xFFC00000 < (va + size) % word32) := by
  intro pages
  have listed : Listed e (s.globals.envs e) s
      ⟨seqs, fun i => ((s.globals.envs e).lists.head i).ptrNext⟩ :=
    ⟨lists, fun _ => rfl, small, rfl, rfl, rfl, rfl⟩
  have pagesEnd : wp pages (fun _ _ => True) (fun x _ => x ≠ .spins) s :=
    freePages_wp listed (fun _ _ _ _ => trivial) fun _ _ stop => stop
  refine ⟨not_spins_of_wp pagesEnd, fun past => ?_, fun t run walkable => ?_,
    fun dir walkable => calculateRequiredFrames_spins_iff walkable lt⟩
  · refine not_spins_of_wp (Q := fun _ _ => True) ?_
    simp only [freeMem, wp_bind]
    refine wp_mono pagesEnd (fun _ t _ => ?_) fun _ _ stop => stop
    obtain ⟨k, bound, last⟩ := exists_passAddress lt
    refine freeEmptyTables_wp 1025 lt ⟨k, by omega, ?_⟩
    rw [last]
    exact Nat.lt_of_not_le past
  · have same : freeMem e va size s = freeEmptyTables e ((va + size) % word32) 1025 va t := by
      show (pages >>= fun _ => freeEmptyTables e ((va + size) % word32) 1025 va) s = _
      simp only [bind, EStateM.bind, run]
    rw [Spins, same]
    exact freeEmptyTables_spins_iff walkable lt

/-- The tables of `pairKernel` can be walked. -/
theorem walkable_pair : EnvWalkable 0 pairKernel := by
  refine ⟨5, rfl, by decide, fun i entry => ?_⟩
  by_cases here : i = 512
  · subst here
    decide
  · exact absurd (if_neg here) entry

/-- A size that is rounded up to 0, with an end that is never passed. -/
theorem EnvWalkable.freeMem_spins {size : Nat} (walkable : EnvWalkable e s) (lt : va < word32)
    (noPages : roundUp size / pageSize = 0)
    (past : 0xFFC00000 + va % ptSize ≤ (va + size) % word32) : Spins (freeMem e va size) s := by
  apply spins_of_wp
  simp only [freeMem, wp_bind, noPages, List.range_zero]
  refine wp_forM (fun rest t => rest = [] ∧ t = s) (fun _ _ _ more => ?_) ?_ ⟨rfl, rfl⟩
  · cases more.1
  · rintro t ⟨-, rfl⟩
    exact walkable.freeEmptyTables_wp 1025 lt fun k => (passAddress_le va k).trans past

/-- `freeMem(e, 0, 0xFFFFFFFF)` does not come to an end. -/
theorem freeMem_wraps : ¬ ∀ (s : Kernel) (e va size : Nat) (seqs : WSList → List Nat),
    (s.globals.envs e).lists.Rep seqs → (∀ i, ∀ k ∈ seqs i, k < pwsMaxSize) → va < word32 →
    size < word32 → ¬ Spins (freeMem e va size) s := by
  intro ends
  have lt : ∀ i, ∀ k ∈ pairSeqs i, k < pwsMaxSize := fun i k mem =>
    Nat.lt_trans ((partitioned_pair.all k).mp ⟨i, mem⟩) (by decide)
  have noPages : roundUp 0xFFFFFFFF / pageSize = 0 := by decide
  have past : 0xFFC00000 + 0 % ptSize ≤ (0 + 0xFFFFFFFF) % word32 := by decide
  exact ends pairKernel 0 0 0xFFFFFFFF pairSeqs partitioned_pair.lists lt (by decide) (by decide)
    (walkable_pair.freeMem_spins (by decide) noPages past)

/-- A range that ends below 0xFFC00000. -/
theorem memory_calls_end : ¬ Spins (freeMem 0 0x80000000 0x2000) pairKernel ∧
    ¬ Spins (calculateRequiredFrames 5 0x80000000 0x2000) pairKernel := by
  obtain ⟨dir, here, walkable⟩ := walkable_pair
  obtain rfl : 5 = dir := Option.some.inj here
  have lt : ∀ i, ∀ k ∈ pairSeqs i, k < pwsMaxSize := fun i k mem =>
    Nat.lt_trans ((partitioned_pair.all k).mp ⟨i, mem⟩) (by decide)
  obtain ⟨-, freeing, -, counting⟩ := memory_calls_spin_iff (s := pairKernel) partitioned_pair.lists
    lt (show 0x80000000 < word32 by decide)
  exact ⟨freeing (by decide), fun spins => absurd ((counting 5 walkable).mp spins) (by decide)⟩

end Fos
